/-!
# Byte strings and the big-endian words in them

Everything on the wire is a list of bytes, and every number in it that is wider than a byte is
written high byte first.
-/

namespace TrackerWire

/-- A string of bytes, first byte first. -/
abbrev Bytes := List UInt8

namespace Bytes

/-- The 16-bit word whose high byte is `hi` and whose low byte is `lo`. -/
def word (hi lo : UInt8) : UInt16 := UInt16.ofNat (hi.toNat * 256 + lo.toNat)

/-- The two bytes of a 16-bit word, high byte first. -/
def ofWord (w : UInt16) : Bytes := [UInt8.ofNat (w.toNat / 256), UInt8.ofNat (w.toNat % 256)]

/-- The word at the start of a byte string; bytes that are missing count as zero. -/
def leadingWord (bytes : Bytes) : UInt16 :=
  match bytes with
  | hi :: lo :: _ => word hi lo
  | _ => 0

/-- The consecutive 32-bit numbers a byte string is made of; fewer than four bytes at the end
are left out. -/
def words32 : Bytes → List Nat
  | a :: b :: c :: d :: rest =>
    (((a.toNat * 256 + b.toNat) * 256 + c.toNat) * 256 + d.toNat) :: words32 rest
  | _ => []

theorem word_toNat (hi lo : UInt8) : (word hi lo).toNat = hi.toNat * 256 + lo.toNat := by
  have := hi.toNat_lt
  have := lo.toNat_lt
  rw [word, UInt16.toNat_ofNat']
  omega

theorem length_ofWord (w : UInt16) : (ofWord w).length = 2 := rfl

theorem leadingWord_ofWord (w : UInt16) (rest : Bytes) : leadingWord (ofWord w ++ rest) = w := by
  apply UInt16.toNat_inj.mp
  have := w.toNat_lt
  simp only [ofWord, leadingWord, List.cons_append, word_toNat, UInt8.toNat_ofNat']
  omega

end Bytes

end TrackerWire
