import TrackerWire.Proofs.Checksum.Register

/-!
# Parity and the check

The generator has an even number of terms, its leading one included. So a bit that enters the
register turns the parity of the register if it is set, and only then (`ones_shiftIn`), and the
register carries the parity of the message, from an even start on (`ones_crc16`).
-/
namespace TrackerWire

namespace Bytes

/-- The number of bits that are set. -/
def ones (bytes : Bytes) : Nat := (bits bytes).count true

/-- The number of bits in which two byte strings of one length differ. -/
def flips (a b : Bytes) : Nat := (List.zipWith (· ^^ ·) (bits a) (bits b)).count true

/-- Bits that differ are set in one of the two, bits that agree in both or in none. -/
theorem count_zipWith_xor : ∀ {a b : List Bool}, a.length = b.length →
    (List.zipWith (· ^^ ·) a b).count true % 2 = (a.count true + b.count true) % 2 := by
  intro a
  induction a with
  | nil =>
    intro b h
    rw [List.length_eq_zero_iff.mp h.symm]
    rfl
  | cons x a ih =>
    intro b h
    cases b with
    | nil => cases h
    | cons y b =>
      have hrest := ih (Nat.succ.inj h)
      simp only [List.zipWith_cons_cons, List.count_cons]
      cases x <;> cases y <;> simp <;> omega

theorem flips_mod {a b : Bytes} (h : a.length = b.length) :
    flips a b % 2 = (ones a + ones b) % 2 :=
  count_zipWith_xor (by rw [length_bits, length_bits, h])

theorem flips_append {a b : Bytes} (h : a.length = b.length) (a' b' : Bytes) :
    flips (a ++ a') (b ++ b') = flips a b + flips a' b' := by
  rw [flips, bits_append, bits_append,
    List.zipWith_append (by rw [length_bits, length_bits, h]), List.count_append]
  rfl

theorem flips_self (bytes : Bytes) : flips bytes bytes = 0 := by
  simp [flips, List.zipWith_self, List.count_eq_zero]

end Bytes

namespace Crc16

/-- The number of bits of a register that are set. -/
def ones (r : BitVec 16) : Nat := (leadingBits 16 r).count true

theorem ones_xor (r s : BitVec 16) : ones (r ^^^ s) % 2 = (ones r + ones s) % 2 := by
  have hbits : leadingBits 16 (r ^^^ s) =
      List.zipWith (· ^^ ·) (leadingBits 16 r) (leadingBits 16 s) := by
    simp only [leadingBits, List.zipWith_map, List.zipWith_self]
    exact List.map_congr_left fun i _ => BitVec.getMsbD_xor
  rw [ones, hbits]
  exact Bytes.count_zipWith_xor (by simp only [leadingBits, List.length_map])

theorem ones_shiftLeft (r : BitVec 16) : ones (r <<< 1) + r.msb.toNat = ones r := by
  let rest := (List.range 15).map fun i => r.getMsbD (i + 1)
  have hbefore : leadingBits 16 r = r.msb :: rest := by
    rw [leadingBits, List.range_succ_eq_map, List.map_cons, List.map_map]
    rfl
  have hafter : leadingBits 16 (r <<< 1) = rest ++ [false] := by
    rw [leadingBits, List.range_succ, List.map_append]
    simp [rest, BitVec.getMsbD_shiftLeft]
  rw [ones, ones, hbefore, hafter, List.count_append, List.count_cons]
  cases r.msb <;> simp

/-- **A bit turns the parity of the register if it is set.** The generator turns it once, and goes
in just where the bit and the high bit that is lost differ. -/
theorem ones_shiftIn (r : BitVec 16) (bit : Bool) :
    ones (shiftIn r bit) % 2 = (ones r + bit.toNat) % 2 := by
  have hshift := ones_shiftLeft r
  have hgenerator := ones_xor (r <<< 1) generator
  have hthree : ones generator = 3 := by decide
  unfold shiftIn
  cases hmsb : r.msb <;> cases bit <;> rw [hmsb] at hshift <;>
    simp only [Bool.xor_false, Bool.xor_true, Bool.not_false, Bool.not_true, Bool.false_eq_true,
      if_true, if_false, Bool.toNat_false, Bool.toNat_true] at hshift ⊢ <;> omega

theorem ones_shiftInAll (r : BitVec 16) (message : List Bool) :
    ones (shiftInAll r message) % 2 = (ones r + message.count true) % 2 := by
  induction message generalizing r with
  | nil => rfl
  | cons bit message ih =>
    have hfirst := ones_shiftIn r bit
    have hcount : (bit :: message).count true = bit.toNat + message.count true := by
      rw [List.count_cons, Nat.add_comm]
      cases bit <;> rfl
    rw [shiftInAll, List.foldl_cons, ← shiftInAll, ih, hcount]
    omega

/-- From the start on, the register has the parity of what went in. -/
theorem ones_remainder (message : Bytes) :
    ones (remainder start message) % 2 = Bytes.ones message % 2 := by
  have hstart : ones start = 16 := by decide
  rw [remainder_eq, ones_shiftInAll, hstart, Bytes.ones]
  omega

/-- **The check has the parity of the message.** -/
theorem ones_crc16 (message : Bytes) :
    Bytes.ones (Bytes.ofWord (crc16 message)) % 2 = Bytes.ones message % 2 := by
  have hcheck : Bytes.ones (Bytes.ofWord (crc16 message)) = ones (remainder start message) :=
    congrArg (List.count true) (bits_ofWord _)
  rw [hcheck, ones_remainder]

end Crc16

end TrackerWire
