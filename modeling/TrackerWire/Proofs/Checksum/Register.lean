import TrackerWire.Checksum.Crc16

/-!
# The register of the cyclic redundancy check

Two registers that take the same bits differ as their difference does that takes zeros
(`shiftIn_xor`), and no register but the zero one is cleared by a zero (`eq_zero_of_shiftIn`). So
equal bits behind a difference never make it disappear (`shiftInAll_injective`).

A register that takes its own bits is cleared (`shiftInAll_own`). Two consequences:

* a message with its check behind it leaves the zero register (`remainder_checked`);
* sixteen bits can be told from the register they leave (`window_eq`), so two messages that differ
  within sixteen consecutive bits leave different registers (`eq_of_remainder_eq`).
-/
namespace TrackerWire

namespace Bytes

/-- The bits of a byte string in the order they travel, high bit of each byte first. -/
def bits (bytes : Bytes) : List Bool := bytes.flatMap Crc16.bits

/-- Two byte strings of one length with the same bits before the place `first` and from the place
`behind` on. -/
structure AgreeOutside (first behind : Nat) (a b : Bytes) : Prop where
  length_eq : a.length = b.length
  front : (bits a).take first = (bits b).take first
  back : (bits a).drop behind = (bits b).drop behind

theorem bits_cons (b : UInt8) (bytes : Bytes) : bits (b :: bytes) = Crc16.bits b ++ bits bytes :=
  rfl

theorem bits_append (a b : Bytes) : bits (a ++ b) = bits a ++ bits b := List.flatMap_append

theorem length_bits (bytes : Bytes) : (bits bytes).length = 8 * bytes.length := by
  induction bytes with
  | nil => rfl
  | cons b bytes ih =>
    rw [bits_cons, List.length_append, ih, List.length_cons]
    simp only [Crc16.bits, List.length_cons, List.length_nil]
    omega

theorem bits_take (bytes : Bytes) (n : Nat) (h : n ≤ bytes.length) :
    bits (bytes.take n) = (bits bytes).take (8 * n) := by
  have hlen : (bits (bytes.take n)).length = 8 * n := by
    rw [length_bits, List.length_take]; omega
  conv => rhs; rw [← List.take_append_drop n bytes, bits_append, ← hlen]
  rw [List.take_left]

theorem bits_drop (bytes : Bytes) (n : Nat) (h : n ≤ bytes.length) :
    bits (bytes.drop n) = (bits bytes).drop (8 * n) := by
  have hlen : (bits (bytes.take n)).length = 8 * n := by
    rw [length_bits, List.length_take]; omega
  conv => rhs; rw [← List.take_append_drop n bytes, bits_append, ← hlen]
  rw [List.drop_left]

theorem byte_eq_of_bits {a b : UInt8} (h : Crc16.bits a = Crc16.bits b) : a = b := by
  simp only [Crc16.bits, List.cons.injEq, and_true] at h
  obtain ⟨h7, h6, h5, h4, h3, h2, h1, h0⟩ := h
  apply UInt8.toNat_inj.mp
  apply Nat.eq_of_testBit_eq
  intro i
  by_cases hi : i < 8
  · match i, hi with
    | 0, _ => exact h0
    | 1, _ => exact h1
    | 2, _ => exact h2
    | 3, _ => exact h3
    | 4, _ => exact h4
    | 5, _ => exact h5
    | 6, _ => exact h6
    | 7, _ => exact h7
  · have hpow : 2 ^ 8 ≤ 2 ^ i := Nat.pow_le_pow_right (by decide) (by omega)
    have ha := a.toNat_lt
    have hb := b.toNat_lt
    rw [Nat.testBit_lt_two_pow (by omega), Nat.testBit_lt_two_pow (by omega)]

theorem bits_injective : ∀ {a b : Bytes}, bits a = bits b → a = b := by
  intro a
  induction a with
  | nil =>
    intro b h
    cases b with
    | nil => rfl
    | cons y b => cases h
  | cons x a ih =>
    intro b h
    cases b with
    | nil => cases h
    | cons y b =>
      rw [bits_cons, bits_cons] at h
      obtain ⟨hbyte, hrest⟩ := List.append_inj h rfl
      rw [byte_eq_of_bits hbyte, ih hrest]

theorem AgreeOutside.take {first behind : Nat} {a b : Bytes} (h : AgreeOutside first behind a b)
    {n : Nat} (hn : n ≤ a.length) : AgreeOutside first behind (a.take n) (b.take n) := by
  have hn' : n ≤ b.length := h.length_eq ▸ hn
  refine ⟨by rw [List.length_take, List.length_take, h.length_eq], ?_, ?_⟩
  · rw [bits_take a n hn, bits_take b n hn', List.take_take, List.take_take, Nat.min_comm,
      ← List.take_take, h.front, List.take_take]
  · rw [bits_take a n hn, bits_take b n hn', List.drop_take, List.drop_take, h.back]

end Bytes

namespace Crc16

/-- Message bits enter the register. -/
def shiftInAll (register : BitVec 16) (message : List Bool) : BitVec 16 :=
  message.foldl shiftIn register

theorem shiftInAll_append (register : BitVec 16) (front back : List Bool) :
    shiftInAll register (front ++ back) = shiftInAll (shiftInAll register front) back :=
  List.foldl_append

theorem remainder_eq (register : BitVec 16) (message : Bytes) :
    remainder register message = shiftInAll register (Bytes.bits message) := by
  induction message generalizing register with
  | nil => rfl
  | cons b message ih =>
    rw [Bytes.bits_cons, shiftInAll_append, ← ih]
    rfl

/-! ## Differences of registers -/

/-- Two registers that take the same bit differ as their difference does that takes a zero. -/
theorem shiftIn_xor (r s : BitVec 16) (bit : Bool) :
    shiftIn r bit ^^^ shiftIn s bit = shiftIn (r ^^^ s) false := by
  have hshift : (r ^^^ s) <<< 1 = r <<< 1 ^^^ s <<< 1 := BitVec.shiftLeft_xor_distrib r s 1
  have hcancel (x y g : BitVec 16) : (x ^^^ g) ^^^ (y ^^^ g) = x ^^^ y := by
    rw [BitVec.xor_assoc, BitVec.xor_comm y g, ← BitVec.xor_assoc g g y, BitVec.xor_self,
      BitVec.zero_xor]
  unfold shiftIn
  rw [BitVec.msb_xor, hshift]
  -- which of the two registers takes the generator depends on its high bit and on the bit taken
  cases r.msb <;> cases s.msb <;> cases bit <;>
    simp only [Bool.xor_false, Bool.xor_true, Bool.not_false, Bool.not_true, Bool.false_eq_true,
      if_true, if_false, hcancel] <;> ac_rfl

theorem shiftInAll_xor (r s : BitVec 16) (message : List Bool) :
    shiftInAll r message ^^^ shiftInAll s message =
      shiftInAll (r ^^^ s) (List.replicate message.length false) := by
  induction message generalizing r s with
  | nil => rfl
  | cons bit message ih =>
    rw [List.length_cons, List.replicate_succ]
    simp only [shiftInAll, List.foldl_cons] at ih ⊢
    rw [ih, shiftIn_xor]

/-- A zero clears no other register than the zero one: the generator has a constant term. -/
theorem eq_zero_of_shiftIn {r : BitVec 16} (h : shiftIn r false = 0#16) : r = 0#16 := by
  unfold shiftIn at h
  rw [Bool.xor_false] at h
  cases hmsb : r.msb with
  | true =>
    rw [hmsb, if_pos rfl] at h
    have hlow := congrArg (fun x : BitVec 16 => x.getLsbD 0) h
    simp [generator] at hlow
  | false =>
    rw [hmsb, if_neg Bool.false_ne_true] at h
    have hlt := BitVec.msb_eq_false_iff_two_mul_lt.mp hmsb
    apply BitVec.eq_of_toNat_eq
    have hzero := congrArg BitVec.toNat h
    rw [BitVec.toNat_shiftLeft, Nat.shiftLeft_eq] at hzero
    simp only [BitVec.toNat_ofNat] at hzero ⊢
    omega

theorem shiftIn_injective {r s : BitVec 16} {bit : Bool} (h : shiftIn r bit = shiftIn s bit) :
    r = s := by
  have hzero : shiftIn (r ^^^ s) false = 0#16 := by rw [← shiftIn_xor r s bit, h, BitVec.xor_self]
  exact BitVec.xor_eq_zero_iff.mp (eq_zero_of_shiftIn hzero)

/-- **Equal bits behind a difference never make it disappear.** -/
theorem shiftInAll_injective {r s : BitVec 16} {message : List Bool}
    (h : shiftInAll r message = shiftInAll s message) : r = s := by
  induction message generalizing r s with
  | nil => exact h
  | cons bit message ih => exact shiftIn_injective (ih h)

/-! ## A register that takes its own bits -/

/-- The first bits of a register, high bit first. -/
def leadingBits (n : Nat) (r : BitVec 16) : List Bool := (List.range n).map r.getMsbD

theorem shiftInAll_leadingBits (r : BitVec 16) (n : Nat) :
    shiftInAll r (leadingBits n r) = r <<< n := by
  induction n with
  | zero => rw [BitVec.shiftLeft_zero]; rfl
  | succ n ih =>
    rw [leadingBits, List.range_succ, List.map_append, shiftInAll_append]
    rw [leadingBits] at ih
    rw [ih]
    have hmsb : (r <<< n).msb = r.getMsbD n := BitVec.msb_shiftLeft
    simp only [shiftInAll, List.map_cons, List.map_nil, List.foldl_cons, List.foldl_nil, shiftIn,
      hmsb, Bool.xor_self, Bool.false_eq_true, if_false]
    exact (BitVec.shiftLeft_add r n 1).symm

/-- A register that takes all its own bits is cleared. -/
theorem shiftInAll_own (r : BitVec 16) : shiftInAll r (leadingBits 16 r) = 0#16 := by
  rw [shiftInAll_leadingBits, BitVec.shiftLeft_eq_zero (Nat.le_refl 16)]

theorem bits_ofWord (r : BitVec 16) :
    Bytes.bits (Bytes.ofWord (UInt16.ofBitVec r)) = leadingBits 16 r := by
  have hlt := r.isLt
  have hhi (k : Nat) : (UInt8.ofNat (r.toNat / 256)).toNat.testBit k = r.toNat.testBit (k + 8) := by
    rw [UInt8.toNat_ofNat', Nat.mod_eq_of_lt (by omega)]
    exact (Nat.testBit_div_two_pow r.toNat k : (r.toNat / 2 ^ 8).testBit k = _)
  have hlo (k : Nat) (hk : k < 8) :
      (UInt8.ofNat (r.toNat % 256)).toNat.testBit k = r.toNat.testBit k := by
    rw [UInt8.toNat_ofNat', Nat.mod_mod]
    exact (Nat.testBit_mod_two_pow r.toNat 8 k).trans (by rw [decide_eq_true hk, Bool.true_and])
  have hword : (UInt16.ofBitVec r).toNat = r.toNat := rfl
  simp only [Bytes.bits, Bytes.ofWord, hword, List.flatMap_cons, List.flatMap_nil, Crc16.bits, hhi]
  rw [hlo 7 (by decide), hlo 6 (by decide), hlo 5 (by decide), hlo 4 (by decide),
    hlo 3 (by decide), hlo 2 (by decide), hlo 1 (by decide), hlo 0 (by decide)]
  rfl

/-- **A message with its check behind it leaves the zero register.** -/
theorem remainder_checked (message : Bytes) :
    remainder start (message ++ Bytes.ofWord (crc16 message)) = 0#16 := by
  rw [remainder_eq, Bytes.bits_append, shiftInAll_append, ← remainder_eq start message, crc16,
    bits_ofWord, shiftInAll_own]

/-! ## Differences within sixteen bits -/

theorem exists_leadingBits {window : List Bool} (h : window.length = 16) :
    ∃ r, leadingBits 16 r = window := by
  refine ⟨(BitVec.ofBoolListBE window).cast h, ?_⟩
  apply List.ext_getElem?
  intro i
  simp only [leadingBits, List.getElem?_map]
  by_cases hi : i < 16
  · rw [List.getElem?_range hi, List.getElem?_eq_getElem (by omega)]
    simp [BitVec.getMsbD_ofBoolListBE, h, hi]
  · rw [List.getElem?_eq_none (by rw [List.length_range]; omega),
      List.getElem?_eq_none (by omega)]
    rfl

/-- Sixteen bits can be told from the register they leave. -/
theorem window_eq {r : BitVec 16} {a b : List Bool} (ha : a.length = 16) (hb : b.length = 16)
    (h : shiftInAll r a = shiftInAll r b) : a = b := by
  obtain ⟨x, rfl⟩ := exists_leadingBits ha
  obtain ⟨y, rfl⟩ := exists_leadingBits hb
  have hleft := shiftInAll_xor r x (leadingBits 16 x)
  have hright := shiftInAll_xor r y (leadingBits 16 y)
  rw [shiftInAll_own, BitVec.xor_zero, ha] at hleft
  rw [shiftInAll_own, BitVec.xor_zero, hb] at hright
  have hdiff : r ^^^ x = r ^^^ y := shiftInAll_injective (hleft.symm.trans (h.trans hright))
  rw [(BitVec.xor_right_inj r).mp hdiff]

/-- **Messages that differ within sixteen consecutive bits leave different registers.** -/
theorem eq_of_remainder_eq {r : BitVec 16} {a b : Bytes} {first : Nat}
    (hagree : Bytes.AgreeOutside first (first + 16) a b) (hlong : 2 ≤ a.length)
    (h : remainder r a = remainder r b) : a = b := by
  have hla := Bytes.length_bits a
  have hlb := Bytes.length_bits b
  rw [← hagree.length_eq] at hlb
  -- a window that would reach beyond the end is moved back, so that it holds sixteen bits
  obtain ⟨start, hstart, hfirst, hbehind⟩ : ∃ start, start + 16 ≤ 8 * a.length ∧ start ≤ first ∧
      (first + 16 ≤ start + 16 ∨ 8 * a.length ≤ start + 16) := by
    refine ⟨min first (8 * a.length - 16), ?_, ?_, ?_⟩ <;> omega
  have hfront : (Bytes.bits a).take start = (Bytes.bits b).take start := by
    rw [← Nat.min_eq_left hfirst, ← List.take_take, hagree.front, List.take_take]
  have hback : (Bytes.bits a).drop (start + 16) = (Bytes.bits b).drop (start + 16) := by
    rcases hbehind with hbehind | hend
    · rw [← Nat.add_sub_cancel' hbehind, ← List.drop_drop, hagree.back, List.drop_drop]
    · rw [List.drop_eq_nil_of_le (by omega), List.drop_eq_nil_of_le (by omega)]
  have hsplit (l : List Bool) :
      l = l.take start ++ ((l.drop start).take 16 ++ l.drop (start + 16)) := by
    rw [← List.drop_drop, List.take_append_drop, List.take_append_drop]
  apply Bytes.bits_injective
  rw [remainder_eq, remainder_eq, hsplit (Bytes.bits a), hsplit (Bytes.bits b), ← hfront, ← hback,
    shiftInAll_append, shiftInAll_append, shiftInAll_append, shiftInAll_append] at h
  have hwindow := window_eq (by simp; omega) (by simp; omega) (shiftInAll_injective h)
  rw [hsplit (Bytes.bits a), hsplit (Bytes.bits b), hwindow, hfront, hback]

end Crc16

end TrackerWire
