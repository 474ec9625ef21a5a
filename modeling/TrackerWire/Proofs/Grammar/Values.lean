import Mathlib.Data.List.TakeWhile
import Mathlib.Data.Nat.Digits.Lemmas
import TrackerWire.Proofs.Grammar.Language
import TrackerWire.Proofs.Text.Utf8

/-!
# What texts denote

The texts of the numeric tokens are numbers, so reading one never fails.

* `hexBelow?_eq`: hexadecimal digits are read as the number they are in base 16.
* `signed64?_eq`: decimal digits, perhaps behind a minus sign, are read as their whole number
  unless it does not fit.
* `exists_read`: whatever is a number to a grammar is read as a double.
* `degrees?_eq`: a coordinate is cut two digits before its point.
-/
namespace TrackerWire

open Token

/-! ## Whole numbers -/

namespace Whole

/-- The number of digits in a base, most significant first. -/
def number (base : Nat) (digit? : UInt8 → Option Nat) (text : Bytes) : Nat :=
  Nat.ofDigits base (text.reverse.map fun b => (digit? b).getD 0)

theorem number_snoc (base : Nat) (digit? : UInt8 → Option Nat) (text : Bytes) (b : UInt8) :
    number base digit? (text ++ [b]) = number base digit? text * base + (digit? b).getD 0 := by
  simp only [number, List.reverse_append, List.reverse_singleton, List.singleton_append,
    List.map_cons, Nat.ofDigits_cons]
  rw [Nat.add_comm, Nat.mul_comm]

theorem number_lt {base : Nat} {digit? : UInt8 → Option Nat} (hbase : 1 < base)
    (hdigit : ∀ b, ∀ n ∈ digit? b, n < base) (text : Bytes) :
    number base digit? text < base ^ text.length := by
  have := Nat.ofDigits_lt_base_pow_length (b := base)
    (l := text.reverse.map fun b => (digit? b).getD 0) hbase fun n hn => by
      obtain ⟨b, -, rfl⟩ := List.mem_map.mp hn
      cases h : digit? b with
      | none => exact Nat.lt_of_succ_lt hbase
      | some n => exact hdigit b n h
  rwa [List.length_map, List.length_reverse] at this

theorem ofDigits?_eq (base : Nat) {digit? : UInt8 → Option Nat} {text : Bytes} (hne : text ≠ [])
    (h : ∀ b ∈ text, (digit? b).isSome) :
    ofDigits? base digit? text = some (number base digit? text) := by
  have hfold : text.foldlM (fun n b => (digit? b).map (n * base + ·)) 0 =
      some (number base digit? text) := by
    clear hne
    -- the last digit is the one of lowest weight
    induction text using List.reverseRecOn with
    | nil => rfl
    | append_singleton text b ih =>
      obtain ⟨n, hn⟩ := Option.isSome_iff_exists.mp (h b (by simp))
      rw [List.foldlM_append, ih fun c hc => h c (List.mem_append_left _ hc), number_snoc, hn]
      simp [hn]
  rw [ofDigits?, hfold]
  exact hne

theorem dropPlus_of_ne {text : Bytes} (h : ∀ b ∈ text.head?, b ≠ Ascii.plus) :
    dropPlus text = text := by
  cases text with
  | nil => rfl
  | cons b text => rw [dropPlus, if_neg (h b rfl)]

def hexNumber (text : Bytes) : Nat := number 16 Ascii.hexValue? text

theorem hexValue?_lt (b : UInt8) : ∀ n ∈ Ascii.hexValue? b, n < 16 := by
  intro n hn
  unfold Ascii.hexValue? at hn
  simp only [Bool.and_eq_true, decide_eq_true_eq, UInt8.le_iff_toNat_le, UInt8.reduceToNat] at hn
  split at hn
  · cases hn; omega
  · split at hn
    · cases hn; omega
    · split at hn
      · cases hn; omega
      · cases hn

/-- As many hexadecimal digits as the limit has room for are read as their number. -/
theorem hexBelow?_eq {limit : Nat} {text : Bytes} (hne : text ≠ [])
    (h : AllOf Ascii.isHexDigit text) (hfits : 16 ^ text.length ≤ limit) :
    hexBelow? limit text = some (hexNumber text) := by
  have hplus : ∀ b ∈ text.head?, b ≠ Ascii.plus := by
    intro b hb heq
    exact absurd (h b (List.mem_of_mem_head? hb)) (by rw [heq]; decide)
  rw [hexBelow?, dropPlus_of_ne hplus, ofDigits?_eq 16 hne h]
  exact Option.filter_some_pos (decide_eq_true
    (Nat.lt_of_lt_of_le (number_lt (by decide) hexValue?_lt text) hfits))

def decimalNumber (text : Bytes) : Nat := number 10 Ascii.digitValue? text

theorem decimalNumber_lt (text : Bytes) : decimalNumber text < 10 ^ text.length := by
  refine number_lt (by decide) (fun b n hn => ?_) text
  unfold Ascii.digitValue? at hn
  split at hn
  · simp only [Ascii.isDigit, Bool.and_eq_true, decide_eq_true_eq, UInt8.le_iff_toNat_le,
      UInt8.reduceToNat] at *
    cases hn
    omega
  · cases hn

theorem ofDigits?_decimal {text : Bytes} (h : IsInteger text) :
    ofDigits? 10 Ascii.digitValue? text = some (decimalNumber text) :=
  ofDigits?_eq 10 h.2 fun b hb => by rw [Ascii.digitValue?, if_pos (h.1 b hb)]; rfl

theorem decimalBelow?_eq {text : Bytes} (h : IsInteger text) (limit : Nat) :
    decimalBelow? limit text =
      if decimalNumber text < limit then some (decimalNumber text) else none := by
  have hplus : ∀ b ∈ text.head?, b ≠ Ascii.plus := by
    intro b hb heq
    exact absurd (h.1 b (List.mem_of_mem_head? hb)) (by rw [heq]; decide)
  rw [decimalBelow?, dropPlus_of_ne hplus, ofDigits?_decimal h, Option.filter_some]
  simp only [decide_eq_true_eq]

/-- The number of decimal digits, perhaps behind a minus sign. -/
def signedNumber (text : Bytes) : Int :=
  match text with
  | b :: after => if b = Ascii.minus then -(decimalNumber after : Int) else decimalNumber text
  | [] => 0

/-- A signed word of 64 bits has room for the number. -/
abbrev Fits64 (n : Int) : Prop := -2 ^ 63 ≤ n ∧ n < 2 ^ 63

/-- Digits, perhaps behind a minus sign, are read as their number if it fits. -/
theorem signed64?_eq {text : Bytes} (h : IsSigned IsInteger text) :
    signed64? text = if Fits64 (signedNumber text) then some (signedNumber text) else none := by
  have hlimit : limit63 = 2 ^ 63 := by decide
  rcases h with h | ⟨after, rfl, h⟩
  · obtain ⟨b, after, rfl, hb⟩ := isNumber_digitFirst text (.inl h)
    have hminus : b ≠ Ascii.minus := by rintro rfl; exact absurd hb (by decide)
    rw [signed64?, if_neg hminus, signedNumber, if_neg hminus, decimalBelow?_eq h, hlimit]
    by_cases hfits : decimalNumber (b :: after) < 2 ^ 63
    · rw [if_pos hfits, if_pos ⟨by omega, by omega⟩]
      rfl
    · rw [if_neg hfits, if_neg fun hboth => hfits (by omega)]
      rfl
  · rw [signed64?, if_pos rfl, signedNumber, if_pos rfl, ofDigits?_decimal h, hlimit,
      Option.filter_some]
    by_cases hfits : decimalNumber after ≤ 2 ^ 63
    · rw [if_pos (decide_eq_true hfits), if_pos ⟨by omega, by omega⟩]
      rfl
    · rw [if_neg (by simpa using hfits), if_neg fun hboth => hfits (by omega)]
      rfl

end Whole

/-! ## Doubles -/

namespace Decimal

theorem isNumber_of_isDecimal {minWhole : Nat} (hmin : 0 < minWhole) {text : Bytes}
    (h : IsDecimal minWhole text) : IsNumber text := by
  obtain ⟨whole, fraction, rfl, hwhole, hlen, hfraction, -⟩ := h
  exact .inr ⟨whole, fraction, rfl,
    ⟨hwhole, List.ne_nil_of_length_pos (Nat.lt_of_lt_of_le hmin hlen)⟩, hfraction⟩

theorem isSome_magnitude? {text : Bytes} (h : IsNumber text) : (magnitude? text).isSome := by
  rcases h with ⟨hdigits, hne⟩ | ⟨whole, fraction, rfl, ⟨hwhole, hne⟩, hfraction⟩
  · have htake : text.takeWhile Ascii.isDigit = text := List.takeWhile_eq_self_iff.mpr hdigits
    have hdrop : text.dropWhile Ascii.isDigit = [] := List.dropWhile_eq_nil_iff.mpr hdigits
    simp only [magnitude?, htake, hdrop, hne, false_and, if_false, exponent?, Option.map_some,
      Option.isSome_some]
  · have hpoint : ¬ Ascii.isDigit Ascii.point = true := by decide
    have htake : (whole ++ Ascii.point :: fraction).takeWhile Ascii.isDigit = whole := by
      rw [List.takeWhile_append_of_pos hwhole, List.takeWhile_cons_of_neg hpoint, List.append_nil]
    have hdrop : (whole ++ Ascii.point :: fraction).dropWhile Ascii.isDigit =
        Ascii.point :: fraction := by
      rw [List.dropWhile_append_of_pos hwhole, List.dropWhile_cons_of_neg hpoint]
    have hrest : fraction.dropWhile Ascii.isDigit = [] := List.dropWhile_eq_nil_iff.mpr hfraction
    simp only [magnitude?, htake, hdrop, hne, false_and, if_false, if_true, hrest, exponent?,
      Option.map_some, Option.isSome_some]

theorem exists_unsigned {text : Bytes} (h : IsNumber text) : ∃ x, unsigned? text = some x := by
  obtain ⟨b, after, rfl, hb⟩ := isNumber_digitFirst text h
  obtain ⟨x, hx⟩ := Option.isSome_iff_exists.mp (isSome_magnitude? h)
  -- no digit is the first letter of a name
  have hname : ∀ c, Ascii.isDigit c = false →
      ∀ name, ¬ (b :: after).map Ascii.lower = c :: name := by
    intro c hc name heq
    have hlower : Ascii.lower b = b := by
      simp only [Ascii.isDigit, Bool.and_eq_true, decide_eq_true_eq,
        UInt8.le_iff_toNat_le, UInt8.reduceToNat] at hb
      rw [Ascii.lower, if_neg]
      simp only [Bool.and_eq_true, decide_eq_true_eq, UInt8.le_iff_toNat_le, UInt8.reduceToNat]
      omega
    rw [List.map_cons, hlower] at heq
    rw [(List.cons.inj heq).1, hc] at hb
    cases hb
  have hinf : Ascii.utf8 "inf" = 0x69 :: [0x6E, 0x66] := by decide
  have hinfinity : Ascii.utf8 "infinity" =
      0x69 :: [0x6E, 0x66, 0x69, 0x6E, 0x69, 0x74, 0x79] := by decide
  have hnan : Ascii.utf8 "nan" = 0x6E :: [0x61, 0x6E] := by decide
  refine ⟨x, ?_⟩
  rw [unsigned?, if_neg, if_neg, hx]
  · rw [hnan]; exact hname 0x6E (by decide) _
  · rw [hinf, hinfinity]
    rintro (heq | heq) <;> exact hname 0x69 (by decide) _ heq

/-- Every number, perhaps behind a minus sign, is read as a double. -/
theorem exists_read {text : Bytes} (h : IsSigned IsNumber text) : ∃ x, read? text = some x := by
  rcases h with h | ⟨after, rfl, h⟩
  · obtain ⟨b, after, rfl, hb⟩ := isNumber_digitFirst text h
    obtain ⟨x, hx⟩ := exists_unsigned h
    have hminus : b ≠ Ascii.minus := by rintro rfl; exact absurd hb (by decide)
    have hplus : b ≠ Ascii.plus := by rintro rfl; exact absurd hb (by decide)
    refine ⟨x, ?_⟩
    rw [read?, if_neg hminus, Whole.dropPlus, if_neg hplus, hx]
  · obtain ⟨x, hx⟩ := exists_unsigned h
    refine ⟨-x, ?_⟩
    rw [read?, if_pos rfl, hx]
    rfl

end Decimal

/-! ## Coordinates -/

/-- The double that a coordinate denotes: the last two digits before the point and what follows are
minutes, the digits before them degrees. -/
def DenotesDegrees (text : Bytes) (value : Float) : Prop :=
  ∃ whole tens units fraction degrees minutes,
    text = whole ++ tens :: units :: Ascii.point :: fraction ∧
      Decimal.read? whole = some degrees ∧
      Decimal.read? (tens :: units :: Ascii.point :: fraction) = some minutes ∧
      value = degrees + minutes / 60

/-- Every text of the form `d{3,}.d+` is read as the degrees it denotes. -/
theorem degrees?_eq {text : Bytes} (h : IsDecimal 3 text) :
    ∃ value, DenotesDegrees text value ∧ Captures.degrees? text = .ok (some value) := by
  obtain ⟨digits, fraction, rfl, hdigits, hlen, hfraction, hne⟩ := h
  obtain ⟨whole, tens, units, rfl⟩ : ∃ whole tens units, digits = whole ++ [tens, units] := by
    rcases List.eq_nil_or_concat digits with rfl | ⟨most, units, rfl⟩
    · cases hlen
    · rcases List.eq_nil_or_concat most with rfl | ⟨whole, tens, rfl⟩
      · exact absurd hlen (by simp)
      · exact ⟨whole, tens, units, by simp⟩
  have hwhole : AllOf Ascii.isDigit whole := fun b hb => hdigits b (List.mem_append_left _ hb)
  have htens : Ascii.isDigit tens = true := hdigits tens (by simp)
  have hunits : Ascii.isDigit units = true := hdigits units (by simp)
  have hwholene : whole ≠ [] := by rintro rfl; exact absurd hlen (by simp)
  obtain ⟨degrees, hdegrees⟩ := Decimal.exists_read (.inl (.inl ⟨hwhole, hwholene⟩))
  obtain ⟨minutes, hminutes⟩ : ∃ x,
      Decimal.read? (tens :: units :: Ascii.point :: fraction) = some x := by
    refine Decimal.exists_read
      (.inl (.inr ⟨[tens, units], fraction, rfl, ⟨?_, by simp⟩, hfraction⟩))
    exact fun b hb => hdigits b (List.mem_append_right _ hb)
  rw [List.append_assoc]
  refine ⟨_, ⟨whole, tens, units, fraction, degrees, minutes, rfl, hdegrees, hminutes, rfl⟩, ?_⟩
  have hpoint : (whole ++ ([tens, units] ++ Ascii.point :: fraction)).findIdx?
      (· = Ascii.point) = some (whole.length + 2) := by
    have hne : ∀ b, Ascii.isDigit b = true → decide (b = Ascii.point) = false := by
      intro b hb
      exact decide_eq_false (by rintro rfl; exact absurd hb (by decide))
    rw [List.findIdx?_append, List.findIdx?_eq_none_iff.mpr fun b hb => hne b (hwhole b hb)]
    simp [List.findIdx?_cons, hne tens htens, hne units hunits, Nat.add_comm]
  have haligned : Utf8.isBoundary (whole ++ ([tens, units] ++ Ascii.point :: fraction))
      whole.length = true := by
    exact Utf8.isBoundary_aligned whole (Utf8.aligned_cons (Ascii.lt_of_isDigit htens) _)
  simp only [Captures.degrees?, hpoint, Nat.add_sub_cancel, haligned, if_true, List.take_left,
    List.drop_left, hdegrees]
  rw [if_neg (by omega)]
  show Except.ok (do let m ← Decimal.read? (tens :: units :: Ascii.point :: fraction)
                     some (degrees + m / 60)) = _
  rw [hminutes]
  rfl

end TrackerWire
