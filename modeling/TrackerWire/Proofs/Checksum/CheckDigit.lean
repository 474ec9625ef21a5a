import Mathlib.Data.Nat.Digits.Defs
import Mathlib.Data.Nat.Digits.Lemmas
import TrackerWire.Checksum.Luhn

/-!
# What the check digit catches

A number is written by decimal digits in reading order, leading zeros among them (`Writes`). The
sum of such digits (`sum`) goes by their places from the right. The check digit is computed on the
digits of the number alone, least significant first; a zero that leads counts nothing, so it is the
same for every way of writing the number.

* `Writes.isCheckDigit_iff`: it is the one digit that makes the sum a multiple of ten.
* `Slip.checkDigit_ne`: it changes with any one digit, and when two neighbours change places, unless
  these are zero and nine.
-/
namespace TrackerWire.Luhn

/-- Decimal digits in reading order, leading zeros among them, that denote a number. -/
structure Writes (digits : List Nat) (value : Nat) : Prop where
  decimal : ∀ digit ∈ digits, digit < 10
  value_eq : Nat.ofDigits 10 digits.reverse = value

/-- What a digit counts at a place, the last place being zero: every second digit is doubled, and
loses nine if that is above nine. -/
def counted (place digit : Nat) : Nat :=
  if place % 2 = 0 then digit else if 9 < 2 * digit then 2 * digit - 9 else 2 * digit

/-- The sum of digits in reading order. -/
def sum (digits : List Nat) : Nat := (digits.reverse.mapIdx counted).sum

/-- One digit is another, or two different neighbours have changed places and are not zero and
nine. -/
inductive Slip : List Nat → List Nat → Prop
  | mistyped {front back : List Nat} {x y : Nat} (hne : x ≠ y) :
    Slip (front ++ x :: back) (front ++ y :: back)
  | exchanged {front back : List Nat} {x y : Nat} (hne : x ≠ y) (hxy : ¬ (x = 0 ∧ y = 9))
    (hyx : ¬ (x = 9 ∧ y = 0)) : Slip (front ++ x :: y :: back) (front ++ y :: x :: back)

/-! ## Numbers and their digits -/

theorem writes_digits (value zeros : Nat) :
    Writes (List.replicate zeros 0 ++ (Nat.digits 10 value).reverse) value where
  decimal := List.forall_mem_append.mpr
    ⟨fun digit hdigit => by rw [List.eq_of_mem_replicate hdigit]; decide,
      fun digit hdigit => Nat.digits_lt_base (by decide) (List.mem_reverse.mp hdigit)⟩
  value_eq := by
    rw [List.reverse_append, List.reverse_reverse, List.reverse_replicate,
      Nat.ofDigits_append_replicate_zero, Nat.ofDigits_digits]

theorem lowDigits_zero : lowDigits 0 = [] := by rw [lowDigits, if_pos rfl]

theorem lowDigits_cons {digit rest : Nat} (hdigit : digit < 10) (h : digit + 10 * rest ≠ 0) :
    lowDigits (digit + 10 * rest) = digit :: lowDigits rest := by
  have hmod : (digit + 10 * rest) % 10 = digit := by omega
  have hdiv : (digit + 10 * rest) / 10 = rest := by omega
  rw [lowDigits, if_neg h, hmod, hdiv]

/-! ## Sums -/

/-- What the first of the digits from the right counts. -/
def firstCounts (twice : Bool) (digit : Nat) : Nat := if twice then doubled digit else digit

theorem weighedSum_cons (twice : Bool) (digit : Nat) (rest : List Nat) :
    weighedSum twice (digit :: rest) = firstCounts twice digit + weighedSum (!twice) rest := rfl

/-- The digits behind others count as they do alone, doubled or not. -/
theorem weighedSum_append (twice : Bool) (front : List Nat) :
    ∃ next, ∀ rest, weighedSum twice (front ++ rest) =
      weighedSum twice front + weighedSum next rest := by
  induction front generalizing twice with
  | nil => exact ⟨twice, fun rest => (Nat.zero_add _).symm⟩
  | cons digit front ih =>
    obtain ⟨next, hnext⟩ := ih (!twice)
    refine ⟨next, fun rest => ?_⟩
    rw [List.cons_append, weighedSum_cons, weighedSum_cons, hnext, Nat.add_assoc]

theorem counted_eq (place digit : Nat) :
    counted place digit = firstCounts (place % 2 == 1) digit := by
  unfold counted firstCounts doubled
  rcases Nat.mod_two_eq_zero_or_one place with h | h
  · simp [h]
  · simp only [h, Nat.one_ne_zero, if_false, beq_self_eq_true, if_true]
    split <;> split <;> omega

/-- Digits that start at a place are doubled by turns from there on. -/
theorem sum_mapIdx (digits : List Nat) (place : Nat) :
    (digits.mapIdx fun i => counted (i + place)).sum =
      weighedSum (place % 2 == 1) digits := by
  induction digits generalizing place with
  | nil => rfl
  | cons digit rest ih =>
    have hturn : ((place + 1) % 2 == 1) = !(place % 2 == 1) := by
      rcases Nat.mod_two_eq_zero_or_one place with h | h <;> simp [Nat.add_mod, h]
    have hrest := ih (place + 1)
    rw [List.mapIdx_cons, List.sum_cons, weighedSum_cons, Nat.zero_add, counted_eq, ← hturn,
      ← hrest]
    simp only [Nat.add_assoc, Nat.add_comm 1]

theorem sum_concat (digits : List Nat) (digit : Nat) :
    sum (digits ++ [digit]) = digit + weighedSum true digits.reverse := by
  have hsum := sum_mapIdx (digit :: digits.reverse) 0
  simp only [Nat.add_zero] at hsum
  rw [sum, List.reverse_append, List.reverse_singleton, List.singleton_append]
  exact hsum

/-- Zeros that lead count nothing: the digits of a number have the sum of any that write it. -/
theorem weighedSum_lowDigits (twice : Bool) {digits : List Nat}
    (h : ∀ digit ∈ digits, digit < 10) :
    weighedSum twice (lowDigits (Nat.ofDigits 10 digits)) = weighedSum twice digits := by
  induction digits generalizing twice with
  | nil => rw [Nat.ofDigits_nil, lowDigits_zero]
  | cons digit rest ih =>
    obtain ⟨hdigit, hrest⟩ := List.forall_mem_cons.mp h
    have hsum := ih (!twice) hrest
    rw [Nat.ofDigits_cons, weighedSum_cons, ← hsum]
    by_cases hzero : digit + 10 * Nat.ofDigits 10 rest = 0
    · obtain ⟨rfl, hvalue⟩ : digit = 0 ∧ Nat.ofDigits 10 rest = 0 := by omega
      rw [hzero, hvalue, lowDigits_zero]
      cases twice <;> rfl
    · rw [lowDigits_cons hdigit hzero, weighedSum_cons]

theorem Writes.checkDigit_eq {digits : List Nat} {value : Nat} (h : Writes digits value) :
    checkDigit value = (10 - weighedSum true digits.reverse % 10) % 10 := by
  have hdecimal : ∀ digit ∈ digits.reverse, digit < 10 :=
    fun digit hdigit => h.decimal digit (List.mem_reverse.mp hdigit)
  rw [checkDigit, ← h.value_eq, weighedSum_lowDigits true hdecimal]

/-- **The check digit completes the digits**, as the only one, to a sum divisible by ten. -/
theorem Writes.isCheckDigit_iff {digits : List Nat} {value : Nat} (h : Writes digits value)
    (digit : Nat) : digit < 10 ∧ 10 ∣ sum (digits ++ [digit]) ↔ digit = checkDigit value := by
  rw [sum_concat, h.checkDigit_eq]
  omega

/-! ## Slips -/

theorem firstCounts_ne (twice : Bool) {x y : Nat} (hx : x < 10) (hy : y < 10) (hne : x ≠ y) :
    firstCounts twice x % 10 ≠ firstCounts twice y % 10 := by
  unfold firstCounts doubled
  cases twice
  · simp only [Bool.false_eq_true, if_false]
    omega
  · simp only [if_true]
    split <;> split <;> omega

/-- Doubling adds something else to each digit, but the same to zero and nine. -/
theorem firstCounts_exchange (twice : Bool) {x y : Nat} (hx : x < 10) (hy : y < 10) (hne : x ≠ y)
    (hxy : ¬ (x = 0 ∧ y = 9)) (hyx : ¬ (x = 9 ∧ y = 0)) :
    (firstCounts twice y + firstCounts (!twice) x) % 10 ≠
      (firstCounts twice x + firstCounts (!twice) y) % 10 := by
  unfold firstCounts doubled
  cases twice
  · simp only [Bool.false_eq_true, if_false, Bool.not_false, if_true]
    split <;> split <;> omega
  · simp only [Bool.not_true, Bool.false_eq_true, if_false, if_true]
    split <;> split <;> omega

/-- **No slip leaves the check digit as it is.** -/
theorem Slip.checkDigit_ne {digits others : List Nat} {value other : Nat}
    (hslip : Slip digits others) (h : Writes digits value) (h' : Writes others other) :
    checkDigit value ≠ checkDigit other := by
  rw [h.checkDigit_eq, h'.checkDigit_eq]
  have hdecimal := h.decimal
  have hdecimal' := h'.decimal
  -- the digits behind a slip and those before it count the same on both sides
  cases hslip with
  | @mistyped front back x y hne =>
    obtain ⟨next, hnext⟩ := weighedSum_append true back.reverse
    have hcounts := firstCounts_ne next (hdecimal x (by simp)) (hdecimal' y (by simp)) hne
    simp only [List.reverse_append, List.reverse_cons, List.append_assoc, List.cons_append,
      List.nil_append, hnext, weighedSum_cons]
    omega
  | @exchanged front back x y hne hxy hyx =>
    obtain ⟨next, hnext⟩ := weighedSum_append true back.reverse
    have hcounts := firstCounts_exchange next (hdecimal x (by simp)) (hdecimal y (by simp)) hne
      hxy hyx
    simp only [List.reverse_append, List.reverse_cons, List.append_assoc, List.cons_append,
      List.nil_append, hnext, weighedSum_cons]
    omega

/-- **The check digit of a number.** However the number is written, it is the one digit that
completes the digits to a sum divisible by ten; and no slip in the digits leaves it as it is. -/
theorem checkDigit_completes (value : Nat) :
    (∀ zeros, Writes (List.replicate zeros 0 ++ (Nat.digits 10 value).reverse) value) ∧
      (∀ digits, Writes digits value → ∀ digit,
        digit < 10 ∧ 10 ∣ sum (digits ++ [digit]) ↔ digit = checkDigit value) ∧
      ∀ other digits digits', Writes digits value → Writes digits' other → Slip digits digits' →
        checkDigit value ≠ checkDigit other :=
  ⟨writes_digits value, fun _ h => h.isCheckDigit_iff, fun _ _ _ h h' hslip =>
    hslip.checkDigit_ne h h'⟩

/-- Seven and two have changed places in a number that is written behind a zero. -/
theorem checkDigit_completes_exchanged :
    Writes [0, 7, 9, 9, 2, 7, 3, 9, 8, 7, 1] 7992739871 ∧
      Writes [0, 7, 9, 9, 7, 2, 3, 9, 8, 7, 1] 7997239871 ∧
      Slip [0, 7, 9, 9, 2, 7, 3, 9, 8, 7, 1] [0, 7, 9, 9, 7, 2, 3, 9, 8, 7, 1] ∧
      (3 < 10 ∧ 10 ∣ sum [0, 7, 9, 9, 2, 7, 3, 9, 8, 7, 1, 3]) ∧
      checkDigit 7992739871 ≠ checkDigit 7997239871 := by
  have hwrites : Writes [0, 7, 9, 9, 2, 7, 3, 9, 8, 7, 1] 7992739871 := ⟨by decide, by decide⟩
  have hwrites' : Writes [0, 7, 9, 9, 7, 2, 3, 9, 8, 7, 1] 7997239871 := ⟨by decide, by decide⟩
  have hslip : Slip [0, 7, 9, 9, 2, 7, 3, 9, 8, 7, 1] [0, 7, 9, 9, 7, 2, 3, 9, 8, 7, 1] :=
    @Slip.exchanged [0, 7, 9, 9] [3, 9, 8, 7, 1] 2 7 (by decide) (by decide) (by decide)
  have hthree : 3 = checkDigit 7992739871 := by cbv
  obtain ⟨-, hcompletes, hslips⟩ := checkDigit_completes 7992739871
  exact ⟨hwrites, hwrites', hslip, (hcompletes _ hwrites 3).mpr hthree,
    hslips _ _ _ hwrites hwrites' hslip⟩

end TrackerWire.Luhn
