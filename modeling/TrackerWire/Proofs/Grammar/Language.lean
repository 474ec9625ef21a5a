import TrackerWire.Grammar.Token

/-!
# The language of a token

`Token.Accepts` says which byte strings a token stands for, in the words of its documentation:
`d+.d+`, `[-]d+` and so on. It does not look at how a token is searched for.

* `mem_lengths`: the lengths a token offers at the start of an input are the lengths of the
  prefixes of the input that are in its language, all of them and no others.
* `lengths_descend`: it offers each of them once, the longest first.
* `lengths_exact`: both, for the lengths within the input.
-/
namespace TrackerWire.Token

/-- Every byte is of a class. -/
def AllOf (isMember : UInt8 → Bool) (text : Bytes) : Prop := ∀ b ∈ text, isMember b = true

/-- At least `min`, and at most `max` where there is a bound. -/
def Within (min : Nat) (max : Option Nat) (n : Nat) : Prop := min ≤ n ∧ ∀ m, max = some m → n ≤ m

/-- `d{minWhole,}.d+` -/
def IsDecimal (minWhole : Nat) (text : Bytes) : Prop :=
  ∃ whole fraction, text = whole ++ Ascii.point :: fraction ∧ AllOf Ascii.isDigit whole ∧
    minWhole ≤ whole.length ∧ AllOf Ascii.isDigit fraction ∧ fraction ≠ []

/-- `d+` -/
def IsInteger (text : Bytes) : Prop := AllOf Ascii.isDigit text ∧ text ≠ []

/-- `d+.d*` -/
def IsPointed (text : Bytes) : Prop :=
  ∃ whole fraction, text = whole ++ Ascii.point :: fraction ∧ IsInteger whole ∧
    AllOf Ascii.isDigit fraction

/-- `d+[.d*]` -/
def IsNumber (text : Bytes) : Prop := IsInteger text ∨ IsPointed text

/-- `[-]` in front of a language. -/
def IsSigned (language : Bytes → Prop) (text : Bytes) : Prop :=
  language text ∨ ∃ after, text = Ascii.minus :: after ∧ language after

/-- The byte strings a token stands for. -/
def Accepts : Token → Bytes → Prop
  | digits min max, text => AllOf Ascii.isDigit text ∧ Within min max text.length
  | hex min max, text => AllOf Ascii.isHexDigit text ∧ Within min max text.length
  | decimal, text => IsDecimal 1 text
  | number, text => IsNumber text
  | signedInteger, text => IsSigned IsInteger text
  | signedNumber, text => IsSigned IsNumber text
  | coordinate, text => IsDecimal 3 text
  | oneOf set, text => ∃ b, text = [b] ∧ b ∈ set
  | noneOf set, text => ∀ b ∈ text, b ∉ set
  | rest, text => ∀ b ∈ text, b ≠ Ascii.cr ∧ b ≠ Ascii.lf

/-- The input starts with a text of this length in a language. -/
def StartsWith (language : Bytes → Prop) (input : Bytes) (n : Nat) : Prop :=
  ∃ text after, input = text ++ after ∧ text.length = n ∧ language text

/-! ## Runs -/

theorem run_append {p : UInt8 → Bool} {text : Bytes} (h : AllOf p text) (after : Bytes) :
    run p (text ++ after) = text.length + run p after := by
  unfold run
  rw [List.takeWhile_append_of_pos h, List.length_append]

theorem run_cons_of_not {p : UInt8 → Bool} {b : UInt8} (h : p b = false) (after : Bytes) :
    run p (b :: after) = 0 := by
  simp [run, h]

/-- The run of a class is a text of the class, and what follows it starts outside the class. -/
theorem run_split (p : UInt8 → Bool) (input : Bytes) :
    ∃ text, AllOf p text ∧ text.length = run p input ∧
      input = text ++ input.drop (run p input) := by
  refine ⟨input.takeWhile p, fun b hb => List.all_eq_true.mp List.all_takeWhile b hb, rfl, ?_⟩
  have h : input.take (run p input) = input.takeWhile p :=
    (List.prefix_iff_eq_take.mp (List.takeWhile_prefix p)).symm
  rw [← h, List.take_append_drop]

theorem le_run (p : UInt8 → Bool) (input : Bytes) (n : Nat) :
    n ≤ run p input ↔ StartsWith (AllOf p) input n := by
  refine ⟨?_, ?_⟩
  · intro hn
    obtain ⟨text, hall, hlen, hin⟩ := run_split p input
    refine ⟨text.take n, text.drop n ++ input.drop (run p input), ?_, ?_, ?_⟩
    · rw [← List.append_assoc, List.take_append_drop]; exact hin
    · rw [List.length_take, hlen]; omega
    · intro b hb; exact hall b (List.mem_of_mem_take hb)
  · intro h; obtain ⟨text, after, rfl, rfl, hall⟩ := h
    rw [run_append hall]; omega

theorem mem_descending (low high n : Nat) : n ∈ descending low high ↔ low ≤ n ∧ n ≤ high := by
  simp only [descending, List.mem_reverse, List.mem_range'_1]; omega

theorem descending_descend (low high : Nat) : (descending low high).Pairwise (· > ·) := by
  rw [descending, List.pairwise_reverse]
  exact List.pairwise_lt_range'

theorem mem_boundedLengths (p : UInt8 → Bool) (input : Bytes) (min : Nat) (max : Option Nat)
    (n : Nat) : n ∈ boundedLengths (run p input) min max ↔
      StartsWith (fun text => AllOf p text ∧ Within min max text.length) input n := by
  have bounds : n ∈ boundedLengths (run p input) min max ↔ n ≤ run p input ∧ Within min max n := by
    cases max with
    | none => simp only [boundedLengths, mem_descending, Within, reduceCtorEq, false_implies,
        implies_true, and_true]; omega
    | some m =>
      simp only [boundedLengths, mem_descending, Within, Option.some.injEq, forall_eq',
        Nat.min_def]
      split <;> omega
  rw [bounds, le_run]
  refine ⟨?_, ?_⟩
  · intro h
    obtain ⟨⟨text, after, hin, rfl, hall⟩, hw⟩ := h; exact ⟨text, after, hin, rfl, hall, hw⟩
  · intro h
    obtain ⟨text, after, hin, rfl, hall, hw⟩ := h; exact ⟨⟨text, after, hin, rfl, hall⟩, hw⟩

/-! ## Numbers with a point -/

/-- Behind a run of digits stands a point: the digits of a text with a point are that run. -/
theorem drop_run_of_point {whole : Bytes} (h : AllOf Ascii.isDigit whole) (after : Bytes) :
    run Ascii.isDigit (whole ++ Ascii.point :: after) = whole.length ∧
      (whole ++ Ascii.point :: after).drop whole.length = Ascii.point :: after := by
  refine ⟨?_, List.drop_left⟩
  rw [run_append h, run_cons_of_not (by decide)]; rfl

/-- Lengths of digits, a point and at least `minFraction` digits, where the digits before the
point are the whole run. -/
theorem mem_pointed {input after : Bytes} {n : Nat} (minFraction : Nat)
    (hd : input.drop (run Ascii.isDigit input) = Ascii.point :: after) :
    n ∈ descending (run Ascii.isDigit input + 1 + minFraction)
        (run Ascii.isDigit input + 1 + run Ascii.isDigit after) ↔
      StartsWith (fun text => ∃ whole fraction, text = whole ++ Ascii.point :: fraction ∧
        AllOf Ascii.isDigit whole ∧ whole.length = run Ascii.isDigit input ∧
        AllOf Ascii.isDigit fraction ∧ minFraction ≤ fraction.length) input n := by
  rw [mem_descending]
  refine ⟨?_, ?_⟩
  · intro h; obtain ⟨hlow, hhigh⟩ := h
    obtain ⟨whole, hall, hlen, hin⟩ := run_split Ascii.isDigit input
    obtain ⟨fraction, beyond, rfl, hf, hfall⟩ :=
      (le_run Ascii.isDigit after (n - (run Ascii.isDigit input + 1))).mp (by omega)
    refine ⟨whole ++ Ascii.point :: fraction, beyond, ?_, ?_, whole, fraction, rfl, hall, hlen,
      hfall, by omega⟩
    · rw [hd] at hin; rw [List.append_assoc, List.cons_append]; exact hin
    · rw [List.length_append, List.length_cons]; omega
  · intro h; obtain ⟨_, beyond, rfl, rfl, whole, fraction, rfl, hall, hlen, hfall, hmin⟩ := h
    rw [List.append_assoc, List.cons_append] at hd hlen ⊢
    obtain ⟨hrun, hdrop⟩ := drop_run_of_point hall (fraction ++ beyond)
    rw [hrun, hdrop] at hd
    obtain ⟨-, rfl⟩ := List.cons.inj hd
    rw [hrun, run_append hfall, List.length_append, List.length_cons]
    omega

/-- A text with a point starts with the run of digits, and the point stands behind it. -/
theorem StartsWith.point {language : Bytes → Prop} {input : Bytes} {n : Nat}
    (h : StartsWith language input n)
    (hl : ∀ text, language text → ∃ whole fraction, text = whole ++ Ascii.point :: fraction ∧
      AllOf Ascii.isDigit whole) :
    ∃ after, input.drop (run Ascii.isDigit input) = Ascii.point :: after := by
  obtain ⟨text, beyond, rfl, -, ht⟩ := h
  obtain ⟨whole, fraction, rfl, hall⟩ := hl text ht
  rw [List.append_assoc, List.cons_append]
  obtain ⟨hrun, hdrop⟩ := drop_run_of_point hall (fraction ++ beyond)
  exact ⟨_, by rw [hrun, hdrop]⟩

theorem mem_decimalLengths (minWhole : Nat) (input : Bytes) (n : Nat) :
    n ∈ decimalLengths minWhole input ↔ StartsWith (IsDecimal minWhole) input n := by
  have pointed : StartsWith (IsDecimal minWhole) input n →
      ∃ after, input.drop (run Ascii.isDigit input) = Ascii.point :: after := fun h =>
    h.point fun _ ⟨whole, fraction, ht, hw, _⟩ => ⟨whole, fraction, ht, hw⟩
  simp only [decimalLengths]
  split
  · rename_i b after hd
    by_cases hb : minWhole ≤ run Ascii.isDigit input ∧ b = Ascii.point
    · obtain ⟨hmin, rfl⟩ := hb
      rw [if_pos ⟨hmin, rfl⟩, mem_pointed 1 hd]
      refine ⟨?_, ?_⟩
      · intro h; obtain ⟨_, beyond, hin, hn, whole, fraction, rfl, hw, hlen, hf, h1⟩ := h
        exact ⟨_, beyond, hin, hn, whole, fraction, rfl, hw, by omega, hf,
          List.ne_nil_of_length_pos h1⟩
      · intro h; obtain ⟨_, beyond, rfl, hn, whole, fraction, rfl, hw, -, hf, h1⟩ := h
        refine ⟨_, beyond, rfl, hn, whole, fraction, rfl, hw, ?_, hf, List.length_pos_iff.mpr h1⟩
        rw [List.append_assoc, List.cons_append, (drop_run_of_point hw _).1]
    · rw [if_neg hb]
      refine iff_of_false List.not_mem_nil fun h => ?_
      obtain ⟨after', hd'⟩ := pointed h
      rw [hd] at hd'
      obtain ⟨_, beyond, rfl, -, whole, fraction, rfl, hw, hmin, -⟩ := h
      rw [List.append_assoc, List.cons_append, (drop_run_of_point hw _).1] at hb
      exact hb ⟨hmin, (List.cons.inj hd').1⟩
  · rename_i hd
    refine iff_of_false List.not_mem_nil fun h => ?_
    obtain ⟨after, hd'⟩ := pointed h
    rw [hd] at hd'; cases hd'

theorem startsWith_or {P Q : Bytes → Prop} {input : Bytes} {n : Nat} :
    StartsWith (fun text => P text ∨ Q text) input n ↔
      StartsWith P input n ∨ StartsWith Q input n := by
  refine ⟨?_, ?_⟩
  · intro ⟨text, after, hin, hn, h⟩
    rcases h with h | h
    · exact .inl ⟨text, after, hin, hn, h⟩
    · exact .inr ⟨text, after, hin, hn, h⟩
  · intro h
    rcases h with ⟨text, after, hin, hn, h⟩ | ⟨text, after, hin, hn, h⟩
    · exact ⟨text, after, hin, hn, .inl h⟩
    · exact ⟨text, after, hin, hn, .inr h⟩

theorem mem_descending_run (input : Bytes) (n : Nat) :
    n ∈ descending 1 (run Ascii.isDigit input) ↔ StartsWith IsInteger input n := by
  rw [mem_descending]
  refine ⟨?_, ?_⟩
  · intro ⟨h1, hn⟩
    obtain ⟨text, after, hin, rfl, hall⟩ := (le_run _ _ _).mp hn
    exact ⟨text, after, hin, rfl, hall, List.ne_nil_of_length_pos h1⟩
  · intro h
    obtain ⟨text, after, hin, rfl, hall, hne⟩ := h
    exact ⟨List.length_pos_iff.mpr hne, (le_run _ _ _).mpr ⟨text, after, hin, rfl, hall⟩⟩

/-- A number with a point needs a point behind the run of digits, and digits in the run. -/
theorem point_of_isPointed {input : Bytes} {n : Nat} (h : StartsWith IsPointed input n) :
    (∃ after, input.drop (run Ascii.isDigit input) = Ascii.point :: after) ∧
      run Ascii.isDigit input ≠ 0 := by
  refine ⟨h.point fun _ ⟨whole, fraction, ht, hw, _⟩ => ⟨whole, fraction, ht, hw.1⟩, ?_⟩
  obtain ⟨_, beyond, rfl, -, whole, fraction, rfl, hw, -⟩ := h
  rw [List.append_assoc, List.cons_append, (drop_run_of_point hw.1 _).1]
  exact fun h0 => hw.2 (List.length_eq_zero_iff.mp h0)

theorem mem_numberLengths (input : Bytes) (n : Nat) :
    n ∈ numberLengths input ↔ StartsWith IsNumber input n := by
  refine Iff.trans ?_ startsWith_or.symm
  rw [← mem_descending_run]
  simp only [numberLengths]
  split
  · rename_i h0
    refine iff_of_false List.not_mem_nil ?_
    intro h; rcases h with h | h
    · rw [mem_descending] at h; omega
    · exact (point_of_isPointed h).2 h0
  · rename_i h0
    rw [List.mem_append, or_comm]
    refine or_congr_right ?_
    split
    · rename_i b after hd
      by_cases hb : b = Ascii.point
      · subst hb
        rw [if_pos rfl, ← Nat.add_zero (run Ascii.isDigit input + 1), mem_pointed 0 hd]
        refine ⟨?_, ?_⟩
        · intro h; obtain ⟨_, beyond, hin, hn, whole, fraction, rfl, hw, hlen, hf, -⟩ := h
          exact ⟨_, beyond, hin, hn, whole, fraction, rfl,
            ⟨hw, List.ne_nil_of_length_pos (by omega)⟩, hf⟩
        · intro h; obtain ⟨_, beyond, rfl, hn, whole, fraction, rfl, hw, hf⟩ := h
          refine ⟨_, beyond, rfl, hn, whole, fraction, rfl, hw.1, ?_, hf, Nat.zero_le _⟩
          rw [List.append_assoc, List.cons_append, (drop_run_of_point hw.1 _).1]
      · rw [if_neg hb]
        refine iff_of_false List.not_mem_nil fun h => ?_
        obtain ⟨after', hd'⟩ := (point_of_isPointed h).1
        rw [hd] at hd'; exact hb (List.cons.inj hd').1
    · rename_i hd
      refine iff_of_false List.not_mem_nil fun h => ?_
      obtain ⟨after, hd'⟩ := (point_of_isPointed h).1
      rw [hd] at hd'; cases hd'

/-! ## Signs -/

/-- Texts that start with a digit. -/
def DigitFirst (language : Bytes → Prop) : Prop :=
  ∀ text, language text → ∃ b after, text = b :: after ∧ Ascii.isDigit b = true

theorem isInteger_digitFirst : DigitFirst IsInteger := by
  intro text h; obtain ⟨hall, hne⟩ := h
  obtain ⟨b, after, rfl⟩ := List.exists_cons_of_ne_nil hne
  exact ⟨b, after, rfl, hall b List.mem_cons_self⟩

theorem isNumber_digitFirst : DigitFirst IsNumber := by
  intro text h; rcases h with h | ⟨whole, fraction, rfl, h, -⟩
  · exact isInteger_digitFirst text h
  · obtain ⟨b, after, rfl, hb⟩ := isInteger_digitFirst whole h
    exact ⟨b, after ++ Ascii.point :: fraction, rfl, hb⟩

/-- A minus sign is tried only where one stands: no text of the language starts with one. -/
theorem mem_signedLengths {lengths : Bytes → List Nat} {language : Bytes → Prop}
    (hfirst : DigitFirst language)
    (h : ∀ input n, n ∈ lengths input ↔ StartsWith language input n) (input : Bytes) (n : Nat) :
    n ∈ signedLengths lengths input ↔ StartsWith (IsSigned language) input n := by
  have unsigned : (∀ after, input ≠ Ascii.minus :: after) →
      (n ∈ lengths input ↔ StartsWith (IsSigned language) input n) := by
    intro hno
    rw [h]
    refine ⟨?_, ?_⟩
    · intro h; obtain ⟨text, after, hin, hn, ht⟩ := h; exact ⟨text, after, hin, hn, .inl ht⟩
    · intro h; rcases h with ⟨text, after, hin, hn, ht | ⟨behind, rfl, -⟩⟩
      · exact ⟨text, after, hin, hn, ht⟩
      · exact absurd hin (hno _)
  cases input with
  | nil => exact unsigned (fun _ e => by cases e)
  | cons b after =>
    simp only [signedLengths]
    split
    · rename_i hb; subst hb
      rw [List.mem_map]
      refine ⟨?_, ?_⟩
      · intro h; obtain ⟨m, hm, rfl⟩ := h
        obtain ⟨text, beyond, rfl, rfl, ht⟩ := (h _ _).mp hm
        exact ⟨Ascii.minus :: text, beyond, rfl, rfl, .inr ⟨text, rfl, ht⟩⟩
      · intro h; rcases h with ⟨text, beyond, hin, rfl, ht | ⟨behind, rfl, ht⟩⟩
        · obtain ⟨d, more, rfl, hd⟩ := hfirst text ht
          obtain ⟨rfl, -⟩ := List.cons.inj hin
          exact absurd hd (by decide)
        · obtain ⟨-, rfl⟩ := List.cons.inj hin
          exact ⟨behind.length, (h _ _).mpr ⟨behind, beyond, rfl, rfl, ht⟩, rfl⟩
    · rename_i hb
      exact unsigned fun _ e => hb (List.cons.inj e).1

/-! ## Every token -/

theorem StartsWith.congr {P Q : Bytes → Prop} (h : ∀ text, P text ↔ Q text) (input : Bytes)
    (n : Nat) : StartsWith P input n ↔ StartsWith Q input n := by
  unfold StartsWith; simp only [h]

/-- The offered lengths are those of the prefixes in the token's language. -/
theorem mem_lengths (token : Token) (input : Bytes) (n : Nat) :
    n ∈ token.lengths input ↔ StartsWith token.Accepts input n := by
  cases token with
  | digits min max => exact mem_boundedLengths _ _ _ _ _
  | hex min max => exact mem_boundedLengths _ _ _ _ _
  | decimal => exact mem_decimalLengths 1 _ _
  | number => exact mem_numberLengths _ _
  | signedInteger =>
    refine mem_signedLengths isInteger_digitFirst (fun input n => ?_) _ _
    rw [mem_boundedLengths]
    refine StartsWith.congr (fun text => and_congr_right fun _ => ?_) _ _
    simp only [Within, reduceCtorEq, false_implies, implies_true, and_true]
    exact List.length_pos_iff
  | signedNumber => exact mem_signedLengths isNumber_digitFirst mem_numberLengths _ _
  | coordinate => exact mem_decimalLengths 3 _ _
  | oneOf set =>
    cases input with
    | nil =>
      refine iff_of_false List.not_mem_nil ?_
      intro h; obtain ⟨_, after, hin, -, b, rfl, -⟩ := h; cases hin
    | cons b after =>
      simp only [lengths, List.contains_iff_mem]
      refine ⟨?_, ?_⟩
      · intro hn
        split at hn
        · rename_i hb
          rw [List.mem_singleton] at hn
          exact ⟨[b], after, rfl, hn.symm, b, rfl, hb⟩
        · cases hn
      · intro h; obtain ⟨_, beyond, hin, rfl, c, rfl, hc⟩ := h
        obtain ⟨rfl, -⟩ := List.cons.inj hin
        rw [if_pos hc]; exact List.mem_singleton_self 1
  | noneOf set =>
    simp only [lengths, mem_descending, Nat.zero_le, true_and, le_run]
    refine StartsWith.congr (fun text => ?_) _ _
    simp [AllOf, Accepts]
  | rest =>
    simp only [lengths, mem_descending, Nat.zero_le, true_and, le_run]
    refine StartsWith.congr (fun text => ?_) _ _
    simp [AllOf, Accepts, inLine]

theorem lengths_descend_of_signed {lengths : Bytes → List Nat}
    (h : ∀ input, (lengths input).Pairwise (· > ·)) (input : Bytes) :
    (signedLengths lengths input).Pairwise (· > ·) := by
  unfold signedLengths
  split
  · split
    · rw [List.pairwise_map]
      exact (h _).imp fun hlt => Nat.succ_lt_succ hlt
    · exact h _
  · exact h _

theorem boundedLengths_descend (count min : Nat) (max : Option Nat) :
    (boundedLengths count min max).Pairwise (· > ·) := by
  cases max <;> exact descending_descend _ _

theorem decimalLengths_descend (minWhole : Nat) (input : Bytes) :
    (decimalLengths minWhole input).Pairwise (· > ·) := by
  simp only [decimalLengths]
  split
  · split
    · exact descending_descend _ _
    · exact .nil
  · exact .nil

theorem numberLengths_descend (input : Bytes) : (numberLengths input).Pairwise (· > ·) := by
  simp only [numberLengths]
  split
  · exact .nil
  · rw [List.pairwise_append]
    refine ⟨?_, descending_descend _ _, ?_⟩
    · split
      · split
        · exact descending_descend _ _
        · exact .nil
      · exact .nil
    · -- with the point a text is longer than all the digits before it
      intro m hm k hk
      rw [mem_descending] at hk
      split at hm
      · split at hm
        · rw [mem_descending] at hm; omega
        · cases hm
      · cases hm

/-- The longest length is offered first, and none twice. -/
theorem lengths_descend (token : Token) (input : Bytes) :
    (token.lengths input).Pairwise (· > ·) := by
  cases token with
  | digits min max => exact boundedLengths_descend _ _ _
  | hex min max => exact boundedLengths_descend _ _ _
  | decimal => exact decimalLengths_descend 1 _
  | number => exact numberLengths_descend _
  | signedInteger => exact lengths_descend_of_signed (fun _ => boundedLengths_descend _ _ _) _
  | signedNumber => exact lengths_descend_of_signed numberLengths_descend _
  | coordinate => exact decimalLengths_descend 3 _
  | oneOf set =>
    simp only [lengths]
    split
    · split
      · exact List.pairwise_singleton _ _
      · exact .nil
    · exact .nil
  | noneOf set => exact descending_descend _ _
  | rest => exact descending_descend _ _

theorem startsWith_iff {language : Bytes → Prop} {input : Bytes} {n : Nat} :
    StartsWith language input n ↔ n ≤ input.length ∧ language (input.take n) := by
  refine ⟨?_, ?_⟩
  · intro ⟨text, after, hin, hn, ht⟩
    subst hin hn
    refine ⟨List.length_append ▸ Nat.le_add_right _ _, ?_⟩
    rwa [List.take_left]
  · intro ⟨hn, ht⟩
    exact ⟨input.take n, input.drop n, (List.take_append_drop n input).symm,
      List.length_take_of_le hn, ht⟩

/-- **The lengths of a token are exact and greedy.** They fall strictly, from the longest text on;
none is beyond the end of the input; and a length within the input is offered just when that many
bytes at its start are in the token's language, whatever the bounds of the token are. -/
theorem lengths_exact (token : Token) (input : Bytes) :
    (token.lengths input).Pairwise (· > ·) ∧ (∀ n ∈ token.lengths input, n ≤ input.length) ∧
      ∀ n ≤ input.length, n ∈ token.lengths input ↔ token.Accepts (input.take n) := by
  have hmem (n : Nat) : n ∈ token.lengths input ↔
      n ≤ input.length ∧ token.Accepts (input.take n) :=
    (mem_lengths token input n).trans startsWith_iff
  refine ⟨lengths_descend token input, ?_, ?_⟩
  · intro n hn
    exact ((hmem n).mp hn).1
  · intro n hn
    rw [hmem n]
    exact and_iff_right hn

/-- Of a point without digits behind it, a number can take all, or the digits before it. -/
example : number.lengths (Ascii.utf8 "12.,") = [3, 2, 1] := by decide +kernel

end TrackerWire.Token
