import Mathlib.Data.List.Basic
import TrackerWire.Text.Escape
import TrackerWire.Text.Hex
import TrackerWire.Text.Pad

/-!
# Text that can be read back

A way to write values is `Delimited` if a value and the text behind it are known from the two
together. Text up to a separator is, and so is text of a fixed width and what has been escaped; a
column can be read up to the blank behind it. What is written one after the other with a delimited
writer is then known as a whole.

* `cut_at`: the text in front of a separator that is not in it.
* `delimited_number`, `delimited_label`, `cut_column`: numbers and columns.
* `delimited_escape`, `escaped_injective`: no two texts are escaped alike.
* `Hex.delimited_word`, `Hex.list_injective`: nor are two byte strings written alike.
-/
namespace TrackerWire

/-- What stands in front of a separator that is not in it is known. -/
theorem cut_at {α : Type} {x : α} {first first' rest rest' : List α} (hfirst : x ∉ first)
    (hfirst' : x ∉ first') (h : first ++ x :: rest = first' ++ x :: rest') :
    first = first' ∧ rest = rest' := by
  induction first generalizing first' with
  | nil =>
    cases first' with
    | nil => exact ⟨rfl, (List.cons.inj h).2⟩
    | cons y first' => exact absurd ((List.cons.inj h).1 ▸ List.mem_cons_self) hfirst'
  | cons y first ih =>
    cases first' with
    | nil => exact absurd ((List.cons.inj h).1 ▸ List.mem_cons_self) hfirst
    | cons y' first' =>
      obtain ⟨rfl, hothers⟩ := List.cons.inj h
      obtain ⟨rfl, hrest⟩ := ih (List.not_mem_of_not_mem_cons hfirst)
        (List.not_mem_of_not_mem_cons hfirst') hothers
      exact ⟨rfl, hrest⟩

namespace Text

/-- Whatever is written behind a value, the value and what is behind it are known. -/
def Delimited {α : Type} (write : α → List Char) : Prop :=
  ∀ {a b : α} {rest rest' : List Char}, write a ++ rest = write b ++ rest' → a = b ∧ rest = rest'

/-- The text is made of characters of one class. -/
def Only (p : Char → Bool) (s : String) : Prop := ∀ c ∈ s.toList, p c = true

-- by the list: an instance may be found that goes through all characters
instance (p : Char → Bool) (s : String) : Decidable (Only p s) := List.decidableBAll _ s.toList

theorem only_append {p : Char → Bool} {s t : String} : Only p (s ++ t) ↔ Only p s ∧ Only p t := by
  unfold Only
  rw [String.toList_append, List.forall_mem_append]

theorem Only.not_mem {p : Char → Bool} {s : String} (h : Only p s) {c : Char} (hc : p c = false) :
    c ∉ s.toList := fun hmem => by
  rw [h c hmem] at hc
  cases hc

/-! ## Separators -/

theorem delimited_before {α : Type} {write : α → List Char} (hwrite : Function.Injective write)
    {c : Char} (hc : ∀ a, c ∉ write a) : Delimited fun a => write a ++ [c] := by
  intro a b rest rest' h
  simp only [List.append_assoc, List.singleton_append] at h
  obtain ⟨hsame, hrest⟩ := cut_at (hc a) (hc b) h
  exact ⟨hwrite hsame, hrest⟩

/-- A list is known from its items written one after the other. -/
theorem Delimited.flatMap_injective {α : Type} {write : α → List Char} (h : Delimited write)
    (hne : ∀ a, write a ≠ []) : Function.Injective fun items : List α => items.flatMap write := by
  intro items
  induction items with
  | nil =>
    intro items' hsame
    cases items' with
    | nil => rfl
    | cons b items' => exact absurd (List.append_eq_nil_iff.mp hsame.symm).1 (hne b)
  | cons a items ih =>
    intro items' hsame
    cases items' with
    | nil => exact absurd (List.append_eq_nil_iff.mp hsame).1 (hne a)
    | cons b items' =>
      obtain ⟨rfl, hrest⟩ := h hsame
      rw [ih hrest]

/-! ## Numbers -/

theorem mem_toDigits {base : Nat} (hbase : 1 < base) {n : Nat} {c : Char}
    (h : c ∈ Nat.toDigits base n) : ∃ digit < base, c = Nat.digitChar digit := by
  induction n using Nat.strongRecOn with
  | ind n ih =>
    rw [Nat.toDigits_eq_if hbase] at h
    split at h
    · exact ⟨n, by assumption, List.mem_singleton.mp h⟩
    · rcases List.mem_append.mp h with h | h
      · exact ih (n / base) (Nat.div_lt_self (by omega) hbase) h
      · exact ⟨n % base, Nat.mod_lt n (by omega), List.mem_singleton.mp h⟩

theorem only_number (n : Nat) : Only Char.isDigit (toString n) := by
  intro c h
  rw [Nat.toString_eq_ofList_toDigits, String.toList_ofList] at h
  exact Nat.isDigit_of_mem_toDigits (by decide) (by decide) h

theorem only_zeroPad (width n : Nat) : Only Char.isDigit (zeroPad width n) := by
  refine only_append.mpr ⟨fun c h => ?_, only_number n⟩
  rw [copies, String.toList_ofList] at h
  rw [List.eq_of_mem_replicate h]
  rfl

theorem not_isAlpha {c : Char} (h : c.isDigit = true) : c.isAlpha = false := by
  have hdigit : 48 ≤ c.toNat ∧ c.toNat ≤ 57 := Char.isDigit_iff_toNat.mp h
  refine Bool.eq_false_iff.mpr fun halpha => ?_
  rcases Bool.or_eq_true_iff.mp halpha with hcase | hcase
  · have hupper : c.val ≥ 'A'.val ∧ c.val ≤ 'Z'.val := of_decide_eq_true hcase
    have hletter : 65 ≤ c.toNat := UInt32.le_iff_toNat_le.mp hupper.1
    omega
  · have hlower := Bool.and_eq_true_iff.mp (show (c.val ≥ 'a'.val && c.val ≤ 'z'.val) from hcase)
    have hletter : 97 ≤ c.toNat := UInt32.le_iff_toNat_le.mp (of_decide_eq_true hlower.1)
    omega

theorem digitChar_injective : ∀ m < 16, ∀ n < 16, Nat.digitChar m = Nat.digitChar n → m = n := by
  decide

theorem toDigits_ne_nil {base : Nat} (hbase : 1 < base) (n : Nat) : Nat.toDigits base n ≠ [] := by
  rw [Nat.toDigits_eq_if hbase]
  split
  · exact List.cons_ne_nil _ _
  · exact List.append_ne_nil_of_right_ne_nil _ (List.cons_ne_nil _ _)

theorem toDigits_injective {base : Nat} (hbase : 1 < base) (hmax : base ≤ 16) :
    Function.Injective (Nat.toDigits base) := by
  intro m
  induction m using Nat.strongRecOn with
  | ind m ih =>
    intro n h
    have hlast (k : Nat) : k % base < 16 := Nat.lt_of_lt_of_le (Nat.mod_lt k (by omega)) hmax
    rw [Nat.toDigits_eq_if hbase, Nat.toDigits_eq_if (n := n) hbase] at h
    by_cases hm : m < base <;> by_cases hn : n < base
    · rw [if_pos hm, if_pos hn] at h
      exact digitChar_injective m (by omega) n (by omega) (List.cons.inj h).1
    · rw [if_pos hm, if_neg hn] at h
      have h : [] ++ [Nat.digitChar m] = _ := h
      exact absurd (List.append_inj' h rfl).1.symm (toDigits_ne_nil hbase _)
    · rw [if_neg hm, if_pos hn] at h
      have h : _ = [] ++ [Nat.digitChar n] := h
      exact absurd (List.append_inj' h rfl).1 (toDigits_ne_nil hbase _)
    · rw [if_neg hm, if_neg hn] at h
      obtain ⟨hfront, hback⟩ := List.append_inj' h rfl
      have hdiv := ih (m / base) (Nat.div_lt_self (by omega) hbase) hfront
      have hmod := digitChar_injective _ (hlast m) _ (hlast n) (List.cons.inj hback).1
      rw [← Nat.div_add_mod m base, ← Nat.div_add_mod n base, hdiv, hmod]

theorem toString_injective : Function.Injective fun n : Nat => (toString n).toList := by
  intro m n h
  simp only [Nat.toString_eq_ofList_toDigits, String.toList_ofList] at h
  exact toDigits_injective (by decide) (by decide) h

theorem delimited_number {c : Char} (hc : c.isDigit = false) :
    Delimited fun n : Nat => (toString n).toList ++ [c] :=
  delimited_before toString_injective fun n => (only_number n).not_mem hc

/-! ## Columns -/

theorem toList_padLeft (width : Nat) (s : String) : (padLeft width s).toList =
    List.replicate (width - s.length) ' ' ++ s.toList := by
  rw [padLeft, copies, String.toList_append, String.toList_ofList]

theorem toList_padRight (width : Nat) (s : String) : (padRight width s).toList =
    s.toList ++ List.replicate (width - s.length) ' ' := by
  rw [padRight, copies, String.toList_append, String.toList_ofList]

theorem length_padLeft {width : Nat} {s : String} (h : s.length ≤ width) :
    (padLeft width s).toList.length = width := by
  rw [toList_padLeft, List.length_append, List.length_replicate, String.length_toList]
  omega

theorem length_padRight {width : Nat} {s : String} (h : s.length ≤ width) :
    (padRight width s).toList.length = width := by
  rw [toList_padRight, List.length_append, List.length_replicate, String.length_toList]
  omega

theorem exists_digit_padLeft (width n : Nat) : ∃ d rest, d.isDigit = true ∧
    (toString n).toList = d :: rest ∧
    (padLeft width (toString n)).toList =
      List.replicate (width - (rest.length + 1)) ' ' ++ d :: rest := by
  obtain ⟨d, rest, hdigits⟩ : ∃ d rest, (toString n).toList = d :: rest := by
    rw [Nat.toString_eq_ofList_toDigits, String.toList_ofList]
    exact List.exists_cons_of_ne_nil (toDigits_ne_nil (by decide) n)
  refine ⟨d, rest, only_number n d (hdigits ▸ List.mem_cons_self), hdigits, ?_⟩
  rw [toList_padLeft, hdigits, ← String.length_toList, hdigits, List.length_cons]

theorem padLeft_injective (width : Nat) :
    Function.Injective fun n : Nat => (padLeft width (toString n)).toList := by
  intro m n h
  have hdigits (k : Nat) :
      ((padLeft width (toString k)).toList.dropWhile (· = ' ')) = (toString k).toList := by
    obtain ⟨d, rest, hd, hk, hpad⟩ := exists_digit_padLeft width k
    rw [hpad, hk, List.dropWhile_append_of_pos (by simp), List.dropWhile_cons_of_neg]
    rintro hblank
    rw [of_decide_eq_true hblank] at hd
    cases hd
  refine toString_injective ?_
  show (toString m).toList = (toString n).toList
  rw [← hdigits m, ← hdigits n]
  exact congrArg _ h

theorem not_mem_padLeft (width n : Nat) {c : Char} (hblank : c ≠ ' ') (hdigit : c.isDigit = false) :
    c ∉ (padLeft width (toString n)).toList := by
  rw [toList_padLeft, List.mem_append, not_or]
  exact ⟨fun h => hblank (List.eq_of_mem_replicate h), (only_number n).not_mem hdigit⟩

theorem delimited_label (width : Nat) :
    Delimited fun n : Nat => (padLeft width (toString n)).toList ++ [':'] :=
  delimited_before (padLeft_injective width) fun n => not_mem_padLeft width n (by decide) rfl

theorem cut_column {width : Nat} {s t : String} {rest rest' : List Char} (hs : ' ' ∉ s.toList)
    (ht : ' ' ∉ t.toList)
    (h : (padRight width s).toList ++ ' ' :: rest = (padRight width t).toList ++ ' ' :: rest') :
    s = t ∧ rest = rest' := by
  -- the blanks of the column and the one behind it are one run of blanks
  have hrun (k : Nat) (tail : List Char) :
      List.replicate k ' ' ++ ' ' :: tail = ' ' :: (List.replicate k ' ' ++ tail) := by
    rw [← List.singleton_append, ← List.append_assoc, ← List.replicate_succ',
      List.replicate_succ, List.cons_append]
  rw [toList_padRight, toList_padRight, List.append_assoc, List.append_assoc, hrun, hrun] at h
  obtain ⟨hsame, hbehind⟩ := cut_at hs ht h
  obtain rfl := String.toList_inj.mp hsame
  exact ⟨rfl, List.append_cancel_left hbehind⟩

/-! ## Escapes -/

/-- A character, also escaped if it is one of some quotes. -/
def escapeQuoted (quotes : Char → Bool) (c : Char) : List Char :=
  if quotes c then ['\\', c] else escapeChar c

/-- The character that a letter behind a backslash stands for. -/
def meant (letter : Char) : Char :=
  match letter with
  | '0' => '\x00'
  | 't' => '\t'
  | 'r' => '\r'
  | 'n' => '\n'
  | other => other

/-- The three forms in which a character is written. -/
inductive Written (c : Char) : List Char → Prop
  | plain (h : c ≠ '\\') : Written c [c]
  | letter {letter : Char} (h : meant letter = c) (hletter : letter ≠ 'u') :
    Written c ['\\', letter]
  | number : Written c (unicodeEscape c)

theorem written_escapeQuoted {quotes : Char → Bool}
    (hquotes : ∀ c, quotes c = true → isQuote c = true) (c : Char) : Written c (escapeQuoted quotes c) := by
  unfold escapeQuoted
  split
  · rename_i hquote
    have hc := hquotes c hquote
    simp only [isQuote, Bool.or_eq_true, decide_eq_true_eq] at hc
    rcases hc with rfl | rfl <;> exact .letter rfl (by decide)
  · unfold escapeChar
    repeat' split
    -- the five characters that have a letter, then the hidden ones and the rest
    iterate 5 exact .letter (by subst c; rfl) (by decide)
    · exact .number
    · exact .plain ‹_›

theorem Written.ne_nil {c : Char} {text : List Char} (h : Written c text) : text ≠ [] := by
  cases h <;> exact List.cons_ne_nil _ _

theorem Written.cut {c c' : Char} {text text' rest rest' : List Char} (h : Written c text)
    (h' : Written c' text') (hsame : text ++ rest = text' ++ rest') : c = c' ∧ rest = rest' := by
  cases h with
  | plain hc =>
    cases h' with
    | plain => exact List.cons.inj hsame
    | letter | number => exact absurd (List.cons.inj hsame).1 hc
  | @letter letter hmeant hletter =>
    cases h' with
    | plain hc' => exact absurd (List.cons.inj hsame).1.symm hc'
    | letter hmeant' =>
      obtain ⟨rfl, hrest⟩ := List.cons.inj (List.cons.inj hsame).2
      exact ⟨hmeant.symm.trans hmeant', hrest⟩
    | number => exact absurd (List.cons.inj (List.cons.inj hsame).2).1 hletter
  | number =>
    cases h' with
    | plain hc' => exact absurd (List.cons.inj hsame).1.symm hc'
    | letter _ hletter' => exact absurd (List.cons.inj (List.cons.inj hsame).2).1.symm hletter'
    | number =>
      have hbrace (n : Nat) : '\x7d' ∉ Nat.toDigits 16 n := fun hmem => by
        obtain ⟨digit, hdigit, hc⟩ := mem_toDigits (by decide) hmem
        revert hc
        revert digit
        decide
      simp only [unicodeEscape, List.append_assoc, List.append_cancel_left_eq,
        List.singleton_append] at hsame
      obtain ⟨hdigits, hrest⟩ := cut_at (hbrace _) (hbrace _) hsame
      exact ⟨Char.toNat_inj.mp (toDigits_injective (by decide) (by decide) hdigits), hrest⟩

theorem delimited_escape {quotes : Char → Bool}
    (hquotes : ∀ c, quotes c = true → isQuote c = true) : Delimited (escapeQuoted quotes) :=
  fun h => (written_escapeQuoted hquotes _).cut (written_escapeQuoted hquotes _) h

/-- **No two texts are escaped alike.** -/
theorem escaped_injective : Function.Injective escaped := by
  intro s t h
  have hne (c : Char) : escapeQuoted isQuote c ≠ [] :=
    (written_escapeQuoted (fun _ h => h) c).ne_nil
  have hdelimited : Delimited (escapeQuoted isQuote) := delimited_escape fun _ h => h
  exact String.toList_inj.mp (hdelimited.flatMap_injective hne (String.ofList_inj.mp h))

theorem delimited_quoted : Delimited fun c => (quoted c).toList := by
  intro c c' rest rest' h
  have hquoted (c : Char) : (quoted c).toList =
      '\'' :: (escapeQuoted (· = '\'') c ++ ['\'']) := by
    rw [quoted, String.toList_ofList, escapeQuoted]
    by_cases hc : c = '\''
    · subst hc; rfl
    · rw [if_neg hc, if_neg (by simpa using hc)]; rfl
  have hquote : ∀ c, decide (c = '\'') = true → isQuote c = true := fun c hc => by
    rw [of_decide_eq_true hc]; rfl
  simp only [hquoted, List.cons_append, List.append_assoc] at h
  obtain ⟨rfl, hrest⟩ := delimited_escape hquote (List.cons.inj h).2
  exact ⟨rfl, (List.cons.inj hrest).2⟩

end Text

open Text

namespace Hex

theorem delimited_byteDigits : Delimited byteDigits := by
  intro a b rest rest' h
  obtain ⟨hhigh, hlow⟩ := List.cons.inj h
  obtain ⟨hlow, hrest⟩ := List.cons.inj hlow
  have ha := a.toNat_lt
  have hb := b.toNat_lt
  have hhigh := digitChar_injective _ (by omega) _ (by omega) hhigh
  have hlow := digitChar_injective _ (by omega) _ (by omega) hlow
  exact ⟨UInt8.toNat_inj.mp (by omega), hrest⟩

theorem length_word (w : UInt16) : (word w).toList.length = 4 := by
  rw [word, encode, String.toList_ofList]
  rfl

theorem delimited_word : Delimited fun w => (word w).toList := by
  intro v w rest rest' h
  obtain ⟨hsame, hrest⟩ := List.append_inj h ((length_word v).trans (length_word w).symm)
  have hbytes : Bytes.ofWord v = Bytes.ofWord w :=
    delimited_byteDigits.flatMap_injective (fun _ => List.cons_ne_nil _ _)
      (String.ofList_inj.mp (String.toList_inj.mp hsame))
  refine ⟨?_, hrest⟩
  have hv := Bytes.leadingWord_ofWord v []
  rw [hbytes, Bytes.leadingWord_ofWord] at hv
  exact hv.symm

/-- A byte behind the one before it. -/
def nextByte (b : UInt8) : List Char := ',' :: ' ' :: byteDigits b

theorem delimited_nextByte : Delimited nextByte :=
  fun h => delimited_byteDigits (List.cons.inj (List.cons.inj h).2).2

theorem toList_intercalate (b : UInt8) (bytes : Bytes) :
    (", ".intercalate ((b :: bytes).map fun b => String.ofList (byteDigits b))).toList =
      byteDigits b ++ bytes.flatMap nextByte := by
  induction bytes generalizing b with
  | nil =>
    rw [List.map_singleton, String.intercalate_singleton, String.toList_ofList, List.flatMap_nil,
      List.append_nil]
  | cons c bytes ih =>
    have hrest := ih c
    rw [List.map_cons] at hrest
    rw [List.map_cons, List.map_cons, String.intercalate_cons_cons, String.toList_append,
      String.toList_append, String.toList_ofList, hrest, List.flatMap_cons, List.append_assoc]
    rfl

/-- **No two byte strings are written alike.** -/
theorem list_injective : Function.Injective list := by
  intro bytes bytes' h
  have hsame := congrArg String.toList h
  simp only [list, String.toList_append, List.append_assoc, List.append_cancel_left_eq,
    List.append_cancel_right_eq] at hsame
  cases bytes with
  | nil =>
    cases bytes' with
    | nil => rfl
    | cons b bytes' => rw [toList_intercalate] at hsame; cases hsame
  | cons b bytes =>
    cases bytes' with
    | nil => rw [toList_intercalate] at hsame; cases hsame
    | cons b' bytes' =>
      rw [toList_intercalate, toList_intercalate] at hsame
      obtain ⟨rfl, hrest⟩ := delimited_byteDigits hsame
      rw [delimited_nextByte.flatMap_injective (fun _ => List.cons_ne_nil _ _) hrest]

end Hex

end TrackerWire
