import Mathlib.Data.List.Forall2
import TrackerWire.Proofs.Grammar.Foremost
import TrackerWire.Proofs.Sentence.Acceptance

/-!
# Fields with commas between them

The sentences of an engine are numbers with a comma between each two. No number has a comma in it,
so the search has nothing to choose: a sentence is read just as it is split at its commas.

* `splitOn_utf8`: splitting a text at an ASCII character splits its bytes.
* `isSome_parse_separated`: a sentence matches just when there are as many fields as tokens, and
  each is a text of its token.
* `fields_separated`: the captures are the fields.
-/
namespace TrackerWire

open Slot

/-! ## Splitting -/

theorem splitOn_append_of_not_mem {α : Type} [DecidableEq α] {a : α} {front : List α}
    (h : a ∉ front) (rest : List α) :
    (front ++ rest).splitOn a = (rest.splitOn a).modifyHead (front ++ ·) := by
  obtain ⟨first, others, hrest⟩ := List.exists_cons_of_ne_nil (List.splitOn_ne_nil a rest)
  rw [hrest]
  induction front with
  | nil => exact hrest
  | cons x front ih =>
    obtain ⟨hx, hfront⟩ := not_or.mp (List.mem_cons.not.mp h)
    rw [List.cons_append, List.splitOn_cons_eq_if_modifyHead, ih hfront, if_neg]
    · rfl
    · simpa using fun heq => hx heq.symm

/-- **Splitting a text splits its bytes.** -/
theorem splitOn_utf8 {b : UInt8} (hb : b < 0x80) (cs : List Char) :
    (cs.flatMap String.utf8EncodeChar).splitOn b =
      (cs.splitOn (Ascii.char b)).map (·.flatMap String.utf8EncodeChar) := by
  induction cs with
  | nil => rfl
  | cons c cs ih =>
    obtain ⟨first, others, hcs⟩ :=
      List.exists_cons_of_ne_nil (List.splitOn_ne_nil (Ascii.char b) cs)
    rw [List.flatMap_cons, List.splitOn_cons_eq_if_modifyHead]
    by_cases hc : c = Ascii.char b
    · rw [hc, Utf8.encode_char hb, if_pos (beq_self_eq_true _), List.singleton_append,
        List.splitOn_cons_eq_if_modifyHead, if_pos (beq_self_eq_true _), ih]
      rfl
    · have hnone : b ∉ String.utf8EncodeChar c := fun hmem => Utf8.encode_of_ne hb hc b hmem rfl
      rw [splitOn_append_of_not_mem hnone, ih, if_neg (by simpa using hc), hcs]
      rfl

def commaFields (s : String) : List String := (s.split ',').toList.map String.Slice.copy

theorem utf8_commaFields (s : String) :
    (commaFields s).map Ascii.utf8 = (Ascii.utf8 s).splitOn Ascii.comma := by
  have hcomma : Ascii.char Ascii.comma = ',' := by decide
  have hfield : (fun cs => Ascii.utf8 (String.ofList cs)) =
      (·.flatMap String.utf8EncodeChar) := by
    funext cs
    rw [Utf8.utf8_eq, String.toList_ofList]
  rw [commaFields, String.toList_split_char, List.map_map, Utf8.utf8_eq,
    splitOn_utf8 (by decide), hcomma, ← hfield]
  rfl

namespace Sentence

/-! ## What the grammar reads -/

theorem numeric_noComma {token : Token} (h : token.isNumeric = true) {text : Bytes}
    (haccepts : token.Accepts text) : Ascii.comma ∉ text := by
  have hcomma : token.alphabet Ascii.comma = false := by
    cases token <;> first | rfl | cases h
  exact Token.Text.not_mem ⟨text, haccepts⟩ hcomma

theorem commaSeparated_cons (token : Token) {rest : List Token} (h : rest ≠ []) :
    commaSeparated (token :: rest) = captured token :: comma :: commaSeparated rest := by
  cases rest with
  | nil => exact absurd rfl h
  | cons => rfl

theorem spells_separated {tokens : List Token} {text : Bytes} {texts : List (Option Bytes)}
    (h : Spells (commaSeparated tokens) text texts) : ∃ fields : List Bytes,
      List.Forall₂ Token.Accepts tokens fields ∧ text = [Ascii.comma].intercalate fields ∧
        texts = fields.map some := by
  induction tokens generalizing text texts with
  | nil =>
    obtain ⟨rfl, rfl⟩ := h.nil
    exact ⟨[], .nil, rfl, rfl⟩
  | cons token rest ih =>
    by_cases hrest : rest = []
    · subst hrest
      obtain ⟨field, _, _, rfl, rfl, haccepts, hnil⟩ := h.captured_cons
      obtain ⟨rfl, rfl⟩ := hnil.nil
      exact ⟨[field], .cons haccepts .nil, by simp, rfl⟩
    · rw [commaSeparated_cons token hrest] at h
      obtain ⟨field, _, _, rfl, rfl, haccepts, hbehind⟩ := h.captured_cons
      obtain ⟨_, rfl, hmore⟩ := hbehind.byte_cons
      obtain ⟨fields, hfields, rfl, rfl⟩ := ih hmore
      refine ⟨field :: fields, .cons haccepts hfields, ?_, rfl⟩
      have hne : fields ≠ [] := fun hnil => hrest (List.forall₂_nil_right_iff.mp (hnil ▸ hfields))
      rw [List.intercalate_cons_of_ne_nil hne]
      simp

theorem exists_reads_separated {tokens : List Token} {fields : List Bytes} (start : Nat)
    (h : List.Forall₂ Token.Accepts tokens fields) :
    ∃ r, ReadsBlock (commaSeparated tokens) start ([Ascii.comma].intercalate fields) r := by
  induction h generalizing start with
  | nil => exact ⟨_, .nil⟩
  | @cons token field rest fields haccepts hfields ih =>
    by_cases hrest : rest = []
    · subst hrest
      cases hfields
      rw [List.intercalate_singleton]
      exact ⟨_, readsBlock_single (.capture haccepts)⟩
    · have hne : fields ≠ [] := fun hnil => hrest (List.forall₂_nil_right_iff.mp (hnil ▸ hfields))
      obtain ⟨r, hr⟩ := ih (start + field.length + 1)
      rw [commaSeparated_cons token hrest, List.intercalate_cons_of_ne_nil hne, List.append_assoc]
      exact ⟨_, .cons (.capture haccepts) (.cons .literal hr)⟩

theorem separated_ascii {tokens : List Token}
    (hnumeric : ∀ token ∈ tokens, token.isNumeric = true) :
    BlockMadeOf (· < 0x80) (commaSeparated tokens) := by
  induction tokens with
  | nil => trivial
  | cons token rest ih =>
    obtain ⟨htoken, hothers⟩ := List.forall_mem_cons.mp hnumeric
    by_cases hrest : rest = []
    · subst hrest
      exact ⟨numeric_ascii htoken, trivial⟩
    · rw [commaSeparated_cons token hrest]
      exact ⟨numeric_ascii htoken, byte_madeOf (by decide), ih hothers⟩

/-! ## Matches -/

section
variable {tokens : List Token} (hne : tokens ≠ [])
  (hnumeric : ∀ token ∈ tokens, token.isNumeric = true)
include hne hnumeric

/-- What numbers with commas between them are split into. -/
theorem splitOn_separated {fields : List Bytes} (h : List.Forall₂ Token.Accepts tokens fields) :
    ([Ascii.comma].intercalate fields).splitOn Ascii.comma = fields := by
  refine List.splitOn_intercalate _ (fun field hfield => ?_) fun hnil => ?_
  · obtain ⟨index, hindex, rfl⟩ := List.getElem_of_mem hfield
    have hindex' : index < tokens.length := h.length_eq ▸ hindex
    exact numeric_noComma (hnumeric _ (List.getElem_mem hindex')) (h.get hindex' hindex)
  · exact hne (List.forall₂_nil_right_iff.mp (hnil ▸ h))

/-- A match holds the fields, and each is a text of its token. -/
theorem fields_separated {name s : String} {captures : Captures}
    (h : (Grammar.build name (commaSeparated tokens)).parse s = some captures) :
    List.Forall₂ Token.Accepts tokens ((commaFields s).map Ascii.utf8) ∧
      ∀ index, captures.bytesAt index = ((commaFields s).map Ascii.utf8)[index]? := by
  obtain ⟨texts, hspells, hholds⟩ := parse_spells (separated_ascii hnumeric) h
  obtain ⟨fields, hfields, htext, rfl⟩ := spells_separated hspells
  rw [utf8_commaFields, htext, splitOn_separated hne hnumeric hfields]
  refine ⟨hfields, fun index => ?_⟩
  rw [hholds, List.getElem?_map]
  cases fields[index]? <;> rfl

/-- **A sentence matches just when its fields are texts of the tokens**, one for each. -/
theorem isSome_parse_separated (name s : String) :
    ((Grammar.build name (commaSeparated tokens)).parse s).isSome = true ↔
      List.Forall₂ Token.Accepts tokens ((commaFields s).map Ascii.utf8) := by
  refine ⟨fun h => ?_, fun h => ?_⟩
  · obtain ⟨captures, hparse⟩ := Option.isSome_iff_exists.mp h
    exact (fields_separated hne hnumeric hparse).1
  · have hreads := exists_reads_separated 0 h
    rw [utf8_commaFields, List.intercalate_splitOn] at hreads
    exact (parse_isSome _ _ _).mpr hreads

end

end Sentence

end TrackerWire
