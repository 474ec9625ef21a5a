import TrackerWire.Proofs.Grammar.Preferred

/-!
# What a block can read

`Prefers` says what is read first. Here is what can be read at all, taken apart: a text that a
block reads is made up of a text for each of its slots.

* `readsBlock_append`: a reading of two blocks is a reading of each.
* `allOf_readsBlock`: a text has no bytes but those that the block's slots are made of.
* `Slot.Spells block text texts`: the block can read `text`, capturing `texts`, wherever it stands;
  for each kind of slot there is what that says of the text and of the texts captured.
-/
namespace TrackerWire

/-- The token's texts are made of bytes of a class. -/
def Token.MadeOf (p : UInt8 → Bool) (token : Token) : Prop :=
  ∀ b, token.alphabet b = true → p b = true

mutual

/-- The texts of a slot are made of bytes of a class. -/
def Slot.MadeOf (p : UInt8 → Bool) : Slot → Prop
  | .literal bytes => Token.AllOf p bytes
  | .skip token => token.MadeOf p
  | .capture token _ => token.MadeOf p
  | .optional block => Slot.BlockMadeOf p block
  | .either alternatives _ => Slot.AlternativesMadeOf p alternatives

def Slot.BlockMadeOf (p : UInt8 → Bool) : List Slot → Prop
  | [] => True
  | slot :: rest => slot.MadeOf p ∧ Slot.BlockMadeOf p rest

def Slot.AlternativesMadeOf (p : UInt8 → Bool) : List (List Slot) → Prop
  | [] => True
  | block :: rest => Slot.BlockMadeOf p block ∧ Slot.AlternativesMadeOf p rest

end

mutual

theorem allOf_reads {p : UInt8 → Bool} (slot : Slot) (hslot : slot.MadeOf p) {start : Nat}
    {text : Bytes} {reading : Reading} (h : Slot.Reads slot start text reading) :
    Token.AllOf p text := by
  match slot with
  | .literal bytes =>
    cases h
    exact hslot
  | .skip token =>
    cases h with
    | skip h => exact fun b hb => hslot b (Token.allOf_alphabet h b hb)
  | .capture token index =>
    cases h with
    | capture h => exact fun b hb => hslot b (Token.allOf_alphabet h b hb)
  | .optional block =>
    cases h with
    | taken h => exact allOf_readsBlock block hslot h
    | omitted => exact fun _ hb => nomatch hb
  | .either alternatives index =>
    cases h with
    | either h => exact allOf_readsOneOf alternatives hslot h

theorem allOf_readsBlock {p : UInt8 → Bool} (block : List Slot)
    (hblock : Slot.BlockMadeOf p block) {start : Nat} {text : Bytes} {reading : Reading}
    (h : Slot.ReadsBlock block start text reading) : Token.AllOf p text := by
  match block with
  | [] =>
    cases h
    exact fun _ hb => nomatch hb
  | slot :: rest =>
    cases h with
    | cons hfirst hrest =>
      exact List.forall_mem_append.mpr
        ⟨allOf_reads slot hblock.1 hfirst, allOf_readsBlock rest hblock.2 hrest⟩

theorem allOf_readsOneOf {p : UInt8 → Bool} (alternatives : List (List Slot))
    (halternatives : Slot.AlternativesMadeOf p alternatives) {start n : Nat} {text : Bytes}
    {reading : Reading} (h : Slot.ReadsOneOf alternatives start text n reading) :
    Token.AllOf p text := by
  match alternatives with
  | [] => cases h
  | block :: rest =>
    cases h with
    | here h => exact allOf_readsBlock block halternatives.1 h
    | there h => exact allOf_readsOneOf rest halternatives.2 h

end

namespace Slot

theorem readsBlock_append {early late : List Slot} {start : Nat} {text : Bytes}
    {reading : Reading} : ReadsBlock (early ++ late) start text reading ↔
      ∃ first second r s, text = first ++ second ∧ reading = r ++ s ∧
        ReadsBlock early start first r ∧ ReadsBlock late (start + first.length) second s := by
  induction early generalizing start text reading with
  | nil =>
    refine ⟨fun h => ⟨[], text, {}, reading, rfl, rfl, .nil, h⟩, ?_⟩
    rintro ⟨first, second, r, s, rfl, rfl, hnil, h⟩
    cases hnil
    exact h
  | cons slot early ih =>
    refine ⟨fun h => ?_, ?_⟩
    · cases h with
      | @cons _ _ _ head _ hr _ hslot hrest =>
        obtain ⟨first, second, r, s, rfl, rfl, hearly, hlate⟩ := ih.mp hrest
        refine ⟨head ++ first, second, hr ++ r, s, (List.append_assoc ..).symm,
          (Reading.append_assoc ..).symm, .cons hslot hearly, ?_⟩
        rw [List.length_append, ← Nat.add_assoc]
        exact hlate
    · rintro ⟨first, second, r, s, rfl, rfl, hearly, hlate⟩
      cases hearly with
      | cons hslot hrest =>
        rw [List.length_append, ← Nat.add_assoc] at hlate
        rw [List.append_assoc, Reading.append_assoc]
        exact .cons hslot (ih.mpr ⟨_, _, _, _, rfl, rfl, hrest, hlate⟩)

theorem readsBlock_singleton {slot : Slot} {start : Nat} {text : Bytes} {reading : Reading}
    (h : ReadsBlock [slot] start text reading) : Reads slot start text reading := by
  generalize hblock : [slot] = block at h
  cases h with
  | nil => cases hblock
  | cons hslot hnil =>
    cases hblock
    cases hnil
    rw [List.append_nil, Reading.append_nil]
    exact hslot

theorem Prefers.reads {block : List Slot} {text after : Bytes} {texts : List (Option Bytes)}
    {alternatives : List (Option Nat)} (h : Prefers block text after texts alternatives)
    (hafter : Utf8.Aligned after) : ∃ r, ReadsBlock block 0 text r := by
  obtain ⟨r, hr, -, -⟩ := h.first hafter []
  obtain ⟨read, hstands, hreads⟩ :=
    (mem_readingsBlock _ block 0 _ r).mp (List.mem_of_mem_head? hr)
  have hlength : read.length = text.length := by
    have hstop := hstands.2
    rw [List.length_nil] at hstop
    omega
  have hread : read = text := by
    obtain ⟨behind, hbehind⟩ : read <+: text ++ after := hstands.1
    exact (List.append_inj hbehind hlength).1
  exact ⟨r, hread ▸ hreads⟩

/-! ## Spelling -/

/-- An ASCII text that the block can read, with what it captures wherever it stands. -/
def Spells (block : List Slot) (text : Bytes) (texts : List (Option Bytes)) : Prop :=
  Ascii.All text ∧ ∃ before after r, Utf8.Aligned after ∧
    ReadsBlock block before.length text r ∧ r.texts (before ++ (text ++ after)) = texts

namespace Spells

variable {block early late rest : List Slot} {text : Bytes} {texts : List (Option Bytes)}

theorem nil (h : Spells [] text texts) : text = [] ∧ texts = [] := by
  obtain ⟨-, before, after, r, -, hreads, rfl⟩ := h
  cases hreads
  exact ⟨rfl, rfl⟩

theorem append (h : Spells (early ++ late) text texts) : ∃ first second firstTexts secondTexts,
    text = first ++ second ∧ texts = firstTexts ++ secondTexts ∧
      Spells early first firstTexts ∧ Spells late second secondTexts := by
  obtain ⟨hascii, before, after, reading, hafter, hreads, rfl⟩ := h
  obtain ⟨first, second, r, s, rfl, rfl, hearly, hlate⟩ := readsBlock_append.mp hreads
  obtain ⟨hfirst, hsecond⟩ := Ascii.all_append.mp hascii
  rw [← List.length_append] at hlate
  refine ⟨first, second, _, _, rfl, Reading.texts_append _ r s, ⟨hfirst, before, second ++ after,
    r, Utf8.aligned_append (Utf8.aligned_ascii hsecond) hafter, hearly, ?_⟩,
    ⟨hsecond, before ++ first, after, s, hafter, hlate, ?_⟩⟩
  · rw [List.append_assoc]
  · simp only [List.append_assoc]

theorem cons {slot : Slot} (h : Spells (slot :: rest) text texts) :
    ∃ first more firstTexts moreTexts, text = first ++ more ∧ texts = firstTexts ++ moreTexts ∧
      Spells [slot] first firstTexts ∧ Spells rest more moreTexts :=
  @append [slot] rest text texts h

theorem byte_cons {b : UInt8} (h : Spells (byte b :: rest) text texts) :
    ∃ more, text = b :: more ∧ Spells rest more texts := by
  obtain ⟨first, more, firstTexts, texts, rfl, rfl, hbyte, hrest⟩ := h.cons
  obtain ⟨-, before, after, r, -, hreads, rfl⟩ := hbyte
  cases readsBlock_singleton hreads
  exact ⟨more, rfl, hrest⟩

theorem skip_cons {token : Token} (h : Spells (.skip token :: rest) text texts) :
    ∃ first more, text = first ++ more ∧ token.Accepts first ∧ Spells rest more texts := by
  obtain ⟨first, more, firstTexts, texts, rfl, rfl, hskip, hrest⟩ := h.cons
  obtain ⟨-, before, after, r, -, hreads, rfl⟩ := hskip
  cases readsBlock_singleton hreads with
  | skip haccepts => exact ⟨first, more, rfl, haccepts, hrest⟩

theorem captured_cons {token : Token} (h : Spells (captured token :: rest) text texts) :
    ∃ first more moreTexts, text = first ++ more ∧ texts = some first :: moreTexts ∧
      token.Accepts first ∧ Spells rest more moreTexts := by
  obtain ⟨first, more, firstTexts, moreTexts, rfl, rfl, hcaptured, hrest⟩ := h.cons
  obtain ⟨hascii, before, after, r, hafter, hreads, rfl⟩ := hcaptured
  cases readsBlock_singleton hreads with
  | capture haccepts =>
    refine ⟨first, more, moreTexts, rfl, ?_, haccepts, hrest⟩
    exact congrArg (· :: moreTexts) (cut?_middle before (Utf8.aligned_ascii hascii) hafter)

/-- An optional block is there, or nothing is. -/
theorem optional_cons (h : Spells (.optional block :: rest) text texts) :
    ∃ first more firstTexts moreTexts, text = first ++ more ∧
      texts = firstTexts ++ moreTexts ∧
      (Spells block first firstTexts ∨
        first = [] ∧ firstTexts = List.replicate (absentBlock block).tally.groups none) ∧
      Spells rest more moreTexts := by
  obtain ⟨first, more, firstTexts, moreTexts, rfl, rfl, hoptional, hrest⟩ := h.cons
  refine ⟨first, more, firstTexts, moreTexts, rfl, rfl, ?_, hrest⟩
  obtain ⟨hascii, before, after, r, hafter, hreads, rfl⟩ := hoptional
  cases readsBlock_singleton hreads with
  | taken hblock => exact .inl ⟨hascii, before, after, _, hafter, hblock, rfl⟩
  | omitted =>
    refine .inr ⟨rfl, ?_⟩
    exact Reading.texts_blank (absentBlock_blank block) _

end Spells

end Slot

/-! ## A whole sentence -/

theorem parse_isSome (name : String) (slots : List Slot) (sentence : String) :
    ((Grammar.build name slots).parse sentence).isSome = true ↔
      ∃ r, Slot.ReadsBlock slots 0 (Ascii.utf8 sentence) r := by
  rw [Grammar.parse, Option.isSome_map, marks?_build, Option.isSome_map, ← Bool.not_eq_false,
    Option.isSome_eq_false_iff, Option.isNone_iff_eq_none, find_readingsBlock_none]
  exact Classical.not_forall_not

theorem parse_reads {name : String} {slots : List Slot} {sentence : String} {captures : Captures}
    (h : (Grammar.build name slots).parse sentence = some captures) :
    ∃ r, Slot.ReadsBlock slots 0 (Ascii.utf8 sentence) r ∧
      captures.Holds (r.texts (Ascii.utf8 sentence)) r.alternatives := by
  rw [Grammar.parse, marks?_build, Option.map_map, Option.map_eq_some_iff] at h
  obtain ⟨x, hfind, rfl⟩ := h
  exact ⟨x.2, (find_readingsBlock_some hfind).2.1, holds_reading _ x.2 0⟩

/-- Where all texts are ASCII, a match spells the sentence and holds what the grammar captures
of it. -/
theorem parse_spells {name : String} {slots : List Slot} {sentence : String} {captures : Captures}
    (hascii : Slot.BlockMadeOf (· < 0x80) slots)
    (h : (Grammar.build name slots).parse sentence = some captures) :
    ∃ texts, Slot.Spells slots (Ascii.utf8 sentence) texts ∧
      ∀ index, captures.bytesAt index = (texts[index]?).join := by
  obtain ⟨r, hreads, hholds⟩ := parse_reads h
  have hall : Ascii.All (Ascii.utf8 sentence) := fun b hb =>
    of_decide_eq_true (allOf_readsBlock slots hascii hreads b hb)
  refine ⟨r.texts (Ascii.utf8 sentence), ⟨hall, [], [], r, Utf8.aligned_ascii Ascii.all_nil,
    hreads, ?_⟩, hholds.bytesAt_eq⟩
  rw [List.append_nil, List.nil_append]

end TrackerWire
