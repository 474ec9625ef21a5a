import Mathlib.Data.List.Forall2
import TrackerWire.Proofs.Grammar.Foremost

/-!
# What a match has captured

Every capture of a grammar has its token. Whatever the search has gone through, what it has
captured in the end is a text of that token, for each capture that took part.

* `marked_readsBlock`: a reading captures texts of the declared tokens, capture by capture.
* `bytesAt_present`: a capture of ASCII that cannot be empty is never cut inside a character,
  whatever stands around it, so it is read whenever it took part.
-/
namespace TrackerWire

/-! ## Tokens by capture -/

mutual

/-- The tokens of the captures in a slot, in the order of their declaration. -/
def Slot.tokens : Slot → List Token
  | .literal _ => []
  | .skip _ => []
  | .capture token _ => [token]
  | .optional block => Slot.blockTokens block
  | .either alternatives _ => Slot.alternativesTokens alternatives

def Slot.blockTokens : List Slot → List Token
  | [] => []
  | slot :: rest => slot.tokens ++ Slot.blockTokens rest

def Slot.alternativesTokens : List (List Slot) → List Token
  | [] => []
  | block :: rest => Slot.blockTokens block ++ Slot.alternativesTokens rest

end

/-- A capture that took part is a text of the token, within a text that starts at `start`. -/
def Token.Marks (start : Nat) (text : Bytes) (token : Token) (group : Option Span) : Prop :=
  ∀ span ∈ group, ∃ before piece after, text = before ++ (piece ++ after) ∧ token.Accepts piece ∧
    span = ⟨start + before.length, start + before.length + piece.length⟩

/-- Captures of tokens, one by one. -/
abbrev Marked (start : Nat) (text : Bytes) (tokens : List Token)
    (groups : List (Option Span)) : Prop :=
  List.Forall₂ (Token.Marks start text) tokens groups

theorem Token.marks_none (start : Nat) (text : Bytes) (token : Token) :
    token.Marks start text none :=
  fun _ h => nomatch h

namespace Marked

variable {start : Nat} {text : Bytes} {tokens others : List Token}
  {groups more : List (Option Span)}

theorem append (h : Marked start text tokens groups) (h' : Marked start text others more) :
    Marked start text (tokens ++ others) (groups ++ more) :=
  List.rel_append h h'

/-- What is marked in a text is marked in a longer one. -/
theorem extend (h : Marked start text tokens groups) (behind : Bytes) :
    Marked start (text ++ behind) tokens groups := by
  refine h.imp fun token group hmarks span hspan => ?_
  obtain ⟨before, piece, after, rfl, haccepts, hat⟩ := hmarks span hspan
  exact ⟨before, piece, after ++ behind, by simp only [List.append_assoc], haccepts, hat⟩

theorem shift {front : Bytes} (h : Marked (start + front.length) text tokens groups) :
    Marked start (front ++ text) tokens groups := by
  refine h.imp fun token group hmarks span hspan => ?_
  obtain ⟨before, piece, after, rfl, haccepts, rfl⟩ := hmarks span hspan
  refine ⟨front ++ before, piece, after, by simp only [List.append_assoc], haccepts, ?_⟩
  simp only [List.length_append, Nat.add_assoc]

end Marked

mutual

theorem marked_absent (start : Nat) (text : Bytes) (slot : Slot) :
    Marked start text slot.tokens slot.absent.groups := by
  match slot with
  | .literal bytes => exact .nil
  | .skip token => exact .nil
  | .capture token index => exact .cons (token.marks_none start text) .nil
  | .optional block => exact marked_absentBlock start text block
  | .either alternatives index => exact marked_absentAlternatives start text alternatives

theorem marked_absentBlock (start : Nat) (text : Bytes) (block : List Slot) :
    Marked start text (Slot.blockTokens block) (Slot.absentBlock block).groups := by
  match block with
  | [] => exact .nil
  | slot :: rest =>
    exact (marked_absent start text slot).append (marked_absentBlock start text rest)

theorem marked_absentAlternatives (start : Nat) (text : Bytes) (alternatives : List (List Slot)) :
    Marked start text (Slot.alternativesTokens alternatives)
      (Slot.absentAlternatives alternatives).groups := by
  match alternatives with
  | [] => exact .nil
  | block :: rest =>
    exact (marked_absentBlock start text block).append (marked_absentAlternatives start text rest)

end

mutual

theorem marked_reads (slot : Slot) {start : Nat} {text : Bytes} {reading : Reading}
    (h : Slot.Reads slot start text reading) :
    Marked start text slot.tokens reading.groups := by
  match slot with
  | .literal bytes =>
    cases h
    exact .nil
  | .skip token =>
    cases h
    exact .nil
  | .capture token index =>
    cases h with
    | capture haccepts =>
      refine .cons (fun span hspan => ?_) .nil
      cases hspan
      exact ⟨[], text, [], by rw [List.append_nil, List.nil_append], haccepts, rfl⟩
  | .optional block =>
    cases h with
    | taken h =>
      have hblock := marked_readsBlock block h
      exact hblock
    | omitted => exact marked_absentBlock start [] block
  | .either alternatives index =>
    cases h with
    | either h =>
      have hone := marked_readsOneOf alternatives h
      exact hone

/-- **What a reading captures are texts of the declared tokens**, capture by capture. -/
theorem marked_readsBlock (block : List Slot) {start : Nat} {text : Bytes} {reading : Reading}
    (h : Slot.ReadsBlock block start text reading) :
    Marked start text (Slot.blockTokens block) reading.groups := by
  match block with
  | [] =>
    cases h
    exact .nil
  | slot :: rest =>
    cases h with
    | @cons _ _ _ _ more _ _ hfirst hrest =>
      exact ((marked_reads slot hfirst).extend more).append (marked_readsBlock rest hrest).shift

theorem marked_readsOneOf (alternatives : List (List Slot)) {start n : Nat} {text : Bytes}
    {reading : Reading} (h : Slot.ReadsOneOf alternatives start text n reading) :
    Marked start text (Slot.alternativesTokens alternatives) reading.groups := by
  match alternatives with
  | [] => cases h
  | block :: rest =>
    cases h with
    | here h => exact (marked_readsBlock block h).append (marked_absentAlternatives start text rest)
    | there h => exact (marked_absentBlock start text block).append (marked_readsOneOf rest h)

end

/-! ## Captures are whole characters -/

/-- Behind an ASCII byte of a text a character starts, or the text ends. -/
theorem Utf8.aligned_behind {s : String} {before after : Bytes} {b : UInt8} (hb : b < 0x80)
    (h : Ascii.utf8 s = before ++ b :: after) : Utf8.Aligned after := by
  rw [Utf8.utf8_eq] at h
  generalize s.toList = cs at h
  -- character by character, up to the one that the byte is
  induction cs generalizing before with
  | nil => exact absurd h (by simp)
  | cons c cs ih =>
    rw [List.flatMap_cons] at h
    rcases List.append_eq_append_iff.mp h with ⟨front, -, hrest⟩ | ⟨behind, hchar, hrest⟩
    · exact ih hrest
    · cases behind with
      | nil => exact @ih [] hrest.symm
      | cons x behind =>
        obtain ⟨rfl, rfl⟩ := List.cons.inj hrest
        obtain ⟨first, others, he, -, ⟨-, rfl, -⟩ | hnone⟩ := Utf8.encode_cases c
        · rw [he] at hchar
          obtain ⟨-, rfl⟩ : before = [] ∧ behind = [] := by
            cases before with
            | nil => exact ⟨rfl, (List.cons.inj hchar).2.symm⟩
            | cons y before => simp at hchar
          have haligned := Utf8.aligned_utf8 (String.ofList cs)
          rw [Utf8.utf8_eq, String.toList_ofList] at haligned
          exact haligned
        · refine absurd hb (hnone b ?_)
          rw [← he, hchar]
          exact List.mem_append_right _ List.mem_cons_self

/-- The texts of the token are ASCII, and none of them is empty. -/
structure Token.Plain (token : Token) : Prop where
  ascii : token.MadeOf (· < 0x80)
  solid : ¬ token.Accepts []

/-- A plain text in a string is cut out of it whole. -/
theorem Token.Plain.cut? {token : Token} (htoken : token.Plain) {s : String}
    {before piece after : Bytes} (hs : Ascii.utf8 s = before ++ (piece ++ after))
    (hpiece : token.Accepts piece) :
    Span.cut? (Ascii.utf8 s) ⟨before.length, before.length + piece.length⟩ = some piece := by
  have hascii : Ascii.All piece := fun b hb =>
    of_decide_eq_true (htoken.ascii b (allOf_alphabet hpiece b hb))
  have hafter : Utf8.Aligned after := by
    rcases List.eq_nil_or_concat piece with rfl | ⟨most, last, rfl⟩
    · exact absurd hpiece htoken.solid
    · have hbehind : Ascii.utf8 s = (before ++ most) ++ last :: after := by rw [hs]; simp
      exact Utf8.aligned_behind (hascii last (by simp)) hbehind
  rw [hs]
  exact cut?_middle before (Utf8.aligned_ascii hascii) hafter

/-! ## What a block can report -/

/-- Which captures of a reading took part. -/
def Reading.present (r : Reading) : List Bool := r.groups.map Option.isSome

@[simp] theorem Reading.present_append (r s : Reading) :
    (r ++ s).present = r.present ++ s.present := List.map_append

@[simp] theorem Reading.present_branch (n : Nat) : (branch n).present = [] := rfl

@[simp] theorem Reading.alternatives_branch (n : Nat) : (branch n).alternatives = [some n] := rfl

theorem Reading.present_joined (readings : List Reading) :
    (joined readings).present = readings.flatMap present := by
  induction readings with
  | nil => rfl
  | cons r readings ih =>
    rw [List.flatMap_cons, ← ih]
    exact present_append r _

theorem Reading.alternatives_joined (readings : List Reading) :
    (joined readings).alternatives = readings.flatMap alternatives := by
  induction readings with
  | nil => rfl
  | cons r readings ih =>
    rw [List.flatMap_cons, ← ih]
    exact alternatives_append r _

/-- The block has a reading with these captures and alternatives. -/
def Slot.Reports (block : List Slot) (present : List Bool) (alternatives : List (Option Nat)) :
    Prop :=
  ∃ start text r, ReadsBlock block start text r ∧ r.present = present ∧
    r.alternatives = alternatives

theorem Slot.ReadsBlock.reports {block : List Slot} {start : Nat} {text : Bytes} {r : Reading}
    (h : ReadsBlock block start text r) : Reports block r.present r.alternatives :=
  ⟨start, text, r, h, rfl, rfl⟩

namespace Slot.Reports

variable {block other rest : List Slot} {slot : Slot} {present : List Bool}
  {alternatives : List (Option Nat)}

theorem nil (h : Reports [] present alternatives) : present = [] ∧ alternatives = [] := by
  obtain ⟨start, text, r, hreads, rfl, rfl⟩ := h
  cases hreads
  exact ⟨rfl, rfl⟩

theorem cons (h : Reports (slot :: rest) present alternatives) :
    ∃ first more firstChosen moreChosen, present = first ++ more ∧
      alternatives = firstChosen ++ moreChosen ∧ Reports [slot] first firstChosen ∧
        Reports rest more moreChosen := by
  obtain ⟨start, text, r, hreads, rfl, rfl⟩ := h
  cases hreads with
  | cons hslot hrest =>
    exact ⟨_, _, _, _, Reading.present_append _ _, Reading.alternatives_append _ _,
      (readsBlock_single hslot).reports, hrest.reports⟩

theorem byte_cons {b : UInt8} (h : Reports (byte b :: rest) present alternatives) :
    Reports rest present alternatives := by
  obtain ⟨_, _, _, _, rfl, rfl, ⟨start, text, r, hbyte, rfl, rfl⟩, hrest⟩ := h.cons
  cases readsBlock_singleton hbyte
  exact hrest

theorem skip_cons {token : Token} (h : Reports (.skip token :: rest) present alternatives) :
    Reports rest present alternatives := by
  obtain ⟨_, _, _, _, rfl, rfl, ⟨start, text, r, hskip, rfl, rfl⟩, hrest⟩ := h.cons
  cases readsBlock_singleton hskip
  exact hrest

theorem captured_cons {token : Token}
    (h : Reports (captured token :: rest) present alternatives) :
    ∃ more, present = true :: more ∧ Reports rest more alternatives := by
  obtain ⟨_, more, _, _, rfl, rfl, ⟨start, text, r, hcaptured, rfl, rfl⟩, hrest⟩ := h.cons
  cases readsBlock_singleton hcaptured
  exact ⟨more, rfl, hrest⟩

theorem optional_cons (h : Reports (.optional block :: rest) present alternatives) :
    ∃ first more firstChosen moreChosen, present = first ++ more ∧
      alternatives = firstChosen ++ moreChosen ∧
      (Reports block first firstChosen ∨ first = (absentBlock block).present ∧
        firstChosen = (absentBlock block).alternatives) ∧
      Reports rest more moreChosen := by
  obtain ⟨first, more, _, _, rfl, rfl, ⟨start, text, r, hoptional, rfl, rfl⟩, hrest⟩ := h.cons
  refine ⟨_, more, _, _, rfl, rfl, ?_, hrest⟩
  cases readsBlock_singleton hoptional with
  | taken hblock => exact .inl hblock.reports
  | omitted => exact .inr ⟨rfl, rfl⟩

/-- One of two blocks, and which one. -/
theorem anyOf (h : Reports [.anyOf [block, other]] present alternatives) :
    ∃ part chosen, Reports block part chosen ∧ present = part ++ (absentBlock other).present ∧
        alternatives = some 0 :: (chosen ++ (absentBlock other).alternatives) ∨
      Reports other part chosen ∧ present = (absentBlock block).present ++ part ∧
        alternatives = some 1 :: ((absentBlock block).alternatives ++ chosen) := by
  obtain ⟨start, text, r, hreads, rfl, rfl⟩ := h
  cases readsBlock_singleton hreads with
  | either hone =>
    cases hone with
    | @here _ _ _ _ s hblock =>
      have hother : absentAlternatives [other] = absentBlock other := Reading.append_nil _
      rw [hother]
      exact ⟨s.present, s.alternatives, .inl ⟨hblock.reports, by simp, by simp⟩⟩
    | there hone =>
      cases hone with
      | @here _ _ _ _ s hother =>
        rw [absentAlternatives, Reading.append_nil]
        exact ⟨s.present, s.alternatives, .inr ⟨hother.reports, by simp, by simp⟩⟩
      | there hnone => cases hnone

end Slot.Reports

/-! ## A whole sentence -/

/-- Did the capture of this number take part in the match? -/
def Captures.isPresent (captures : Captures) (index : Nat) : Bool :=
  ((captures.groups[index]?).join).isSome

theorem Captures.isPresent_eq (input : Bytes) (r : Reading) (alternatives : List (Option Nat))
    (cursor index : Nat) :
    isPresent ⟨input, r.groups, alternatives, cursor⟩ index = (r.present[index]?).getD false := by
  unfold isPresent Reading.present
  rw [List.getElem?_map]
  cases r.groups[index]? <;> rfl

theorem Captures.bytesAt_absent {captures : Captures} {index : Nat}
    (h : captures.isPresent index = false) : captures.bytesAt index = none := by
  rw [isPresent, Option.isSome_eq_false_iff, Option.isNone_iff_eq_none] at h
  rw [bytesAt, h]

theorem Captures.bind_absent {α : Type} {captures : Captures} {index : Nat}
    (h : captures.isPresent index = false) (read : Bytes → Option α) :
    (captures.bytesAt index).bind read = none := by
  rw [bytesAt_absent h, Option.bind_none]

section
variable {name : String} {slots : List Slot} {sentence : String} {captures : Captures}

/-- **A capture that took part is read**, as a text of its token, if its token is plain. -/
theorem bytesAt_present (h : (Grammar.build name slots).parse sentence = some captures)
    {index : Nat} {token : Token} (htoken : (Slot.blockTokens slots)[index]? = some token)
    (hplain : token.Plain) (hpresent : captures.isPresent index = true) :
    ∃ piece, captures.bytesAt index = some piece ∧ token.Accepts piece := by
  obtain ⟨r, hr, rfl⟩ := parse_foremost h
  obtain ⟨span, hspan⟩ := Option.isSome_iff_exists.mp hpresent
  have hgroup : r.groups[index]? = some (some span) := Option.join_eq_some_iff.mp hspan
  obtain ⟨hindex, htoken⟩ := List.getElem?_eq_some_iff.mp htoken
  obtain ⟨hindex', hgroup⟩ := List.getElem?_eq_some_iff.mp hgroup
  have hmarks := (marked_readsBlock slots hr.1).get hindex hindex'
  simp only [List.get_eq_getElem, htoken, hgroup] at hmarks
  obtain ⟨before, piece, after, hinput, haccepts, rfl⟩ := hmarks span rfl
  refine ⟨piece, ?_, haccepts⟩
  have hcut := hplain.cut? hinput haccepts
  rw [Nat.zero_add] at hspan
  unfold Captures.bytesAt
  rw [hspan]
  exact hcut

end

end TrackerWire
