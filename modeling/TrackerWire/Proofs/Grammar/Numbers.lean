import Mathlib.Data.List.Range
import TrackerWire.Grammar.Slot

/-!
# The numbers in a grammar

The captures and the alternations of slots carry numbers; `Slot.numbers` lists both kinds in the
order of their declaration, through all blocks. Numbering puts consecutive numbers there, from the
ones already given out on (`counts_numberBlock`). So no number of a numbered grammar is given out
twice (`distinct_build`).

Nothing but the numbers is changed, and those from before have no influence: with every number zero
(`Slot.unnumbered`) the slots are the same before and after (`unnumberedBlock_numberBlock`), and they
are numbered in the same way (`numberBlock_unnumberedBlock`).
-/
namespace TrackerWire

/-- The numbers of captures and those of alternations, first declared first. -/
structure Numbers where
  groups : List Nat := []
  alternations : List Nat := []
  deriving DecidableEq, Repr

namespace Numbers

/-- Numbers of what is declared later. -/
def append (a b : Numbers) : Numbers := ⟨a.groups ++ b.groups, a.alternations ++ b.alternations⟩

instance : Append Numbers := ⟨append⟩

theorem append_assoc (a b c : Numbers) : a ++ b ++ c = a ++ (b ++ c) := by
  show append (append a b) c = append a (append b c)
  simp only [append, List.append_assoc]

theorem append_nil (a : Numbers) : a ++ ({} : Numbers) = a := by
  show append a {} = a
  simp only [append, List.append_nil]

/-- No number stands twice in either list. -/
structure Distinct (numbers : Numbers) : Prop where
  groups : numbers.groups.Nodup
  alternations : numbers.alternations.Nodup

/-- Some of the numbers, in the same order. -/
structure Part (a b : Numbers) : Prop where
  groups : a.groups.Sublist b.groups
  alternations : a.alternations.Sublist b.alternations

theorem Distinct.part {a b : Numbers} (h : b.Distinct) (hpart : a.Part b) : a.Distinct :=
  ⟨h.groups.sublist hpart.groups, h.alternations.sublist hpart.alternations⟩

namespace Part

variable {a b c d : Numbers}

theorem refl (a : Numbers) : a.Part a := ⟨.refl _, .refl _⟩

theorem trans (h : a.Part b) (h' : b.Part c) : a.Part c :=
  ⟨h.groups.trans h'.groups, h.alternations.trans h'.alternations⟩

theorem append (h : a.Part b) (h' : c.Part d) : (a ++ c).Part (b ++ d) :=
  ⟨h.groups.append h'.groups, h.alternations.append h'.alternations⟩

theorem left (a b : Numbers) : a.Part (a ++ b) :=
  ⟨List.sublist_append_left _ _, List.sublist_append_left _ _⟩

theorem right (a b : Numbers) : b.Part (a ++ b) :=
  ⟨List.sublist_append_right _ _, List.sublist_append_right _ _⟩

theorem without_third (a b c d : Numbers) : (a ++ (b ++ d)).Part (a ++ (b ++ c) ++ d) := by
  rw [append_assoc a]
  exact (refl a).append ((left b c).append (refl d))

theorem without_second (a b c d : Numbers) : (a ++ c ++ d).Part (a ++ (b ++ c) ++ d) :=
  ((refl a).append (right b c)).append (refl d)

end Part

end Numbers

mutual

/-- The numbers that a slot carries, with those inside it. -/
def Slot.numbers : Slot → Numbers
  | .literal _ => {}
  | .skip _ => {}
  | .capture _ index => { groups := [index] }
  | .optional block => Slot.blockNumbers block
  | .either alternatives index =>
    { alternations := [index] } ++ Slot.alternativesNumbers alternatives

def Slot.blockNumbers : List Slot → Numbers
  | [] => {}
  | slot :: rest => slot.numbers ++ Slot.blockNumbers rest

def Slot.alternativesNumbers : List (List Slot) → Numbers
  | [] => {}
  | block :: rest => Slot.blockNumbers block ++ Slot.alternativesNumbers rest

end

theorem Slot.part_block (early late : List Slot) (slot : Slot) :
    slot.numbers.Part (Slot.blockNumbers (early ++ slot :: late)) := by
  induction early with
  | nil => exact .left _ _
  | cons first early ih => exact ih.trans (.right _ _)

theorem Slot.part_alternatives {alternatives : List (List Slot)} {block : List Slot}
    (h : block ∈ alternatives) :
    (Slot.blockNumbers block).Part (Slot.alternativesNumbers alternatives) := by
  induction alternatives with
  | nil => cases h
  | cons first others ih =>
    rcases List.mem_cons.mp h with rfl | h
    · exact .left _ _
    · exact (ih h).trans (.right _ _)

/-! ## Numbering -/

/-- The numbers from one tally up to another: consecutive ones, each once. -/
def Numbers.Counts (numbers : Numbers) (before after : Tally) : Prop :=
  ∃ groups alternations,
    numbers = ⟨List.range' before.groups groups, List.range' before.alternations alternations⟩ ∧
    after = ⟨before.groups + groups, before.alternations + alternations⟩

namespace Numbers.Counts

variable {a b : Numbers} {first second third : Tally}

theorem nil (tally : Tally) : ({} : Numbers).Counts tally tally := ⟨0, 0, rfl, rfl⟩

theorem append (h : a.Counts first second) (h' : b.Counts second third) :
    (a ++ b).Counts first third := by
  obtain ⟨groups, alternations, rfl, rfl⟩ := h
  obtain ⟨groups', alternations', rfl, rfl⟩ := h'
  refine ⟨groups + groups', alternations + alternations', ?_, ?_⟩
  · show Numbers.append _ _ = _
    simp only [Numbers.append, List.range'_append_1]
  · simp only [Nat.add_assoc]

theorem distinct (h : a.Counts first second) : a.Distinct := by
  obtain ⟨groups, alternations, rfl, -⟩ := h
  exact ⟨List.nodup_range', List.nodup_range'⟩

end Numbers.Counts

mutual

theorem counts_number (slot : Slot) (tally : Tally) :
    (slot.number tally).1.numbers.Counts tally (slot.number tally).2 := by
  match slot with
  | .literal bytes => exact .nil tally
  | .skip token => exact .nil tally
  | .capture token index => exact ⟨1, 0, rfl, rfl⟩
  | .optional block => exact counts_numberBlock block tally
  | .either alternatives index =>
    have hself : ({ alternations := [tally.alternations] } : Numbers).Counts tally
        { tally with alternations := tally.alternations + 1 } := ⟨0, 1, rfl, rfl⟩
    exact hself.append (counts_numberAlternatives alternatives _)

/-- **A numbered block carries consecutive numbers**, from those already given out on. -/
theorem counts_numberBlock (block : List Slot) (tally : Tally) :
    (Slot.blockNumbers (Slot.numberBlock block tally).1).Counts tally
      (Slot.numberBlock block tally).2 := by
  match block with
  | [] => exact .nil tally
  | slot :: rest => exact (counts_number slot tally).append (counts_numberBlock rest _)

theorem counts_numberAlternatives (alternatives : List (List Slot)) (tally : Tally) :
    (Slot.alternativesNumbers (Slot.numberAlternatives alternatives tally).1).Counts tally
      (Slot.numberAlternatives alternatives tally).2 := by
  match alternatives with
  | [] => exact .nil tally
  | block :: rest =>
    exact (counts_numberBlock block tally).append (counts_numberAlternatives rest _)

end

theorem distinct_build (name : String) (slots : List Slot) :
    (Slot.blockNumbers (Grammar.build name slots).slots).Distinct :=
  (counts_numberBlock slots {}).distinct

/-- The captures of a numbered grammar and its alternations carry the first numbers there are. -/
theorem blockNumbers_build (name : String) (slots : List Slot) :
    let grammar := Grammar.build name slots
    Slot.blockNumbers grammar.slots =
      ⟨List.range grammar.groups, List.range grammar.alternations⟩ := by
  obtain ⟨groups, alternations, hnumbers, htally⟩ := counts_numberBlock slots {}
  simp only [Grammar.build, hnumbers, htally, Nat.zero_add, List.range_eq_range']

/-! ## Slots without their numbers -/

mutual

/-- A slot with all its numbers zero. -/
def Slot.unnumbered : Slot → Slot
  | .literal bytes => .literal bytes
  | .skip token => .skip token
  | .capture token _ => .captured token
  | .optional block => .optional (Slot.unnumberedBlock block)
  | .either alternatives _ => .anyOf (Slot.unnumberedAlternatives alternatives)

def Slot.unnumberedBlock : List Slot → List Slot
  | [] => []
  | slot :: rest => slot.unnumbered :: Slot.unnumberedBlock rest

def Slot.unnumberedAlternatives : List (List Slot) → List (List Slot)
  | [] => []
  | block :: rest => Slot.unnumberedBlock block :: Slot.unnumberedAlternatives rest

end

mutual

theorem unnumbered_number (slot : Slot) (tally : Tally) :
    (slot.number tally).1.unnumbered = slot.unnumbered := by
  match slot with
  | .literal bytes => rfl
  | .skip token => rfl
  | .capture token index => rfl
  | .optional block => simp only [Slot.number, Slot.unnumbered, unnumberedBlock_numberBlock]
  | .either alternatives index =>
    simp only [Slot.number, Slot.unnumbered, unnumberedAlternatives_numberAlternatives]

/-- **Numbering changes nothing but the numbers.** -/
theorem unnumberedBlock_numberBlock (block : List Slot) (tally : Tally) :
    Slot.unnumberedBlock (Slot.numberBlock block tally).1 = Slot.unnumberedBlock block := by
  match block with
  | [] => rfl
  | slot :: rest =>
    simp only [Slot.numberBlock, Slot.unnumberedBlock, unnumbered_number,
      unnumberedBlock_numberBlock]

theorem unnumberedAlternatives_numberAlternatives (alternatives : List (List Slot))
    (tally : Tally) :
    Slot.unnumberedAlternatives (Slot.numberAlternatives alternatives tally).1 =
      Slot.unnumberedAlternatives alternatives := by
  match alternatives with
  | [] => rfl
  | block :: rest =>
    simp only [Slot.numberAlternatives, Slot.unnumberedAlternatives, unnumberedBlock_numberBlock,
      unnumberedAlternatives_numberAlternatives]

end

mutual

theorem number_unnumbered (slot : Slot) (tally : Tally) :
    slot.unnumbered.number tally = slot.number tally := by
  match slot with
  | .literal bytes => rfl
  | .skip token => rfl
  | .capture token index => rfl
  | .optional block => simp only [Slot.unnumbered, Slot.number, numberBlock_unnumberedBlock]
  | .either alternatives index =>
    simp only [Slot.unnumbered, Slot.anyOf, Slot.number, numberAlternatives_unnumberedAlternatives]

/-- **The numbers from before have no influence on the new ones.** -/
theorem numberBlock_unnumberedBlock (block : List Slot) (tally : Tally) :
    Slot.numberBlock (Slot.unnumberedBlock block) tally = Slot.numberBlock block tally := by
  match block with
  | [] => rfl
  | slot :: rest =>
    simp only [Slot.unnumberedBlock, Slot.numberBlock, number_unnumbered,
      numberBlock_unnumberedBlock]

theorem numberAlternatives_unnumberedAlternatives (alternatives : List (List Slot))
    (tally : Tally) :
    Slot.numberAlternatives (Slot.unnumberedAlternatives alternatives) tally =
      Slot.numberAlternatives alternatives tally := by
  match alternatives with
  | [] => rfl
  | block :: rest =>
    simp only [Slot.unnumberedAlternatives, Slot.numberAlternatives, numberBlock_unnumberedBlock,
      numberAlternatives_unnumberedAlternatives]

end

/-- Slots make the same grammar exactly if they differ in their numbers at most. -/
theorem build_eq_iff (name : String) (slots other : List Slot) :
    Grammar.build name other = Grammar.build name slots ↔
      Slot.unnumberedBlock other = Slot.unnumberedBlock slots := by
  constructor
  · intro h
    have hslots := congrArg (fun grammar => Slot.unnumberedBlock grammar.slots) h
    simpa only [Grammar.build, unnumberedBlock_numberBlock] using hslots
  · intro h
    rw [Grammar.build, ← numberBlock_unnumberedBlock, h, numberBlock_unnumberedBlock, Grammar.build]

end TrackerWire
