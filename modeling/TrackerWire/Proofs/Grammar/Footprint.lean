import TrackerWire.Proofs.Grammar.FirstMatch
import TrackerWire.Proofs.Grammar.Numbers

/-!
# What a search leaves behind

A search marks captures and alternations as it goes, and takes its marks back in three ways: a
capture unmarks itself, a block and an alternation go back to the marks they were given, the other
slots do nothing. Where no number stands twice among the slots ahead and their marks are blank, the
three add up: a search that fails gives back the very marks it was given, and one that succeeds has
changed no mark but those of the slots ahead (`Leaves`).

* `run_leaves`: a slot keeps this up for the continuation behind it.
* `search_leaves_no_trace`: it holds wherever a search of a numbered grammar can stand.
-/
namespace TrackerWire

namespace Marks

/-- The captures and alternations of these numbers are not marked. -/
structure BlankOn (numbers : Numbers) (marks : Marks) : Prop where
  groups : ∀ i ∈ numbers.groups, (marks.groups[i]?).join = none
  alternatives : ∀ i ∈ numbers.alternations, (marks.alternatives[i]?).join = none

/-- Marks before and after, with no change but to the captures and alternations of these numbers. -/
structure ChangedOn (numbers : Numbers) (before after : Marks) : Prop where
  groups_length : after.groups.length = before.groups.length
  alternatives_length : after.alternatives.length = before.alternatives.length
  groups : ∀ i, i ∉ numbers.groups → after.groups[i]? = before.groups[i]?
  alternatives : ∀ i, i ∉ numbers.alternations → after.alternatives[i]? = before.alternatives[i]?

theorem BlankOn.part {a b : Numbers} {marks : Marks} (h : marks.BlankOn b) (hpart : a.Part b) :
    marks.BlankOn a :=
  ⟨fun i hi => h.groups i (hpart.groups.subset hi),
    fun i hi => h.alternatives i (hpart.alternations.subset hi)⟩

namespace ChangedOn

variable {a b : Numbers} {first second third : Marks}

theorem refl (numbers : Numbers) (marks : Marks) : ChangedOn numbers marks marks :=
  ⟨rfl, rfl, fun _ _ => rfl, fun _ _ => rfl⟩

theorem trans (h : ChangedOn a first second) (h' : ChangedOn a second third) :
    ChangedOn a first third :=
  ⟨h'.groups_length.trans h.groups_length, h'.alternatives_length.trans h.alternatives_length,
    fun i hi => (h'.groups i hi).trans (h.groups i hi),
    fun i hi => (h'.alternatives i hi).trans (h.alternatives i hi)⟩

theorem part (h : ChangedOn a first second) (hpart : a.Part b) : ChangedOn b first second :=
  ⟨h.groups_length, h.alternatives_length,
    fun i hi => h.groups i fun hmem => hi (hpart.groups.subset hmem),
    fun i hi => h.alternatives i fun hmem => hi (hpart.alternations.subset hmem)⟩

theorem blankOn (h : ChangedOn a first second) (hblank : first.BlankOn b)
    (hdistinct : (a ++ b).Distinct) : second.BlankOn b := by
  refine ⟨fun i hi => ?_, fun i hi => ?_⟩
  · rw [h.groups i fun hmem => (List.nodup_append.mp hdistinct.groups).2.2 i hmem i hi rfl]
    exact hblank.groups i hi
  · rw [h.alternatives i fun hmem =>
      (List.nodup_append.mp hdistinct.alternations).2.2 i hmem i hi rfl]
    exact hblank.alternatives i hi

end ChangedOn

theorem setGroup_changedOn (marks : Marks) (index : Nat) (span : Option Span) :
    ChangedOn { groups := [index] } marks (marks.setGroup index span) where
  groups_length := List.length_set
  alternatives_length := rfl
  groups _ hi := List.getElem?_set_ne fun heq => hi (List.mem_singleton.mpr heq.symm)
  alternatives _ _ := rfl

theorem setAlternative_changedOn (marks : Marks) (index choice : Nat) :
    ChangedOn { alternations := [index] } marks (marks.setAlternative index choice) where
  groups_length := rfl
  alternatives_length := List.length_set
  groups _ _ := rfl
  alternatives _ hi := List.getElem?_set_ne fun heq => hi (List.mem_singleton.mpr heq.symm)

theorem setGroup_none {marks : Marks} {index : Nat} (h : (marks.groups[index]?).join = none) :
    marks.setGroup index none = marks := by
  have hset : marks.groups.set index none = marks.groups := by
    refine List.ext_getElem? fun i => ?_
    rw [List.getElem?_set]
    split
    · rename_i heq
      subst heq
      cases hold : marks.groups[index]? with
      | none => rw [if_neg (Nat.not_lt.mpr (List.getElem?_eq_none_iff.mp hold))]
      | some old =>
        rw [hold, Option.join_some] at h
        rw [if_pos (List.getElem?_eq_some_iff.mp hold).1, h]
    · rfl
  rw [setGroup, hset]

/-- What a search with these numbers ahead makes of blank marks. -/
inductive Outcome (numbers : Numbers) (marks : Marks) : Bool × Marks → Prop
  | failed : Outcome numbers marks (false, marks)
  | matched {after : Marks} (h : ChangedOn numbers marks after) : Outcome numbers marks (true, after)

end Marks

open Marks

/-- With the marks of these numbers blank, a failure leaves all marks as they were, and a success
changes those of the numbers at most. -/
def Leaves (numbers : Numbers) (following : Continuation) : Prop :=
  ∀ position marks, marks.BlankOn numbers → Outcome numbers marks (following position marks)

/-! ## One slot -/

section
variable {numbers : Numbers} {following : Continuation} {marks : Marks}

theorem Marks.Outcome.restores {position : Nat}
    (h : Outcome numbers marks (following position marks)) :
    Restores following position marks := by
  intro hfailed
  generalize following position marks = result at h hfailed
  cases h with
  | failed => rfl
  | matched hchanged => cases hfailed

theorem Marks.Outcome.changedOn {result : Bool × Marks} {after : Marks}
    (h : Outcome numbers marks result) (hfound : found? result = some after) :
    ChangedOn numbers marks after := by
  cases h with
  | failed => cases hfound
  | matched hchanged => cases hfound; exact hchanged

theorem Marks.outcome_answer {found : Option Marks}
    (h : ∀ after, found = some after → ChangedOn numbers marks after) :
    Outcome numbers marks (answer marks found) := by
  cases found with
  | none => exact .failed
  | some after => exact .matched (h after rfl)

/-- A token tries one length after the other, from the same marks. -/
theorem leaves_skip (h : Leaves numbers following) (subject : Subject) (token : Token) :
    Leaves numbers (Slot.run subject (.skip token) following) := by
  intro position marks hblank
  have hattempt : ∀ length, Outcome numbers marks (following (position + length) marks) :=
    fun length => h _ _ hblank
  rw [Slot.run, firstSuccess_eq _ _ _ fun length _ => (hattempt length).restores]
  refine outcome_answer fun after hfound => ?_
  obtain ⟨length, -, hfound⟩ := List.exists_of_findSome?_eq_some hfound
  exact (hattempt length).changedOn hfound

/-- A capture is left with the mark of the length that failed last, until it unmarks itself. -/
theorem leaves_capture {index : Nat}
    (hdistinct : (({ groups := [index] } : Numbers) ++ numbers).Distinct)
    (h : Leaves numbers following) (subject : Subject) (token : Token) :
    Leaves ({ groups := [index] } ++ numbers)
      (Slot.run subject (.capture token index) following) := by
  intro position marks hblank
  have hset (length : Nat) :=
    setGroup_changedOn marks index (some ⟨position, position + length⟩)
  have hattempt (length : Nat) :=
    h (position + length) _ ((hset length).blankOn (hblank.part (.right _ _)) hdistinct)
  obtain ⟨left, hleft, hrun⟩ := firstSuccess_capture following position index
    (token.lengths (subject.after position)) marks fun length _ => (hattempt length).restores
  rw [Slot.run, hrun]
  cases hfound : (token.lengths (subject.after position)).findSome? fun length =>
      found? (following (position + length)
        (marks.setGroup index (some ⟨position, position + length⟩))) with
  | none =>
    simp only [answer, hleft, setGroup_none (hblank.groups index List.mem_cons_self)]
    exact .failed
  | some after =>
    obtain ⟨length, -, hfound⟩ := List.exists_of_findSome?_eq_some hfound
    have hchanged := (hattempt length).changedOn hfound
    exact .matched (((hset length).part (.left _ _)).trans (hchanged.part (.right _ _)))

end

mutual

theorem run_leaves (subject : Subject) (slot : Slot) {numbers : Numbers} {following : Continuation}
    (hdistinct : (slot.numbers ++ numbers).Distinct) (h : Leaves numbers following) :
    Leaves (slot.numbers ++ numbers) (slot.run subject following) := by
  match slot with
  | .literal bytes =>
    intro position marks hblank
    rw [Slot.run]
    split
    · exact h _ _ hblank
    · exact .failed
  | .skip token => exact leaves_skip h subject token
  | .capture token index => exact leaves_capture hdistinct h subject token
  | .optional block =>
    intro position marks hblank
    have hblock := runBlock_leaves subject block hdistinct h position marks hblank
    have homitted := h position marks (hblank.part (.right _ _))
    rw [Slot.run]
    generalize Slot.runBlock subject block following position marks = result at hblock
    cases hblock with
    | matched hchanged => exact .matched hchanged
    | failed =>
      generalize following position marks = result at homitted
      cases homitted with
      | failed => exact .failed
      | matched hchanged => exact .matched (hchanged.part (.right _ _))
  | .either alternatives index =>
    intro position marks hblank
    exact runAlternatives_leaves subject alternatives 0 hdistinct h position marks hblank

/-- **A block leaves no trace when it fails**, if what follows it does not, and else changes the
marks of the block and of what follows at most. -/
theorem runBlock_leaves (subject : Subject) (block : List Slot) {numbers : Numbers}
    {following : Continuation} (hdistinct : (Slot.blockNumbers block ++ numbers).Distinct)
    (h : Leaves numbers following) :
    Leaves (Slot.blockNumbers block ++ numbers) (Slot.runBlock subject block following) := by
  match block with
  | [] => exact h
  | slot :: rest =>
    rw [Slot.blockNumbers, Numbers.append_assoc] at hdistinct ⊢
    have hrest := runBlock_leaves subject rest (hdistinct.part (.right _ _)) h
    exact run_leaves subject slot hdistinct hrest

theorem runAlternatives_leaves (subject : Subject) (alternatives : List (List Slot)) {index : Nat}
    (choice : Nat) {numbers : Numbers} {following : Continuation}
    (hdistinct : (({ alternations := [index] } : Numbers) ++
      Slot.alternativesNumbers alternatives ++ numbers).Distinct)
    (h : Leaves numbers following) :
    Leaves ({ alternations := [index] } ++ Slot.alternativesNumbers alternatives ++ numbers)
      (Slot.runAlternatives subject index choice alternatives following) := by
  match alternatives with
  | [] => exact fun _ _ _ => .failed
  | block :: rest =>
    rw [Slot.alternativesNumbers] at hdistinct ⊢
    intro position marks hblank
    have hset := setAlternative_changedOn marks index choice
    have hofBlock := Numbers.Part.without_third { alternations := [index] }
      (Slot.blockNumbers block) (Slot.alternativesNumbers rest) numbers
    have hofRest := Numbers.Part.without_second { alternations := [index] }
      (Slot.blockNumbers block) (Slot.alternativesNumbers rest) numbers
    have hblock := runBlock_leaves subject block (hdistinct.part ((Numbers.Part.right _ _).trans
      hofBlock)) h position (marks.setAlternative index choice)
      (hset.blankOn (hblank.part ((Numbers.Part.right _ _).trans hofBlock))
        (hdistinct.part hofBlock))
    have hrest := runAlternatives_leaves subject rest (choice + 1) (hdistinct.part hofRest) h
      position marks (hblank.part hofRest)
    rw [Slot.runAlternatives]
    generalize Slot.runBlock subject block following position _ = result at hblock
    cases hblock with
    | matched hchanged =>
      have hall := (hset.part (.left _ _)).trans (hchanged.part (.right _ _))
      exact .matched (hall.part hofBlock)
    | failed =>
      generalize Slot.runAlternatives subject index _ rest following position marks = result at hrest
      cases hrest with
      | failed => exact .failed
      | matched hchanged => exact .matched (hchanged.part hofRest)

end

/-! ## What is still to be matched -/

/-- The numbers of blocks that wait one behind the other. -/
def Slot.stackNumbers : List (List Slot) → Numbers
  | [] => {}
  | block :: outer => Slot.blockNumbers block ++ Slot.stackNumbers outer

/-- What is still to be matched at some point of a search for these slots: the rest of the block
that is being matched, and behind it the rests of the blocks around it. -/
inductive Slot.Ahead (slots : List Slot) : List (List Slot) → Prop
  /-- Nothing is matched yet. -/
  | whole : Slot.Ahead slots [slots]
  /-- A slot is matched. -/
  | behind {slot rest outer} (h : Slot.Ahead slots ((slot :: rest) :: outer)) :
    Slot.Ahead slots (rest :: outer)
  /-- A block is matched. -/
  | outward {outer} (h : Slot.Ahead slots ([] :: outer)) : Slot.Ahead slots outer
  /-- An optional block is entered. -/
  | block {block rest outer} (h : Slot.Ahead slots ((.optional block :: rest) :: outer)) :
    Slot.Ahead slots (block :: rest :: outer)
  /-- One of several alternatives is entered. -/
  | alternative {alternatives index rest outer block}
    (h : Slot.Ahead slots ((.either alternatives index :: rest) :: outer))
    (hblock : block ∈ alternatives) : Slot.Ahead slots (block :: rest :: outer)

/-- On its way a search only loses numbers. -/
theorem part_ahead {slots : List Slot} {stack : List (List Slot)} (h : Slot.Ahead slots stack) :
    (Slot.stackNumbers stack).Part (Slot.blockNumbers slots) := by
  induction h with
  | whole => rw [Slot.stackNumbers, Slot.stackNumbers, Numbers.append_nil]; exact .refl _
  | behind h ih => exact ((Numbers.Part.right _ _).append (.refl _)).trans ih
  | outward h ih => exact ih
  | block h ih =>
    refine Numbers.Part.trans ?_ ih
    rw [Slot.stackNumbers, Slot.stackNumbers, ← Numbers.append_assoc]
    exact .refl _
  | @alternative alternatives index rest outer block h hblock ih =>
    refine Numbers.Part.trans ?_ ih
    rw [Slot.stackNumbers, Slot.stackNumbers, ← Numbers.append_assoc]
    have hself : (Slot.blockNumbers block).Part (Slot.either alternatives index).numbers :=
      (Slot.part_alternatives hblock).trans (.right _ _)
    exact (hself.append (.refl _)).append (.refl _)

theorem runStack_leaves (subject : Subject) (stack : List (List Slot))
    (hdistinct : (Slot.stackNumbers stack).Distinct) :
    Leaves (Slot.stackNumbers stack) (Slot.runStack subject stack) := by
  induction stack with
  | nil =>
    intro position marks hblank
    rw [Slot.runStack, atEnd]
    cases position == subject.size with
    | true => exact .matched (.refl _ _)
    | false => exact .failed
  | cons block outer ih =>
    have houter := ih (hdistinct.part (.right _ _))
    exact runBlock_leaves subject block hdistinct houter

/-- **A failed branch leaves no trace.** Wherever a search of a numbered grammar can stand, on any
input, at any position, and with any marks among which those of the slots still ahead are blank: if
what is ahead does not match, the marks are the very ones that were given; and if it matches, none
has changed but those of the slots ahead. -/
theorem search_leaves_no_trace (name : String) (slots : List Slot) {stack : List (List Slot)}
    (hahead : Slot.Ahead (Grammar.build name slots).slots stack) (input : Bytes) (position : Nat)
    {marks : Marks} (hblank : marks.BlankOn (Slot.stackNumbers stack)) :
    let result := Slot.runStack (Subject.ofBytes input) stack position marks
    (result.1 = false → result.2 = marks) ∧
      (result.1 = true → ChangedOn (Slot.stackNumbers stack) marks result.2) := by
  have hleaves := runStack_leaves (Subject.ofBytes input) stack
    ((distinct_build name slots).part (part_ahead hahead)) position marks hblank
  generalize Slot.runStack (Subject.ofBytes input) stack position marks = result at hleaves ⊢
  cases hleaves with
  | failed => exact ⟨fun _ => rfl, fun h => absurd h Bool.false_ne_true⟩
  | matched hchanged => exact ⟨fun h => absurd h.symm Bool.false_ne_true, fun _ => hchanged⟩

/-- A number, perhaps a pair of digits behind a comma, and a number behind a bar or a comma. -/
def pairedSlots : List Slot :=
  [.captured .number, .optional [.byte Ascii.comma, .captured (.digits 2 (some 2))],
   .anyOf [[.byte Ascii.bar, .captured .number], [.byte Ascii.comma]]]

/-- Behind the comma of `12,34;` the pair matches and no alternative does: the number in front keeps
its mark, and the pair has none. -/
theorem search_leaves_no_trace_of_pair :
    let stack := [[Slot.capture (.digits 2 (some 2)) 1],
      [.either [[.byte Ascii.bar, .capture .number 2], [.byte Ascii.comma]] 0]]
    let marks : Marks := ⟨[some ⟨0, 2⟩, none, none], [none]⟩
    Slot.Ahead (Grammar.build "paired" pairedSlots).slots stack ∧
      marks.BlankOn (Slot.stackNumbers stack) ∧
      Slot.runStack (Subject.ofBytes (Ascii.utf8 "12,34;")) stack 3 marks = (false, marks) := by
  intro stack marks
  have hahead : Slot.Ahead (Grammar.build "paired" pairedSlots).slots stack :=
    .behind (.block (.behind .whole))
  have hblank : marks.BlankOn (Slot.stackNumbers stack) := ⟨by decide, by decide⟩
  have hfailed :
      (Slot.runStack (Subject.ofBytes (Ascii.utf8 "12,34;")) stack 3 marks).1 = false := by
    decide +kernel
  exact ⟨hahead, hblank, Prod.ext hfailed
    ((search_leaves_no_trace "paired" pairedSlots hahead _ 3 hblank).1 hfailed)⟩

end TrackerWire
