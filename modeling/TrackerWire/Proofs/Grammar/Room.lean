import TrackerWire.Proofs.Grammar.Numbers
import TrackerWire.Proofs.Grammar.Place

/-!
# Room for the marks

A search keeps its marks in two lists, as long as the grammar has captures and alternations, and it
finds the place of a mark by the number of the slot. `Slot.run` takes no notice of a number behind
the end of a list. `Slot.runStrict` is the same search, but it stops there with a `RoomError`.

* `run_strict`: where there is room for all numbers of a slot, the two searches end alike.
* `marksStrict?_build`: so they do on every input of a numbered grammar.
* `build_in_order`: what numbering does to slots.
-/
namespace TrackerWire

/-- A mark with this number, where there are only so many. -/
structure RoomError where
  index : Nat
  size : Nat
  deriving DecidableEq, Repr

/-! ## The strict search -/

namespace Marks

def room (marks : Marks) : Tally := ⟨marks.groups.length, marks.alternatives.length⟩

@[simp] theorem room_blank (groups alternations : Nat) :
    (blank groups alternations).room = ⟨groups, alternations⟩ := by
  simp only [room, blank, List.length_replicate]

@[simp] theorem room_setGroup (marks : Marks) (index : Nat) (span : Option Span) :
    (marks.setGroup index span).room = marks.room := by
  simp only [room, setGroup, List.length_set]

@[simp] theorem room_setAlternative (marks : Marks) (index choice : Nat) :
    (marks.setAlternative index choice).room = marks.room := by
  simp only [room, setAlternative, List.length_set]

/-- Mark a capture that there is a mark for, or unmark it. -/
def setGroup? (marks : Marks) (index : Nat) (span : Option Span) : Except RoomError Marks :=
  if index < marks.groups.length then .ok (marks.setGroup index span)
  else .error ⟨index, marks.groups.length⟩

/-- Mark the alternative of an alternation that there is a mark for. -/
def setAlternative? (marks : Marks) (index choice : Nat) : Except RoomError Marks :=
  if index < marks.alternatives.length then .ok (marks.setAlternative index choice)
  else .error ⟨index, marks.alternatives.length⟩

end Marks

/-- A continuation that may stop for want of room. -/
abbrev StrictContinuation := Nat → Marks → Except RoomError (Bool × Marks)

/-- The first of several attempts that succeeds, unless one before it stops. -/
def firstSuccessStrict {α : Type} (attempt : α → Marks → Except RoomError (Bool × Marks)) :
    List α → Marks → Except RoomError (Bool × Marks)
  | [], marks => .ok (false, marks)
  | choice :: others, marks => do
    match ← attempt choice marks with
    | (true, marks) => .ok (true, marks)
    | (false, marks) => firstSuccessStrict attempt others marks

mutual

/-- Match a slot as `Slot.run` does, and stop at a mark that there is no room for. -/
def Slot.runStrict (subject : Subject) : Slot → StrictContinuation → StrictContinuation
  | .literal bytes, following, position, marks =>
    if bytes.isPrefixOf (subject.after position) then following (position + bytes.length) marks
    else .ok (false, marks)
  | .skip token, following, position, marks =>
    firstSuccessStrict (fun length => following (position + length))
      (token.lengths (subject.after position)) marks
  | .capture token index, following, position, marks => do
    match ← firstSuccessStrict
        (fun length marks => do
          let marks ← marks.setGroup? index (some ⟨position, position + length⟩)
          following (position + length) marks)
        (token.lengths (subject.after position)) marks with
    | (true, marks) => .ok (true, marks)
    | (false, marks) => do
      let marks ← marks.setGroup? index none
      .ok (false, marks)
  | .optional block, following, position, marks => do
    match ← Slot.runBlockStrict subject block following position marks with
    | (true, marks) => .ok (true, marks)
    | (false, _) => following position marks
  | .either alternatives index, following, position, marks =>
    Slot.runAlternativesStrict subject index 0 alternatives following position marks

/-- Match the slots of a block as `Slot.runBlock` does, with the same stops. -/
def Slot.runBlockStrict (subject : Subject) : List Slot → StrictContinuation → StrictContinuation
  | [], following => following
  | slot :: rest, following =>
    Slot.runStrict subject slot (Slot.runBlockStrict subject rest following)

/-- Match the first alternative that fits as `Slot.runAlternatives` does, with the same stops. -/
def Slot.runAlternativesStrict (subject : Subject) (index choice : Nat) :
    List (List Slot) → StrictContinuation → StrictContinuation
  | [], _, _, marks => .ok (false, marks)
  | block :: rest, following, position, marks => do
    let marked ← marks.setAlternative? index choice
    match ← Slot.runBlockStrict subject block following position marked with
    | (true, marks) => .ok (true, marks)
    | (false, _) =>
      Slot.runAlternativesStrict subject index (choice + 1) rest following position marks

end

/-- The marks of the first match of a whole byte string, by the strict search. -/
def Grammar.marksStrict? (grammar : Grammar) (input : Bytes) : Except RoomError (Option Marks) := do
  let subject := Subject.ofBytes input
  match ← Slot.runBlockStrict subject grammar.slots
      (fun position marks => .ok (atEnd subject position marks)) 0
      (Marks.blank grammar.groups grammar.alternations) with
  | (true, marks) => .ok (some marks)
  | (false, _) => .ok none

/-! ## Where there is room -/

/-- There is a mark for each number. -/
structure Numbers.Within (numbers : Numbers) (room : Tally) : Prop where
  groups : ∀ i ∈ numbers.groups, i < room.groups
  alternations : ∀ i ∈ numbers.alternations, i < room.alternations

theorem Numbers.Within.part {a b : Numbers} {room : Tally} (h : b.Within room) (hpart : a.Part b) :
    a.Within room :=
  ⟨fun i hi => h.groups i (hpart.groups.subset hi),
    fun i hi => h.alternations i (hpart.alternations.subset hi)⟩

/-- A strict search that comes to the end, with the same answer and the same marks as the search,
and as many of them as before. -/
structure Ends (room : Tally) (strict : Except RoomError (Bool × Marks)) (result : Bool × Marks) :
    Prop where
  eq_ok : strict = .ok result
  room_eq : result.2.room = room

/-- On so many marks, the strict continuation ends as the other does. -/
def EndsAlike (room : Tally) (strict : StrictContinuation) (following : Continuation) : Prop :=
  ∀ position marks, marks.room = room → Ends room (strict position marks) (following position marks)

theorem ok_bind {α β : Type} (a : α) (f : α → Except RoomError β) : (.ok a >>= f) = f a := rfl

section
variable {room : Tally}

/-- What is done behind an attempt that succeeds and behind one that fails. -/
theorem Ends.bind {strict : Except RoomError (Bool × Marks)} {result : Bool × Marks}
    {next : Bool × Marks → Except RoomError (Bool × Marks)} {next' : Bool × Marks → Bool × Marks}
    (h : Ends room strict result)
    (hsuccess : ∀ after, after.room = room → Ends room (next (true, after)) (next' (true, after)))
    (hfailure : ∀ left, left.room = room → Ends room (next (false, left)) (next' (false, left))) :
    Ends room (strict >>= next) (next' result) := by
  obtain ⟨rfl, hroom⟩ := h
  obtain ⟨found, marks⟩ := result
  cases found with
  | true => exact hsuccess marks hroom
  | false => exact hfailure marks hroom

theorem setGroup?_eq_ok {marks : Marks} (hroom : marks.room = room) {index : Nat}
    (hindex : index < room.groups) (span : Option Span) :
    marks.setGroup? index span = .ok (marks.setGroup index span) := by
  subst hroom
  exact if_pos hindex

theorem setAlternative?_eq_ok {marks : Marks} (hroom : marks.room = room) {index : Nat}
    (hindex : index < room.alternations) (choice : Nat) :
    marks.setAlternative? index choice = .ok (marks.setAlternative index choice) := by
  subst hroom
  exact if_pos hindex

theorem firstSuccess_ends {α : Type} {strict : α → Marks → Except RoomError (Bool × Marks)}
    {attempt : α → Marks → Bool × Marks}
    (h : ∀ choice marks, marks.room = room → Ends room (strict choice marks) (attempt choice marks))
    (choices : List α) {marks : Marks} (hroom : marks.room = room) :
    Ends room (firstSuccessStrict strict choices marks) (firstSuccess attempt choices marks) := by
  induction choices generalizing marks with
  | nil => exact ⟨rfl, hroom⟩
  | cons choice others ih =>
    have hattempt := h choice marks hroom
    rw [firstSuccessStrict, firstSuccess]
    generalize attempt choice marks = result at hattempt
    apply hattempt.bind
    · exact fun _ hafter => ⟨rfl, hafter⟩
    · exact fun _ hleft => ih hleft

variable {strict : StrictContinuation} {following : Continuation}

/-- A capture needs room for the marks it makes and for the one it takes back. -/
theorem capture_ends {index : Nat} (hindex : index < room.groups)
    (h : EndsAlike room strict following) (subject : Subject) (token : Token) :
    EndsAlike room (Slot.runStrict subject (.capture token index) strict)
      (Slot.run subject (.capture token index) following) := by
  intro position marks hroom
  have hattempt (length : Nat) (marks : Marks) (hroom : marks.room = room) :
      Ends room
        (do
          let marks ← marks.setGroup? index (some ⟨position, position + length⟩)
          strict (position + length) marks)
        (following (position + length)
          (marks.setGroup index (some ⟨position, position + length⟩))) := by
    rw [setGroup?_eq_ok hroom hindex, ok_bind]
    exact h _ _ ((Marks.room_setGroup _ _ _).trans hroom)
  have hattempts := firstSuccess_ends hattempt (token.lengths (subject.after position)) hroom
  rw [Slot.runStrict, Slot.run]
  generalize firstSuccess _ _ marks = result at hattempts
  apply hattempts.bind
  · exact fun _ hafter => ⟨rfl, hafter⟩
  · -- whatever marks the last length has left, the capture finds its own among them
    intro left hleft
    dsimp only
    rw [setGroup?_eq_ok hleft hindex, ok_bind]
    exact ⟨rfl, (Marks.room_setGroup _ _ _).trans hleft⟩

end

mutual

theorem run_strict (subject : Subject) (slot : Slot) {room : Tally} {strict : StrictContinuation}
    {following : Continuation} (hwithin : slot.numbers.Within room)
    (h : EndsAlike room strict following) :
    EndsAlike room (slot.runStrict subject strict) (slot.run subject following) := by
  match slot with
  | .literal bytes =>
    intro position marks hroom
    rw [Slot.runStrict, Slot.run]
    split
    · exact h _ _ hroom
    · exact ⟨rfl, hroom⟩
  | .skip token =>
    intro position marks hroom
    exact firstSuccess_ends (fun length marks => h (position + length) marks) _ hroom
  | .capture token index =>
    exact capture_ends (hwithin.groups index List.mem_cons_self) h subject token
  | .optional block =>
    intro position marks hroom
    have hblock := runBlock_strict subject block hwithin h position marks hroom
    rw [Slot.runStrict, Slot.run]
    generalize Slot.runBlock subject block following position marks = result at hblock
    apply hblock.bind
    · exact fun _ hafter => ⟨rfl, hafter⟩
    · -- without the block the search goes on from the marks it was given
      exact fun _ _ => h position marks hroom
  | .either alternatives index =>
    intro position marks hroom
    exact runAlternatives_strict subject alternatives 0 hwithin h position marks hroom

/-- **A block that there is room for never stops the strict search**, if what follows it does not. -/
theorem runBlock_strict (subject : Subject) (block : List Slot) {room : Tally}
    {strict : StrictContinuation} {following : Continuation}
    (hwithin : (Slot.blockNumbers block).Within room) (h : EndsAlike room strict following) :
    EndsAlike room (Slot.runBlockStrict subject block strict)
      (Slot.runBlock subject block following) := by
  match block with
  | [] => exact h
  | slot :: rest =>
    have hrest := runBlock_strict subject rest (hwithin.part (.right _ _)) h
    exact run_strict subject slot (hwithin.part (.left _ _)) hrest

theorem runAlternatives_strict (subject : Subject) (alternatives : List (List Slot)) {index : Nat}
    (choice : Nat) {room : Tally} {strict : StrictContinuation} {following : Continuation}
    (hwithin : (({ alternations := [index] } : Numbers) ++
      Slot.alternativesNumbers alternatives).Within room)
    (h : EndsAlike room strict following) :
    EndsAlike room (Slot.runAlternativesStrict subject index choice alternatives strict)
      (Slot.runAlternatives subject index choice alternatives following) := by
  match alternatives with
  | [] => exact fun _ _ hroom => ⟨rfl, hroom⟩
  | block :: rest =>
    intro position marks hroom
    have hindex : index < room.alternations := hwithin.alternations index List.mem_cons_self
    have hmarked := (Marks.room_setAlternative marks index choice).trans hroom
    have hinner : (Slot.alternativesNumbers (block :: rest)).Within room :=
      hwithin.part (.right _ _)
    have hblock := runBlock_strict subject block (hinner.part (.left _ _)) h position _ hmarked
    have hrest := runAlternatives_strict subject rest (choice + 1)
      (hwithin.part ((Numbers.Part.refl _).append (.right _ _))) h position marks hroom
    rw [Slot.runAlternativesStrict, Slot.runAlternatives, setAlternative?_eq_ok hroom hindex,
      ok_bind]
    generalize Slot.runBlock subject block following position _ = result at hblock
    apply hblock.bind
    · exact fun _ hafter => ⟨rfl, hafter⟩
    · exact fun _ _ => hrest

end

/-! ## Whole grammars -/

/-- The marks that a search starts with have room for all numbers of the grammar. -/
theorem within_build (name : String) (slots : List Slot) :
    let grammar := Grammar.build name slots
    (Slot.blockNumbers grammar.slots).Within ⟨grammar.groups, grammar.alternations⟩ := by
  intro grammar
  rw [blockNumbers_build name slots]
  exact ⟨fun _ => List.mem_range.mp, fun _ => List.mem_range.mp⟩

/-- **On no input does a search of a numbered grammar miss a mark.** -/
theorem marksStrict?_build (name : String) (slots : List Slot) (input : Bytes) :
    (Grammar.build name slots).marksStrict? input =
      .ok ((Grammar.build name slots).marks? input) := by
  let grammar := Grammar.build name slots
  let subject := Subject.ofBytes input
  have hatEnd : EndsAlike ⟨grammar.groups, grammar.alternations⟩
      (fun position marks => .ok (atEnd subject position marks)) (atEnd subject) :=
    fun _ _ hroom => ⟨rfl, hroom⟩
  have hends := runBlock_strict subject grammar.slots (within_build name slots) hatEnd 0 _
    (Marks.room_blank _ _)
  rw [Grammar.marksStrict?, Grammar.marks?, Slot.runStack, Slot.runStack, hends.eq_ok, ok_bind]
  obtain ⟨found, after⟩ := Slot.runBlock subject grammar.slots (atEnd subject) 0 _
  cases found <;> rfl

/-- A capture with the number 1, where there is one mark. The search stops at it, although it has
nothing to mark: it would take back a mark that it has not made. -/
example : Grammar.marksStrict? ⟨"misnumbered", [.capture (.digits 1 none) 1], 1, 0⟩ [0x61] =
    .error ⟨1, 1⟩ := by decide +kernel

/-! ## The order of the numbers -/

theorem Place.part_fill (place : Place) (slot : Slot) :
    slot.numbers.Part (place.fill slot).numbers := by
  induction place with
  | here => exact .refl _
  | inOptional early place late ih => exact ih.trans (Slot.part_block early late _)
  | inEither earlier early place late later index ih =>
    have hblock := ih.trans (Slot.part_block early late (place.fill slot))
    exact (hblock.trans (Slot.part_alternatives (List.mem_append_right _ List.mem_cons_self))).trans
      (.right _ _)

/-- **Numbers are given out in the order of declaration.** Whatever numbers slots carry beforehand,
in the grammar made of them the captures carry 0, 1, 2 and so on, through all blocks, and so do the
alternations, each before those inside it; nothing but the numbers is changed, and the numbers from
before make no difference. So there is a mark for each number, and a search that would stop for want
of one answers on every input as the search does. -/
theorem build_in_order (name : String) (slots : List Slot) :
    let grammar := Grammar.build name slots
    Slot.blockNumbers grammar.slots =
        ⟨List.range grammar.groups, List.range grammar.alternations⟩ ∧
      (∀ early place late alternatives index,
        grammar.slots = early ++ Place.fill place (.either alternatives index) :: late →
        ∀ inner ∈ (Slot.alternativesNumbers alternatives).alternations, index < inner) ∧
      Slot.unnumberedBlock grammar.slots = Slot.unnumberedBlock slots ∧
      (∀ other, Grammar.build name other = grammar ↔
        Slot.unnumberedBlock other = Slot.unnumberedBlock slots) ∧
      ∀ input, grammar.marksStrict? input = .ok (grammar.marks? input) := by
  intro grammar
  have hnumbers := blockNumbers_build name slots
  refine ⟨hnumbers, ?_, unnumberedBlock_numberBlock slots {}, build_eq_iff name slots,
    marksStrict?_build name slots⟩
  intro early place late alternatives index hslots
  have hpart : (Slot.either alternatives index).numbers.Part (Slot.blockNumbers grammar.slots) := by
    rw [hslots]
    exact (place.part_fill _).trans (Slot.part_block early late _)
  have halternations : (index :: (Slot.alternativesNumbers alternatives).alternations).Sublist
      (List.range grammar.alternations) := by
    have h := hpart.alternations
    rwa [hnumbers] at h
  exact fun _ => List.rel_of_pairwise_cons (List.pairwise_lt_range.sublist halternations)

/-- A capture in each of two alternatives, and an alternation within the second. -/
example : Slot.blockNumbers (Grammar.build "nested" [.captured .number, .anyOf [[.captured .number],
    [.optional [.captured .rest, .anyOf [[.byte 0x2C], []]]]], .captured .rest]).slots =
      ⟨[0, 1, 2, 3], [0, 1]⟩ := by decide

end TrackerWire
