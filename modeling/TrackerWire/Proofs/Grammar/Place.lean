import Mathlib.Data.List.Forall2
import TrackerWire.Proofs.Grammar.Foremost

/-!
# Places in a grammar

An optional block may stand anywhere: in a block, in an alternative, in a block within these
(`Place`). In its place an alternation of the block and of nothing reads the same texts in the same
order, so it can only be told by what it reports itself.

* `Slot.behindBlock_choices`: the decisions of a reading can be followed slot by slot. So they say
  whether a reading took the block in a place (`Place.taken?`).
* `Place.alike_readings`: reading by reading, the two agree in all but the one alternation.
* `parse_optional_either`: so do the matches of the two grammars.
-/
namespace TrackerWire

/-! ## Following the decisions -/

mutual

/-- The decisions behind those of a slot. -/
def Slot.behind : Slot → List Choice → List Choice
  | .literal _, choices => choices
  | .skip _, choices => choices.tail
  | .capture _ _, choices => choices.tail
  | .optional block, .taken :: choices => Slot.behindBlock block choices
  | .optional _, choices => choices.tail
  | .either alternatives _, .branch n :: choices => Slot.behindOneOf alternatives n choices
  | .either _ _, choices => choices.tail

def Slot.behindBlock : List Slot → List Choice → List Choice
  | [], choices => choices
  | slot :: rest, choices => Slot.behindBlock rest (slot.behind choices)

/-- The decisions behind those of the alternative of this number. -/
def Slot.behindOneOf : List (List Slot) → Nat → List Choice → List Choice
  | [], _, choices => choices
  | block :: _, 0, choices => Slot.behindBlock block choices
  | _ :: rest, n + 1, choices => Slot.behindOneOf rest n choices

end

mutual

theorem choices_absent (slot : Slot) : slot.absent.choices = [] := by
  match slot with
  | .literal bytes => rfl
  | .skip token => rfl
  | .capture token index => rfl
  | .optional block => exact choices_absentBlock block
  | .either alternatives index => exact choices_absentAlternatives alternatives

theorem choices_absentBlock (block : List Slot) : (Slot.absentBlock block).choices = [] := by
  match block with
  | [] => rfl
  | slot :: rest =>
    rw [Slot.absentBlock, Reading.choices_append, choices_absent, choices_absentBlock,
      List.append_nil]

theorem choices_absentAlternatives (alternatives : List (List Slot)) :
    (Slot.absentAlternatives alternatives).choices = [] := by
  match alternatives with
  | [] => rfl
  | block :: rest =>
    rw [Slot.absentAlternatives, Reading.choices_append, choices_absentBlock,
      choices_absentAlternatives, List.append_nil]

end

mutual

theorem Slot.behind_choices (slot : Slot) {start : Nat} {text : Bytes} {r : Reading}
    (h : Slot.Reads slot start text r) (more : List Choice) :
    slot.behind (r.choices ++ more) = more := by
  match slot with
  | .literal bytes =>
    cases h
    rfl
  | .skip token =>
    cases h
    rfl
  | .capture token index =>
    cases h
    rfl
  | .optional block =>
    cases h with
    | taken h => exact Slot.behindBlock_choices block h more
    | omitted =>
      simp only [Reading.choose, choices_absentBlock, List.singleton_append, Slot.behind,
        List.tail_cons]
  | .either alternatives index =>
    cases h with
    | either h => exact Slot.behindOneOf_choices alternatives h more

/-- The decisions of a reading are those of its block, whatever is decided behind it. -/
theorem Slot.behindBlock_choices (block : List Slot) {start : Nat} {text : Bytes} {r : Reading}
    (h : Slot.ReadsBlock block start text r) (more : List Choice) :
    Slot.behindBlock block (r.choices ++ more) = more := by
  match block with
  | [] =>
    cases h
    rfl
  | slot :: rest =>
    cases h with
    | cons hslot hrest =>
      rw [Reading.choices_append, List.append_assoc, Slot.behindBlock,
        Slot.behind_choices slot hslot, Slot.behindBlock_choices rest hrest]

theorem Slot.behindOneOf_choices (alternatives : List (List Slot)) {start n : Nat} {text : Bytes}
    {r : Reading} (h : Slot.ReadsOneOf alternatives start text n r) (more : List Choice) :
    Slot.behindOneOf alternatives n (r.choices ++ more) = more := by
  match alternatives with
  | [] => cases h
  | block :: rest =>
    cases h with
    | here h =>
      rw [Reading.choices_append, choices_absentAlternatives, List.append_nil, Slot.behindOneOf,
        Slot.behindBlock_choices block h]
    | there h =>
      rw [Reading.choices_append, choices_absentBlock, List.nil_append, Slot.behindOneOf,
        Slot.behindOneOf_choices rest h]

end

/-! ## Places -/

/-- The place of a slot within another: the way down to it, with what stands beside the way. -/
inductive Place where
  /-- The slot itself. -/
  | here
  /-- In the block of an optional slot. -/
  | inOptional (early : List Slot) (place : Place) (late : List Slot)
  /-- In a block of an alternation. -/
  | inEither (earlier : List (List Slot)) (early : List Slot) (place : Place) (late : List Slot)
    (later : List (List Slot)) (index : Nat)

namespace Place

/-- The outer slot, with this one in the place. -/
def fill : Place → Slot → Slot
  | here, slot => slot
  | inOptional early place late, slot => .optional (early ++ place.fill slot :: late)
  | inEither earlier early place late later index, slot =>
    .either (earlier ++ (early ++ place.fill slot :: late) :: later) index

/-- What has been numbered when the numbering of the outer slot comes to the place. -/
def tally : Place → Tally → Tally
  | here, tally => tally
  | inOptional early place _, tally => place.tally (Slot.numberBlock early tally).2
  | inEither earlier early place _ _ _, tally =>
    place.tally (Slot.numberBlock early (Slot.numberAlternatives earlier
      { tally with alternations := tally.alternations + 1 }).2).2

/-- By the decisions of the outer slot, was the optional block in the place taken? None if a block
that the place is in takes no part. -/
def taken? : Place → List Choice → Option Bool
  | here, .taken :: _ => some true
  | here, .omitted :: _ => some false
  | inOptional early place _, .taken :: choices => place.taken? (Slot.behindBlock early choices)
  | inEither earlier early place _ _ _, .branch n :: choices =>
    if n = earlier.length then place.taken? (Slot.behindBlock early choices) else none
  | _, _ => none

/-- What an alternation of the block and of nothing reports in the place. -/
def reported (place : Place) (choices : List Choice) : Option Nat :=
  (place.taken? choices).map fun taken => if taken then 0 else 1

/-- What the slots before the place report when they take no part. -/
def before : Place → Reading
  | here => {}
  | inOptional early place _ => Slot.absentBlock early ++ place.before
  | inEither earlier early place _ _ _ =>
    { alternatives := [none] } ++ (Slot.absentAlternatives earlier ++
      (Slot.absentBlock early ++ place.before))

theorem tally_eq (place : Place) (front : Reading) :
    place.tally front.tally = (front ++ place.before).tally := by
  induction place generalizing front with
  | here => rw [before, Reading.append_nil, tally]
  | inOptional early place late ih =>
    rw [tally, tally_numberBlock, ih, before, Reading.append_assoc]
  | inEither earlier early place late later index ih =>
    rw [tally, ← tally_alternation, tally_numberAlternatives, tally_numberBlock, ih, before]
    simp only [Reading.append_assoc]

end Place

/-! ## One more alternation -/

/-- The second reading reports the same, and one more alternation of this number. -/
structure Reading.Widened (number : Nat) (report : Option Nat) (r s : Reading) : Prop where
  groups_eq : s.groups = r.groups
  alternatives_eq : ∃ early late, early.length = number ∧ r.alternatives = early ++ late ∧
    s.alternatives = early ++ report :: late

namespace Reading.Widened

variable {number : Nat} {report : Option Nat} {r s : Reading}

theorem prepend (h : Widened number report r s) (t : Reading) :
    Widened (t.alternatives.length + number) report (t ++ r) (t ++ s) := by
  obtain ⟨hgroups, early, late, rfl, hr, hs⟩ := h
  refine ⟨congrArg (t.groups ++ ·) hgroups, t.alternatives ++ early, late,
    List.length_append, ?_, ?_⟩
  · rw [alternatives_append, hr, List.append_assoc]
  · rw [alternatives_append, hs, List.append_assoc]

theorem append (h : Widened number report r s) (t : Reading) :
    Widened number report (r ++ t) (s ++ t) := by
  obtain ⟨hgroups, early, late, hearly, hr, hs⟩ := h
  refine ⟨congrArg (· ++ t.groups) hgroups, early, late ++ t.alternatives, hearly, ?_, ?_⟩
  · rw [alternatives_append, hr, List.append_assoc]
  · rw [alternatives_append, hs, List.append_assoc, List.cons_append]

end Reading.Widened

theorem absentBlock_append (early late : List Slot) :
    Slot.absentBlock (early ++ late) = Slot.absentBlock early ++ Slot.absentBlock late := by
  induction early with
  | nil => rfl
  | cons slot early ih =>
    rw [List.cons_append, Slot.absentBlock, ih, Slot.absentBlock, Reading.append_assoc]

theorem absentAlternatives_append (earlier later : List (List Slot)) :
    Slot.absentAlternatives (earlier ++ later) =
      Slot.absentAlternatives earlier ++ Slot.absentAlternatives later := by
  induction earlier with
  | nil => rfl
  | cons block earlier ih =>
    rw [List.cons_append, Slot.absentAlternatives, ih, Slot.absentAlternatives,
      Reading.append_assoc]

theorem length_alternatives {r s : Reading} (h : r.tally = s.tally) :
    r.alternatives.length = s.alternatives.length := congrArg Tally.alternations h

/-- Both readings end at the same position, and they agree in all but one alternation, which reports
on the decisions of the first, whatever is decided behind it. -/
def Alike (number : Nat) (report : List Choice → Option Nat) (x y : Nat × Reading) : Prop :=
  y.1 = x.1 ∧ ∀ more, Reading.Widened number (report (x.2.choices ++ more)) x.2 y.2

/-- The same of readings by one of several blocks, with the number of the block. -/
def AlikeOneOf (number : Nat) (report : Nat → List Choice → Option Nat)
    (x y : Nat × Nat × Reading) : Prop :=
  y.1 = x.1 ∧ Alike number (report x.1) x.2 y.2

theorem forall₂_flatMap {α β γ : Type} {R : β → γ → Prop} {l : List α} {f : α → List β}
    {g : α → List γ} (h : ∀ x ∈ l, List.Forall₂ R (f x) (g x)) :
    List.Forall₂ R (l.flatMap f) (l.flatMap g) := by
  induction l with
  | nil => exact .nil
  | cons x l ih =>
    obtain ⟨hx, hl⟩ := List.forall_mem_cons.mp h
    exact List.rel_append hx (ih hl)

section
variable {input : Bytes} {slot slot' : Slot} {block block' : List Slot} {number : Nat}
  {report : List Choice → Option Nat}

theorem widened_absentBlock (h : Reading.Widened number none slot.absent slot'.absent)
    (early late : List Slot) :
    Reading.Widened ((Slot.absentBlock early).alternatives.length + number) none
      (Slot.absentBlock (early ++ slot :: late)) (Slot.absentBlock (early ++ slot' :: late)) := by
  rw [absentBlock_append, absentBlock_append]
  exact (h.append (Slot.absentBlock late)).prepend (Slot.absentBlock early)

theorem widened_absentAlternatives
    (h : Reading.Widened number none (Slot.absentBlock block) (Slot.absentBlock block'))
    (earlier later : List (List Slot)) :
    Reading.Widened ((Slot.absentAlternatives earlier).alternatives.length + number) none
      (Slot.absentAlternatives (earlier ++ block :: later))
      (Slot.absentAlternatives (earlier ++ block' :: later)) := by
  rw [absentAlternatives_append, absentAlternatives_append]
  exact (h.append (Slot.absentAlternatives later)).prepend (Slot.absentAlternatives earlier)

/-- Slots with alike readings, between the same others. -/
theorem alike_block (h : ∀ start, List.Forall₂ (Alike number report)
      (slot.readings input start) (slot'.readings input start))
    (early late : List Slot) (start : Nat) :
    List.Forall₂ (Alike ((Slot.absentBlock early).alternatives.length + number)
        fun choices => report (Slot.behindBlock early choices))
      (Slot.readingsBlock input (early ++ slot :: late) start)
      (Slot.readingsBlock input (early ++ slot' :: late) start) := by
  rw [Slot.readingsBlock_append, Slot.readingsBlock_append]
  refine forall₂_flatMap fun x hx => ?_
  rw [List.forall₂_map_left_iff, List.forall₂_map_right_iff]
  refine List.rel_flatMap (h x.1) fun y y' hy => ?_
  obtain ⟨hstop, hwidened⟩ := hy
  rw [hstop, List.forall₂_map_left_iff, List.forall₂_map_right_iff, List.forall₂_same]
  refine fun z hz => ⟨rfl, fun more => ?_⟩
  obtain ⟨text, -, hreads⟩ := (mem_readingsBlock input early start x.1 x.2).mp hx
  have hlength := length_alternatives (tally_readingsBlock input early start x hx)
  dsimp only
  rw [← hlength, Reading.choices_append, List.append_assoc, Reading.choices_append,
    List.append_assoc, Slot.behindBlock_choices early hreads]
  exact ((hwidened (z.2.choices ++ more)).append z.2).prepend x.2

/-- Blocks with alike readings, each as an optional block. -/
theorem alike_optional (h : ∀ start, List.Forall₂ (Alike number report)
      (Slot.readingsBlock input block start) (Slot.readingsBlock input block' start))
    (habsent : Reading.Widened number none (Slot.absentBlock block) (Slot.absentBlock block'))
    {outer : List Choice → Option Nat}
    (htaken : ∀ choices, outer (.taken :: choices) = report choices)
    (homitted : ∀ choices, outer (.omitted :: choices) = none) (start : Nat) :
    List.Forall₂ (Alike number outer) ((Slot.optional block).readings input start)
      ((Slot.optional block').readings input start) := by
  simp only [Slot.readings]
  refine List.rel_append ?_ (.cons ⟨rfl, fun more => ?_⟩ .nil)
  · rw [List.forall₂_map_left_iff, List.forall₂_map_right_iff]
    refine (h start).imp fun x y hxy => ⟨hxy.1, fun more => ?_⟩
    rw [Reading.choose, List.cons_append, htaken]
    have hwidened := hxy.2 more
    exact ⟨hwidened.groups_eq, hwidened.alternatives_eq⟩
  · rw [Reading.choose, List.cons_append, homitted]
    exact ⟨habsent.groups_eq, habsent.alternatives_eq⟩

/-- Blocks with alike readings, each among the same other alternatives. -/
theorem alike_oneOf (h : ∀ start, List.Forall₂ (Alike number report)
      (Slot.readingsBlock input block start) (Slot.readingsBlock input block' start))
    (habsent : Reading.Widened number none (Slot.absentBlock block) (Slot.absentBlock block'))
    (earlier later : List (List Slot)) (start : Nat) :
    List.Forall₂ (AlikeOneOf ((Slot.absentAlternatives earlier).alternatives.length + number)
        fun n choices => if n = earlier.length then report choices else none)
      (Slot.readingsOneOf input (earlier ++ block :: later) start)
      (Slot.readingsOneOf input (earlier ++ block' :: later) start) := by
  induction earlier with
  | nil =>
    simp only [List.nil_append, Slot.readingsOneOf]
    refine List.rel_append ?_ ?_
    · rw [List.forall₂_map_left_iff, List.forall₂_map_right_iff]
      refine (h start).imp fun x y hxy => ⟨rfl, hxy.1, fun more => ?_⟩
      dsimp only
      rw [if_pos List.length_nil.symm, Reading.choices_append, List.append_assoc]
      have hwidened := (hxy.2 ((Slot.absentAlternatives later).choices ++ more)).append
        (Slot.absentAlternatives later)
      exact (Nat.zero_add number).symm ▸ hwidened
    · rw [List.forall₂_map_left_iff, List.forall₂_map_right_iff, List.forall₂_same]
      refine fun x _ => ⟨rfl, rfl, fun more => ?_⟩
      dsimp only
      rw [if_neg (by simp)]
      exact (Nat.zero_add number).symm ▸ habsent.append x.2.2
  | cons other earlier ih =>
    simp only [List.cons_append, Slot.readingsOneOf]
    rw [Slot.absentAlternatives, Reading.alternatives_append, List.length_append, Nat.add_assoc]
    refine List.rel_append ?_ ?_
    · rw [List.forall₂_map_left_iff, List.forall₂_map_right_iff, List.forall₂_same]
      refine fun x hx => ⟨rfl, rfl, fun more => ?_⟩
      have hlength := length_alternatives (tally_readingsBlock input other start x hx)
      dsimp only
      rw [if_neg (by simp), ← hlength]
      exact (widened_absentAlternatives habsent earlier later).prepend x.2
    · rw [List.forall₂_map_left_iff, List.forall₂_map_right_iff]
      refine ih.imp fun x y hxy => ⟨congrArg (· + 1) hxy.1, hxy.2.1, fun more => ?_⟩
      have hwidened := (hxy.2.2 more).prepend (Slot.absentBlock other)
      simp only [List.length_cons, Nat.succ_inj, Reading.choices_append, choices_absentBlock,
        List.nil_append] at hwidened ⊢
      exact hwidened

end

namespace Place

section
variable (block : List Slot) (index : Nat)

theorem widened_absent (place : Place) :
    Reading.Widened place.before.alternatives.length none (place.fill (.optional block)).absent
      (place.fill (.either [block, []] index)).absent := by
  induction place with
  | here =>
    refine ⟨?_, [], (Slot.absentBlock block).alternatives, rfl, rfl, ?_⟩
    · simp [fill, Slot.absent, Slot.absentAlternatives, Slot.absentBlock]
    · simp [fill, Slot.absent, Slot.absentAlternatives, Slot.absentBlock]
  | inOptional early place late ih =>
    rw [before, Reading.alternatives_append, List.length_append]
    exact widened_absentBlock ih early late
  | inEither earlier early place late later index ih =>
    have hblock := widened_absentAlternatives (widened_absentBlock ih early late) earlier later
    rw [before]
    simp only [Reading.alternatives_append, List.length_append]
    exact hblock.prepend { alternatives := [none] }

/-- **The block or nothing reads what the optional block reads**, in the same order, and reports
which of the two it was. -/
theorem alike_readings (place : Place) (input : Bytes) (start : Nat) :
    List.Forall₂ (Alike place.before.alternatives.length place.reported)
      ((place.fill (.optional block)).readings input start)
      ((place.fill (.either [block, []] index)).readings input start) := by
  induction place generalizing start with
  | here =>
    simp only [fill, Slot.readings, Slot.readingsOneOf, Slot.readingsBlock, List.map_append,
      List.map_map, List.map_cons, List.map_nil, List.append_nil]
    refine List.rel_append ?_ (.cons ⟨rfl, fun more => ?_⟩ .nil)
    · rw [List.forall₂_map_left_iff, List.forall₂_map_right_iff, List.forall₂_same]
      refine fun x _ => ⟨rfl, fun more => ⟨?_, [], x.2.alternatives, rfl, rfl, ?_⟩⟩
      · simp [Slot.absentAlternatives, Slot.absentBlock, Reading.branch, Reading.choose]
      · simp [Slot.absentAlternatives, Slot.absentBlock, Reading.branch, Reading.choose, reported,
          taken?]
    · refine ⟨?_, [], (Slot.absentBlock block).alternatives, rfl, rfl, ?_⟩
      · simp [Slot.absentAlternatives, Reading.branch, Reading.choose]
      · simp [Slot.absentAlternatives, Reading.branch, Reading.choose, reported, taken?]
  | inOptional early place late ih =>
    rw [before, Reading.alternatives_append, List.length_append]
    exact alike_optional (alike_block ih early late)
      (widened_absentBlock (place.widened_absent block index) early late) (fun _ => rfl)
      (fun _ => rfl) start
  | inEither earlier early place late later outer ih =>
    have hone := alike_oneOf (alike_block ih early late)
      (widened_absentBlock (place.widened_absent block index) early late) earlier later start
    simp only [fill, Slot.readings]
    rw [List.forall₂_map_left_iff, List.forall₂_map_right_iff, before]
    refine hone.imp fun x y hxy => ⟨hxy.2.1, fun more => ?_⟩
    obtain ⟨hbranch, -, hwidened⟩ := hxy
    have hreported : (inEither earlier early place late later outer).reported
          (Choice.branch x.1 :: (x.2.2.choices ++ more)) =
        if x.1 = earlier.length then
          place.reported (Slot.behindBlock early (x.2.2.choices ++ more)) else none := by
      simp only [reported, taken?]
      split <;> rfl
    rw [hbranch]
    simp only [Reading.alternatives_append, List.length_append] at hwidened ⊢
    exact hreported ▸ (hwidened more).prepend (Reading.branch x.1)

end

end Place

/-! ## Whole grammars -/

/-- Of two lists that are related item by item, the first items found are related. -/
theorem rel_find? {α β : Type} {R : α → β → Prop} {p : α → Bool} {q : β → Bool} {l : List α}
    {l' : List β} (h : List.Forall₂ R l l') (hpq : ∀ x y, R x y → q y = p x) :
    Option.Rel R (l.find? p) (l'.find? q) := by
  induction h with
  | nil => exact .none
  | @cons x y l l' hxy hl ih =>
    rw [List.find?_cons, List.find?_cons, hpq x y hxy]
    cases p x with
    | true => exact .some hxy
    | false => exact ih

/-- **An optional block is an alternation of the block and of nothing.** Wherever it stands in a
grammar, the two match the same sentences with the same captures, and every other alternation
reports the same. The one in its place, which has the number that the numbering has come to there,
reports the first alternative where the block was taken and the second where it was left out, and
nothing where a block around it takes no part. -/
theorem parse_optional_either (name : String) (early : List Slot) (place : Place)
    (late block : List Slot) (index : Nat) (sentence : String) :
    (Grammar.build name (early ++ place.fill (.optional block) :: late)).parse sentence = none ∧
        (Grammar.build name (early ++ place.fill (.either [block, []] index) :: late)).parse
          sentence = none ∨
      ∃ r before after,
        FirstReading (early ++ place.fill (.optional block) :: late) (Ascii.utf8 sentence) r ∧
        before.length = (place.tally (Slot.numberBlock early {}).2).alternations ∧
        (Grammar.build name (early ++ place.fill (.optional block) :: late)).parse sentence =
          some ⟨Ascii.utf8 sentence, r.groups, before ++ after, 0⟩ ∧
        (Grammar.build name (early ++ place.fill (.either [block, []] index) :: late)).parse
            sentence =
          some ⟨Ascii.utf8 sentence, r.groups,
            before ++ place.reported (Slot.behindBlock early r.choices) :: after, 0⟩ := by
  have hnumber : (place.tally (Slot.numberBlock early {}).2).alternations =
      (Slot.absentBlock early).alternatives.length + place.before.alternatives.length := by
    have hearly : (Slot.numberBlock early {}).2 = (Slot.absentBlock early).tally :=
      tally_numberBlock early {}
    rw [hearly, place.tally_eq, Reading.tally_append]
    rfl
  have halike := alike_block (place.alike_readings block index (Ascii.utf8 sentence)) early late 0
  have hfound := rel_find? (p := fun x => x.1 == (Ascii.utf8 sentence).length)
    (q := fun x => x.1 == (Ascii.utf8 sentence).length) halike fun x y hxy => by rw [hxy.1]
  rw [Grammar.parse, Grammar.parse, marks?_build, marks?_build, hnumber]
  generalize hfirst : List.find? _ _ = first at hfound ⊢
  generalize List.find? _ _ = second at hfound ⊢
  cases hfound with
  | none => exact .inl ⟨rfl, rfl⟩
  | @some x y hxy =>
    obtain ⟨hgroups, before, after, hbefore, hold, hnew⟩ := hxy.2 []
    rw [List.append_nil] at hnew
    refine .inr ⟨x.2, before, after, (find_readingsBlock_some hfirst).2, hbefore, ?_, ?_⟩
    · rw [← hold]
      rfl
    · rw [← hnew, ← hgroups]
      rfl

/-- The digit is there and the comma behind it is not. -/
example : ((Grammar.build "digit" [.optional [.captured (.digits 1 (some 1)),
    .either [[.byte Ascii.comma], []] 0]]).parse "1").map (·.alternatives) = some [some 1] := by
  cbv

end TrackerWire
