import TrackerWire.Grammar.Captures
import TrackerWire.Proofs.Grammar.Reading

/-!
# The search finds the first reading

`Slot.run` threads one set of marks through all attempts. What keeps it honest is that marks are
blank where nothing has been decided yet, and that a continuation that fails gives back the marks
it was given (`Restores`). Under this one invariant a numbered slot before a continuation does
what the list of its readings says (`run_number`): it hands the readings to the continuation in
order, each written over the blank marks, until one succeeds, and otherwise restores the marks
itself.

* `marks?_build`: the marks of a match are those of the first listed reading of the whole input.
* `parse_build`: a sentence matches iff it has a reading, and what is captured is the first one.
-/
namespace TrackerWire

def Reading.marks (r : Reading) : Marks := ⟨r.groups, r.alternatives⟩

/-- How many captures and alternations a reading reports on. -/
def Reading.tally (r : Reading) : Tally := ⟨r.groups.length, r.alternatives.length⟩

/-- A continuation that fails gives back the marks. -/
def Restores (following : Continuation) (position : Nat) (marks : Marks) : Prop :=
  (following position marks).1 = false → (following position marks).2 = marks

/-- The marks of a success. -/
def Marks.found? : Bool × Marks → Option Marks
  | (true, marks) => some marks
  | (false, _) => none

/-- The answer of a search: its success, or the marks as they were. -/
def Marks.answer (marks : Marks) : Option Marks → Bool × Marks
  | some found => (true, found)
  | none => (false, marks)

@[simp] theorem found?_answer (marks : Marks) (found : Option Marks) :
    Marks.found? (Marks.answer marks found) = found := by cases found <;> rfl

theorem answer_found? {following : Continuation} {position : Nat} {marks : Marks}
    (h : Restores following position marks) :
    Marks.answer marks (Marks.found? (following position marks)) = following position marks := by
  unfold Restores at h
  cases hf : following position marks with
  | mk found left =>
    rw [hf] at h
    cases found with
    | true => rfl
    | false => simp only [Marks.found?, Marks.answer]; rw [← h rfl]

theorem restores_of_answer {following : Continuation} {position : Nat} {marks : Marks}
    {found : Option Marks} (h : following position marks = Marks.answer marks found) :
    Restores following position marks := by
  intro hf
  rw [h] at hf ⊢
  cases found with
  | some _ => cases hf
  | none => rfl

/-! ## Attempts one after the other -/

/-- Attempts that restore the marks are made independently of each other. -/
theorem firstSuccess_eq {α : Type} (attempt : α → Marks → Bool × Marks) (marks : Marks)
    (choices : List α)
    (h : ∀ c ∈ choices, (attempt c marks).1 = false → (attempt c marks).2 = marks) :
    firstSuccess attempt choices marks =
      Marks.answer marks (choices.findSome? fun c => Marks.found? (attempt c marks)) := by
  induction choices with
  | nil => rfl
  | cons c others ih =>
    have hc := h c List.mem_cons_self
    have ih := ih fun c' hc' => h c' (List.mem_cons_of_mem c hc')
    rw [firstSuccess, List.findSome?_cons]
    cases ha : attempt c marks with
    | mk found left =>
      rw [ha] at hc
      cases found with
      | true => rfl
      | false =>
        have hl : left = marks := hc rfl
        subst hl; exact ih

/-- The attempts of a capture leave its last mark standing; otherwise they restore the marks. -/
theorem firstSuccess_capture (following : Continuation) (position : Nat) (index : Nat)
    (choices : List Nat) (marks : Marks)
    (h : ∀ n ∈ choices, Restores following (position + n)
      (marks.setGroup index (some ⟨position, position + n⟩))) :
    ∃ left, left.setGroup index none = marks.setGroup index none ∧
      firstSuccess (fun n marks => following (position + n)
          (marks.setGroup index (some ⟨position, position + n⟩))) choices marks =
        Marks.answer left (choices.findSome? fun n => Marks.found? (following (position + n)
          (marks.setGroup index (some ⟨position, position + n⟩)))) := by
  have overwrite : ∀ (marks : Marks) x y, (marks.setGroup index x).setGroup index y =
      marks.setGroup index y := fun _ _ _ => by simp only [Marks.setGroup, List.set_set]
  induction choices generalizing marks with
  | nil => exact ⟨marks, rfl, rfl⟩
  | cons n others ih =>
    have hn := h n List.mem_cons_self
    rw [firstSuccess, List.findSome?_cons]
    unfold Restores at hn
    cases ha : following (position + n) (marks.setGroup index (some ⟨position, position + n⟩)) with
    | mk found left =>
      rw [ha] at hn
      cases found with
      | true => exact ⟨marks, rfl, rfl⟩
      | false =>
        have hl : left = marks.setGroup index (some ⟨position, position + n⟩) := hn rfl
        subst hl
        obtain ⟨left', hl, he⟩ := ih (marks.setGroup index (some ⟨position, position + n⟩))
          (fun m hm => by rw [overwrite]; exact h m (List.mem_cons_of_mem n hm))
        simp only [overwrite] at hl he
        exact ⟨left', hl, he⟩

/-! ## How many marks a slot makes -/

theorem Reading.tally_append (r s : Reading) : (r ++ s).tally =
    ⟨r.tally.groups + s.tally.groups, r.tally.alternations + s.tally.alternations⟩ := by
  simp only [tally, groups_append, alternatives_append, List.length_append]

mutual

theorem tally_readings (input : Bytes) (slot : Slot) (start : Nat) :
    ∀ x ∈ slot.readings input start, x.2.tally = slot.absent.tally := by
  match slot with
  | .literal bytes =>
    intro x hx
    simp only [Slot.readings] at hx
    split at hx
    · rw [List.mem_singleton.mp hx]; rfl
    · cases hx
  | .skip token =>
    intro x hx
    obtain ⟨n, -, rfl⟩ := List.mem_map.mp hx
    rfl
  | .capture token index =>
    intro x hx
    obtain ⟨n, -, rfl⟩ := List.mem_map.mp hx
    rfl
  | .optional block =>
    intro x hx
    rcases List.mem_append.mp hx with hx | hx
    · obtain ⟨y, hy, rfl⟩ := List.mem_map.mp hx
      exact tally_readingsBlock input block start y hy
    · rw [List.mem_singleton.mp hx]; rfl
  | .either alternatives index =>
    intro x hx
    obtain ⟨y, hy, rfl⟩ := List.mem_map.mp hx
    rw [Slot.absent, Reading.tally_append, Reading.tally_append,
      tally_readingsOneOf input alternatives start y hy]
    rfl

theorem tally_readingsBlock (input : Bytes) (block : List Slot) (start : Nat) :
    ∀ x ∈ Slot.readingsBlock input block start, x.2.tally = (Slot.absentBlock block).tally := by
  match block with
  | [] =>
    intro x hx
    rw [List.mem_singleton.mp hx]; rfl
  | slot :: rest =>
    intro x hx
    obtain ⟨y, hy, hx⟩ := List.mem_flatMap.mp hx
    obtain ⟨z, hz, rfl⟩ := List.mem_map.mp hx
    rw [Slot.absentBlock, Reading.tally_append, Reading.tally_append,
      tally_readings input slot start y hy, tally_readingsBlock input rest y.1 z hz]

theorem tally_readingsOneOf (input : Bytes) (alternatives : List (List Slot)) (start : Nat) :
    ∀ x ∈ Slot.readingsOneOf input alternatives start,
      x.2.2.tally = (Slot.absentAlternatives alternatives).tally := by
  match alternatives with
  | [] => intro x hx; cases hx
  | block :: rest =>
    intro x hx
    rw [Slot.absentAlternatives, Reading.tally_append]
    rcases List.mem_append.mp hx with hx | hx
    · obtain ⟨y, hy, rfl⟩ := List.mem_map.mp hx
      rw [Reading.tally_append, tally_readingsBlock input block start y hy]
    · obtain ⟨y, hy, rfl⟩ := List.mem_map.mp hx
      rw [Reading.tally_append, tally_readingsOneOf input rest start y hy]

end

mutual

theorem tally_number (slot : Slot) (before : Reading) :
    (slot.number before.tally).2 = (before ++ slot.absent).tally := by
  match slot with
  | .literal bytes => simp only [Slot.number, Slot.absent, Reading.append_nil]
  | .skip token => simp only [Slot.number, Slot.absent, Reading.append_nil]
  | .capture token index =>
    simp [Slot.number, Slot.absent, Reading.tally]
  | .optional block => simp only [Slot.number, Slot.absent]; exact tally_numberBlock block before
  | .either alternatives index =>
    simp only [Slot.number, Slot.absent]
    rw [← Reading.append_assoc, ← tally_numberAlternatives]
    simp [Reading.tally]

theorem tally_numberBlock (block : List Slot) (before : Reading) :
    (Slot.numberBlock block before.tally).2 = (before ++ Slot.absentBlock block).tally := by
  match block with
  | [] => simp only [Slot.numberBlock, Slot.absentBlock, Reading.append_nil]
  | slot :: rest =>
    simp only [Slot.numberBlock, Slot.absentBlock]
    rw [tally_number, tally_numberBlock, Reading.append_assoc]

theorem tally_numberAlternatives (alternatives : List (List Slot)) (before : Reading) :
    (Slot.numberAlternatives alternatives before.tally).2 =
      (before ++ Slot.absentAlternatives alternatives).tally := by
  match alternatives with
  | [] => simp only [Slot.numberAlternatives, Slot.absentAlternatives, Reading.append_nil]
  | block :: rest =>
    simp only [Slot.numberAlternatives, Slot.absentAlternatives]
    rw [tally_numberBlock, tally_numberAlternatives, Reading.append_assoc]

end

theorem findSome?_congr {α β : Type} {l : List α} {f g : α → Option β} (h : ∀ x ∈ l, f x = g x) :
    l.findSome? f = l.findSome? g := by
  induction l with
  | nil => rfl
  | cons a l ih =>
    rw [List.findSome?_cons, List.findSome?_cons, h a List.mem_cons_self,
      ih fun x hx => h x (List.mem_cons_of_mem a hx)]

theorem findSome?_flatMap {α β γ : Type} (l : List α) (f : α → List β) (g : β → Option γ) :
    (l.flatMap f).findSome? g = l.findSome? fun a => (f a).findSome? g := by
  induction l with
  | nil => rfl
  | cons a l ih =>
    rw [List.flatMap_cons, List.findSome?_append, List.findSome?_cons, ih]
    cases (f a).findSome? g <;> rfl

/-! ## A slot before a continuation -/

/-- An alternation among the marks already made takes an alternative. -/
def Reading.mark (r : Reading) (index n : Nat) : Reading :=
  { r with alternatives := r.alternatives.set index (some n) }

theorem Reading.tally_mark (r : Reading) (index n : Nat) : (r.mark index n).tally = r.tally := by
  simp only [tally, mark, List.length_set]

theorem Reading.mark_append {r : Reading} {index : Nat} (h : index < r.alternatives.length)
    (n : Nat) (s : Reading) : (r ++ s).mark index n = r.mark index n ++ s := by
  show Reading.mark (append r s) index n = append (r.mark index n) s
  simp only [mark, append, List.set_append_left _ _ h]

theorem setAlternative_marks (r : Reading) (index n : Nat) :
    r.marks.setAlternative index n = (r.mark index n).marks := rfl

theorem setGroup_tally (before after : Reading) (c c' : List Choice) (old new : Option Span) :
    ((before ++ ⟨c, [old], []⟩ ++ after).marks).setGroup before.tally.groups new =
      (before ++ ⟨c', [new], []⟩ ++ after).marks := by
  simp [Reading.marks, Marks.setGroup, Reading.tally]

theorem mark_alternation (before after r : Reading) (n : Nat) :
    ((before ++ ({ alternatives := [none] } : Reading)).mark before.tally.alternations n ++
      r ++ after).marks = (before ++ (Reading.branch n ++ r) ++ after).marks := by
  simp [Reading.marks, Reading.mark, Reading.tally, Reading.branch]

theorem tally_alternation (before : Reading) :
    (before ++ ({ alternatives := [none] } : Reading)).tally =
      { before.tally with alternations := before.tally.alternations + 1 } := by
  simp [Reading.tally]

section
variable (subject : Subject)

/-- A capture marks each text it tries, and unmarks the last one if none does. -/
theorem run_capture (token : Token) (before after : Reading) (following : Continuation)
    (start index : Nat)
    (h : ∀ x ∈ (Slot.capture token index).readings subject.bytes start,
      Restores following x.1 (before ++ x.2 ++ after).marks) :
    Slot.run subject (.capture token before.tally.groups) following start
        (before ++ { groups := [none] } ++ after).marks =
      Marks.answer (before ++ { groups := [none] } ++ after).marks
        (((Slot.capture token index).readings subject.bytes start).findSome? fun x =>
          Marks.found? (following x.1 (before ++ x.2 ++ after).marks)) := by
  simp only [Slot.readings, Subject.after_eq, Slot.run, List.findSome?_map] at h ⊢
  have write : ∀ n, (before ++ { groups := [none] } ++ after).marks.setGroup before.tally.groups
      (some ⟨start, start + n⟩) =
        (before ++ ⟨[.length n], [some ⟨start, start + n⟩], []⟩ ++ after).marks :=
    fun _ => setGroup_tally before after _ _ _ _
  obtain ⟨left, hl, he⟩ := firstSuccess_capture following start before.tally.groups
    (token.lengths (subject.bytes.drop start)) (before ++ { groups := [none] } ++ after).marks
    fun n hn => by rw [write]; exact h _ (List.mem_map_of_mem hn)
  rw [setGroup_tally before after [] [] none none] at hl
  simp only [write] at he
  rw [he]
  simp only [Function.comp_def]
  generalize List.findSome? _ (token.lengths (subject.bytes.drop start)) = found
  cases found with
  | some marks => rfl
  | none => simp only [Marks.answer]; rw [← hl]

mutual

theorem run_number (slot : Slot) (before after : Reading) (following : Continuation) (start : Nat)
    (h : ∀ x ∈ slot.readings subject.bytes start,
      Restores following x.1 (before ++ x.2 ++ after).marks) :
    Slot.run subject (slot.number before.tally).1 following start
        (before ++ slot.absent ++ after).marks =
      Marks.answer (before ++ slot.absent ++ after).marks
        ((slot.readings subject.bytes start).findSome? fun x =>
          Marks.found? (following x.1 (before ++ x.2 ++ after).marks)) := by
  match slot with
  | .literal bytes =>
    simp only [Slot.readings, Subject.after_eq, Slot.number, Slot.run] at h ⊢
    split
    · rename_i hp
      rw [if_pos hp] at h
      have h := h _ (List.mem_singleton_self _)
      rw [List.findSome?_singleton, Slot.absent]
      exact (answer_found? h).symm
    · rfl
  | .skip token =>
    simp only [Slot.readings, Subject.after_eq, Slot.number, Slot.run, List.findSome?_map] at h ⊢
    exact firstSuccess_eq _ _ _ fun n hn => h _ (List.mem_map_of_mem hn)
  | .capture token index => exact run_capture subject token before after following start index h
  | .optional block =>
    simp only [Slot.readings, Slot.number, Slot.run, Slot.absent] at h ⊢
    have hblock := run_numberBlock block before after following start fun x hx =>
      h (x.1, x.2.choose .taken) (List.mem_append_left _ (List.mem_map_of_mem hx))
    have homit : Restores following start (before ++ Slot.absentBlock block ++ after).marks :=
      h _ (List.mem_append_right _ (List.mem_singleton_self _))
    rw [hblock, List.findSome?_append, List.findSome?_map, List.findSome?_singleton]
    -- the marks do not show the decision that the block is there
    change _ = Marks.answer _ (((Slot.readingsBlock subject.bytes block start).findSome? fun x =>
      Marks.found? (following x.1 (before ++ x.2 ++ after).marks)).or _)
    cases (Slot.readingsBlock subject.bytes block start).findSome? fun x =>
        Marks.found? (following x.1 (before ++ x.2 ++ after).marks) with
    | some marks => rfl
    | none => exact (answer_found? homit).symm
  | .either alternatives index =>
    simp only [Slot.readings, Slot.number, Slot.run, Slot.absent, List.findSome?_map] at h ⊢
    have hindex : before.tally.alternations <
        (before ++ ({ alternatives := [none] } : Reading)).alternatives.length := by
      simp [Reading.tally]
    have hoptions := run_numberAlternatives alternatives (before ++ { alternatives := [none] })
      after following start before.tally.alternations 0 hindex fun x hx => by
        rw [mark_alternation, Nat.zero_add]; exact h _ (List.mem_map_of_mem hx)
    rw [tally_alternation, Reading.append_assoc before] at hoptions
    simp only [mark_alternation, Nat.zero_add] at hoptions
    exact hoptions

theorem run_numberBlock (block : List Slot) (before after : Reading) (following : Continuation)
    (start : Nat)
    (h : ∀ x ∈ Slot.readingsBlock subject.bytes block start,
      Restores following x.1 (before ++ x.2 ++ after).marks) :
    Slot.runBlock subject (Slot.numberBlock block before.tally).1 following start
        (before ++ Slot.absentBlock block ++ after).marks =
      Marks.answer (before ++ Slot.absentBlock block ++ after).marks
        ((Slot.readingsBlock subject.bytes block start).findSome? fun x =>
          Marks.found? (following x.1 (before ++ x.2 ++ after).marks)) := by
  match block with
  | [] =>
    simp only [Slot.readingsBlock, Slot.numberBlock, Slot.runBlock] at h ⊢
    rw [List.findSome?_singleton]
    exact (answer_found? (h _ (List.mem_singleton_self _))).symm
  | slot :: rest =>
    simp only [Slot.readingsBlock, Slot.numberBlock, Slot.runBlock, Slot.absentBlock,
      findSome?_flatMap, List.findSome?_map] at h ⊢
    -- the rest of the block before the continuation, behind any reading of the slot
    have hrest : ∀ x ∈ slot.readings subject.bytes start,
        Slot.runBlock subject (Slot.numberBlock rest (slot.number before.tally).2).1 following x.1
            (before ++ x.2 ++ (Slot.absentBlock rest ++ after)).marks =
          Marks.answer (before ++ x.2 ++ (Slot.absentBlock rest ++ after)).marks
            ((Slot.readingsBlock subject.bytes rest x.1).findSome? fun y =>
              Marks.found? (following y.1 (before ++ (x.2 ++ y.2) ++ after).marks)) := by
      intro x hx
      have htally : (slot.number before.tally).2 = (before ++ x.2).tally := by
        rw [tally_number, Reading.tally_append, Reading.tally_append,
          tally_readings subject.bytes slot start x hx]
      have := run_numberBlock rest (before ++ x.2) after following x.1 fun y hy => by
        rw [Reading.append_assoc before]
        exact h _ (List.mem_flatMap.mpr ⟨x, hx, List.mem_map_of_mem hy⟩)
      rw [htally]
      simp only [Reading.append_assoc] at this ⊢
      exact this
    have hslot := run_number slot before (Slot.absentBlock rest ++ after)
      (Slot.runBlock subject (Slot.numberBlock rest (slot.number before.tally).2).1 following)
      start fun x hx => restores_of_answer (hrest x hx)
    rw [← Reading.append_assoc before, Reading.append_assoc (before ++ slot.absent), hslot]
    congr 1
    refine findSome?_congr fun x hx => ?_
    rw [hrest x hx, found?_answer]; rfl

theorem run_numberAlternatives (alternatives : List (List Slot)) (before after : Reading)
    (following : Continuation) (start index choice : Nat)
    (hindex : index < before.alternatives.length)
    (h : ∀ x ∈ Slot.readingsOneOf subject.bytes alternatives start,
      Restores following x.2.1 (before.mark index (choice + x.1) ++ x.2.2 ++ after).marks) :
    Slot.runAlternatives subject index choice (Slot.numberAlternatives alternatives before.tally).1
        following start (before ++ Slot.absentAlternatives alternatives ++ after).marks =
      Marks.answer (before ++ Slot.absentAlternatives alternatives ++ after).marks
        ((Slot.readingsOneOf subject.bytes alternatives start).findSome? fun x =>
          Marks.found? (following x.2.1
            (before.mark index (choice + x.1) ++ x.2.2 ++ after).marks)) := by
  match alternatives with
  | [] => rfl
  | block :: rest =>
    simp only [Slot.readingsOneOf, Slot.numberAlternatives, Slot.runAlternatives,
      Slot.absentAlternatives, List.findSome?_append, List.findSome?_map] at h ⊢
    have hblock := run_numberBlock block (before.mark index choice)
      (Slot.absentAlternatives rest ++ after) following start fun x hx => by
        rw [← Reading.append_assoc, Reading.append_assoc _ x.2]
        exact h _ (List.mem_append_left _ (List.mem_map_of_mem hx))
    have hothers := run_numberAlternatives rest (before ++ Slot.absentBlock block) after following
      start index (choice + 1) (by simp; omega) fun x hx => by
        rw [Reading.mark_append hindex, Reading.append_assoc (before.mark _ _),
          Nat.add_assoc, Nat.add_comm 1]
        exact h _ (List.mem_append_right _ (List.mem_map_of_mem hx))
    have hset : (before ++ (Slot.absentBlock block ++ Slot.absentAlternatives rest) ++
        after).marks.setAlternative index choice =
          (before.mark index choice ++ Slot.absentBlock block ++
            (Slot.absentAlternatives rest ++ after)).marks := by
      rw [setAlternative_marks, Reading.append_assoc, Reading.mark_append hindex]
      simp only [Reading.append_assoc]
    rw [Reading.tally_mark] at hblock
    rw [hset, hblock, tally_numberBlock]
    simp only [Reading.mark_append hindex, Reading.append_assoc, Function.comp_def, Nat.add_zero,
      Nat.add_assoc, Nat.add_comm 1] at hothers ⊢
    rw [hothers]
    cases (Slot.readingsBlock subject.bytes block start).findSome? _ with
    | some marks => rfl
    | none => rfl

end

end

/-! ## A whole input -/

/-- Nothing is reported. -/
def Reading.Blank (r : Reading) : Prop :=
  r.marks = Marks.blank r.tally.groups r.tally.alternations

theorem Reading.blank_append {r s : Reading} (hr : r.Blank) (hs : s.Blank) : (r ++ s).Blank := by
  obtain ⟨hrg, hra⟩ := Marks.mk.inj hr
  obtain ⟨hsg, hsa⟩ := Marks.mk.inj hs
  unfold Blank Marks.blank
  rw [tally_append, ← List.replicate_append_replicate, ← List.replicate_append_replicate, ← hrg,
    ← hra, ← hsg, ← hsa]
  rfl

mutual

theorem absent_blank (slot : Slot) : slot.absent.Blank := by
  match slot with
  | .literal bytes => rfl
  | .skip token => rfl
  | .capture token index => rfl
  | .optional block => exact absentBlock_blank block
  | .either alternatives index =>
    exact Reading.blank_append rfl (absentAlternatives_blank alternatives)

theorem absentBlock_blank (block : List Slot) : (Slot.absentBlock block).Blank := by
  match block with
  | [] => rfl
  | slot :: rest => exact Reading.blank_append (absent_blank slot) (absentBlock_blank rest)

theorem absentAlternatives_blank (alternatives : List (List Slot)) :
    (Slot.absentAlternatives alternatives).Blank := by
  match alternatives with
  | [] => rfl
  | block :: rest =>
    exact Reading.blank_append (absentBlock_blank block) (absentAlternatives_blank rest)

end

/-- A match marks what the first listed reading of the whole input reports. -/
theorem marks?_build (name : String) (slots : List Slot) (input : Bytes) :
    (Grammar.build name slots).marks? input =
      ((Slot.readingsBlock input slots 0).find? fun x => x.1 == input.length).map
        fun x => x.2.marks := by
  have hsize : (Subject.ofBytes input).size = input.length := rfl
  have htally : (Slot.numberBlock slots {}).2 = (Slot.absentBlock slots).tally :=
    tally_numberBlock slots {}
  have hrun := run_numberBlock (Subject.ofBytes input) slots {} {}
    (atEnd (Subject.ofBytes input)) 0 fun _ _ _ => rfl
  simp only [Reading.nil_append, Reading.append_nil, Subject.bytes_ofBytes] at hrun
  unfold Grammar.marks? Grammar.build
  simp only [Slot.runStack, htally]
  rw [← absentBlock_blank slots]
  show (match Slot.runBlock _ (Slot.numberBlock slots ({} : Reading).tally).1 _ _ _ with
    | (true, marks) => some marks
    | (false, _) => none) = _
  rw [hrun]
  have hfind : ((Slot.readingsBlock input slots 0).findSome? fun x =>
      Marks.found? (atEnd (Subject.ofBytes input) x.1 x.2.marks)) =
        ((Slot.readingsBlock input slots 0).find? fun x => x.1 == input.length).map
          fun x => x.2.marks := by
    induction Slot.readingsBlock input slots 0 with
    | nil => rfl
    | cons x others ih =>
      rw [List.findSome?_cons, List.find?_cons, ih]
      unfold atEnd
      rw [hsize]
      cases x.1 == input.length <;> rfl
  rw [hfind]
  cases List.find? _ _ <;> rfl

theorem stands_whole {input text : Bytes} : Stands input 0 text input.length ↔ text = input := by
  unfold Stands
  rw [List.drop_zero, Nat.zero_add]
  refine ⟨?_, ?_⟩
  · intro ⟨hp, hl⟩; exact hp.eq_of_length hl.symm
  · intro h; subst h; exact ⟨List.prefix_rfl, rfl⟩

theorem mem_readingsBlock_whole (input : Bytes) (slots : List Slot) (reading : Reading) :
    (input.length, reading) ∈ Slot.readingsBlock input slots 0 ↔
      Slot.ReadsBlock slots 0 input reading := by
  rw [mem_readingsBlock]
  simp only [stands_whole, exists_eq_left]

theorem FirstReading.unique {slots : List Slot} {input : Bytes} {r s : Reading}
    (hr : FirstReading slots input r) (hs : FirstReading slots input s) : r = s := by
  rcases hr.2 s hs.1 with h | h
  · exact h.symm
  · rcases hs.2 r hr.1 with h' | h'
    · exact h'
    · exact absurd h' h.asymm

/-- The first listed reading that reaches the end comes before every other reading. -/
theorem firstReading_of_find {slots : List Slot} {input : Bytes} {reading : Reading}
    (hf : (Slot.readingsBlock input slots 0).find? (fun x => x.1 == input.length) =
      some (input.length, reading)) : FirstReading slots input reading := by
  have ordered := readingsBlock_ordered input slots 0
  obtain ⟨-, front, behind, hl, hfront⟩ := List.find?_eq_some_iff_append.mp hf
  refine ⟨(mem_readingsBlock_whole input slots reading).mp (List.mem_of_find?_eq_some hf), ?_⟩
  intro other hother
  have hmem := (mem_readingsBlock_whole input slots other).mpr hother
  rw [hl] at hmem ordered
  rcases List.mem_append.mp hmem with hmem | hmem
  · have := hfront _ hmem
    simp at this
  · rcases List.mem_cons.mp hmem with he | hmem
    · exact .inl (Prod.mk.inj he).2
    · have := (List.pairwise_append.mp ordered).2.1
      exact .inr (List.rel_of_pairwise_cons this hmem)

theorem find_readingsBlock_some {slots : List Slot} {input : Bytes} {x : Nat × Reading}
    (hf : (Slot.readingsBlock input slots 0).find? (fun x => x.1 == input.length) = some x) :
    x.1 = input.length ∧ FirstReading slots input x.2 := by
  obtain ⟨stop, reading⟩ := x
  have hstop : stop = input.length := by simpa using List.find?_some hf
  subst hstop
  exact ⟨rfl, firstReading_of_find hf⟩

theorem find_readingsBlock_none {slots : List Slot} {input : Bytes} :
    (Slot.readingsBlock input slots 0).find? (fun x => x.1 == input.length) = none ↔
      ∀ reading, ¬ Slot.ReadsBlock slots 0 input reading := by
  rw [List.find?_eq_none]
  refine ⟨?_, ?_⟩
  · intro h reading hreads
    have := h _ ((mem_readingsBlock_whole input slots reading).mpr hreads)
    simp at this
  · intro h x hx hstop
    obtain ⟨stop, reading⟩ := x
    have hstop : stop = input.length := by simpa using hstop
    subst hstop
    exact h reading ((mem_readingsBlock_whole input slots reading).mp hx)

/-- **A sentence matches exactly when it has a reading, and what is captured is the first one.** -/
theorem parse_build (name : String) (slots : List Slot) (sentence : String) :
    ((Grammar.build name slots).parse sentence = none ↔
        ∀ reading, ¬ Slot.ReadsBlock slots 0 (Ascii.utf8 sentence) reading) ∧
      ∀ captures, (Grammar.build name slots).parse sentence = some captures ↔
        ∃ reading, FirstReading slots (Ascii.utf8 sentence) reading ∧
          captures = { input := Ascii.utf8 sentence, groups := reading.groups,
                       alternatives := reading.alternatives, cursor := 0 } := by
  simp only [Grammar.parse, marks?_build, Option.map_map, Option.map_eq_none_iff,
    Option.map_eq_some_iff, find_readingsBlock_none, true_and]
  generalize Ascii.utf8 sentence = input
  intro captures
  refine ⟨?_, ?_⟩
  · intro ⟨x, hf, he⟩
    exact ⟨x.2, (find_readingsBlock_some hf).2, he.symm⟩
  · intro ⟨reading, hfirst, he⟩
    cases hf : (Slot.readingsBlock input slots 0).find? fun x => x.1 == input.length with
    | none => exact absurd hfirst.1 (find_readingsBlock_none.mp hf reading)
    | some x =>
      have hx := (find_readingsBlock_some hf).2.unique hfirst
      exact ⟨x, rfl, by rw [he, ← hx]; rfl⟩

/-- A number gives its fraction back where the slot behind it needs it. -/
example : ((Grammar.build "number" [.captured .number, .literal [0x2E, 0x35]]).parse "12.5").map
    (·.groups) = some [some ⟨0, 2⟩] := by cbv

end TrackerWire
