import TrackerWire.Grammar.Slot

/-!
# Matching

A grammar matches an input as a whole, from its first byte to its last (specification, §4.4). Where
there is a choice it is tried in order: the longest text of a token first, a block before leaving
it out, alternatives as they are listed. A choice stands once everything behind it matches;
otherwise the next one is tried, and what was marked for the first is taken back.

`Slot.run` says what a slot does before a continuation, which stands for everything behind it and
answers whether that matches. The marks are threaded through failed attempts as well.
-/

namespace TrackerWire

/-- The bytes from `start` up to and without `stop`. -/
structure Span where
  start : Nat
  stop : Nat
  deriving DecidableEq, Repr

/-- What a match has marked so far. -/
structure Marks where
  /-- Where each capture was found. -/
  groups : List (Option Span)
  /-- Which alternative each alternation took. -/
  alternatives : List (Option Nat)
  deriving DecidableEq, Repr

namespace Marks

def blank (groups alternations : Nat) : Marks :=
  ⟨List.replicate groups none, List.replicate alternations none⟩

/-- Mark a capture, or unmark it. -/
def setGroup (marks : Marks) (index : Nat) (span : Option Span) : Marks :=
  { marks with groups := marks.groups.set index span }

/-- Mark the alternative an alternation takes. -/
def setAlternative (marks : Marks) (index choice : Nat) : Marks :=
  { marks with alternatives := marks.alternatives.set index (some choice) }

end Marks

/-- The suffixes of a byte string, longest first, behind those gathered so far. -/
def suffixesOnto (gathered : Array Bytes) : Bytes → Array Bytes
  | [] => gathered.push []
  | b :: rest => suffixesOnto (gathered.push (b :: rest)) rest

theorem getD_suffixesOnto (gathered : Array Bytes) (bytes : Bytes) (i : Nat) :
    (suffixesOnto gathered bytes).getD (gathered.size + i) [] = bytes.drop i := by
  have keep : ∀ (bytes : Bytes) (gathered : Array Bytes) (i : Nat) (h : i < gathered.size),
      (suffixesOnto gathered bytes)[i]? = some gathered[i] := by
    intro bytes
    induction bytes with
    | nil => intro gathered i h; simp [suffixesOnto, Array.getElem?_push, Nat.ne_of_lt h, h]
    | cons b rest ih =>
      intro gathered i h
      rw [suffixesOnto, ih _ _ (by simp; omega)]
      simp [Array.getElem_push, h]
  have beyond : ∀ (bytes : Bytes) (gathered : Array Bytes),
      (suffixesOnto gathered bytes).size = gathered.size + bytes.length + 1 := by
    intro bytes
    induction bytes with
    | nil => intro gathered; simp [suffixesOnto]
    | cons b rest ih => intro gathered; rw [suffixesOnto, ih]; simp; omega
  induction bytes generalizing gathered i with
  | nil =>
    cases i with
    | zero => simp [suffixesOnto]
    | succ i =>
      rw [Array.getD_eq_getD_getElem?, Array.getElem?_eq_none (by rw [beyond]; simp)]
      simp
  | cons b rest ih =>
    cases i with
    | zero =>
      rw [suffixesOnto, Array.getD_eq_getD_getElem?, Nat.add_zero, keep _ _ _ (by simp)]
      simp
    | succ i =>
      have := ih (gathered.push (b :: rest)) i
      rw [Array.size_push] at this
      rw [suffixesOnto, List.drop_succ_cons, ← this]
      congr 1
      omega

/-- An input to match, with what follows each position at hand. -/
structure Subject where
  bytes : Bytes
  /-- The suffixes of the input, longest first. -/
  suffixes : Array Bytes
  /-- The length of the input. -/
  size : Nat
  suffixes_eq : ∀ i, suffixes.getD i [] = bytes.drop i
  size_eq : size = bytes.length

namespace Subject

def ofBytes (bytes : Bytes) : Subject :=
  { bytes
    suffixes := suffixesOnto #[] bytes
    size := bytes.length
    suffixes_eq := fun i => by simpa using getD_suffixesOnto #[] bytes i
    size_eq := rfl }

def after (subject : Subject) (position : Nat) : Bytes := subject.suffixes.getD position []

@[simp] theorem after_eq (subject : Subject) (position : Nat) :
    subject.after position = subject.bytes.drop position := subject.suffixes_eq position

@[simp] theorem bytes_ofBytes (bytes : Bytes) : (ofBytes bytes).bytes = bytes := rfl

end Subject

/-- Does everything behind a position match? The answer comes with the marks it leaves. -/
abbrev Continuation := Nat → Marks → Bool × Marks

/-- The first of several attempts that succeeds. Each starts from the marks that the failed one
before it has left. -/
def firstSuccess {α : Type} (attempt : α → Marks → Bool × Marks) :
    List α → Marks → Bool × Marks
  | [], marks => (false, marks)
  | choice :: others, marks =>
    match attempt choice marks with
    | (true, marks) => (true, marks)
    | (false, marks) => firstSuccess attempt others marks

mutual

/-- Match a slot at a position, and what follows behind it; mirrors the interpreter that §9 asks
for, with the greedy blocks of §10.8. -/
def Slot.run (subject : Subject) : Slot → Continuation → Continuation
  | .literal bytes, following, position, marks =>
    if bytes.isPrefixOf (subject.after position) then following (position + bytes.length) marks
    else (false, marks)
  | .skip token, following, position, marks =>
    firstSuccess (fun length => following (position + length))
      (token.lengths (subject.after position)) marks
  | .capture token index, following, position, marks =>
    match firstSuccess
        (fun length marks => following (position + length)
          (marks.setGroup index (some ⟨position, position + length⟩)))
        (token.lengths (subject.after position)) marks with
    | (true, marks) => (true, marks)
    -- the failed attempts have left the last length marked
    | (false, marks) => (false, marks.setGroup index none)
  | .optional block, following, position, marks =>
    match Slot.runBlock subject block following position marks with
    | (true, marks) => (true, marks)
    | (false, _) => following position marks
  | .either alternatives index, following, position, marks =>
    Slot.runAlternatives subject index 0 alternatives following position marks

/-- Match the slots of a block one behind the other. -/
def Slot.runBlock (subject : Subject) : List Slot → Continuation → Continuation
  | [], following => following
  | slot :: rest, following => Slot.run subject slot (Slot.runBlock subject rest following)

/-- Match the first alternative that fits, of those from number `choice` on. -/
def Slot.runAlternatives (subject : Subject) (index choice : Nat) :
    List (List Slot) → Continuation → Continuation
  | [], _, _, marks => (false, marks)
  | block :: rest, following, position, marks =>
    match Slot.runBlock subject block following position (marks.setAlternative index choice) with
    | (true, marks) => (true, marks)
    | (false, _) =>
      Slot.runAlternatives subject index (choice + 1) rest following position marks

end

def atEnd (subject : Subject) : Continuation := fun position marks =>
  (position == subject.size, marks)

/-- Match blocks that wait one behind the other, up to the end of the input. -/
def Slot.runStack (subject : Subject) : List (List Slot) → Continuation
  | [] => atEnd subject
  | block :: rest => Slot.runBlock subject block (Slot.runStack subject rest)

/-- The marks of the first match of a whole byte string. -/
def Grammar.marks? (grammar : Grammar) (input : Bytes) : Option Marks :=
  match Slot.runStack (Subject.ofBytes input) [grammar.slots] 0
      (Marks.blank grammar.groups grammar.alternations) with
  | (true, marks) => some marks
  | (false, _) => none

end TrackerWire
