import TrackerWire.Grammar.Match
import TrackerWire.Proofs.Grammar.Language

/-!
# Readings of a grammar

A reading says how a byte string is made up by a list of slots: a text for every token, for every
optional block whether it is there, for every alternation the one block that stands for it.
`Slot.ReadsBlock slots start text reading` holds of exactly these; it knows nothing of searching,
of numbers inside slots or of marks that are taken back.

Several readings of one byte string are compared at the first choice in which they differ
(`Reading.Before`): a longer text comes before a shorter one, a block before its absence, an
alternative before those listed behind it. `FirstReading` is the one before all others.

`Slot.readings` lists the readings of every prefix of what follows a position:
* `mem_readingsBlock`: it lists those of the relation and no others.
* `readingsBlock_ordered`: each stands before those listed behind it.
-/
namespace TrackerWire

/-- One decision of a reading. -/
inductive Choice where
  /-- A token stands for this many bytes. -/
  | length (n : Nat)
  /-- An optional block is there. -/
  | taken
  /-- An optional block is not there. -/
  | omitted
  /-- The alternative of this number stands for the alternation. -/
  | branch (n : Nat)
  deriving DecidableEq, Repr

/-- Of two decisions about one slot, the preferred one comes first. -/
def Choice.Before : Choice → Choice → Prop
  | length m, length n => n < m
  | taken, omitted => True
  | branch m, branch n => m < n
  | _, _ => False

/-- The decisions from left to right, and what is reported for each capture and each alternation
in the order of their declaration. -/
structure Reading where
  choices : List Choice := []
  groups : List (Option Span) := []
  alternatives : List (Option Nat) := []
  deriving DecidableEq, Repr

namespace Reading

/-- A reading behind another. -/
def append (r s : Reading) : Reading :=
  ⟨r.choices ++ s.choices, r.groups ++ s.groups, r.alternatives ++ s.alternatives⟩

instance : Append Reading := ⟨append⟩

@[simp] theorem choices_append (r s : Reading) : (r ++ s).choices = r.choices ++ s.choices := rfl
@[simp] theorem groups_append (r s : Reading) : (r ++ s).groups = r.groups ++ s.groups := rfl
@[simp] theorem alternatives_append (r s : Reading) :
    (r ++ s).alternatives = r.alternatives ++ s.alternatives := rfl

theorem append_assoc (r s t : Reading) : r ++ s ++ t = r ++ (s ++ t) := by
  show append (append r s) t = append r (append s t)
  simp only [append, List.append_assoc]

theorem nil_append (r : Reading) : ({} : Reading) ++ r = r := rfl

theorem append_nil (r : Reading) : r ++ ({} : Reading) = r := by
  show append r {} = r
  simp only [append, List.append_nil]

/-- A decision in front of a reading. -/
def choose (choice : Choice) (r : Reading) : Reading := { r with choices := choice :: r.choices }

/-- The alternation itself reports the alternative it takes. -/
def branch (n : Nat) : Reading := ⟨[.branch n], [], [some n]⟩

/-- At the first choice in which the two differ, the first one decides for what is preferred. -/
def Before (r s : Reading) : Prop :=
  ∃ common a b later later', r.choices = common ++ a :: later ∧
    s.choices = common ++ b :: later' ∧ a.Before b

end Reading

mutual

/-- What a slot reports when it takes no part: nothing, for each capture and alternation in it. -/
def Slot.absent : Slot → Reading
  | .literal _ => {}
  | .skip _ => {}
  | .capture _ _ => { groups := [none] }
  | .optional block => Slot.absentBlock block
  | .either alternatives _ => { alternatives := [none] } ++ Slot.absentAlternatives alternatives

def Slot.absentBlock : List Slot → Reading
  | [] => {}
  | slot :: rest => slot.absent ++ Slot.absentBlock rest

def Slot.absentAlternatives : List (List Slot) → Reading
  | [] => {}
  | block :: rest => Slot.absentBlock block ++ Slot.absentAlternatives rest

end

mutual

/-- The text that starts at offset `start` is made up by the slot in this way. -/
inductive Slot.Reads : Slot → Nat → Bytes → Reading → Prop
  | literal {bytes start} : Slot.Reads (.literal bytes) start bytes {}
  | skip {token start text} (h : token.Accepts text) :
    Slot.Reads (.skip token) start text { choices := [.length text.length] }
  | capture {token index start text} (h : token.Accepts text) :
    Slot.Reads (.capture token index) start text
      { choices := [.length text.length], groups := [some ⟨start, start + text.length⟩] }
  | taken {block start text reading} (h : Slot.ReadsBlock block start text reading) :
    Slot.Reads (.optional block) start text (reading.choose .taken)
  | omitted {block start} :
    Slot.Reads (.optional block) start [] ((Slot.absentBlock block).choose .omitted)
  | either {alternatives index start text n reading}
    (h : Slot.ReadsOneOf alternatives start text n reading) :
    Slot.Reads (.either alternatives index) start text (Reading.branch n ++ reading)

/-- The text is made up by the slots of a block, one behind the other. -/
inductive Slot.ReadsBlock : List Slot → Nat → Bytes → Reading → Prop
  | nil {start} : Slot.ReadsBlock [] start [] {}
  | cons {slot rest start text more first others} (h : Slot.Reads slot start text first)
    (hrest : Slot.ReadsBlock rest (start + text.length) more others) :
    Slot.ReadsBlock (slot :: rest) start (text ++ more) (first ++ others)

/-- The text is made up by the block of number `n`; the others take no part. -/
inductive Slot.ReadsOneOf : List (List Slot) → Nat → Bytes → Nat → Reading → Prop
  | here {block rest start text reading} (h : Slot.ReadsBlock block start text reading) :
    Slot.ReadsOneOf (block :: rest) start text 0 (reading ++ Slot.absentAlternatives rest)
  | there {block rest start text n reading} (h : Slot.ReadsOneOf rest start text n reading) :
    Slot.ReadsOneOf (block :: rest) start text (n + 1) (Slot.absentBlock block ++ reading)

end

/-- A reading of a whole input by a list of slots that comes before every other one. -/
def FirstReading (slots : List Slot) (input : Bytes) (reading : Reading) : Prop :=
  Slot.ReadsBlock slots 0 input reading ∧
    ∀ other, Slot.ReadsBlock slots 0 input other → other = reading ∨ reading.Before other

/-! ## Listing the readings -/

mutual

/-- The readings of a slot at a position, the preferred one first, each with the position behind
its text. -/
def Slot.readings (input : Bytes) : Slot → Nat → List (Nat × Reading)
  | .literal bytes, start =>
    if bytes.isPrefixOf (input.drop start) then [(start + bytes.length, {})] else []
  | .skip token, start =>
    (token.lengths (input.drop start)).map fun n => (start + n, { choices := [.length n] })
  | .capture token _, start =>
    (token.lengths (input.drop start)).map fun n =>
      (start + n, { choices := [.length n], groups := [some ⟨start, start + n⟩] })
  | .optional block, start =>
    (Slot.readingsBlock input block start).map (fun x => (x.1, x.2.choose .taken)) ++
      [(start, (Slot.absentBlock block).choose .omitted)]
  | .either alternatives _, start =>
    (Slot.readingsOneOf input alternatives start).map fun x =>
      (x.2.1, Reading.branch x.1 ++ x.2.2)

def Slot.readingsBlock (input : Bytes) : List Slot → Nat → List (Nat × Reading)
  | [], start => [(start, {})]
  | slot :: rest, start =>
    (slot.readings input start).flatMap fun x =>
      (Slot.readingsBlock input rest x.1).map fun y => (y.1, x.2 ++ y.2)

/-- The number of the alternative stands in front. -/
def Slot.readingsOneOf (input : Bytes) : List (List Slot) → Nat → List (Nat × Nat × Reading)
  | [], _ => []
  | block :: rest, start =>
    (Slot.readingsBlock input block start).map
        (fun x => (0, x.1, x.2 ++ Slot.absentAlternatives rest)) ++
      (Slot.readingsOneOf input rest start).map
        (fun x => (x.1 + 1, x.2.1, Slot.absentBlock block ++ x.2.2))

end

/-- A text stands at a position, and ends at another. -/
def Stands (input : Bytes) (start : Nat) (text : Bytes) (stop : Nat) : Prop :=
  text <+: input.drop start ∧ stop = start + text.length

theorem stands_append {input text more : Bytes} {start mid stop : Nat} :
    Stands input start text mid ∧ Stands input mid more stop ↔
      Stands input start (text ++ more) stop ∧ mid = start + text.length := by
  unfold Stands
  refine ⟨?_, ?_⟩
  · intro ⟨⟨⟨after, ht⟩, hm⟩, hmore, hs⟩
    subst hm
    rw [← List.drop_drop, ← ht, List.drop_left] at hmore
    refine ⟨⟨?_, by rw [hs, List.length_append]; omega⟩, rfl⟩
    rw [← ht]; exact List.prefix_append_right_inj text |>.mpr hmore
  · intro ⟨⟨⟨after, ht⟩, hs⟩, hm⟩
    subst hm
    rw [List.append_assoc] at ht
    refine ⟨⟨⟨more ++ after, ht⟩, rfl⟩, ⟨after, ?_⟩, ?_⟩
    · rw [← List.drop_drop, ← ht, List.drop_left]
    · rw [hs, List.length_append]; omega

theorem stands_nil {input : Bytes} {start stop : Nat} :
    Stands input start [] stop ↔ stop = start := by
  simp [Stands]

theorem mem_lengths_drop (token : Token) (input : Bytes) (start n : Nat) :
    n ∈ token.lengths (input.drop start) ↔
      ∃ text, Stands input start text (start + n) ∧ token.Accepts text := by
  rw [Token.mem_lengths]
  refine ⟨?_, ?_⟩
  · intro ⟨text, after, hin, hn, ht⟩
    exact ⟨text, ⟨⟨after, hin.symm⟩, by rw [hn]⟩, ht⟩
  · intro ⟨text, ⟨⟨after, hin⟩, hn⟩, ht⟩
    exact ⟨text, after, hin.symm, by omega, ht⟩

/-- The readings of a token are those of its texts, whatever they report of the length. -/
theorem mem_token_readings (token : Token) (input : Bytes) (start stop : Nat) (reading : Reading)
    (report : Nat → Reading) :
    (stop, reading) ∈ (token.lengths (input.drop start)).map (fun n => (start + n, report n)) ↔
      ∃ text, Stands input start text stop ∧ token.Accepts text ∧
        reading = report text.length := by
  simp only [List.mem_map, mem_lengths_drop]
  refine ⟨?_, ?_⟩
  · intro ⟨n, ⟨text, hs, ht⟩, he⟩
    obtain ⟨rfl, rfl⟩ := Prod.mk.inj he
    have hn : n = text.length := by have := hs.2; omega
    subst hn; exact ⟨text, hs, ht, rfl⟩
  · intro ⟨text, hs, ht, he⟩
    exact ⟨text.length, ⟨text, ⟨hs.1, rfl⟩, ht⟩, by rw [hs.2, he]⟩

mutual

theorem mem_readings (input : Bytes) (slot : Slot) (start stop : Nat) (reading : Reading) :
    (stop, reading) ∈ slot.readings input start ↔
      ∃ text, Stands input start text stop ∧ Slot.Reads slot start text reading := by
  match slot with
  | .literal bytes =>
    simp only [Slot.readings]
    refine ⟨?_, ?_⟩
    · intro h
      split at h
      · rename_i hp
        obtain ⟨rfl, rfl⟩ := Prod.mk.inj (List.mem_singleton.mp h)
        exact ⟨bytes, ⟨List.isPrefixOf_iff_prefix.mp hp, rfl⟩, .literal⟩
      · cases h
    · intro ⟨text, ⟨hp, hs⟩, h⟩
      cases h
      rw [if_pos (List.isPrefixOf_iff_prefix.mpr hp), hs]
      exact List.mem_singleton_self _
  | .skip token =>
    simp only [Slot.readings, mem_token_readings]
    refine ⟨?_, ?_⟩
    · intro ⟨text, hs, ht, he⟩
      subst he; exact ⟨text, hs, .skip ht⟩
    · intro ⟨text, hs, h⟩
      cases h with
      | skip ht => exact ⟨text, hs, ht, rfl⟩
  | .capture token index =>
    simp only [Slot.readings, mem_token_readings]
    refine ⟨?_, ?_⟩
    · intro ⟨text, hs, ht, he⟩
      subst he; exact ⟨text, hs, .capture ht⟩
    · intro ⟨text, hs, h⟩
      cases h with
      | capture ht => exact ⟨text, hs, ht, rfl⟩
  | .optional block =>
    simp only [Slot.readings, List.mem_append, List.mem_map, List.mem_singleton]
    refine ⟨?_, ?_⟩
    · intro h
      rcases h with ⟨⟨stop', r⟩, hm, he⟩ | he
      · obtain ⟨rfl, rfl⟩ := Prod.mk.inj he
        obtain ⟨text, hs, h⟩ := (mem_readingsBlock input block start stop' r).mp hm
        exact ⟨text, hs, .taken h⟩
      · obtain ⟨rfl, rfl⟩ := Prod.mk.inj he
        exact ⟨[], stands_nil.mpr rfl, .omitted⟩
    · intro ⟨text, hs, h⟩
      cases h with
      | @taken _ _ _ r h =>
        exact .inl ⟨(stop, r), (mem_readingsBlock input block start stop r).mpr ⟨text, hs, h⟩, rfl⟩
      | omitted => rw [stands_nil.mp hs]; exact .inr rfl
  | .either alternatives index =>
    simp only [Slot.readings, List.mem_map]
    refine ⟨?_, ?_⟩
    · intro ⟨⟨n, stop', r⟩, hm, he⟩
      obtain ⟨rfl, rfl⟩ := Prod.mk.inj he
      obtain ⟨text, hs, h⟩ := (mem_readingsOneOf input alternatives start n stop' r).mp hm
      exact ⟨text, hs, .either h⟩
    · intro ⟨text, hs, h⟩
      cases h with
      | @either _ _ _ _ n r h =>
        exact ⟨(n, stop, r), (mem_readingsOneOf input alternatives start n stop r).mpr
          ⟨text, hs, h⟩, rfl⟩

/-- The list holds the readings of the relation and no others. -/
theorem mem_readingsBlock (input : Bytes) (block : List Slot) (start stop : Nat)
    (reading : Reading) : (stop, reading) ∈ Slot.readingsBlock input block start ↔
      ∃ text, Stands input start text stop ∧ Slot.ReadsBlock block start text reading := by
  match block with
  | [] =>
    simp only [Slot.readingsBlock, List.mem_singleton]
    refine ⟨?_, ?_⟩
    · intro he
      obtain ⟨rfl, rfl⟩ := Prod.mk.inj he
      exact ⟨[], stands_nil.mpr rfl, .nil⟩
    · intro ⟨text, hs, h⟩
      cases h; rw [stands_nil.mp hs]
  | slot :: rest =>
    simp only [Slot.readingsBlock, List.mem_flatMap, List.mem_map]
    refine ⟨?_, ?_⟩
    · intro ⟨⟨mid, first⟩, hfirst, ⟨stop', others⟩, hothers, he⟩
      obtain ⟨rfl, rfl⟩ := Prod.mk.inj he
      obtain ⟨text, hs, h⟩ := (mem_readings input slot start mid first).mp hfirst
      obtain ⟨more, hs', h'⟩ := (mem_readingsBlock input rest mid stop' others).mp hothers
      obtain ⟨hall, rfl⟩ := stands_append.mp ⟨hs, hs'⟩
      exact ⟨text ++ more, hall, .cons h h'⟩
    · intro ⟨text, hs, h⟩
      cases h with
      | @cons _ _ _ text more first others h h' =>
        obtain ⟨hs1, hs2⟩ := stands_append.mpr ⟨hs, rfl⟩
        exact ⟨(start + text.length, first), (mem_readings input slot start _ first).mpr
            ⟨text, hs1, h⟩, (stop, others),
          (mem_readingsBlock input rest _ stop others).mpr ⟨more, hs2, h'⟩, rfl⟩

theorem mem_readingsOneOf (input : Bytes) (alternatives : List (List Slot))
    (start n stop : Nat) (reading : Reading) :
    (n, stop, reading) ∈ Slot.readingsOneOf input alternatives start ↔
      ∃ text, Stands input start text stop ∧
        Slot.ReadsOneOf alternatives start text n reading := by
  match alternatives with
  | [] =>
    refine iff_of_false List.not_mem_nil ?_
    intro ⟨text, hs, h⟩; cases h
  | block :: rest =>
    simp only [Slot.readingsOneOf, List.mem_append, List.mem_map]
    refine ⟨?_, ?_⟩
    · intro h
      rcases h with ⟨⟨stop', r⟩, hm, he⟩ | ⟨⟨m, stop', r⟩, hm, he⟩
      · obtain ⟨rfl, rfl, rfl⟩ := Prod.mk.inj he |>.imp_right Prod.mk.inj
        obtain ⟨text, hs, h⟩ := (mem_readingsBlock input block start stop' r).mp hm
        exact ⟨text, hs, .here h⟩
      · obtain ⟨rfl, rfl, rfl⟩ := Prod.mk.inj he |>.imp_right Prod.mk.inj
        obtain ⟨text, hs, h⟩ := (mem_readingsOneOf input rest start m stop' r).mp hm
        exact ⟨text, hs, .there h⟩
    · intro ⟨text, hs, h⟩
      cases h with
      | @here _ _ _ _ r h =>
        exact .inl ⟨(stop, r), (mem_readingsBlock input block start stop r).mpr ⟨text, hs, h⟩, rfl⟩
      | @there _ _ _ _ m r h =>
        exact .inr ⟨(m, stop, r), (mem_readingsOneOf input rest start m stop r).mpr
          ⟨text, hs, h⟩, rfl⟩

end

/-! ## The order of the list -/

theorem Choice.Before.ne {a b : Choice} (h : a.Before b) : a ≠ b := by
  intro e; subst e
  cases a with
  | length n => exact absurd h (Nat.lt_irrefl n)
  | taken => exact h
  | omitted => exact h
  | branch n => exact absurd h (Nat.lt_irrefl n)

theorem Choice.Before.asymm {a b : Choice} (h : a.Before b) : ¬ b.Before a := by
  cases a <;> cases b <;> simp only [Choice.Before, not_false_eq_true] at h ⊢ <;> omega

namespace Reading

/-- What two readings share in front and what follows behind does not matter. -/
theorem Before.extend {r s : Reading} (h : r.Before s) (front t t' : Reading) :
    (front ++ (r ++ t)).Before (front ++ (s ++ t')) := by
  obtain ⟨common, a, b, later, later', hr, hs, hab⟩ := h
  refine ⟨front.choices ++ common, a, b, later ++ t.choices, later' ++ t'.choices, ?_, ?_, hab⟩
  · simp only [choices_append, hr, List.append_assoc, List.cons_append]
  · simp only [choices_append, hs, List.append_assoc, List.cons_append]

theorem Before.prepend {r s : Reading} (h : r.Before s) (front : Reading) :
    (front ++ r).Before (front ++ s) := by
  have := h.extend front {} {}
  rwa [append_nil, append_nil] at this

theorem Before.choose {r s : Reading} (h : r.Before s) (c : Choice) :
    (r.choose c).Before (s.choose c) := h.prepend { choices := [c] }

theorem Before.append {r s : Reading} (h : r.Before s) (t t' : Reading) :
    (r ++ t).Before (s ++ t') := h.extend {} t t'

theorem before_of_choice {a b : Choice} (h : a.Before b) {r s : Reading}
    {later later' : List Choice} (hr : r.choices = a :: later) (hs : s.choices = b :: later') : r.Before s :=
  ⟨[], a, b, later, later', hr, hs, h⟩

/-- Two readings cannot each come before the other. -/
theorem Before.asymm {r s : Reading} (h : r.Before s) : ¬ s.Before r := by
  intro h'
  obtain ⟨common, a, b, later, later', hr, hs, hab⟩ := h
  obtain ⟨common', c, d, more, more', hs', hr', hcd⟩ := h'
  rw [hr] at hr'; rw [hs] at hs'
  clear hr hs
  -- the first difference is at one place only, so both compare the same two choices
  induction common generalizing common' with
  | nil =>
    cases common' with
    | nil =>
      obtain ⟨rfl, -⟩ := List.cons.inj hr'
      obtain ⟨rfl, -⟩ := List.cons.inj hs'
      exact hab.asymm hcd
    | cons x xs =>
      have ha : a = x := (List.cons.inj hr').1
      have hb : b = x := (List.cons.inj hs').1
      exact hab.ne (ha.trans hb.symm)
  | cons x xs ih =>
    cases common' with
    | nil =>
      have hd : x = d := (List.cons.inj hr').1
      have hc : x = c := (List.cons.inj hs').1
      exact hcd.ne (hc.symm.trans hd)
    | cons y ys => exact ih ys (List.cons.inj hs').2 (List.cons.inj hr').2

end Reading

mutual

theorem readings_ordered (input : Bytes) (slot : Slot) (start : Nat) :
    (slot.readings input start).Pairwise fun x y => x.2.Before y.2 := by
  match slot with
  | .literal bytes =>
    simp only [Slot.readings]
    split
    · exact List.pairwise_singleton _ _
    · exact .nil
  | .skip token =>
    simp only [Slot.readings, List.pairwise_map]
    exact (token.lengths_descend _).imp fun {m n} hlt =>
      Reading.before_of_choice (a := .length m) (b := .length n) hlt rfl rfl
  | .capture token index =>
    simp only [Slot.readings, List.pairwise_map]
    exact (token.lengths_descend _).imp fun {m n} hlt =>
      Reading.before_of_choice (a := .length m) (b := .length n) hlt rfl rfl
  | .optional block =>
    simp only [Slot.readings]
    rw [List.pairwise_append, List.pairwise_map]
    refine ⟨?_, List.pairwise_singleton _ _, ?_⟩
    · exact (readingsBlock_ordered input block start).imp fun h => h.choose .taken
    · intro x hx y hy
      obtain ⟨x', -, rfl⟩ := List.mem_map.mp hx
      rw [List.mem_singleton] at hy; subst hy
      exact Reading.before_of_choice (a := .taken) (b := .omitted) trivial rfl rfl
  | .either alternatives index =>
    simp only [Slot.readings, List.pairwise_map]
    refine (readingsOneOf_ordered input alternatives start).imp fun {x y} h => ?_
    rcases h with hlt | ⟨he, h⟩
    · exact Reading.before_of_choice (a := .branch x.1) (b := .branch y.1) hlt rfl rfl
    · rw [he]; exact h.prepend _

/-- Every reading comes before those listed behind it. -/
theorem readingsBlock_ordered (input : Bytes) (block : List Slot) (start : Nat) :
    (Slot.readingsBlock input block start).Pairwise fun x y => x.2.Before y.2 := by
  match block with
  | [] => exact List.pairwise_singleton _ _
  | slot :: rest =>
    simp only [Slot.readingsBlock]
    rw [List.pairwise_flatMap]
    refine ⟨?_, ?_⟩
    · intro x _
      rw [List.pairwise_map]
      exact (readingsBlock_ordered input rest x.1).imp fun h => h.prepend x.2
    · refine (readings_ordered input slot start).imp fun {x y} h => ?_
      intro x' hx y' hy
      obtain ⟨r, -, rfl⟩ := List.mem_map.mp hx
      obtain ⟨s, -, rfl⟩ := List.mem_map.mp hy
      exact h.append r.2 s.2

theorem readingsOneOf_ordered (input : Bytes) (alternatives : List (List Slot)) (start : Nat) :
    (Slot.readingsOneOf input alternatives start).Pairwise fun x y =>
      x.1 < y.1 ∨ x.1 = y.1 ∧ x.2.2.Before y.2.2 := by
  match alternatives with
  | [] => exact .nil
  | block :: rest =>
    simp only [Slot.readingsOneOf]
    rw [List.pairwise_append, List.pairwise_map, List.pairwise_map]
    refine ⟨?_, ?_, ?_⟩
    · exact (readingsBlock_ordered input block start).imp fun h => .inr ⟨rfl, h.append _ _⟩
    · refine (readingsOneOf_ordered input rest start).imp fun {x y} h => ?_
      rcases h with hlt | ⟨he, h⟩
      · exact .inl (Nat.succ_lt_succ hlt)
      · exact .inr ⟨congrArg (· + 1) he, h.prepend _⟩
    · intro x hx y hy
      obtain ⟨x', -, rfl⟩ := List.mem_map.mp hx
      obtain ⟨y', -, rfl⟩ := List.mem_map.mp hy
      exact .inl (Nat.succ_pos _)

end

end TrackerWire
