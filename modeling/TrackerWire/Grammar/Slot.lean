import TrackerWire.Grammar.Token

/-!
# Grammars

A grammar is an ordered list of slots (specification, §4.4). Captures and alternations are numbered
in the order they are declared in, through every block: `Grammar.build` puts the numbers into the
slots.
-/

namespace TrackerWire

/-- One place of a grammar; mirrors the slot descriptors of §9. -/
inductive Slot where
  /-- These very bytes. -/
  | literal (bytes : Bytes)
  /-- A token whose text is not kept. -/
  | skip (token : Token)
  /-- A token whose text is kept as the capture of this number. -/
  | capture (token : Token) (index : Nat)
  /-- A block, or nothing. -/
  | optional (block : List Slot)
  /-- Exactly one of several blocks; which one is kept as the alternation of this number. -/
  | either (alternatives : List (List Slot)) (index : Nat)

namespace Slot

def byte (b : UInt8) : Slot := literal [b]

/-- A captured token, not numbered yet. -/
def captured (token : Token) : Slot := capture token 0

/-- Alternatives, not numbered yet. -/
def anyOf (alternatives : List (List Slot)) : Slot := either alternatives 0

end Slot

/-- How many captures and alternations have been numbered. -/
structure Tally where
  groups : Nat := 0
  alternations : Nat := 0
  deriving DecidableEq, Repr

mutual

/-- Number the captures and alternations of a slot, an alternation before what is inside it. -/
def Slot.number : Slot → Tally → Slot × Tally
  | .literal bytes, tally => (.literal bytes, tally)
  | .skip token, tally => (.skip token, tally)
  | .capture token _, tally =>
    (.capture token tally.groups, { tally with groups := tally.groups + 1 })
  | .optional block, tally =>
    let numbered := Slot.numberBlock block tally
    (.optional numbered.1, numbered.2)
  | .either alternatives _, tally =>
    let numbered := Slot.numberAlternatives alternatives
      { tally with alternations := tally.alternations + 1 }
    (.either numbered.1 tally.alternations, numbered.2)

/-- Number the slots of a block, first to last. -/
def Slot.numberBlock : List Slot → Tally → List Slot × Tally
  | [], tally => ([], tally)
  | slot :: rest, tally =>
    let first := Slot.number slot tally
    let others := Slot.numberBlock rest first.2
    (first.1 :: others.1, others.2)

/-- Number the blocks of an alternation, first to last. -/
def Slot.numberAlternatives : List (List Slot) → Tally → List (List Slot) × Tally
  | [], tally => ([], tally)
  | block :: rest, tally =>
    let first := Slot.numberBlock block tally
    let others := Slot.numberAlternatives rest first.2
    (first.1 :: others.1, others.2)

end

/-- A numbered list of slots. -/
structure Grammar where
  /-- The name the grammar is told of by. -/
  name : String
  slots : List Slot
  /-- How many captures a match has. -/
  groups : Nat
  /-- How many alternations a match reports. -/
  alternations : Nat

/-- Number the slots of a grammar. Numbers they carry beforehand do not matter. -/
def Grammar.build (name : String) (slots : List Slot) : Grammar :=
  let numbered := Slot.numberBlock slots {}
  { name, slots := numbered.1, groups := numbered.2.groups,
    alternations := numbered.2.alternations }

end TrackerWire
