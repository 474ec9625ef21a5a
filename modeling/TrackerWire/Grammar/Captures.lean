import TrackerWire.Decimal.Read
import TrackerWire.Grammar.Match

/-!
# Captures

What a match has kept. Captures are read by number (`bytesAt`, `intAt`, …) or one after the other:
every `next` reads the capture under the cursor and moves the cursor on by one, a coordinate by
two, whether the capture took part in the match or not (specification, §4.4).
-/

namespace TrackerWire

/-- The kept parts of an input that matched. -/
structure Captures where
  /-- The whole input in UTF-8. -/
  input : Bytes
  groups : List (Option Span)
  alternatives : List (Option Nat)
  /-- The number of the capture to read next. -/
  cursor : Nat := 0
  deriving DecidableEq, Repr

/-- A text that would have to be cut inside a character: the offset, in bytes, lies within one. -/
structure CutError where
  offset : Nat
  deriving DecidableEq, Repr

namespace Utf8

/-- Is the byte one that continues a character? -/
def continues (b : UInt8) : Bool := 0x80 ≤ b && b < 0xC0

/-- Does a character start or the text end at this offset? -/
def isBoundary (text : Bytes) (offset : Nat) : Bool :=
  match text.drop offset with
  | [] => offset == text.length
  | b :: _ => !continues b

end Utf8

namespace Captures

/-- The alternative that the alternation of this number took, if it took part in the match. -/
def alternative? (captures : Captures) (index : Nat) : Option Nat :=
  (captures.alternatives[index]?).join

/-- The bytes of the capture of this number, if it took part in the match and starts and ends
between characters. -/
def bytesAt (captures : Captures) (index : Nat) : Option Bytes :=
  match (captures.groups[index]?).join with
  | none => none
  | some span =>
    if Utf8.isBoundary captures.input span.start && Utf8.isBoundary captures.input span.stop then
      some ((captures.input.drop span.start).take (span.stop - span.start))
    else none

def textAt (captures : Captures) (index : Nat) : Option String :=
  (captures.bytesAt index).bind fun bytes => String.fromUTF8? bytes.toByteArray

/-- A capture as a whole number that fits a signed word of 64 bits. -/
def intAt (captures : Captures) (index : Nat) : Option Int :=
  (captures.bytesAt index).bind Whole.signed64?

/-- A capture as a whole number below two to 32. -/
def wordAt (captures : Captures) (index : Nat) : Option Nat :=
  (captures.bytesAt index).bind (Whole.decimalBelow? Whole.limit32)

def floatAt (captures : Captures) (index : Nat) : Option Float :=
  (captures.bytesAt index).bind Decimal.read?

/-- A capture as a hexadecimal number below two to 32. -/
def hexWordAt (captures : Captures) (index : Nat) : Option Nat :=
  (captures.bytesAt index).bind (Whole.hexBelow? Whole.limit32)

/-- A capture as a hexadecimal number below two to 64. -/
def hexLongAt (captures : Captures) (index : Nat) : Option Nat :=
  (captures.bytesAt index).bind (Whole.hexBelow? Whole.limit64)

/-- Degrees and minutes as degrees; the last two digits before the point are minutes. A text
without a point, or with fewer than two bytes before it, is no coordinate. Mirrors the coordinate
slots of §4.4. -/
def degrees? (text : Bytes) : Except CutError (Option Float) :=
  match text.findIdx? (· = Ascii.point) with
  | none => .ok none
  | some point =>
    if point < 2 then .ok none
    else if Utf8.isBoundary text (point - 2) then
      .ok do
        let degrees ← Decimal.read? (text.take (point - 2))
        let minutes ← Decimal.read? (text.drop (point - 2))
        some (degrees + minutes / 60)
    else .error ⟨point - 2⟩

/-- South and west are negative. -/
def isNegative (hemisphere : Option Bytes) : Bool :=
  hemisphere = some [0x53] || hemisphere = some [0x57]

/-- A capture and the hemisphere captured behind it as signed decimal degrees. -/
def coordinateAt (captures : Captures) (index : Nat) : Except CutError (Option Float) :=
  match captures.bytesAt index with
  | none => .ok none
  | some text =>
    (degrees? text).map fun value =>
      value.map fun degrees =>
        if isNegative (captures.bytesAt (index + 1)) then -degrees else degrees

/-! ## Reading one after the other -/

/-- Move the cursor on without reading. -/
def skip (captures : Captures) (count : Nat) : Captures :=
  { captures with cursor := captures.cursor + count }

/-- The text of the next capture. -/
def next (captures : Captures) : Option String × Captures :=
  (captures.textAt captures.cursor, captures.skip 1)

def nextInt (captures : Captures) : Option Int × Captures :=
  (captures.intAt captures.cursor, captures.skip 1)

def nextWord (captures : Captures) : Option Nat × Captures :=
  (captures.wordAt captures.cursor, captures.skip 1)

def nextFloat (captures : Captures) : Option Float × Captures :=
  (captures.floatAt captures.cursor, captures.skip 1)

def nextHexWord (captures : Captures) : Option Nat × Captures :=
  (captures.hexWordAt captures.cursor, captures.skip 1)

def nextHexLong (captures : Captures) : Option Nat × Captures :=
  (captures.hexLongAt captures.cursor, captures.skip 1)

/-- The next capture and the hemisphere behind it as signed decimal degrees. -/
def nextCoordinate (captures : Captures) : Except CutError (Option Float) × Captures :=
  (captures.coordinateAt captures.cursor, captures.skip 2)

end Captures

/-- Match the whole of a sentence. -/
def Grammar.parse (grammar : Grammar) (sentence : String) : Option Captures :=
  let input := Ascii.utf8 sentence
  (grammar.marks? input).map fun marks =>
    { input, groups := marks.groups, alternatives := marks.alternatives }

end TrackerWire
