import TrackerWire.Grammar.Captures

/-!
# The grammars of the sentences

A payload carries a sentence of comma and bar separated ASCII text. There are four kinds of it;
each has a grammar, and the numbers of the captures have names here (specification, §4.4 and
§10.8).
-/

namespace TrackerWire

inductive SentenceKind where
  /-- A position, and extras behind bars. -/
  | regular
  /-- The time and place of a card swipe. -/
  | rfid
  /-- Live engine readings. -/
  | obdRealtime
  /-- Lifetime engine totals. -/
  | obdAggregate
  deriving DecidableEq, Repr

namespace Sentence

open Slot

def digits (n : Nat) : Token := .digits n (some n)

def hex (n : Nat) : Token := .hex n (some n)

def whole : Token := .digits 1 none

/-- Three captured pairs of digits: hour, minute and second, or day, month and year. -/
def pairs : List Slot := [captured (digits 2), captured (digits 2), captured (digits 2)]

def comma : Slot := byte Ascii.comma

def bar : Slot := byte Ascii.bar

def northSouth : Token := .oneOf [0x4E, 0x53]

def eastWest : Token := .oneOf [0x45, 0x57]

def validity : Token := .oneOf [0x41, 0x56]

/-- An analog channel beyond the second. -/
def extraChannel : Slot := .optional [comma, captured (hex 4)]

/-- Latitude and longitude, each with its hemisphere. -/
def place : List Slot :=
  [captured .coordinate, comma, captured northSouth, comma,
   captured .coordinate, comma, captured eastWest]

/-- The cell, the signal strength, the odometer in eight digits, and perhaps the satellites: the
first alternative of §10.8. -/
def shortOdometer : List Slot :=
  [bar, skip (.hex 16 (some 20)), bar, captured (hex 2), bar, captured (hex 8),
   .optional [bar, captured (hex 2)]]

/-- The odometer in nine digits, and perhaps an identifier: the second alternative of §10.8. -/
def longOdometer : List Slot :=
  [bar, captured (hex 9), .optional [bar, captured (.hex 5 none)]]

/-- Two to eight analog channels, and perhaps an odometer. -/
def channels : List Slot :=
  -- two at least, where §4.4 has "up to 8"
  [bar, captured (hex 4), comma, captured (hex 4),
   extraChannel, extraChannel, extraChannel, extraChannel, extraChannel, extraChannel,
   .optional [anyOf [shortOdometer, longOdometer]]]

/-- Dilution, altitude and status between bars, each perhaps left out, and perhaps analog
channels. -/
def extras : List Slot :=
  [bar, .optional [captured .decimal], bar, .optional [captured .signedNumber], bar,
   .optional [captured (hex 4)], .optional channels]

/-- The slots of a regular sentence up to its date. -/
def fixSlots : List Slot :=
  -- the point of the fraction and its digits may be missing one by one, not only together
  pairs ++ [.optional [byte Ascii.point], skip (.digits 0 none), comma, captured validity, comma] ++
    place ++ [comma, .optional [captured .number], comma, .optional [captured .number], comma] ++
    pairs

/-- Time, validity, place, speed, course and date; any text without a bar; perhaps extras; and
any text up to the end of the line. Mirrors the regular position grammar of §4.4. -/
def regular : Grammar :=
  Grammar.build "regular"
    (fixSlots ++ [skip (.noneOf [Ascii.bar]), .optional extras, skip .rest])

/-- The numbers of a regular sentence's captures. -/
inductive RegularField where
  | hour | minute | second
  | validity
  | latitude | northSouth
  | longitude | eastWest
  | speed | course
  | day | month | year
  | hdop | altitude | status
  | analog (channel : Fin 8)
  | rssi | shortOdometer | satellites
  | longOdometer | uniqueId

/-- The number of a field's capture. -/
def RegularField.index : RegularField → Nat
  | hour => 0
  | minute => 1
  | second => 2
  | validity => 3
  | latitude => 4
  | northSouth => 5
  | longitude => 6
  | eastWest => 7
  | speed => 8
  | course => 9
  | day => 10
  | month => 11
  | year => 12
  | hdop => 13
  | altitude => 14
  | status => 15
  | analog channel => 16 + channel.val
  | rssi => 24
  | shortOdometer => 25
  | satellites => 26
  | longOdometer => 27
  | uniqueId => 28

/-- The number of the alternation between the two odometers. -/
def odometerChoice : Nat := 0

/-- What stands behind the cards of a swipe: time, date and place. Mirrors the RFID fix grammar of
§4.4, with the bar of §10.8. -/
def rfid : Grammar :=
  Grammar.build "rfid" ([bar] ++ pairs ++ [comma] ++ pairs ++ [comma] ++ place)

/-- Where a reading of the engine goes. -/
inductive Destination where
  /-- A whole-number attribute. -/
  | whole (key : String)
  /-- A floating-point attribute. -/
  | real (key : String)
  /-- The odometer. -/
  | odometer
  deriving DecidableEq, Repr

/-- A field of an engine sentence. -/
structure EngineField where
  token : Token
  destination : Destination
  deriving DecidableEq, Repr

/-- The live readings of an engine, in the order of §4.4 under the keys of §10.8. -/
def realtimeFields : List EngineField :=
  [⟨.decimal, .real "battery"⟩,
   ⟨whole, .whole "rpm"⟩,
   ⟨whole, .whole "obdSpeed"⟩,
   ⟨.decimal, .real "throttle"⟩,
   ⟨.decimal, .real "engineLoad"⟩,
   ⟨.signedInteger, .whole "coolantTemp"⟩,
   ⟨.decimal, .real "fuelConsumption"⟩,
   ⟨.decimal, .real "averageFuelConsumption"⟩,
   ⟨.decimal, .real "drivingRange"⟩,
   ⟨.number, .odometer⟩,
   ⟨.decimal, .real "singleFuelConsumption"⟩,
   ⟨.decimal, .real "totalFuelConsumption"⟩,
   ⟨whole, .whole "dtcs"⟩,
   ⟨whole, .whole "hardAccelerationCount"⟩,
   ⟨whole, .whole "hardBrakingCount"⟩]

/-- The lifetime totals of an engine, in the order of §4.4 under the keys of §10.8. -/
def aggregateFields : List EngineField :=
  [⟨whole, .whole "totalIgnitionNo"⟩,
   ⟨.decimal, .real "totalDrivingTime"⟩,
   ⟨.decimal, .real "totalIdlingTime"⟩,
   ⟨whole, .whole "averageHotStartTime"⟩,
   ⟨whole, .whole "averageSpeed"⟩,
   ⟨whole, .whole "historyHighestSpeed"⟩,
   ⟨whole, .whole "historyHighestRpm"⟩,
   ⟨whole, .whole "totalHarshAcceleration"⟩,
   ⟨whole, .whole "totalHarshBrake"⟩]

/-- Captured tokens with commas between them. -/
def commaSeparated : List Token → List Slot
  | [] => []
  | [token] => [captured token]
  | token :: rest => captured token :: comma :: commaSeparated rest

/-- The grammar of an engine sentence. -/
def engineGrammar (name : String) (fields : List EngineField) : Grammar :=
  Grammar.build name (commaSeparated (fields.map EngineField.token))

/-- Live engine readings. -/
def obdRealtime : Grammar := engineGrammar "obd realtime" realtimeFields

/-- Lifetime engine totals. -/
def obdAggregate : Grammar := engineGrammar "obd aggregate" aggregateFields

end Sentence

/-- The grammar of a kind of sentence. -/
def SentenceKind.grammar : SentenceKind → Grammar
  | regular => Sentence.regular
  | rfid => Sentence.rfid
  | obdRealtime => Sentence.obdRealtime
  | obdAggregate => Sentence.obdAggregate

end TrackerWire
