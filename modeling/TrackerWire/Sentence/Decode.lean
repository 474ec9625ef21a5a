import TrackerWire.Report
import TrackerWire.Sentence.Grammars

/-!
# Sentences as reports

How a sentence fills in a report. A sentence gives no report if its grammar does not match it or
if its date and time do not exist; what it does not say stays as it was (specification, §4.4).
-/

namespace TrackerWire

namespace Sentence

open Captures

/-- A coordinate of a match; one that cannot be cut counts as none. -/
def degreesAt (captures : Captures) (index : Nat) : Option Float :=
  match captures.coordinateAt index with
  | .ok value => value
  | .error _ => none

/-- Three whole numbers from a capture on. -/
def tripleAt (captures : Captures) (index : Nat) : Option (Nat × Nat × Nat) := do
  let a ← captures.wordAt index
  let b ← captures.wordAt (index + 1)
  let c ← captures.wordAt (index + 2)
  some (a, b, c)

/-- The time of hour, minute and second, and of day, month and year of the century from 2000
(§10.8). -/
def timeOf? (hms dmy : Nat × Nat × Nat) : Option Time :=
  Calendar.time? ⟨2000 + (dmy.2.2 : Int), dmy.2.1, dmy.1⟩ ⟨hms.1, hms.2.1, hms.2.2⟩

/-- The odometer of a match: that of the alternative it took. Mirrors the invariant of §3. -/
def odometerOf (captures : Captures) : Option Float :=
  let reading :=
    match captures.alternative? odometerChoice with
    | some 0 => captures.hexLongAt RegularField.shortOdometer.index
    | some 1 => captures.hexLongAt RegularField.longOdometer.index
    | _ => none
  reading.map Float.ofNat

/-- A report with what a regular sentence says. Every reading has a field of its own; the
attributes that §10.8 names for them are not set. -/
def fillRegular (report : Report) (captures : Captures) : Option Report := do
  let hms ← tripleAt captures RegularField.hour.index
  let latitude ← degreesAt captures RegularField.latitude.index
  let longitude ← degreesAt captures RegularField.longitude.index
  let dmy ← tripleAt captures RegularField.day.index
  let time ← timeOf? hms dmy
  let isShort := captures.alternative? odometerChoice = some 0
  let isLong := captures.alternative? odometerChoice = some 1
  some { report with
    time := some time
    valid := captures.bytesAt RegularField.validity.index = some [0x41]
    latitude
    longitude
    speed := (captures.floatAt RegularField.speed.index).or report.speed
    course := (captures.floatAt RegularField.course.index).or report.course
    hdop := (captures.floatAt RegularField.hdop.index).or report.hdop
    altitude := (captures.floatAt RegularField.altitude.index).or report.altitude
    status := (captures.textAt RegularField.status.index).or report.status
    analog := Vector.ofFn fun channel =>
      (captures.hexWordAt (RegularField.analog channel).index).or report.analog[channel]
    rssi :=
      if isShort then (captures.hexWordAt RegularField.rssi.index).or report.rssi
      else report.rssi
    odometer := (odometerOf captures).or report.odometer
    satellites :=
      if isShort then (captures.hexWordAt RegularField.satellites.index).or report.satellites
      else report.satellites
    uniqueId :=
      if isLong then (captures.textAt RegularField.uniqueId.index).or report.uniqueId
      else report.uniqueId }

/-- A report with what the sentence of a card swipe says; its fix is always valid (§4.4). -/
def fillRfid (report : Report) (captures : Captures) : Option Report := do
  let hms ← tripleAt captures 0
  let dmy ← tripleAt captures 3
  let time ← timeOf? hms dmy
  let latitude ← degreesAt captures 6
  let longitude ← degreesAt captures 8
  some { report with time := some time, valid := true, latitude, longitude }

/-- A report with one reading of an engine. A reading that is no number of its kind is left
out. -/
def EngineField.fill (field : EngineField) (captures : Captures) (index : Nat)
    (report : Report) : Report :=
  match field.destination with
  | .whole key => report.setOpt key ((captures.intAt index).map .int)
  | .real key => report.setOpt key ((captures.floatAt index).map .float)
  | .odometer => { report with odometer := (captures.floatAt index).or report.odometer }

/-- A report with the readings of an engine, from the capture of number `index` on. -/
def fillEngine (captures : Captures) (index : Nat) : List EngineField → Report → Report
  | [], report => report
  | field :: rest, report =>
    fillEngine captures (index + 1) rest (field.fill captures index report)

end Sentence

namespace SentenceKind

def fill (kind : SentenceKind) (report : Report) (captures : Captures) : Option Report :=
  match kind with
  | regular => Sentence.fillRegular report captures
  | rfid => Sentence.fillRfid report captures
  | obdRealtime => some (Sentence.fillEngine captures 0 Sentence.realtimeFields report)
  | obdAggregate => some (Sentence.fillEngine captures 0 Sentence.aggregateFields report)

/-- A report with what a sentence says. -/
def decode (kind : SentenceKind) (report : Report) (sentence : String) : Option Report :=
  (kind.grammar.parse sentence).bind (kind.fill report)

/-- `decode`, telling of a sentence that its grammar does not match. -/
def decodeLogged (kind : SentenceKind) (report : Report) (sentence : String) :
    Logged (Option Report) :=
  match kind.grammar.parse sentence with
  | none => ⟨none, [.noMatch kind.grammar.name sentence]⟩
  | some captures => ⟨kind.fill report captures, []⟩

theorem value_decodeLogged (kind : SentenceKind) (report : Report) (sentence : String) :
    (kind.decodeLogged report sentence).value = kind.decode report sentence := by
  unfold decodeLogged decode
  cases kind.grammar.parse sentence <;> rfl

end SentenceKind

end TrackerWire
