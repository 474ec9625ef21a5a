import TrackerWire.Alarm
import TrackerWire.Calendar
import TrackerWire.Decimal.Fixed
import TrackerWire.Event
import TrackerWire.Table

/-!
# Reports

What a device has reported: where it was and when, its readings, and open-ended attributes. A
report that carries no place of its own is seeded from the device's last fix. `Report.line` is its
text (specification, §3).
-/

namespace TrackerWire

/-- The name of the devices' protocol. Reports are tagged with it, and configuration is looked up
by it. -/
def protocolName : String := "meiligao"

/-- A value of an open-ended attribute. -/
inductive Attribute where
  | int (value : Int)
  | float (value : Float)
  | text (value : String)

def Attribute.display : Attribute → String
  | int value => toString value
  | float value => Decimal.text value
  | text value => value

/-- When and where a device was. -/
structure Fix where
  time : Time
  latitude : Float
  longitude : Float

/-- The number of analog channels of a device. -/
def analogChannels : Nat := 8

/-- One decoded report; mirrors the fields listed in §3. -/
structure Report where
  protocol : String := protocolName
  device : DeviceId
  time : Option Time := none
  /-- The device had a valid fix. -/
  valid : Bool := false
  /-- The place was copied from an earlier report. -/
  outdated : Bool := false
  /-- Decimal degrees, south negative. -/
  latitude : Float := 0
  /-- Decimal degrees, west negative. -/
  longitude : Float := 0
  altitude : Option Float := none
  /-- Knots. -/
  speed : Option Float := none
  course : Option Float := none
  hdop : Option Float := none
  /-- The status word, four hexadecimal digits as they came. -/
  status : Option String := none
  /-- The readings of the analog channels. -/
  analog : Vector (Option Nat) analogChannels := Vector.replicate analogChannels none
  rssi : Option Nat := none
  odometer : Option Float := none
  satellites : Option Nat := none
  /-- The identifier of a card or driver. -/
  uniqueId : Option String := none
  alarm : Option Alarm := none
  /-- The state of each digital input that is known. -/
  inputs : Table Nat Bool := .empty
  attributes : Table String Attribute := .empty

namespace Report

def blank (device : DeviceId) : Report := { device }

def set (report : Report) (key : String) (value : Attribute) : Report :=
  { report with attributes := report.attributes.put key value }

/-- Set an attribute that is there; one that is not clears nothing (§4.4). -/
def setOpt (report : Report) (key : String) (value : Option Attribute) : Report :=
  match value with
  | some value => report.set key value
  | none => report

def attribute? (report : Report) (key : String) : Option Attribute := report.attributes.get? key

/-- When and where the device was, if the report has a time. -/
def fix? (report : Report) : Option Fix :=
  report.time.map fun time => { time, latitude := report.latitude, longitude := report.longitude }

/-- Take time and place from an earlier fix, as §4.5 has it. The report is outdated even without
one. -/
def seed (report : Report) (fix : Option Fix) : Report :=
  match fix with
  | some fix =>
    { report with
      outdated := true
      time := some fix.time
      latitude := fix.latitude
      longitude := fix.longitude }
  | none => { report with outdated := true }

/-! ## The text of a report -/

/-- A named value behind a blank, if there is one. -/
def labelled (label : String) (value : Option String) : String :=
  match value with
  | some value => " " ++ label ++ "=" ++ value
  | none => ""

def inputText (entry : Nat × Bool) : String :=
  labelled ("in" ++ toString entry.1) (some (if entry.2 then "1" else "0"))

def attributeText (entry : String × Attribute) : String :=
  labelled entry.1 (some entry.2.display)

/-- The text of a report: time, device, place, validity, and whatever readings it has. -/
def line (report : Report) : String :=
  let time := report.time.elim "--------------------" Calendar.text
  time ++ " device " ++ toString report.device ++ " " ++
    Decimal.fixed 6 report.latitude ++ "," ++ Decimal.fixed 6 report.longitude ++ " " ++
    (if report.valid then "valid" else "invalid") ++
    labelled "speed" (report.speed.map Decimal.text) ++
    labelled "course" (report.course.map Decimal.text) ++
    labelled "altitude" (report.altitude.map Decimal.text) ++
    labelled "odometer" (report.odometer.map Decimal.text) ++
    labelled "sat" (report.satellites.map toString) ++
    labelled "id" report.uniqueId ++
    labelled "alarm" (report.alarm.map Alarm.name) ++
    String.join (report.inputs.entries.map inputText) ++
    String.join (report.attributes.entries.map attributeText)

end Report

end TrackerWire
