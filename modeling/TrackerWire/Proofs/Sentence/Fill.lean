import TrackerWire.Sentence.Decode

/-!
# What a match fills in

A matched sentence is read into a report field by field. `FillsRegular` and `FillsRfid` say what
each field of the report afterwards is. With clock, date and coordinates read, a report is given just
when the time exists (`time_fillRegular`, `time_fillRfid`). The readings of an engine always give
one, and touch nothing but its attributes and its odometer (`fillEngine_keeps`).
-/
namespace TrackerWire

theorem SentenceKind.decode_of_parse (kind : SentenceKind) {s : String} {captures : Captures}
    (h : kind.grammar.parse s = some captures) (before : Report) :
    kind.decode before s = kind.fill before captures := by
  rw [decode, h, Option.bind_some]

namespace Sentence

/-- What a match of a regular sentence makes of a report. -/
structure FillsRegular (captures : Captures) (before after : Report) : Prop where
  time : ∃ hms dmy, tripleAt captures RegularField.hour.index = some hms ∧
    tripleAt captures RegularField.day.index = some dmy ∧
    ∃ time, timeOf? hms dmy = some time ∧ after.time = some time
  valid : after.valid = decide (captures.bytesAt RegularField.validity.index = some [0x41])
  latitude : degreesAt captures RegularField.latitude.index = some after.latitude
  longitude : degreesAt captures RegularField.longitude.index = some after.longitude
  speed : after.speed = (captures.floatAt RegularField.speed.index).or before.speed
  course : after.course = (captures.floatAt RegularField.course.index).or before.course
  hdop : after.hdop = (captures.floatAt RegularField.hdop.index).or before.hdop
  altitude : after.altitude = (captures.floatAt RegularField.altitude.index).or before.altitude
  status : after.status = (captures.textAt RegularField.status.index).or before.status
  analog : ∀ channel, after.analog[channel] =
    (captures.hexWordAt (RegularField.analog channel).index).or before.analog[channel]
  rssi : after.rssi = if captures.alternative? odometerChoice = some 0 then
    (captures.hexWordAt RegularField.rssi.index).or before.rssi else before.rssi
  odometer : after.odometer = (odometerOf captures).or before.odometer
  satellites : after.satellites = if captures.alternative? odometerChoice = some 0 then
    (captures.hexWordAt RegularField.satellites.index).or before.satellites else before.satellites
  uniqueId : after.uniqueId = if captures.alternative? odometerChoice = some 1 then
    (captures.textAt RegularField.uniqueId.index).or before.uniqueId else before.uniqueId
  others : after.protocol = before.protocol ∧ after.device = before.device ∧
    after.outdated = before.outdated ∧ after.alarm = before.alarm ∧
    after.inputs = before.inputs ∧ after.attributes = before.attributes

theorem fillRegular_fills {captures : Captures} {before after : Report}
    (h : fillRegular before captures = some after) : FillsRegular captures before after := by
  simp only [fillRegular, Option.bind_eq_bind, Option.bind_eq_some_iff, Option.some.injEq] at h
  obtain ⟨hms, hhms, latitude, hlatitude, longitude, hlongitude, dmy, hdmy, time, htime, rfl⟩ := h
  exact {
    time := ⟨hms, dmy, hhms, hdmy, time, htime, rfl⟩
    valid := rfl
    latitude := hlatitude
    longitude := hlongitude
    speed := rfl
    course := rfl
    hdop := rfl
    altitude := rfl
    status := rfl
    analog := fun channel => by
      simp only [Fin.getElem_fin, Vector.getElem_ofFn]
      rfl
    rssi := rfl
    odometer := rfl
    satellites := rfl
    uniqueId := rfl
    others := ⟨rfl, rfl, rfl, rfl, rfl, rfl⟩ }

/-- With clock, date and coordinates read, a report is given if its time exists, and has it. -/
theorem time_fillRegular {captures : Captures} {hms dmy : Nat × Nat × Nat}
    {latitude longitude : Float}
    (hhms : tripleAt captures RegularField.hour.index = some hms)
    (hdmy : tripleAt captures RegularField.day.index = some dmy)
    (hlatitude : degreesAt captures RegularField.latitude.index = some latitude)
    (hlongitude : degreesAt captures RegularField.longitude.index = some longitude)
    (before : Report) :
    (fillRegular before captures).map Report.time = (timeOf? hms dmy).map some := by
  simp only [fillRegular, hhms, hdmy, hlatitude, hlongitude, Option.bind_eq_bind, Option.bind_some]
  cases timeOf? hms dmy <;> rfl

/-- A regular sentence is read into a report the same whatever alarm and inputs the report has, and
leaves them as they are. -/
theorem fillRegular_signalled (captures : Captures) (report : Report) (alarm : Option Alarm)
    (inputs : Table Nat Bool) : fillRegular { report with alarm, inputs } captures =
      (fillRegular report captures).map fun after => { after with alarm, inputs } := by
  simp only [fillRegular, Option.bind_eq_bind, Option.map_bind, Function.comp_def,
    Option.map_some]

/-- What a match of a card swipe makes of a report. -/
structure FillsRfid (captures : Captures) (before after : Report) : Prop where
  time : ∃ hms dmy, tripleAt captures 0 = some hms ∧ tripleAt captures 3 = some dmy ∧
    ∃ time, timeOf? hms dmy = some time ∧ after.time = some time
  valid : after.valid = true
  latitude : degreesAt captures 6 = some after.latitude
  longitude : degreesAt captures 8 = some after.longitude
  others : after = { before with
    time := after.time, valid := after.valid, latitude := after.latitude,
    longitude := after.longitude }

theorem fillRfid_fills {captures : Captures} {before after : Report}
    (h : fillRfid before captures = some after) : FillsRfid captures before after := by
  simp only [fillRfid, Option.bind_eq_bind, Option.bind_eq_some_iff, Option.some.injEq] at h
  obtain ⟨hms, hhms, dmy, hdmy, time, htime, latitude, hlatitude, longitude, hlongitude, rfl⟩ := h
  exact ⟨⟨hms, dmy, hhms, hdmy, time, htime, rfl⟩, rfl, hlatitude, hlongitude, rfl⟩

theorem time_fillRfid {captures : Captures} {hms dmy : Nat × Nat × Nat}
    {latitude longitude : Float} (hhms : tripleAt captures 0 = some hms)
    (hdmy : tripleAt captures 3 = some dmy) (hlatitude : degreesAt captures 6 = some latitude)
    (hlongitude : degreesAt captures 8 = some longitude) (before : Report) :
    (fillRfid before captures).map Report.time = (timeOf? hms dmy).map some := by
  simp only [fillRfid, hhms, hdmy, hlatitude, hlongitude, Option.bind_eq_bind, Option.bind_some]
  cases timeOf? hms dmy <;> rfl

/-- The readings of an engine change nothing of a report but its attributes and its odometer. -/
theorem fillEngine_keeps (captures : Captures) (index : Nat) (fields : List EngineField)
    (report : Report) : ∃ attributes odometer,
      fillEngine captures index fields report = { report with attributes, odometer } := by
  induction fields generalizing index report with
  | nil => exact ⟨_, _, rfl⟩
  | cons field fields ih =>
    have hfield : ∃ attributes odometer,
        field.fill captures index report = { report with attributes, odometer } := by
      unfold EngineField.fill
      split
      · cases (captures.intAt index).map Attribute.int <;> exact ⟨_, _, rfl⟩
      · cases (captures.floatAt index).map Attribute.float <;> exact ⟨_, _, rfl⟩
      · exact ⟨_, _, rfl⟩
    obtain ⟨attributes, odometer, hfield⟩ := hfield
    obtain ⟨attributes', odometer', hrest⟩ := ih (index + 1) (field.fill captures index report)
    rw [hfield] at hrest
    rw [fillEngine, hfield]
    exact ⟨attributes', odometer', hrest⟩

end Sentence

end TrackerWire
