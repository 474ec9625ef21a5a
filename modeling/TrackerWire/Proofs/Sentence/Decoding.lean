import TrackerWire.Proofs.Sentence.Fill
import TrackerWire.Proofs.Sentence.Stamp

/-!
# Which sentences give a position, and what it keeps

The decoders of regular sentences and of card swipes may stop at each of their reads. Only one of
them ever does: the date and the time of day may not exist. What a sentence has no text for stays
as it was.

* `time_fill_regular`, `time_fill_rfid`: a match gives a report just when its stamp is real, and the
  report has the time of the stamp.
* `FillsRegular.keeps`: each field keeps its value unless its own capture took part.
* `positions_faithful`: both kinds of sentences, decoded from any string into any report.
-/
namespace TrackerWire

namespace Sentence

/-! ## Every read but that of the time succeeds -/

theorem degreesAt_place {captures : Captures} {index : Nat} (place : PlaceText)
    (hlatitude : captures.bytesAt index = some place.latitude.val)
    (hnorthSouth : captures.bytesAt (index + 1) = some [place.latitudeLetter])
    (hlongitude : captures.bytesAt (index + 2) = some place.longitude.val)
    (heastWest : captures.bytesAt (index + 3) = some [place.longitudeLetter]) :
    ∃ latitude longitude, degreesAt captures index = some latitude ∧
      degreesAt captures (index + 2) = some longitude := by
  obtain ⟨_, -, hsouth⟩ := degreesAt_eq hlatitude hnorthSouth place.latitude.property
  obtain ⟨_, -, hwest⟩ := degreesAt_eq hlongitude heastWest place.longitude.property
  exact ⟨_, _, hsouth, hwest⟩

section
variable {s : String} {captures : Captures}

theorem time_fill_regular (h : regular.parse s = some captures) :
    ∃ stamp, Shows captures RegularField.hour.index RegularField.day.index stamp ∧
      ∀ before, (SentenceKind.regular.fill before captures).map Report.time =
        stamp.time?.map some := by
  obtain ⟨header, _, -, -, htexts⟩ := exists_header h
  have hshows := HeaderText.shows htexts
  obtain ⟨_, _, hlatitude, hlongitude⟩ := degreesAt_place header.place (htexts 4 (by decide))
    (htexts 5 (by decide)) (htexts 6 (by decide)) (htexts 7 (by decide))
  have hclock := tripleAt_eq hshows.hour hshows.minute hshows.second
  have hdate := tripleAt_eq hshows.day hshows.month hshows.year
  refine ⟨header.stamp, hshows, fun before => ?_⟩
  rw [← hshows.timeOf? hclock hdate]
  exact time_fillRegular hclock hdate hlatitude hlongitude before

theorem time_fill_rfid (h : rfid.parse s = some captures) :
    ∃ stamp, Shows captures 0 3 stamp ∧
      ∀ before, (SentenceKind.rfid.fill before captures).map Report.time =
        stamp.time?.map some := by
  obtain ⟨swipe, -, htexts⟩ := parse_swipe h
  have hshows := SwipeText.shows htexts
  obtain ⟨_, _, hlatitude, hlongitude⟩ :=
    degreesAt_place swipe.place (htexts 6) (htexts 7) (htexts 8) (htexts 9)
  have hclock := tripleAt_eq hshows.hour hshows.minute hshows.second
  have hdate := tripleAt_eq hshows.day hshows.month hshows.year
  refine ⟨swipe.stamp, hshows, fun before => ?_⟩
  rw [← hshows.timeOf? hclock hdate]
  exact time_fillRfid hclock hdate hlatitude hlongitude before

end

/-! ## What is kept -/

/-- What a match of a regular sentence leaves as it was: each field whose own capture took no
part. The odometer has two captures of its own. -/
structure RegularKeeps (captures : Captures) (before after : Report) : Prop where
  others : after.protocol = before.protocol ∧ after.device = before.device ∧
    after.outdated = before.outdated ∧ after.alarm = before.alarm ∧
    after.inputs = before.inputs ∧ after.attributes = before.attributes
  speed : captures.isPresent RegularField.speed.index = false → after.speed = before.speed
  course : captures.isPresent RegularField.course.index = false → after.course = before.course
  hdop : captures.isPresent RegularField.hdop.index = false → after.hdop = before.hdop
  altitude : captures.isPresent RegularField.altitude.index = false →
    after.altitude = before.altitude
  status : captures.isPresent RegularField.status.index = false → after.status = before.status
  analog : ∀ channel, captures.isPresent (RegularField.analog channel).index = false →
    after.analog[channel] = before.analog[channel]
  rssi : captures.isPresent RegularField.rssi.index = false → after.rssi = before.rssi
  odometer : captures.isPresent RegularField.shortOdometer.index = false →
    captures.isPresent RegularField.longOdometer.index = false → after.odometer = before.odometer
  satellites : captures.isPresent RegularField.satellites.index = false →
    after.satellites = before.satellites
  uniqueId : captures.isPresent RegularField.uniqueId.index = false →
    after.uniqueId = before.uniqueId

theorem or_absent {α : Type} {captures : Captures} {index : Nat}
    (h : captures.isPresent index = false) (read : Bytes → Option α) (before : Option α) :
    ((captures.bytesAt index).bind read).or before = before := by
  rw [Captures.bind_absent h, Option.none_or]

theorem FillsRegular.keeps {captures : Captures} {before after : Report}
    (h : FillsRegular captures before after) : RegularKeeps captures before after where
  others := h.others
  speed := fun habsent => h.speed.trans (or_absent habsent _ _)
  course := fun habsent => h.course.trans (or_absent habsent _ _)
  hdop := fun habsent => h.hdop.trans (or_absent habsent _ _)
  altitude := fun habsent => h.altitude.trans (or_absent habsent _ _)
  status := fun habsent => h.status.trans (or_absent habsent _ _)
  analog := fun channel habsent => (h.analog channel).trans (or_absent habsent _ _)
  rssi := fun habsent => by
    rw [h.rssi, Captures.hexWordAt, or_absent habsent, ite_self]
  odometer := fun hshort hlong => by
    have hnone : odometerOf captures = none := by
      have hreadShort : captures.hexLongAt RegularField.shortOdometer.index = none :=
        Captures.bind_absent hshort _
      have hreadLong : captures.hexLongAt RegularField.longOdometer.index = none :=
        Captures.bind_absent hlong _
      rw [odometerOf, hreadShort, hreadLong]
      split <;> rfl
    rw [h.odometer, hnone, Option.none_or]
  satellites := fun habsent => by
    rw [h.satellites, Captures.hexWordAt, or_absent habsent, ite_self]
  uniqueId := fun habsent => by
    rw [h.uniqueId, Captures.textAt, or_absent habsent, ite_self]

/-- What a card swipe leaves as it was: all but time, validity and place. -/
def RfidKeeps (before after : Report) : Prop :=
  after = { before with
    time := after.time, valid := after.valid, latitude := after.latitude,
    longitude := after.longitude }

/-! ## Both kinds of sentences -/

/-- A sentence decoded into a report. The stamp of a match stands in the captures from two numbers
on, `Readable` says that the captures are read, and `Keeps` what stays as it was. -/
structure Faithful (kind : SentenceKind) (clockAt dateAt : Nat) (Readable : Captures → Prop)
    (Keeps : Captures → Report → Report → Prop) (before : Report) (s : String) : Prop where
  /-- No report comes of a sentence that does not match or whose stamp is not real. -/
  dropped : kind.decode before s = none ↔ kind.grammar.parse s = none ∨
    ∃ captures stamp, kind.grammar.parse s = some captures ∧
      Shows captures clockAt dateAt stamp ∧ ¬ stamp.IsReal
  shows : ∀ captures, kind.grammar.parse s = some captures →
    ∃ stamp, Shows captures clockAt dateAt stamp
  readable : ∀ captures, kind.grammar.parse s = some captures → Readable captures
  kept : ∀ captures after, kind.grammar.parse s = some captures →
    kind.decode before s = some after → Keeps captures before after

/-- A kind of sentence whose matches need nothing but a real stamp. -/
theorem faithful_of {kind : SentenceKind} {clockAt dateAt : Nat} {Readable : Captures → Prop}
    {Keeps : Captures → Report → Report → Prop} {s : String}
    (hfill : ∀ captures, kind.grammar.parse s = some captures →
      ∃ stamp, Shows captures clockAt dateAt stamp ∧
        ∀ before, (kind.fill before captures).map Report.time = stamp.time?.map some)
    (hreadable : ∀ captures, kind.grammar.parse s = some captures → Readable captures)
    (hkept : ∀ captures before after, kind.fill before captures = some after →
      Keeps captures before after) (before : Report) :
    Faithful kind clockAt dateAt Readable Keeps before s := by
  have hnone : ∀ captures stamp, kind.grammar.parse s = some captures →
      Shows captures clockAt dateAt stamp → (kind.decode before s = none ↔ ¬ stamp.IsReal) := by
    intro captures stamp hparse hshows
    obtain ⟨stamp', hshows', htime⟩ := hfill captures hparse
    obtain rfl := hshows'.unique hshows
    rw [kind.decode_of_parse hparse, ← stamp'.isSome_time?, Option.not_isSome_iff_eq_none,
      ← Option.map_eq_none_iff, htime before, Option.map_eq_none_iff]
  refine ⟨⟨fun hdropped => ?_, ?_⟩, fun captures hparse => ?_, hreadable, ?_⟩
  · cases hparse : kind.grammar.parse s with
    | none => exact .inl rfl
    | some captures =>
      obtain ⟨stamp, hshows, -⟩ := hfill captures hparse
      exact .inr ⟨captures, stamp, rfl, hshows, (hnone captures stamp hparse hshows).mp hdropped⟩
  · rintro (hparse | ⟨captures, stamp, hparse, hshows, hunreal⟩)
    · rw [SentenceKind.decode, hparse, Option.bind_none]
    · exact (hnone captures stamp hparse hshows).mpr hunreal
  · obtain ⟨stamp, hshows, -⟩ := hfill captures hparse
    exact ⟨stamp, hshows⟩
  · intro captures after hparse hafter
    exact hkept captures before after (kind.decode_of_parse hparse before ▸ hafter)

/-- **A position is dropped only where its sentence does not match or its date and time of day do
not exist, and nothing is overwritten by what is not there.** This holds of every string, decoded
into any report: every capture that took part in a match is read, and what had no capture keeps its
value. -/
theorem positions_faithful (before : Report) (s : String) :
    Faithful .regular RegularField.hour.index RegularField.day.index
      (fun captures => ∀ field : RegularField, captures.isPresent field.index = true →
        captures.Gives field.index field.reads)
      RegularKeeps before s ∧
    Faithful .rfid 0 3
      (fun captures => ∀ index how, rfidReads[index]? = some how →
        captures.isPresent index = true → captures.Gives index how)
      (fun _ => RfidKeeps) before s := by
  refine ⟨?_, ?_⟩
  · refine faithful_of (fun captures hparse => time_fill_regular hparse)
      (fun captures hparse => gives_regular hparse) (fun captures before after hfill => ?_) before
    exact (fillRegular_fills hfill).keeps
  · refine faithful_of (fun captures hparse => time_fill_rfid hparse)
      (fun captures hparse index how hhow => gives_rfid hparse hhow)
      (fun captures before after hfill => ?_) before
    exact (fillRfid_fills hfill).others

end Sentence

end TrackerWire
