import TrackerWire.Proofs.Sentence.RegularMatch

/-!
# Regular sentences say what they were composed of

A match of a composed sentence holds the text of each field, and every text has the form of its
field (`accepts_textOf`), so it is read as what it denotes.

* `decode_sentence`: decoding a composed sentence sets every field to what its own text denotes.
-/
namespace TrackerWire

namespace Sentence

/-! ## What the fields are read as -/

/-- The form of a field's text. -/
def RegularField.token : RegularField → Token
  | hour | minute | second | day | month | year => digits 2
  | validity => Sentence.validity
  | latitude | longitude => .coordinate
  | northSouth => Sentence.northSouth
  | eastWest => Sentence.eastWest
  | speed | course => .number
  | hdop => .decimal
  | altitude => .signedNumber
  | status | analog _ => hex 4
  | rssi | satellites => hex 2
  | shortOdometer => hex 8
  | longOdometer => hex 9
  | uniqueId => .hex 5 none

theorem accepts_optional {token : Token} (text : Option token.Text) :
    ∀ bytes ∈ text.map Subtype.val, token.Accepts bytes := by
  intro bytes h
  obtain ⟨text, -, rfl⟩ := Option.map_eq_some_iff.mp h
  exact text.property

theorem OdometerText.accepts_textOf (odometer : OdometerText) (field : RegularField) :
    ∀ text ∈ odometer.textOf field, field.token.Accepts text := by
  intro text h
  cases odometer with
  | short cell rssi reading satellites =>
    cases field with
    | rssi => cases h; exact rssi.property
    | shortOdometer => cases h; exact reading.property
    | satellites => exact accepts_optional satellites text h
    | _ => cases h
  | long reading uniqueId =>
    cases field with
    | longOdometer => cases h; exact reading.property
    | uniqueId => exact accepts_optional uniqueId text h
    | _ => cases h

theorem accepts_textOf (s : RegularText) (field : RegularField) :
    ∀ text ∈ s.textOf field, field.token.Accepts text := by
  have hextras : ∀ {token : Token} (part : ExtrasText → Option token.Text),
      ∀ text ∈ s.extras.bind (fun extras => (part extras).map Subtype.val),
        token.Accepts text := by
    intro token part text h
    obtain ⟨extras, -, h⟩ := Option.bind_eq_some_iff.mp h
    exact accepts_optional (part extras) text h
  cases field with
  | hour | minute | second | day | month | year => intro text h; cases h; exact accepts_pair _
  | validity | northSouth | eastWest => intro text h; cases h; exact ⟨_, rfl, letter_mem _ _ _⟩
  | latitude => intro text h; cases h; exact s.fix.place.latitude.property
  | longitude => intro text h; cases h; exact s.fix.place.longitude.property
  | speed => exact accepts_optional s.fix.speed
  | course => exact accepts_optional s.fix.course
  | hdop => exact hextras (·.hdop)
  | altitude => exact hextras (·.altitude)
  | status => exact hextras (·.status)
  | analog channel =>
    intro text h
    obtain ⟨channels, -, h⟩ := Option.bind_eq_some_iff.mp h
    obtain ⟨word, -, rfl⟩ := List.mem_map.mp (List.mem_of_getElem? h)
    exact word.property
  | rssi | shortOdometer | satellites | longOdometer | uniqueId =>
    intro text h
    obtain ⟨odometer, -, h⟩ := Option.bind_eq_some_iff.mp h
    exact odometer.accepts_textOf _ text h

theorem hexBelow?_accepts {min max : Nat} {text : Bytes}
    (h : (Token.hex min (some max)).Accepts text) (hmin : 0 < min) {limit : Nat}
    (hmax : 16 ^ max ≤ limit) : Whole.hexBelow? limit text = some (Whole.hexNumber text) := by
  obtain ⟨hdigits, hleast, hmost⟩ := h
  refine Whole.hexBelow?_eq (List.ne_nil_of_length_pos (Nat.lt_of_lt_of_le hmin hleast)) hdigits ?_
  exact Nat.le_trans (Nat.pow_le_pow_right (by decide) (hmost max rfl)) hmax

/-- A reading that takes the place of what was there before sets the field. -/
theorem sets_or {α : Type} {text : Option Bytes} {Denotes : Bytes → α → Prop}
    {read? : Bytes → Option α} (hread : ∀ t ∈ text, ∃ x, read? t = some x ∧ Denotes t x)
    (before : Option α) : Sets text Denotes before ((text.bind read?).or before) := by
  cases text with
  | none => rfl
  | some t =>
    obtain ⟨x, hx, hdenotes⟩ := hread t rfl
    exact ⟨x, hdenotes, by rw [Option.bind_some, hx, Option.some_or]⟩

/-- The same where the text is only looked at if there can be one. -/
theorem sets_if {α : Type} {p : Prop} [Decidable p] {text : Option Bytes}
    {Denotes : Bytes → α → Prop} {read? : Bytes → Option α}
    (hread : ∀ t ∈ text, ∃ x, read? t = some x ∧ Denotes t x) (hnone : ¬ p → text = none)
    (before : Option α) :
    Sets text Denotes before (if p then (text.bind read?).or before else before) := by
  split
  · exact sets_or hread before
  · rw [hnone ‹_›]
    rfl

/-- The signal strength, the satellites and the identifier are there in one form only. -/
theorem textOf_short {s : RegularText}
    (h : ¬ s.odometer?.map OdometerText.choice = some 0) :
    s.textOf .rssi = none ∧ s.textOf .satellites = none := by
  simp only [RegularText.textOf]
  cases hs : s.odometer? with
  | none => exact ⟨rfl, rfl⟩
  | some odometer =>
    cases odometer with
    | short => rw [hs] at h; exact absurd rfl h
    | long => exact ⟨rfl, rfl⟩

theorem textOf_long {s : RegularText} (h : ¬ s.odometer?.map OdometerText.choice = some 1) :
    s.textOf .uniqueId = none := by
  simp only [RegularText.textOf]
  cases hs : s.odometer? with
  | none => rfl
  | some odometer =>
    cases odometer with
    | short => rfl
    | long => rw [hs] at h; exact absurd rfl h

theorem odometerOf_eq {s : RegularText} {captures : Captures}
    (htext : ∀ field : RegularField, captures.bytesAt field.index = s.textOf field)
    (hform : captures.alternative? odometerChoice = s.odometer?.map OdometerText.choice) :
    odometerOf captures = ((s.textOf .shortOdometer).or (s.textOf .longOdometer)).bind
      fun text => some (Float.ofNat (Whole.hexNumber text)) := by
  have hread : ∀ {n : Nat} {field : RegularField} {text : Bytes}, s.textOf field = some text →
      field.token = hex n → 0 < n → 16 ^ n ≤ Whole.limit64 →
      captures.hexLongAt field.index = some (Whole.hexNumber text) := by
    intro n field text hfield htoken hn hlimit
    have haccepts := accepts_textOf s field text hfield
    rw [htoken] at haccepts
    rw [Captures.hexLongAt, htext, hfield]
    exact hexBelow?_accepts haccepts hn hlimit
  rw [odometerOf, hform]
  cases hs : s.odometer? with
  | none => simp only [RegularText.textOf, hs]; rfl
  | some odometer =>
    cases odometer with
    | short cell rssi reading satellites =>
      have hshort : s.textOf .shortOdometer = some reading.val := by
        simp only [RegularText.textOf, hs]; rfl
      rw [hshort]
      show (captures.hexLongAt RegularField.shortOdometer.index).map Float.ofNat = _
      rw [hread hshort rfl (by decide) (by decide)]
      rfl
    | long reading uniqueId =>
      have hshort : s.textOf .shortOdometer = none := by
        simp only [RegularText.textOf, hs]; rfl
      have hlong : s.textOf .longOdometer = some reading.val := by
        simp only [RegularText.textOf, hs]; rfl
      rw [hshort, hlong]
      show (captures.hexLongAt RegularField.longOdometer.index).map Float.ofNat = _
      rw [hread hlong rfl (by decide) (by decide)]
      rfl

theorem read_double (s : RegularText) (field : RegularField)
    (h : ∀ text, field.token.Accepts text → Token.IsSigned Token.IsNumber text) :
    ∀ text ∈ s.textOf field, ∃ x, Decimal.read? text = some x ∧ DenotesDouble text x := by
  intro text htext
  obtain ⟨x, hx⟩ := Decimal.exists_read (h text (accepts_textOf s field text htext))
  exact ⟨x, hx, hx⟩

theorem read_hex (s : RegularText) {field : RegularField} {n : Nat} (hfield : field.token = hex n)
    (hn : 0 < n) (hlimit : 16 ^ n ≤ Whole.limit32) :
    ∀ text ∈ s.textOf field,
      ∃ x, Whole.hexBelow? Whole.limit32 text = some x ∧ DenotesHex text x := by
  intro text htext
  have haccepts := accepts_textOf s field text htext
  rw [hfield] at haccepts
  exact ⟨_, hexBelow?_accepts haccepts hn hlimit, rfl⟩

theorem read_text (s : RegularText) {field : RegularField} {min : Nat} {max : Option Nat}
    (hfield : field.token = .hex min max) :
    ∀ text ∈ s.textOf field,
      ∃ x, String.fromUTF8? text.toByteArray = some x ∧ DenotesText text x := by
  intro text htext
  have haccepts := accepts_textOf s field text htext
  rw [hfield] at haccepts
  exact ⟨_, Utf8.fromUTF8?_ascii (Token.Text.ascii rfl ⟨text, haccepts⟩), rfl⟩

/-- **Composing a regular sentence and decoding it gives back every field.** Whatever report the
sentence is decoded into, every field is set to what its own text denotes, and what the sentence
has no text for stays as it was. -/
theorem decode_sentence (s : RegularText) (before : Report) :
    ∃ after, SentenceKind.regular.decode before s.sentence = some after ∧ s.Says before after := by
  obtain ⟨captures, hparse, htext, hform⟩ := parse_sentence s
  have hclock : tripleAt captures RegularField.hour.index = _ :=
    tripleAt_eq (htext .hour) (htext .minute) (htext .second)
  have hdate : tripleAt captures RegularField.day.index = _ :=
    tripleAt_eq (htext .day) (htext .month) (htext .year)
  obtain ⟨latitude, hlatitude, hlatitudeAt⟩ := degreesAt_eq (htext .latitude) (htext .northSouth)
    s.fix.place.latitude.property
  obtain ⟨longitude, hlongitude, hlongitudeAt⟩ := degreesAt_eq (htext .longitude)
    (htext .eastWest) s.fix.place.longitude.property
  have htime : timeOf? (s.fix.hour.val, s.fix.minute.val, s.fix.second.val)
      (s.fix.day.val, s.fix.month.val, s.fix.year.val) = some s.fix.time := s.fix.time_eq
  have hdecode : SentenceKind.regular.decode before s.sentence = fillRegular before captures := by
    show (regular.parse s.sentence).bind _ = _
    rw [hparse]
    rfl
  rw [hdecode]
  simp only [fillRegular, hclock, hdate, hlatitudeAt, hlongitudeAt, htime, Option.bind_eq_bind,
    Option.bind_some]
  refine ⟨_, rfl, ?_⟩
  have hvalid : decide (s.textOf .validity = some [0x41]) = s.fix.valid := by
    rw [Bool.eq_iff_iff, decide_eq_true_iff, RegularText.textOf, FixText.validityLetter]
    cases s.fix.valid <;> decide
  have hsouth : Captures.isNegative (some [s.fix.place.latitudeLetter]) = s.fix.place.south := by
    unfold PlaceText.latitudeLetter
    cases s.fix.place.south <;> decide
  have hwest : Captures.isNegative (some [s.fix.place.longitudeLetter]) = s.fix.place.west := by
    unfold PlaceText.longitudeLetter
    cases s.fix.place.west <;> decide
  simp only [Captures.floatAt, Captures.textAt, Captures.hexWordAt, htext, hform, hvalid, hsouth,
    hwest, odometerOf_eq htext hform]
  have hodometer : ∀ text ∈ (s.textOf .shortOdometer).or (s.textOf .longOdometer),
      ∃ x, some (Float.ofNat (Whole.hexNumber text)) = some x ∧ DenotesReading text x :=
    fun _ _ => ⟨_, rfl, rfl⟩
  exact {
    time := rfl
    valid := rfl
    place := ⟨⟨latitude, hlatitude, rfl⟩, ⟨longitude, hlongitude, rfl⟩⟩
    speed := sets_or (read_double s .speed fun _ h => .inl h) _
    course := sets_or (read_double s .course fun _ h => .inl h) _
    hdop := sets_or (read_double s .hdop fun _ h =>
      .inl (Decimal.isNumber_of_isDecimal Nat.one_pos h)) _
    altitude := sets_or (read_double s .altitude fun _ h => h) _
    status := sets_or (read_text s rfl) _
    analog := fun channel => by
      simp only [Fin.getElem_fin, Vector.getElem_ofFn]
      exact sets_or (read_hex s rfl (by decide) (by decide)) _
    rssi := sets_if (read_hex s rfl (by decide) (by decide)) (fun h => (textOf_short h).1) _
    odometer := sets_or hodometer _
    satellites := sets_if (read_hex s rfl (by decide) (by decide)) (fun h => (textOf_short h).2) _
    uniqueId := sets_if (read_text s rfl) textOf_long _
    others := ⟨rfl, rfl, rfl, rfl, rfl, rfl⟩ }

/-- A sentence with three channels and the short odometer, noise in front of its extras and text of
another script behind them. Course, status and identifier have no text, so a report keeps its own. -/
theorem decode_sentence_with_odometer :
    let place : PlaceText :=
      ⟨⟨Ascii.utf8 "1234.5678", by decide⟩, false, ⟨Ascii.utf8 "09876.5432", by decide⟩, false⟩
    let fix : FixText :=
      { hour := 12, minute := 34, second := 56, point := true
        fraction := ⟨Ascii.utf8 "50", by decide⟩
        valid := true, place, speed := some ⟨Ascii.utf8 "10.5", by decide⟩, course := none
        day := 1, month := 1, year := 22, time := 1641040496, time_eq := by decide }
    let odometer := OdometerText.short ⟨Ascii.utf8 "0123456789ABCDEF", by decide⟩
      ⟨Ascii.utf8 "1F", by decide⟩ ⟨Ascii.utf8 "0000A0F0", by decide⟩
      (some ⟨Ascii.utf8 "08", by decide⟩)
    let channels : ChannelsText :=
      { first := ⟨Ascii.utf8 "0010", by decide⟩, second := ⟨Ascii.utf8 "0020", by decide⟩
        more := [⟨Ascii.utf8 "0030", by decide⟩], atMost := by decide, odometer := some odometer }
    let extras : ExtrasText :=
      { hdop := some ⟨Ascii.utf8 "1.2", by decide⟩
        altitude := some ⟨Ascii.utf8 "-15.5", by decide⟩
        status := none, channels := some channels, trailing := ";äöü"
        inLine := by simp, apart := fun c hc => by cases hc; decide }
    let s : RegularText := ⟨fix, ",*1C", by decide +kernel, some extras⟩
    s.sentence =
      "123456.50,A,1234.5678,N,09876.5432,E,10.5,,010122,*1C|1.2|-15.5||0010,0020,0030|" ++
        "0123456789ABCDEF|1F|0000A0F0|08;äöü" ∧
    ∀ before : Report, ∃ after,
      SentenceKind.regular.decode before s.sentence = some after ∧
      after.time = some 1641040496 ∧ after.valid = true ∧
      after.speed = Decimal.read? (Ascii.utf8 "10.5") ∧ after.course = before.course ∧
      after.analog[2] = some 0x30 ∧ after.analog[3] = before.analog[3] ∧
      after.rssi = some 0x1F ∧ after.odometer = some (Float.ofNat 0xA0F0) ∧
      after.satellites = some 8 ∧ after.status = before.status ∧
      after.uniqueId = before.uniqueId := by
  intro place fix odometer channels extras s
  refine ⟨by decide +kernel, fun before => ?_⟩
  obtain ⟨after, hdecode, hsays⟩ := decode_sentence s before
  obtain ⟨speed, hspeed, hspeedAfter⟩ := hsays.speed
  obtain ⟨_, rfl, hchannel⟩ := hsays.analog 2
  obtain ⟨_, rfl, hrssi⟩ := hsays.rssi
  obtain ⟨_, rfl, hodometer⟩ := hsays.odometer
  obtain ⟨_, rfl, hsatellites⟩ := hsays.satellites
  exact ⟨after, hdecode, hsays.time, hsays.valid, hspeedAfter.trans hspeed.symm, hsays.course,
    hchannel, hsays.analog 3, hrssi, hodometer, hsatellites, hsays.status, hsays.uniqueId⟩

end Sentence

end TrackerWire
