import TrackerWire.Proofs.Sentence.Decoding

/-!
# Times from sentence to report text

The digits of a time and a date are read as numbers, the numbers become seconds, the seconds a date
and a time of day again, and these the first columns of a report's text. The digits come out as
they went in (`line_of_carries`), and the seconds are in the order of the digits (`time_lt_key`).
-/
namespace TrackerWire

namespace Sentence

/-- A sentence of its kind, and the stamp that stands in it: in a regular sentence in front and at
the end of the header, in a card swipe time and date in a row. -/
inductive Carries : SentenceKind → String → Stamp → Prop
  | regular (header : HeaderText) {tail : String} (htail : IsTail tail) :
    Carries .regular (header.text ++ tail) header.stamp
  | rfid (swipe : SwipeText) : Carries .rfid swipe.text swipe.stamp

theorem isSome_parse_iff {kind : SentenceKind} (hkind : kind = .regular ∨ kind = .rfid)
    (s : String) : (kind.grammar.parse s).isSome = true ↔ ∃ stamp, Carries kind s stamp := by
  rcases hkind with rfl | rfl
  · refine ⟨fun h => ?_, ?_⟩
    · obtain ⟨captures, hparse⟩ := Option.isSome_iff_exists.mp h
      obtain ⟨header, tail, rfl, htail, -⟩ := exists_header hparse
      exact ⟨header.stamp, .regular header htail⟩
    · rintro ⟨stamp, h⟩
      cases h with
      | regular header htail => exact isSome_parse_header header htail
  · refine ⟨fun h => ?_, ?_⟩
    · obtain ⟨captures, hparse⟩ := Option.isSome_iff_exists.mp h
      obtain ⟨swipe, rfl, -⟩ := parse_swipe hparse
      exact ⟨swipe.stamp, .rfid swipe⟩
    · rintro ⟨stamp, h⟩
      cases h with
      | rfid swipe =>
        obtain ⟨captures, hparse, -⟩ := parse_swipe_text swipe
        exact Option.isSome_iff_exists.mpr ⟨captures, hparse⟩

namespace Carries

variable {kind kind' : SentenceKind} {s s' : String} {stamp stamp' : Stamp}

/-- A sentence is decoded into a report just when its stamp is real, and the report has the time
of the stamp. -/
theorem time_decode (h : Carries kind s stamp) (before : Report) :
    (kind.decode before s).map Report.time = stamp.time?.map some := by
  cases h with
  | @regular header tail htail =>
    obtain ⟨captures, hparse⟩ := Option.isSome_iff_exists.mp (isSome_parse_header header htail)
    obtain ⟨stamp, hshows, htime⟩ := time_fill_regular hparse
    rw [hshows.unique (HeaderText.shows (parse_header hparse))] at htime
    rw [SentenceKind.regular.decode_of_parse hparse]
    exact htime before
  | rfid swipe =>
    obtain ⟨captures, hparse, htexts⟩ := parse_swipe_text swipe
    obtain ⟨stamp, hshows, htime⟩ := time_fill_rfid hparse
    rw [hshows.unique (SwipeText.shows htexts)] at htime
    rw [SentenceKind.rfid.decode_of_parse hparse]
    exact htime before

theorem isSome_decode (h : Carries kind s stamp) (before : Report) :
    (kind.decode before s).isSome = true ↔ stamp.IsReal := by
  rw [← stamp.isSome_time?, ← Option.isSome_map (f := Report.time), h.time_decode,
    Option.isSome_map]

theorem time_eq (h : Carries kind s stamp) {before after : Report}
    (hdecode : kind.decode before s = some after) :
    ∃ time, stamp.time? = some time ∧ after.time = some time := by
  have htime := h.time_decode before
  rw [hdecode, Option.map_some, eq_comm, Option.map_eq_some_iff] at htime
  obtain ⟨time, hstamp, hat⟩ := htime
  exact ⟨time, hstamp, hat.symm⟩

end Carries

/-! ## The text of a time -/

/-- The stamp as the first columns of a report have it: the pairs of digits with hyphens, colons and
blanks. -/
def Stamp.text (stamp : Stamp) : String :=
  "20" ++ Ascii.text (pairText stamp.year) ++ "-" ++ Ascii.text (pairText stamp.month) ++ "-" ++
    Ascii.text (pairText stamp.day) ++ " " ++ Ascii.text (pairText stamp.hour) ++ ":" ++
    Ascii.text (pairText stamp.minute) ++ ":" ++ Ascii.text (pairText stamp.second) ++ " "

theorem zeroPad_pair (n : Fin 100) : Text.zeroPad 2 n.val = Ascii.text (pairText n) := by
  revert n
  decide +kernel

theorem yearText_pair (n : Fin 100) :
    Calendar.yearText (2000 + (n.val : Int)) = "20" ++ Ascii.text (pairText n) := by
  revert n
  decide +kernel

/-- **The digits of a stamp come out as they went in.** -/
theorem line_of_stamp {stamp : Stamp} {report : Report} {time : Time}
    (hstamp : stamp.time? = some time) (htime : report.time = some time) :
    ∃ rest, report.line = stamp.text ++ rest := by
  have htext : Calendar.text time ++ " " = stamp.text := by
    obtain ⟨hdate, hclock⟩ := Calendar.date_clock_of_time hstamp
    simp only [Calendar.text, hdate, hclock, Stamp.date, Stamp.clock, yearText_pair, zeroPad_pair]
    rfl
  have hlabel : " device " = " " ++ "device " := by decide
  have hline : ∃ rest, report.line = Calendar.text time ++ (" " ++ rest) := by
    unfold Report.line
    rw [htime, hlabel]
    simp only [String.append_assoc, Option.elim_some]
    exact ⟨_, rfl⟩
  obtain ⟨rest, hline⟩ := hline
  exact ⟨rest, by rw [hline, ← htext, String.append_assoc]⟩

/-! ## The order of times -/

/-- Year, month, day, hour, minute and second. -/
def Stamp.key (stamp : Stamp) : List Nat :=
  [stamp.year, stamp.month, stamp.day, stamp.hour, stamp.minute, stamp.second]

/-- **Seconds are in the order of the digits.** -/
theorem time_lt_key {stamp stamp' : Stamp} {time time' : Time} (h : stamp.time? = some time)
    (h' : stamp'.time? = some time') : time < time' ↔ stamp.key < stamp'.key := by
  rw [Calendar.time_lt_iff h h']
  simp only [Calendar.Date.Before, Calendar.Clock.Before, Stamp.date, Stamp.clock, Stamp.key,
    List.cons_lt_cons_iff, Calendar.Date.mk.injEq, List.not_lt_nil, and_false, or_false]
  omega

theorem time_eq_key {stamp stamp' : Stamp} {time time' : Time} (h : stamp.time? = some time)
    (h' : stamp'.time? = some time') : time = time' ↔ stamp.key = stamp'.key := by
  have hkey : stamp.key = stamp'.key ↔ stamp.date = stamp'.date ∧ stamp.clock = stamp'.clock := by
    simp only [Stamp.key, Stamp.date, Stamp.clock, List.cons.injEq, Calendar.Date.mk.injEq,
      Calendar.Clock.mk.injEq, and_true]
    omega
  rw [hkey]
  refine ⟨?_, fun ⟨hdate, hclock⟩ => ?_⟩
  · rintro rfl
    obtain ⟨hdate, hclock⟩ := Calendar.date_clock_of_time h
    obtain ⟨hdate', hclock'⟩ := Calendar.date_clock_of_time h'
    exact ⟨hdate.symm.trans hdate', hclock.symm.trans hclock'⟩
  · rw [Stamp.time?, hdate, hclock] at h
    exact Option.some.inj (h.symm.trans h')

/-- **Times survive from sentence to report text.** Every sentence of the two kinds that is accepted
carries a stamp. It is decoded just when the stamp is real, the text of the report then starts with
the digits of the stamp, and the seconds of two such reports compare as the digits do from the year
down. -/
theorem times_survive :
    (∀ kind : SentenceKind, kind = .regular ∨ kind = .rfid → ∀ s : String,
      (kind.grammar.parse s).isSome = true ↔ ∃ stamp, Carries kind s stamp) ∧
    (∀ kind s stamp, Carries kind s stamp → ∀ before : Report,
      ((kind.decode before s).isSome = true ↔ stamp.IsReal) ∧
      ∀ after, kind.decode before s = some after → ∃ rest, after.line = stamp.text ++ rest) ∧
    ∀ kind s stamp kind' s' stamp', Carries kind s stamp → Carries kind' s' stamp' →
      ∀ before after before' after' : Report, kind.decode before s = some after →
        kind'.decode before' s' = some after' →
        ∃ time time', after.time = some time ∧ after'.time = some time' ∧
          (time < time' ↔ stamp.key < stamp'.key) ∧ (time = time' ↔ stamp.key = stamp'.key) := by
  refine ⟨fun kind hkind s => isSome_parse_iff hkind s, fun kind s stamp h before =>
    ⟨h.isSome_decode before, fun after hdecode => ?_⟩, ?_⟩
  · obtain ⟨time, hstamp, htime⟩ := h.time_eq hdecode
    exact line_of_stamp hstamp htime
  · intro kind s stamp kind' s' stamp' h h' before after before' after' hdecode hdecode'
    obtain ⟨time, hstamp, htime⟩ := h.time_eq hdecode
    obtain ⟨time', hstamp', htime'⟩ := h'.time_eq hdecode'
    exact ⟨time, time', htime, htime', time_lt_key hstamp hstamp', time_eq_key hstamp hstamp'⟩

/-- The last second of a leap day in a regular sentence, and the one behind it in a card swipe. -/
theorem leap_day_survives :
    let place : PlaceText := ⟨⟨Ascii.utf8 "1234.5678", by decide⟩, false,
      ⟨Ascii.utf8 "09876.5432", by decide⟩, true⟩
    let header : HeaderText :=
      { hour := 23, minute := 59, second := 59, point := false, fraction := ⟨[], by decide⟩
        valid := true, place, speed := none, course := none, day := 29, month := 2, year := 24 }
    let swipe : SwipeText :=
      { hour := 0, minute := 0, second := 0, day := 1, month := 3, year := 24, place }
    header.text ++ "*1C" = "235959,A,1234.5678,N,09876.5432,W,,,290224*1C" ∧
    swipe.text = "|000000,010324,1234.5678,N,09876.5432,W" ∧
    ∀ before : Report, ∃ after after' time time',
      SentenceKind.regular.decode before (header.text ++ "*1C") = some after ∧
      SentenceKind.rfid.decode before swipe.text = some after' ∧
      (∃ rest, after.line = "2024-02-29 23:59:59 " ++ rest) ∧
      (∃ rest, after'.line = "2024-03-01 00:00:00 " ++ rest) ∧
      after.time = some time ∧ after'.time = some time' ∧ time < time' := by
  intro place header swipe
  obtain ⟨-, hdecoded, hordered⟩ := times_survive
  have hheader : Carries .regular (header.text ++ "*1C") header.stamp :=
    .regular header (by decide)
  have hswipe : Carries .rfid swipe.text swipe.stamp := .rfid swipe
  have hleap : header.stamp.IsReal := ⟨by decide, by decide, by decide, by decide, by decide⟩
  have hmarch : swipe.stamp.IsReal := ⟨by decide, by decide, by decide, by decide, by decide⟩
  have htext : header.stamp.text = "2024-02-29 23:59:59 " := by decide +kernel
  have htext' : swipe.stamp.text = "2024-03-01 00:00:00 " := by decide +kernel
  refine ⟨by decide +kernel, by decide +kernel, fun before => ?_⟩
  obtain ⟨hsome, hline⟩ := hdecoded _ _ _ hheader before
  obtain ⟨hsome', hline'⟩ := hdecoded _ _ _ hswipe before
  obtain ⟨after, hafter⟩ := Option.isSome_iff_exists.mp (hsome.mpr hleap)
  obtain ⟨after', hafter'⟩ := Option.isSome_iff_exists.mp (hsome'.mpr hmarch)
  obtain ⟨time, time', htime, htime', hlt, -⟩ :=
    hordered _ _ _ _ _ _ hheader hswipe before after before after' hafter hafter'
  obtain ⟨rest, hrest⟩ := hline after hafter
  obtain ⟨rest', hrest'⟩ := hline' after' hafter'
  exact ⟨after, after', time, time', hafter, hafter', ⟨rest, htext ▸ hrest⟩,
    ⟨rest', htext' ▸ hrest'⟩, htime, htime', hlt.mpr (by decide)⟩

end Sentence

end TrackerWire
