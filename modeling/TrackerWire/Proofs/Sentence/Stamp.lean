import TrackerWire.Proofs.Calendar.Civil
import TrackerWire.Proofs.Sentence.Swipe

/-!
# Stamps

A stamp is the date and the time of day of a sentence, pairs of digits as they stand there. It is
real if there is such a day in the century from 2000 and such a time of day; only then does it
denote a time (`isSome_timeOf?`).
-/
namespace TrackerWire

namespace Sentence

/-- A date and a time of day in pairs of digits. -/
@[ext]
structure Stamp where
  hour : Fin 100
  minute : Fin 100
  second : Fin 100
  day : Fin 100
  month : Fin 100
  year : Fin 100
  deriving DecidableEq, Repr

namespace Stamp

/-- The lengths of the months of a year from 2000 on. Every fourth year of the century is a leap
year, the first one included. -/
def monthLengths (year : Fin 100) : List Nat :=
  [31, if 4 ∣ year.val then 29 else 28, 31, 30, 31, 30, 31, 31, 30, 31, 30, 31]

/-- The day and the time of day exist. -/
structure IsReal (stamp : Stamp) : Prop where
  hour : stamp.hour.val < 24
  minute : stamp.minute.val < 60
  second : stamp.second.val < 60
  month : 1 ≤ stamp.month.val ∧ stamp.month.val ≤ 12
  day : 1 ≤ stamp.day.val ∧
    stamp.day.val ≤ (monthLengths stamp.year).getD (stamp.month.val - 1) 0

/-- The date in the century from 2000. -/
def date (stamp : Stamp) : Calendar.Date := ⟨2000 + (stamp.year.val : Int), stamp.month, stamp.day⟩

def clock (stamp : Stamp) : Calendar.Clock := ⟨stamp.hour, stamp.minute, stamp.second⟩

/-- The time of a stamp, if it is real. -/
def time? (stamp : Stamp) : Option Time := Calendar.time? stamp.date stamp.clock

theorem daysInMonth_eq (year : Fin 100) {month : Nat} (h : 1 ≤ month ∧ month ≤ 12) :
    Calendar.daysInMonth (2000 + (year.val : Int)) month =
      (monthLengths year).getD (month - 1) 0 := by
  have hleap : Calendar.isLeapYear (2000 + (year.val : Int)) = decide (4 ∣ year.val) := by
    revert year
    decide
  have hfebruary : Calendar.daysInMonth (2000 + (year.val : Int)) 2 =
      if 4 ∣ year.val then 29 else 28 := by
    simp only [Calendar.daysInMonth, hleap, decide_eq_true_eq]
  obtain ⟨hleast, hmost⟩ := h
  interval_cases month
  all_goals first
    | rfl
    | exact hfebruary

theorem isReal_date (stamp : Stamp) : stamp.date.isReal = true ↔
    (1 ≤ stamp.month.val ∧ stamp.month.val ≤ 12) ∧ 1 ≤ stamp.day.val ∧
      stamp.day.val ≤ (monthLengths stamp.year).getD (stamp.month.val - 1) 0 := by
  rw [Calendar.Date.isReal_iff]
  show 1 ≤ stamp.day.val ∧ stamp.day.val ≤ Calendar.daysInMonth (2000 + (stamp.year.val : Int))
    stamp.month.val ↔ _
  by_cases hmonth : 1 ≤ stamp.month.val ∧ stamp.month.val ≤ 12
  · rw [daysInMonth_eq stamp.year hmonth]
    exact (and_iff_right hmonth).symm
  · rw [Calendar.daysInMonth_of_not hmonth]
    refine iff_of_false (fun h => ?_) fun h => hmonth h.1
    omega

/-- **A stamp denotes a time just when it is real.** -/
theorem isSome_time? (stamp : Stamp) : stamp.time?.isSome = true ↔ stamp.IsReal := by
  rw [time?, Calendar.time?, Option.isSome_ite, Bool.and_eq_true, isReal_date,
    Calendar.Clock.isReal_iff]
  refine ⟨?_, fun h => ⟨⟨h.month, h.day⟩, h.hour, h.minute, h.second⟩⟩
  rintro ⟨⟨hmonth, hday⟩, hhour, hminute, hsecond⟩
  exact ⟨hhour, hminute, hsecond, hmonth, hday⟩

end Stamp

/-! ## Stamps of matches -/

/-- The captures hold the pairs of the stamp, those of the time from one number on and those of the
date from another. -/
structure Shows (captures : Captures) (clockAt dateAt : Nat) (stamp : Stamp) : Prop where
  hour : captures.bytesAt clockAt = some (pairText stamp.hour)
  minute : captures.bytesAt (clockAt + 1) = some (pairText stamp.minute)
  second : captures.bytesAt (clockAt + 2) = some (pairText stamp.second)
  day : captures.bytesAt dateAt = some (pairText stamp.day)
  month : captures.bytesAt (dateAt + 1) = some (pairText stamp.month)
  year : captures.bytesAt (dateAt + 2) = some (pairText stamp.year)

namespace Shows

variable {captures : Captures} {clockAt dateAt : Nat} {stamp other : Stamp}

theorem timeOf? (h : Shows captures clockAt dateAt stamp) {hms dmy : Nat × Nat × Nat}
    (hhms : tripleAt captures clockAt = some hms) (hdmy : tripleAt captures dateAt = some dmy) :
    Sentence.timeOf? hms dmy = stamp.time? := by
  rw [tripleAt_eq h.hour h.minute h.second] at hhms
  rw [tripleAt_eq h.day h.month h.year] at hdmy
  cases hhms
  cases hdmy
  rfl

theorem unique (h : Shows captures clockAt dateAt stamp)
    (h' : Shows captures clockAt dateAt other) : stamp = other := by
  have hpair : ∀ {index : Nat} {a b : Fin 100}, captures.bytesAt index = some (pairText a) →
      captures.bytesAt index = some (pairText b) → a = b := fun ha hb =>
    pairText_inj (Option.some.inj (ha.symm.trans hb))
  exact Stamp.ext (hpair h.hour h'.hour) (hpair h.minute h'.minute) (hpair h.second h'.second)
    (hpair h.day h'.day) (hpair h.month h'.month) (hpair h.year h'.year)

end Shows

def HeaderText.stamp (header : HeaderText) : Stamp :=
  ⟨header.hour, header.minute, header.second, header.day, header.month, header.year⟩

def SwipeText.stamp (swipe : SwipeText) : Stamp :=
  ⟨swipe.hour, swipe.minute, swipe.second, swipe.day, swipe.month, swipe.year⟩

theorem HeaderText.shows {header : HeaderText} {captures : Captures}
    (h : ∀ index < 13, captures.bytesAt index = (header.texts[index]?).join) :
    Shows captures RegularField.hour.index RegularField.day.index header.stamp where
  hour := h 0 (by decide)
  minute := h 1 (by decide)
  second := h 2 (by decide)
  day := h 10 (by decide)
  month := h 11 (by decide)
  year := h 12 (by decide)

theorem SwipeText.shows {swipe : SwipeText} {captures : Captures}
    (h : ∀ index, captures.bytesAt index = (swipe.texts[index]?).join) :
    Shows captures 0 3 swipe.stamp where
  hour := h 0
  minute := h 1
  second := h 2
  day := h 3
  month := h 4
  year := h 5

end Sentence

end TrackerWire
