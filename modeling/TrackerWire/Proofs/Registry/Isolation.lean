import TrackerWire.Proofs.Registry.LastFix

/-!
# Devices do not influence each other

Frames of many devices are handled in any order with one registry that does not accept unknown
devices, and the reports of each are recorded. Two registries are `Alike` for a device if they know
the same identifiers and have the same last fix of it.

* a frame of another device leaves the registry alike (`alike_other`);
* a frame of the device has the same outcome with registries that are alike, and leaves them alike
  (`outcome_alike`, `alike_own`).

So a run gives the device what the run of its own frames gives it (`handleAll_alike`), whatever
stands between them (`devices_isolated`).
-/
namespace TrackerWire

open Decoder

namespace Registry

variable {registry a b : Registry} {device : DeviceId}

theorem resolve_fixed (h : registry.acceptsUnknown = false) (candidates : List String) :
    (registry.resolve candidates).value = (registry.lookup candidates, registry) := by
  unfold resolve
  split
  · rename_i id hid
    rw [hid]
  · rename_i hnone
    rw [hnone]
    simp only [enrol, h]

theorem record_eq (registry : Registry) (report : Report) :
    ∃ fixes, registry.record report = { registry with fixes } := by
  unfold record
  split
  · exact ⟨_, rfl⟩
  · split <;> exact ⟨_, rfl⟩

theorem recordAll_eq (registry : Registry) (reports : List Report) :
    ∃ fixes, registry.recordAll reports = { registry with fixes } := by
  induction reports generalizing registry with
  | nil => exact ⟨_, rfl⟩
  | cons report reports ih =>
    obtain ⟨fixes, hfirst⟩ := record_eq registry report
    obtain ⟨fixes', hrest⟩ := ih { registry with fixes }
    exact ⟨fixes', by rw [recordAll, List.foldl_cons, hfirst]; exact hrest⟩

theorem resolves_recordAll (h : registry.acceptsUnknown = false) (reports : List Report)
    (id : RawId) : (registry.recordAll reports).Resolves id device ↔
      registry.Resolves id device := by
  obtain ⟨fixes, hrecorded⟩ := recordAll_eq registry reports
  have hfixed : ({ registry with fixes } : Registry).acceptsUnknown = false := h
  rw [hrecorded]
  unfold Resolves
  rw [resolve_fixed h, resolve_fixed hfixed]
  rfl

/-- Neither registry accepts unknown devices, both know the same identifiers, and both have the same
last fix of the device. -/
structure Alike (device : DeviceId) (a b : Registry) : Prop where
  fixed : a.acceptsUnknown = false
  fixed' : b.acceptsUnknown = false
  ids : a.ids = b.ids
  lastFix : a.lastFix device = b.lastFix device

namespace Alike

theorem refl (device : DeviceId) (h : registry.acceptsUnknown = false) :
    Alike device registry registry := ⟨h, h, rfl, rfl⟩

theorem lookup_eq (h : Alike device a b) (candidates : List String) :
    a.lookup candidates = b.lookup candidates := by
  unfold lookup
  rw [h.ids]

theorem resolves_iff (h : Alike device a b) (id : RawId) (other : DeviceId) :
    a.Resolves id other ↔ b.Resolves id other := by
  unfold Resolves
  rw [resolve_fixed h.fixed, resolve_fixed h.fixed', h.lookup_eq]

theorem record (h : Alike device a b) (report : Report) :
    Alike device (a.record report) (b.record report) := by
  have hfix : (a.record report).lastFix device = (b.record report).lastFix device := by
    rw [record_lastFix, record_lastFix, h.lastFix]
  obtain ⟨left, hleft⟩ := record_eq a report
  obtain ⟨right, hright⟩ := record_eq b report
  rw [hleft, hright] at hfix ⊢
  exact ⟨h.fixed, h.fixed', h.ids, hfix⟩

theorem recordAll (h : Alike device a b) (reports : List Report) :
    Alike device (a.recordAll reports) (b.recordAll reports) := by
  induction reports generalizing a b with
  | nil => exact h
  | cons report reports ih => exact ih (h.record report)

theorem recordAll_others (h : Alike device a b) (reports : List Report)
    (hothers : ∀ report ∈ reports, report.device ≠ device) :
    Alike device (a.recordAll reports) b := by
  induction reports generalizing a with
  | nil => exact h
  | cons report reports ih =>
    have hother := hothers report (List.mem_cons_self ..)
    refine ih ?_ fun r hr => hothers r (List.mem_cons_of_mem _ hr)
    have hfix : (a.record report).lastFix device = a.lastFix device := by
      rw [record_lastFix, if_neg fun hplaced => hother hplaced.1]
    obtain ⟨fixes, hrecord⟩ := record_eq a report
    rw [hrecord] at hfix ⊢
    exact ⟨h.fixed, h.fixed', h.ids, hfix.trans h.lastFix⟩

end Alike

end Registry

namespace Decoder

/-- A frame as it comes in, on a connection or without one. -/
structure Arrival where
  link : Option Link
  frame : Frame
  deriving DecidableEq

/-- What a frame leads to, and the connection after it. -/
abbrev Answer := Decoded × Option Link

/-- Handle frames one after the other, and record what each is decoded to. -/
def handleAll (settings : Settings) (registry : Registry) : List Arrival → List Answer × Registry
  | [] => ([], registry)
  | arrival :: later =>
    let handled := (handle settings registry arrival.link arrival.frame).value
    let others :=
      handleAll settings (handled.registry.recordAll (reportsOf handled.outcome)) later
    ((handled.outcome, handled.link) :: others.1, others.2)

/-- The frames that resolve to a device. -/
def arrivalsOf (registry : Registry) (device : DeviceId) (arrivals : List Arrival) :
    List Arrival :=
  arrivals.filter fun arrival => registry.Resolves arrival.frame.id device

/-- What the frames lead to that resolve to a device. -/
def answersOf (settings : Settings) (registry : Registry) (device : DeviceId)
    (arrivals : List Arrival) : List Answer :=
  ((arrivals.zip (handleAll settings registry arrivals).1).filter fun answered =>
    registry.Resolves answered.1.frame.id device).map Prod.snd

section Frames

variable (settings : Settings) (link : Option Link) {frame : Frame} {a b : Registry}
  {device : DeviceId}

theorem handle_registry_fixed (h : a.acceptsUnknown = false) :
    (handle settings a link frame).value.registry = a := by
  rcases handle_registry settings a link frame with hsame | hlookup
  · exact hsame
  · rw [hlookup, Registry.resolve_fixed h]

/-- **A frame of another device** leaves the registry alike. -/
theorem alike_other (h : a.Alike device b) (hother : ¬ a.Resolves frame.id device) :
    ((handle settings a link frame).value.registry.recordAll
      (reportsOf (handle settings a link frame).value.outcome)).Alike device b := by
  rw [handle_registry_fixed settings link h.fixed]
  refine h.recordAll_others _ fun report hreport hdevice => hother ?_
  rw [← hdevice]
  exact device_handle hreport

/-- **A frame of the device** leads to the same with registries that are alike. -/
theorem outcome_alike (h : a.Alike device b) (hown : a.Resolves frame.id device) :
    (handle settings a link frame).value.outcome = (handle settings b link frame).value.outcome ∧
      (handle settings a link frame).value.link = (handle settings b link frame).value.link := by
  cases hanswer : handshake? settings link frame with
  | some answer => rw [handle_answered hanswer, handle_answered hanswer]; exact ⟨rfl, rfl⟩
  | none =>
    rw [handle_decoded hanswer, handle_decoded hanswer]
    refine ⟨?_, rfl⟩
    simp only [decodeIdentified_resolved frame hown,
      decodeIdentified_resolved frame ((h.resolves_iff _ _).mp hown), decodeFrame,
      Registry.resolve_lastFix]
    cases frame.command? with
    | none => rfl
    | some command => simp only [decodePayload_congr h.lastFix]

theorem alike_own (h : a.Alike device b) (hown : a.Resolves frame.id device) :
    ((handle settings a link frame).value.registry.recordAll
      (reportsOf (handle settings a link frame).value.outcome)).Alike device
    ((handle settings b link frame).value.registry.recordAll
      (reportsOf (handle settings b link frame).value.outcome)) := by
  rw [handle_registry_fixed settings link h.fixed, handle_registry_fixed settings link h.fixed',
    (outcome_alike settings link h hown).1]
  exact h.recordAll _

/-- **A run.** With registries that are alike for the device, all frames and the device's own frames
lead to the same for it. -/
theorem handleAll_alike (h : a.Alike device b) (own : RawId → Bool)
    (hown : ∀ id, own id = true ↔ a.Resolves id device) (arrivals : List Arrival) :
    ((arrivals.zip (handleAll settings a arrivals).1).filter
        fun answered => own answered.1.frame.id).map Prod.snd =
      (handleAll settings b (arrivals.filter fun arrival => own arrival.frame.id)).1 ∧
    (handleAll settings a arrivals).2.lastFix device =
      (handleAll settings b (arrivals.filter fun arrival => own arrival.frame.id)).2.lastFix
        device := by
  induction arrivals generalizing a b with
  | nil => exact ⟨rfl, h.lastFix⟩
  | cons arrival later ih =>
    have hlater (id : RawId) : own id = true ↔
        ((handle settings a arrival.link arrival.frame).value.registry.recordAll
          (reportsOf (handle settings a arrival.link arrival.frame).value.outcome)).Resolves
          id device := by
      rw [handle_registry_fixed settings arrival.link h.fixed,
        Registry.resolves_recordAll h.fixed]
      exact hown id
    simp only [handleAll, List.zip_cons_cons]
    by_cases hmine : own arrival.frame.id = true
    · have hresolves := (hown arrival.frame.id).mp hmine
      obtain ⟨houtcome, hlink⟩ := outcome_alike settings arrival.link h hresolves
      obtain ⟨hanswers, hfix⟩ := ih (alike_own settings arrival.link h hresolves) hlater
      simp only [List.filter_cons, hmine, if_true, List.map_cons, hanswers, handleAll]
      exact ⟨by rw [houtcome, hlink], hfix⟩
    · have hresolves : ¬ a.Resolves arrival.frame.id device := fun hr => hmine ((hown _).mpr hr)
      simp only [List.filter_cons, hmine]
      exact ih (alike_other settings arrival.link h hresolves) hlater

end Frames

/-- **Devices do not influence each other.** With a registry that does not accept unknown devices,
whatever identifiers it knows and whatever fixes it has, the frames that resolve to a device lead to
the same, and leave the same last fix of it, as when they are the only ones. So they do in any two
runs that hold the same frames of the device in the same order. -/
theorem devices_isolated (settings : Settings) (registry : Registry)
    (hfixed : registry.acceptsUnknown = false) (device : DeviceId) :
    (∀ arrivals,
      answersOf settings registry device arrivals =
        (handleAll settings registry (arrivalsOf registry device arrivals)).1 ∧
      (handleAll settings registry arrivals).2.lastFix device =
        (handleAll settings registry (arrivalsOf registry device arrivals)).2.lastFix device) ∧
    ∀ arrivals arrivals',
      arrivalsOf registry device arrivals = arrivalsOf registry device arrivals' →
      answersOf settings registry device arrivals = answersOf settings registry device arrivals' ∧
      (handleAll settings registry arrivals).2.lastFix device =
        (handleAll settings registry arrivals').2.lastFix device := by
  have halone (arrivals : List Arrival) :=
    handleAll_alike settings (Registry.Alike.refl device hfixed)
      (fun id => decide (registry.Resolves id device)) (fun id => decide_eq_true_iff) arrivals
  refine ⟨halone, fun arrivals arrivals' hsame => ?_⟩
  obtain ⟨hanswers, hfix⟩ := halone arrivals
  obtain ⟨hanswers', hfix'⟩ := halone arrivals'
  unfold arrivalsOf at hsame
  rw [hsame] at hanswers hfix
  exact ⟨hanswers.trans hanswers'.symm, hfix.trans hfix'.symm⟩

/-- Two devices and an unknown one. Between the frames of the first, which end in an error and in
totals with its last place, the second logs in and reports another place. -/
theorem isolated_from_login :
    let id : RawId := ⟨[0x13, 0x61, 0x23, 0x45, 0x67, 0x8F, 0xFF], rfl⟩
    let other : RawId := ⟨[0x99, 0xFF, 0xFF, 0xFF, 0xFF, 0xFF, 0xFF], rfl⟩
    let unknown : RawId := ⟨[0x77, 0xFF, 0xFF, 0xFF, 0xFF, 0xFF, 0xFF], rfl⟩
    let link : Link := ⟨⟨.v4 10 0 0 1, 5009, 0⟩, ⟨.v4 10 0 0 2, 40001, 0⟩, true, []⟩
    let registry := ((Registry.register {} "13612345678").2.register "99").2
    let position : Arrival := ⟨none, id, Command.position.code,
      Ascii.utf8 "123456,A,1234.5678,N,09876.5432,E,10.5,90.0,010122"⟩
    let failing : Arrival := ⟨some link, id, Command.alarm.code, []⟩
    let totals : Arrival := ⟨none, id, Command.obdAggregate.code,
      Ascii.utf8 "120,356.5,40.25,3,45,130,6200,12,9"⟩
    let login : Arrival := ⟨some link, other, Command.login.code, []⟩
    let elsewhere : Arrival := ⟨some link, other, Command.position.code,
      Ascii.utf8 "123457,A,0000.0000,N,00000.0000,E,,,010122"⟩
    let stranger : Arrival := ⟨none, unknown, Command.position.code, []⟩
    let arrivals := [login, position, elsewhere, failing, stranger, totals]
    let arrivals' := [position, failing, totals, stranger, elsewhere, login]
    registry.acceptsUnknown = false ∧
    arrivalsOf registry 1 arrivals = [position, failing, totals] ∧
    (answersOf {} registry 1 arrivals = (handleAll {} registry [position, failing, totals]).1 ∧
      (handleAll {} registry arrivals).2.lastFix 1 =
        (handleAll {} registry [position, failing, totals]).2.lastFix 1) ∧
    arrivalsOf registry 1 arrivals' = [position, failing, totals] ∧
    answersOf {} registry 1 arrivals = answersOf {} registry 1 arrivals' := by
  intro id other unknown link registry position failing totals login elsewhere stranger arrivals
    arrivals'
  have hfixed : registry.acceptsUnknown = false := by decide
  have hown : arrivalsOf registry 1 arrivals = [position, failing, totals] := by decide +kernel
  have hown' : arrivalsOf registry 1 arrivals' = [position, failing, totals] := by decide +kernel
  obtain ⟨halone, hinterleaved⟩ := devices_isolated {} registry hfixed 1
  have hsame := (hinterleaved arrivals arrivals' (hown.trans hown'.symm)).1
  have hfirst := halone arrivals
  rw [hown] at hfirst
  exact ⟨hfixed, hown, hfirst, hown', hsame⟩

end Decoder

end TrackerWire
