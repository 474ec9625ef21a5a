import TrackerWire.Proofs.Decoder.Reports

/-!
# Last fixes over a run

A registry is registered with, looked up in, decoded with and recorded in, in any order. Of these
uses only `record` changes a last fix, and only a report that has a time and a place of its own
(`apply_lastFix`). So at any point of a run the last fix of a device is that of the report last
recorded of it with such a place, if there is one (`lastFix_after`).

An engine's report has no place of its own: it says where its device was last
(`engine_report_last_fix`), and recording it changes nothing.
-/
namespace TrackerWire

open Decoder

/-- A frame that carries readings of an engine, live or over its lifetime. -/
def Frame.isEngine (frame : Frame) : Bool := frame.command?.any Decoder.isEngine

/-- A report that says when and where its device was, and has not copied it. -/
def Report.isPlaced (report : Report) : Bool := report.time.isSome && !report.outdated

/-- A report that some engine frame is decoded to. -/
def FromEngine (report : Report) : Prop :=
  ∃ settings registry link frame, frame.isEngine = true ∧
    report ∈ reportsOf (handle settings registry link frame).value.outcome

namespace Registry

/-- What can be done with a registry that frames are decoded with. -/
inductive Use where
  | register (identifier : String)
  | resolve (candidates : List String)
  | decode (settings : Settings) (link : Option Link) (frame : Frame)
  | record (report : Report)

namespace Use

def apply (registry : Registry) : Use → Registry
  | .register identifier => (registry.register identifier).2
  | .resolve candidates => (registry.resolve candidates).value.2
  | .decode settings link frame => (handle settings registry link frame).value.registry
  | .record report => registry.record report

/-- The report that a use records. -/
def recorded? : Use → Option Report
  | .record report => some report
  | _ => none

end Use

def after (registry : Registry) (uses : List Use) : Registry := uses.foldl Use.apply registry

/-- The report last recorded of a device with a place of its own. -/
def lastPlaced (device : DeviceId) (uses : List Use) : Option Report :=
  (uses.filterMap Use.recorded?).reverse.find? fun report =>
    decide (report.device = device) && report.isPlaced

/-! ## One use -/

theorem record_lastFix (registry : Registry) (report : Report) (device : DeviceId) :
    (registry.record report).lastFix device =
      if report.device = device ∧ report.isPlaced = true then report.fix?
      else registry.lastFix device := by
  unfold record Report.isPlaced
  cases houtdated : report.outdated with
  | true => simp
  | false =>
    cases htime : report.time with
    | none => simp [Report.fix?, htime]
    | some time =>
      simp only [Report.fix?, htime, Option.map_some, lastFix, Table.get?_put, Option.isSome_some,
        Bool.not_false, Bool.and_self, and_true, Bool.false_eq_true, if_false]

/-- **One use.** A last fix changes only by recording a report of the device with a place of its
own. -/
theorem apply_lastFix (registry : Registry) (use : Use) (device : DeviceId) :
    (use.apply registry).lastFix device =
      match lastPlaced device [use] with
      | some report => report.fix?
      | none => registry.lastFix device := by
  have hsame {left : Registry} (h : left.fixes = registry.fixes) :
      left.lastFix device = registry.lastFix device := by rw [lastFix, h, lastFix]
  cases use with
  | register identifier => exact hsame (register_fixes registry identifier)
  | resolve candidates => exact hsame (resolve_fixes registry candidates)
  | decode settings link frame => exact hsame handle_fixes
  | record report =>
    show (registry.record report).lastFix device = _
    rw [record_lastFix]
    by_cases h : report.device = device ∧ report.isPlaced = true
    · simp [lastPlaced, Use.recorded?, h]
    · rw [if_neg h]
      simp only [lastPlaced, Use.recorded?, List.filterMap_cons, List.filterMap_nil,
        List.reverse_singleton, List.find?_singleton, Bool.and_eq_true, decide_eq_true_eq, if_neg h]

/-! ## Runs -/

theorem lastPlaced_cons (device : DeviceId) (use : Use) (uses : List Use) :
    lastPlaced device (use :: uses) =
      (lastPlaced device uses).or (lastPlaced device [use]) := by
  have hsplit : (use :: uses).filterMap Use.recorded? =
      [use].filterMap Use.recorded? ++ uses.filterMap Use.recorded? := by
    rw [← List.filterMap_append, List.singleton_append]
  simp only [lastPlaced, hsplit, List.reverse_append, List.find?_append]

/-- **A run.** The last fix of a device is where the report last recorded of it with a place of its
own says, and as before the run if there is none. -/
theorem lastFix_after (registry : Registry) (uses : List Use) (device : DeviceId) :
    (after registry uses).lastFix device =
      match lastPlaced device uses with
      | some report => report.fix?
      | none => registry.lastFix device := by
  induction uses generalizing registry with
  | nil => rfl
  | cons use uses ih =>
    have hrest : after registry (use :: uses) = after (use.apply registry) uses := rfl
    rw [hrest, ih, lastPlaced_cons, apply_lastFix]
    cases lastPlaced device uses <;> rfl

theorem lastPlaced_isPlaced {device : DeviceId} {uses : List Use} {report : Report}
    (h : lastPlaced device uses = some report) : ∃ time, report.time = some time := by
  have hplaced := List.find?_some h
  simp only [Report.isPlaced, Bool.and_eq_true] at hplaced
  exact Option.isSome_iff_exists.mp hplaced.2.1

/-! ## Reports of an engine -/

/-- **One report.** What an engine frame is decoded to says where its device was last. -/
theorem engine_handle {settings : Settings} {registry : Registry} {link : Option Link}
    {frame : Frame} {report : Report} (hengine : frame.isEngine = true)
    (h : report ∈ reportsOf (handle settings registry link frame).value.outcome) :
    report.outdated = true ∧ report.valid = false ∧
      (report.time, report.latitude, report.longitude) =
        match registry.lastFix report.device with
        | some fix => (some fix.time, fix.latitude, fix.longitude)
        | none => (none, 0, 0) := by
  obtain ⟨device, command, -, hcommand, hreport⟩ := reports_handle h
  rw [Frame.isEngine, hcommand] at hengine
  rw [device_decodePayload hreport]
  obtain ⟨attributes, odometer, rfl⟩ := engine_decodePayload hengine hreport
  cases registry.lastFix device <;> exact ⟨rfl, rfl, rfl⟩

theorem recordAll_engine (registry : Registry) (reports : List Report)
    (h : ∀ report ∈ reports, FromEngine report) : registry.recordAll reports = registry := by
  induction reports with
  | nil => rfl
  | cons report reports ih =>
    obtain ⟨settings, registry', link, frame, hengine, hreport⟩ := h report (List.mem_cons_self ..)
    have hfirst : registry.record report = registry := by
      rw [record, if_pos (engine_handle hengine hreport).1]
    rw [recordAll, List.foldl_cons, hfirst]
    exact ih fun r hr => h r (List.mem_cons_of_mem _ hr)

/-- **Engine reports carry the last known fix, over any run.** Whatever a new registry has been used
for, each report decoded from an engine frame is outdated and not valid, and it has the time and the
place of the report last recorded of its device that had a time and was not outdated; without one it
has no time and the place zero. Recording engine reports, however many, changes no last fix. -/
theorem engine_report_last_fix :
    (∀ (acceptsUnknown : Bool) (uses : List Use) (settings : Settings) (link : Option Link)
      (frame : Frame), frame.isEngine = true →
      ∀ report ∈ reportsOf (handle settings (after { acceptsUnknown } uses) link frame).value.outcome,
        report.outdated = true ∧ report.valid = false ∧
        (report.time, report.latitude, report.longitude) =
          match lastPlaced report.device uses with
          | some last => (last.time, last.latitude, last.longitude)
          | none => (none, 0, 0)) ∧
    ∀ (registry : Registry) (reports : List Report), (∀ report ∈ reports, FromEngine report) →
      ∀ device, (registry.recordAll reports).lastFix device = registry.lastFix device := by
  refine ⟨?_, fun registry reports h device => by rw [recordAll_engine registry reports h]⟩
  intro acceptsUnknown uses settings link frame hengine report hreport
  obtain ⟨houtdated, hvalid, hplace⟩ := engine_handle hengine hreport
  refine ⟨houtdated, hvalid, ?_⟩
  rw [hplace, lastFix_after]
  cases hlast : lastPlaced report.device uses with
  | none => rfl
  | some last =>
    obtain ⟨time, htime⟩ := lastPlaced_isPlaced hlast
    simp only [Report.fix?, htime, Option.map_some]

/-- A device whose last report is outdated, behind one with a place and before one of another
device: its totals say the place. -/
theorem engine_report_of_recorded :
    let id : RawId := ⟨[0x13, 0x61, 0x23, 0x45, 0x67, 0x8F, 0xFF], rfl⟩
    let uses : List Use := [.register "13612345678",
      .record { device := 1, time := some 1641040496, latitude := 12.5, longitude := -3.25 },
      .record { device := 1, time := some 1641040497, outdated := true },
      .record { device := 2, time := some 1641040498, latitude := 1.5 }]
    let totals : Frame :=
      ⟨id, Command.obdAggregate.code, Ascii.utf8 "120,356.5,40.25,3,45,130,6200,12,9"⟩
    totals.isEngine = true ∧
    ∃ report ∈ reportsOf (handle {} (after {} uses) none totals).value.outcome,
      FromEngine report ∧ (report.outdated = true ∧ report.valid = false ∧
        (report.time, report.latitude, report.longitude) = (some 1641040496, 12.5, -3.25)) ∧
      ((after {} uses).recordAll [report, report]).lastFix 1 = (after {} uses).lastFix 1 := by
  intro id uses totals
  have hengine : totals.isEngine = true := by decide
  have hsome : (reportsOf (handle {} (after {} uses) none totals).value.outcome).isEmpty =
      false := by decide +kernel
  obtain ⟨report, others, hreports⟩ :=
    List.exists_cons_of_ne_nil (List.isEmpty_eq_false_iff.mp hsome)
  have hreport : report ∈ reportsOf (handle {} (after {} uses) none totals).value.outcome := by
    rw [hreports]
    exact List.mem_cons_self ..
  have hdevice : report.device = 1 := by
    have hfirst : (after {} uses).Resolves id 1 := by decide +kernel
    exact Option.some.inj ((device_handle hreport).symm.trans hfirst)
  have hfrom : FromEngine report := ⟨{}, after {} uses, none, totals, hengine, hreport⟩
  obtain ⟨houtdated, hvalid, hplace⟩ :=
    engine_report_last_fix.1 false uses {} none totals hengine report hreport
  refine ⟨hengine, report, hreport, hfrom, ⟨houtdated, hvalid, ?_⟩, ?_⟩
  · rw [hplace, hdevice]
    rfl
  · refine engine_report_last_fix.2 (after {} uses) [report, report] (fun r hr => ?_) 1
    simp only [List.mem_cons, List.not_mem_nil, or_false, or_self] at hr
    exact hr ▸ hfrom

end Registry

end TrackerWire
