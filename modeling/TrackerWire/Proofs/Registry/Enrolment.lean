import TrackerWire.Proofs.Registry.Identifiers
import TrackerWire.Proofs.Registry.Isolation
import TrackerWire.Proofs.Session.Live

/-!
# Devices enrolled as they appear

Frames are handled one after the other with a new registry that accepts unknown devices. A frame
that is answered, or that names no device, does not come to the registry; every other frame is
looked up (`Arrival.isLookedUp`). With decimal identifiers, looking one up registers its text and
nothing else, so after a run the registry is `Enrolled` with the frames looked up so far:

* `Enrolled.handled`: one frame, whatever it leads to, keeps this up;
* `decodeAll_enrolled`: so does a run, and each of its frames was given the number that its
  identifier has at the end;
* `devices_told_apart`: so frames have one device just when their identifiers agree before the
  filler, and devices are numbered as they appear.
-/
namespace TrackerWire

namespace Decoder

/-- The frame is looked up: it is not answered, and it names a device. -/
def Arrival.isLookedUp (arrival : Arrival) : Bool :=
  !(arrival.link.isSome && arrival.frame.isHandshake) && !arrival.frame.id.significant.isEmpty

/-- The device that a frame is looked up as. -/
def deviceOf? (settings : Settings) (registry : Registry) (arrival : Arrival) : Option DeviceId :=
  if (handshake? settings arrival.link arrival.frame).isSome then none
  else (registry.resolve (Identity.ofRaw arrival.frame.id).candidates).value.1

/-- A frame, the device it was looked up as, and what it has led to. -/
structure Decoding where
  arrival : Arrival
  device : Option DeviceId
  outcome : Decoded

/-- Handle frames one after the other; their reports may be recorded. -/
def decodeAll (settings : Settings) (record : Bool) (registry : Registry) :
    List Arrival → List Decoding × Registry
  | [] => ([], registry)
  | arrival :: later =>
    let handled := (handle settings registry arrival.link arrival.frame).value
    let others :=
      decodeAll settings record (Session.recordIf record handled.registry handled.outcome) later
    (⟨arrival, deviceOf? settings registry arrival, handled.outcome⟩ :: others.1, others.2)

/-- The identifiers that are looked up over a run. -/
def lookedUp (arrivals : List Arrival) : List RawId :=
  (arrivals.filter Arrival.isLookedUp).map fun arrival => arrival.frame.id

/-! ## What the registry knows -/

/-- The registry accepts unknown devices and has been registered with the texts of these
identifiers, all of them decimal. -/
structure Enrolled (registry : Registry) (ids : List RawId) : Prop where
  accepts : registry.acceptsUnknown = true
  decimal : ∀ id ∈ ids, id.IsDecimal
  numbered : registry.Numbered (ids.map RawId.text)

namespace Enrolled

variable {registry : Registry} {ids : List RawId}

theorem new : Enrolled { acceptsUnknown := true } [] :=
  ⟨rfl, by simp, Registry.numbered_new true⟩

theorem unchecked (h : Enrolled registry ids) (identifier : String) (number : DeviceId)
    (hknown : registry.number? identifier = some number) :
    identifier.length ≤ Identity.uncheckedLength := by
  obtain ⟨id, hid, rfl⟩ :=
    List.mem_map.mp ((h.numbered.known_iff identifier).mp ⟨number, hknown⟩)
  exact RawId.length_text (h.decimal id hid)

theorem significant_decimal (h : Enrolled registry ids) :
    ∀ digits ∈ ids.map RawId.significant, ∀ digit ∈ digits, digit < 10 := by
  intro digits hdigits
  obtain ⟨id, hmem, rfl⟩ := List.mem_map.mp hdigits
  exact h.decimal id hmem

/-- The texts registered come first where their half bytes do. -/
theorem firstTexts (h : Enrolled registry ids) : (ids.map RawId.text).eraseDups =
    (ids.map RawId.significant).eraseDups.map digitsText := by
  have htexts : ids.map RawId.text = (ids.map RawId.significant).map digitsText := by
    rw [List.map_map]
    exact List.map_congr_left fun id hmem => RawId.text_decimal (h.decimal id hmem)
  rw [htexts, eraseDups_map fun a ha b hb =>
    digitsText_inj (h.significant_decimal a ha) (h.significant_decimal b hb)]

theorem issued (h : Enrolled registry ids) :
    registry.issued = (ids.map RawId.significant).eraseDups.length := by
  rw [h.numbered.issued, h.firstTexts, List.length_map]

/-- Every identifier that has been looked up has a number: its place among those that differ before
the filler. -/
theorem number_of_mem (h : Enrolled registry ids) {id : RawId} (hmem : id ∈ ids) : ∃ index,
    (ids.map RawId.significant).eraseDups[index]? = some id.significant ∧
      registry.number? id.text = some (index + 1) := by
  have hid := h.decimal id hmem
  obtain ⟨number, hnumber⟩ :=
    (h.numbered.known_iff id.text).mpr (List.mem_map_of_mem hmem)
  obtain ⟨index, hindex, rfl⟩ := (h.numbered.number?_iff _ _).mp hnumber
  refine ⟨index, ?_, hnumber⟩
  rw [h.firstTexts, List.getElem?_map, Option.map_eq_some_iff] at hindex
  obtain ⟨digits, hindex, htext⟩ := hindex
  have hdigits := h.significant_decimal digits (List.mem_eraseDups.mp (List.mem_of_getElem? hindex))
  rw [RawId.text_decimal hid] at htext
  rw [hindex, digitsText_inj hdigits hid htext]

theorem congr (h : Enrolled registry ids) (fixes : Table DeviceId Fix) :
    Enrolled { registry with fixes } ids :=
  ⟨h.accepts, h.decimal, h.numbered.congr rfl rfl⟩

theorem recordIf (h : Enrolled registry ids) (record : Bool) (decoded : Decoded) :
    Enrolled (Session.recordIf record registry decoded) ids := by
  cases record with
  | false => exact h
  | true =>
    obtain ⟨fixes, hrecorded⟩ := Registry.recordAll_eq registry (reportsOf decoded)
    show Enrolled (registry.recordAll (reportsOf decoded)) ids
    rw [hrecorded]
    exact h.congr fixes

theorem register (h : Enrolled registry ids) {id : RawId} (hid : id.IsDecimal) :
    Enrolled (registry.register id.text).2 (ids ++ [id]) := by
  refine ⟨?_, ?_, ?_⟩
  · rw [Registry.register_acceptsUnknown]
    exact h.accepts
  · intro other hother
    rcases List.mem_append.mp hother with hother | hother
    · exact h.decimal other hother
    · rw [List.mem_singleton.mp hother]
      exact hid
  · rw [List.map_append]
    exact h.numbered.register id.text

end Enrolled

/-! ## One frame -/

section Frames

variable {registry : Registry} {ids : List RawId} (settings : Settings)

theorem handle_not_lookedUp {arrival : Arrival} (h : arrival.isLookedUp = false) :
    deviceOf? settings registry arrival = none ∧
      (handle settings registry arrival.link arrival.frame).value.outcome = .ok .nothing ∧
      (handle settings registry arrival.link arrival.frame).value.registry = registry := by
  have hanswered := isSome_handshake? settings arrival.link arrival.frame
  unfold deviceOf?
  cases hhandshake : handshake? settings arrival.link arrival.frame with
  | some answer =>
    rw [handle_answered hhandshake]
    exact ⟨rfl, rfl, rfl⟩
  | none =>
    rw [hhandshake] at hanswered
    have hempty : arrival.frame.id.significant = [] := by
      simpa [Arrival.isLookedUp, ← hanswered] using h
    have hnone : (registry.resolve (Identity.ofRaw arrival.frame.id).candidates).value =
        (none, registry) := by
      rw [Identity.candidates_of_isEmpty ((RawId.isEmpty_iff _).mpr hempty), Registry.resolve_nil]
    rw [handle_decoded hhandshake, decodeIdentified_unresolved _ (by rw [hnone]), hnone]
    exact ⟨rfl, rfl, rfl⟩

/-- A frame that is looked up registers the text of its identifier and is told its number. -/
theorem handle_lookedUp {arrival : Arrival} (h : arrival.isLookedUp = true)
    (henrolled : Enrolled registry ids) :
    deviceOf? settings registry arrival = some (registry.register arrival.frame.id.text).1 ∧
      (handle settings registry arrival.link arrival.frame).value.registry =
        (registry.register arrival.frame.id.text).2 := by
  obtain ⟨hanswered, hsome⟩ : (arrival.link.isSome && arrival.frame.isHandshake) = false ∧
      arrival.frame.id.significant ≠ [] := by
    simpa only [Arrival.isLookedUp, Bool.and_eq_true, Bool.not_eq_true', List.isEmpty_eq_false_iff]
      using h
  have hhandshake : handshake? settings arrival.link arrival.frame = none := by
    rw [← Option.not_isSome_iff_eq_none, isSome_handshake?, hanswered]
    exact Bool.false_ne_true
  have hresolve :=
    Registry.resolve_unchecked henrolled.accepts henrolled.unchecked hsome
  rw [handle_decoded hhandshake, deviceOf?, hhandshake, decodeIdentified_registry, hresolve]
  exact ⟨rfl, rfl⟩

/-- **One frame**, whatever it leads to, is looked up and registered, or does nothing. -/
theorem Enrolled.handled (henrolled : Enrolled registry ids) (arrival : Arrival)
    (hdecimal : arrival.frame.id.IsDecimal) :
    Enrolled (handle settings registry arrival.link arrival.frame).value.registry
      (ids ++ lookedUp [arrival]) := by
  cases h : arrival.isLookedUp with
  | false =>
    have hnone : lookedUp [arrival] = [] := by simp [lookedUp, h]
    rw [(handle_not_lookedUp settings h).2.2, hnone, List.append_nil]
    exact henrolled
  | true =>
    have hone : lookedUp [arrival] = [arrival.frame.id] := by simp [lookedUp, h]
    rw [(handle_lookedUp settings h henrolled).2, hone]
    exact henrolled.register hdecimal

/-! ## A run -/

theorem decodeAll_arrivals (record : Bool) (registry : Registry) (arrivals : List Arrival) :
    (decodeAll settings record registry arrivals).1.map Decoding.arrival = arrivals := by
  induction arrivals generalizing registry with
  | nil => rfl
  | cons arrival later ih => rw [decodeAll, List.map_cons, ih]

/-- Every report of a run is about the device that its frame was looked up as. -/
theorem decodeAll_reports (record : Bool) (registry : Registry) (arrivals : List Arrival) :
    ∀ a ∈ (decodeAll settings record registry arrivals).1, ∀ report ∈ reportsOf a.outcome,
      a.device = some report.device := by
  induction arrivals generalizing registry with
  | nil => exact fun a ha => absurd ha List.not_mem_nil
  | cons arrival later ih =>
    refine List.forall_mem_cons.mpr ⟨fun report hreport => ?_, ih _⟩
    have hresolves := device_handle hreport
    show deviceOf? settings registry arrival = some report.device
    unfold deviceOf?
    cases hhandshake : handshake? settings arrival.link arrival.frame with
    | some answer =>
      simp only [handle_answered hhandshake] at hreport
      cases hreport
    | none => exact hresolves

/-- **A run** enrols the frames that are looked up, and each was told the number that its identifier
has at the end. -/
theorem decodeAll_enrolled (record : Bool) {arrivals : List Arrival}
    (hdecimal : ∀ arrival ∈ arrivals, arrival.frame.id.IsDecimal)
    (henrolled : Enrolled registry ids) :
    let run := decodeAll settings record registry arrivals
    Enrolled run.2 (ids ++ lookedUp arrivals) ∧
      ∀ a ∈ run.1, a.device =
        if a.arrival.isLookedUp then run.2.number? a.arrival.frame.id.text else none := by
  induction arrivals generalizing registry ids with
  | nil =>
    rw [lookedUp, List.filter_nil, List.map_nil, List.append_nil]
    exact ⟨henrolled, fun a ha => absurd ha List.not_mem_nil⟩
  | cons arrival later ih =>
    obtain ⟨hfirst, hlater⟩ := List.forall_mem_cons.mp hdecimal
    have hhandled := henrolled.handled settings arrival hfirst
    have hnext := hhandled.recordIf record
      (handle settings registry arrival.link arrival.frame).value.outcome
    obtain ⟨hrun, hdevices⟩ := ih hlater hnext
    have hids : ids ++ lookedUp (arrival :: later) =
        ids ++ lookedUp [arrival] ++ lookedUp later := by
      rw [List.append_assoc, lookedUp, lookedUp, lookedUp, ← List.map_append,
        ← List.filter_append, List.singleton_append]
    rw [hids]
    refine ⟨hrun, List.forall_mem_cons.mpr ⟨?_, hdevices⟩⟩
    cases h : arrival.isLookedUp with
    | false => exact (handle_not_lookedUp settings h).1
    | true =>
      obtain ⟨hdevice, hregistry⟩ := handle_lookedUp settings h henrolled
      have hnumber := Registry.number?_register registry arrival.frame.id.text
      rw [← hregistry] at hnumber
      exact hdevice.trans (hhandled.numbered.extend (by
        rw [← List.map_append]
        exact hrun.numbered) hnumber).symm

/-- **Enrolling never merges devices and never splits one.** Frames with decimal identifiers are
handled with a new registry that accepts unknown devices, on connections or without, recorded or
not. Two frames that are looked up have one device just when their identifiers agree before the
filler. The devices are numbered from one on, in the order in which they appear. No other frame has
a device, and reports are about the device of their frame. A frame whose first half byte is the
filler leads to nothing and leaves any registry as it is. -/
theorem devices_told_apart (record : Bool) (arrivals : List Arrival)
    (hdecimal : ∀ arrival ∈ arrivals, arrival.frame.id.IsDecimal) :
    let run := decodeAll settings record { acceptsUnknown := true } arrivals
    let firstSeen := ((lookedUp arrivals).map RawId.significant).eraseDups
    run.1.map Decoding.arrival = arrivals ∧
    (∀ a ∈ run.1, ∀ b ∈ run.1, a.arrival.isLookedUp = true → b.arrival.isLookedUp = true →
      (a.device = b.device ↔
        a.arrival.frame.id.significant = b.arrival.frame.id.significant)) ∧
    (∀ a ∈ run.1, a.arrival.isLookedUp = true → ∃ index,
      firstSeen[index]? = some a.arrival.frame.id.significant ∧ a.device = some (index + 1)) ∧
    run.2.issued = firstSeen.length ∧
    (∀ a ∈ run.1, a.arrival.isLookedUp = false → a.device = none) ∧
    (∀ a ∈ run.1, ∀ report ∈ reportsOf a.outcome, a.device = some report.device) ∧
    ∀ (registry : Registry) (arrival : Arrival),
      arrival.frame.id.nibbles.head? = some Identity.filler →
      let handled := (handle settings registry arrival.link arrival.frame).value
      handled.outcome = .ok .nothing ∧ handled.registry = registry := by
  intro run firstSeen
  obtain ⟨hrun, hdevices⟩ := decodeAll_enrolled settings record hdecimal Enrolled.new
  rw [List.nil_append] at hrun
  have harrivals := decodeAll_arrivals settings record { acceptsUnknown := true } arrivals
  have hmem : ∀ a ∈ run.1, a.arrival.isLookedUp = true →
      a.arrival.frame.id ∈ lookedUp arrivals := by
    intro a ha hlooked
    have harrival : a.arrival ∈ arrivals := harrivals ▸ List.mem_map_of_mem ha
    exact List.mem_map_of_mem (List.mem_filter.mpr ⟨harrival, hlooked⟩)
  have hnumber : ∀ a ∈ run.1, a.arrival.isLookedUp = true →
      a.device = run.2.number? a.arrival.frame.id.text := by
    intro a ha hlooked
    rw [hdevices a ha, if_pos hlooked]
  refine ⟨harrivals, ?_, ?_, ?_, ?_, decodeAll_reports settings record _ arrivals, ?_⟩
  · intro a ha b hb hlooked hlooked'
    have hida := hrun.decimal _ (hmem a ha hlooked)
    have hidb := hrun.decimal _ (hmem b hb hlooked')
    rw [hnumber a ha hlooked, hnumber b hb hlooked', ← RawId.text_eq_iff hida hidb]
    refine ⟨fun hsame => ?_, congrArg run.2.number?⟩
    obtain ⟨index, -, hknown⟩ := hrun.number_of_mem (hmem a ha hlooked)
    exact hrun.numbered.injective hknown (hsame ▸ hknown)
  · intro a ha hlooked
    obtain ⟨index, hindex, hknown⟩ := hrun.number_of_mem (hmem a ha hlooked)
    exact ⟨index, hindex, (hnumber a ha hlooked).trans hknown⟩
  · exact hrun.issued
  · intro a ha hlooked
    rw [hdevices a ha, hlooked]
    rfl
  · intro registry arrival hfiller
    have hlooked : arrival.isLookedUp = false := by
      rw [Arrival.isLookedUp, RawId.significant_of_filler hfiller, List.isEmpty_nil, Bool.not_true,
        Bool.and_false]
    exact (handle_not_lookedUp settings hlooked).2

/-- Two devices, the first with fourteen digits and so with a check digit of its own. It logs in on
a connection, fails, and comes back with a command that is not known; the other is seen twice, with
different bytes behind its filler. A frame that names no device comes last. -/
theorem told_apart_behind_filler :
    let id : RawId := ⟨[0x35, 0x98, 0x81, 0x23, 0x45, 0x67, 0x80], rfl⟩
    let other : RawId := ⟨[0x42, 0xF1, 0x23, 0x45, 0x67, 0x89, 0x01], rfl⟩
    let again : RawId := ⟨[0x42, 0xFF, 0xFF, 0xFF, 0xFF, 0xFF, 0xFF], rfl⟩
    let empty : RawId := ⟨[0xF1, 0x23, 0x45, 0x67, 0x89, 0x01, 0x23], rfl⟩
    let link : Link := ⟨⟨.v4 10 0 0 1, 5009, 0⟩, ⟨.v4 10 0 0 2, 40001, 0⟩, true, []⟩
    let arrivals : List Arrival :=
      [⟨some link, id, Command.login.code, []⟩, ⟨none, other, Command.position.code, []⟩,
        ⟨some link, id, Command.alarm.code, []⟩, ⟨none, again, Command.login.code, []⟩,
        ⟨some link, id, 0x1234, []⟩, ⟨none, empty, Command.position.code, []⟩]
    let run := decodeAll {} true { acceptsUnknown := true } arrivals
    (∀ arrival ∈ arrivals, arrival.frame.id.IsDecimal) ∧
    other.significant = again.significant ∧
    run.1.map Decoding.device = [none, some 1, some 2, some 1, some 2, none] ∧
    run.2.issued = 2 ∧
    ∀ a ∈ run.1, ∀ b ∈ run.1, a.arrival.isLookedUp = true → b.arrival.isLookedUp = true →
      (a.device = b.device ↔
        a.arrival.frame.id.significant = b.arrival.frame.id.significant) := by
  intro id other again empty link arrivals run
  have hdecimal : ∀ arrival ∈ arrivals, arrival.frame.id.IsDecimal := by decide +kernel
  obtain ⟨-, hapart, -⟩ := devices_told_apart {} true arrivals hdecimal
  exact ⟨hdecimal, by decide +kernel, by decide +kernel, by decide +kernel, hapart⟩

end Frames

end Decoder

end TrackerWire
