import TrackerWire.Proofs.Decoder.Batch
import TrackerWire.Proofs.Sentence.Fill

/-!
# What a frame reads and leaves

A frame's reports come from the payload of the device it resolves to (`reports_handle`), each from
a sentence of it (`decoded_decodePayload`), and all of them are about that device
(`device_handle`). Of the last fixes, a payload's decoding reads that of its device only
(`decodePayload_congr`). What a frame leaves is the registry, or the registry after the lookup
(`handle_registry`), with the last fixes as they were (`handle_fixes`).

The report of a frame that carries readings of an engine is the device's last fix with readings
added (`engine_decodePayload`).
-/
namespace TrackerWire

/-! ## Sentences -/

namespace SentenceKind

/-- The sentences of an engine. -/
def isEngine : SentenceKind → Bool
  | obdRealtime | obdAggregate => true
  | _ => false

variable {kind : SentenceKind} {report decoded : Report} {sentence : String}

theorem decode_engine (hkind : kind.isEngine = true)
    (h : kind.decode report sentence = some decoded) :
    ∃ attributes odometer, decoded = { report with attributes, odometer } := by
  obtain ⟨captures, -, hfill⟩ := Option.bind_eq_some_iff.mp h
  cases kind with
  | obdRealtime =>
    cases hfill
    exact Sentence.fillEngine_keeps captures 0 Sentence.realtimeFields report
  | obdAggregate =>
    cases hfill
    exact Sentence.fillEngine_keeps captures 0 Sentence.aggregateFields report
  | _ => cases hkind

theorem decode_device (h : kind.decode report sentence = some decoded) :
    decoded.device = report.device := by
  cases hkind : kind.isEngine with
  | true =>
    obtain ⟨attributes, odometer, rfl⟩ := decode_engine hkind h
    rfl
  | false =>
    obtain ⟨captures, -, hfill⟩ := Option.bind_eq_some_iff.mp h
    cases kind with
    | regular =>
      obtain ⟨-, hdevice, -⟩ := (Sentence.fillRegular_fills hfill).others
      exact hdevice
    | rfid =>
      rw [(Sentence.fillRfid_fills hfill).others]
    | _ => cases hkind

end SentenceKind

/-! ## The registry -/

namespace Registry

variable (registry : Registry) (candidates : List String)

theorem register_fixes (identifier : String) : (registry.register identifier).2.fixes =
    registry.fixes := by
  unfold register
  split <;> rfl

theorem resolve_fixes : (registry.resolve candidates).value.2.fixes = registry.fixes := by
  unfold resolve
  split
  · rfl
  · unfold enrol
    split
    · exact register_fixes registry _
    · rfl

/-- A lookup does not look at the last fixes. -/
theorem resolve_other_fixes (fixes : Table DeviceId Fix) :
    (({ registry with fixes } : Registry).resolve candidates).value =
      ((registry.resolve candidates).value.1,
        { (registry.resolve candidates).value.2 with fixes }) := by
  obtain ⟨acceptsUnknown, ids, issued, earlier⟩ := registry
  unfold resolve
  simp only [lookup]
  cases candidates.findSome? ids.get? with
  | some device => rfl
  | none =>
    cases acceptsUnknown with
    | false => rfl
    | true =>
      cases candidates with
      | nil => rfl
      | cons identifier others =>
        simp only [enrol, register]
        cases ids.get? identifier <;> rfl

theorem resolve_record (report : Report) :
    ((registry.record report).resolve candidates).value =
      ((registry.resolve candidates).value.1,
        (registry.resolve candidates).value.2.record report) := by
  unfold record
  split
  · rfl
  · cases report.fix? with
    | none => rfl
    | some fix => simp only [resolve_other_fixes, resolve_fixes]

/-- Reports may as well be recorded before a lookup as after it. -/
theorem resolve_recordAll (reports : List Report) :
    ((registry.recordAll reports).resolve candidates).value.2 =
      (registry.resolve candidates).value.2.recordAll reports := by
  induction reports generalizing registry with
  | nil => rfl
  | cons report reports ih =>
    show (((registry.record report).recordAll reports).resolve candidates).value.2 = _
    rw [ih, resolve_record]
    rfl

theorem resolve_lastFix : (registry.resolve candidates).value.2.lastFix = registry.lastFix := by
  funext device
  simp only [lastFix, resolve_fixes]

end Registry

namespace Decoder

/-! ## Payloads -/

section Payloads

variable {lastFix lastFix' : DeviceId → Option Fix} {device : DeviceId} {command : Command}
  {kind : SentenceKind} {report decoded : Report} {payload : Bytes}

theorem mem_reports_decodeSentence :
    decoded ∈ reportsOf (decodeSentence command kind report payload).value ↔
      kind.decode report (Ascii.text payload) = some decoded := by
  rw [value_decodeSentence, reportsOf, reports_ofOption, Option.mem_toList]

theorem addAlarm_device (code : UInt8) (report : Report) :
    (addAlarm code report).device = report.device := by
  unfold addAlarm
  dsimp only
  split <;> rfl

theorem addCards_device (slot : Nat) (cards : List Nat) (report : Report) :
    (addCards slot cards report).device = report.device := by
  induction cards generalizing slot report with
  | nil => rfl
  | cons card cards ih =>
    simp only [addCards, ih]
    split <;> rfl

theorem seed_device (report : Report) (fix : Option Fix) :
    (report.seed fix).device = report.device := by
  cases fix <;> rfl

/-- The report of each record is a regular sentence, read into a report that says nothing yet. -/
theorem decoded_decodeRecords {index count : Nat} {reports : List Report}
    (h : (decodeRecords device index count payload).value = .ok reports) :
    ∀ r ∈ reports, ∃ sentence, SentenceKind.regular.decode (.blank device) sentence = some r := by
  induction count generalizing index payload reports with
  | zero =>
    cases h
    exact fun r hr => absurd hr List.not_mem_nil
  | succ count ih =>
    cases payload with
    | nil => cases h
    | cons alarm payload =>
      rw [decodeRecords_cons] at h
      cases hothers : (decodeRecords device (index + 1) count
          ((payload.dropWhile (· ≠ recordDelimiter)).drop 1)).value with
      | error error => rw [hothers] at h; cases h
      | ok others =>
        rw [hothers] at h
        simp only [Except.map, Except.ok.injEq] at h
        subst h
        intro r hr
        rcases List.mem_append.mp hr with hr | hr
        · exact ⟨_, Option.mem_toList.mp hr⟩
        · exact ih hothers r hr

/-- The reports that sentences are read into: what a payload says in front of its sentence, or
where the device was last. -/
inductive Starts (lastFix : DeviceId → Option Fix) (device : DeviceId) :
    SentenceKind → Report → Prop
  | blank : Starts lastFix device .regular (.blank device)
  | alarm (code : UInt8) : Starts lastFix device .regular (addAlarm code (.blank device))
  | cards (cards : List Nat) : Starts lastFix device .rfid (addCards 1 cards (.blank device))
  | seeded {kind : SentenceKind} (h : kind.isEngine = true) :
    Starts lastFix device kind ((Report.blank device).seed (lastFix device))

/-- **Every report of a payload is a sentence read into one of these.** -/
theorem decoded_decodePayload
    (h : decoded ∈ reportsOf (decodePayload lastFix device command payload).value) :
    ∃ kind start sentence, Starts lastFix device kind start ∧
      kind.decode start sentence = some decoded := by
  cases command with
  | position => exact ⟨_, _, _, .blank, mem_reports_decodeSentence.mp h⟩
  | positionLogged =>
    simp only [decodePayload] at h
    split at h
    · cases h
    · exact ⟨_, _, _, .blank, mem_reports_decodeSentence.mp h⟩
  | alarm =>
    cases payload with
    | nil => cases h
    | cons code payload => exact ⟨_, _, _, .alarm code, mem_reports_decodeSentence.mp h⟩
  | rfid =>
    simp only [decodePayload] at h
    split at h
    · cases h
    · exact ⟨_, _, _, .cards _, mem_reports_decodeSentence.mp h⟩
  | obdRealtime | obdAggregate =>
    exact ⟨_, _, _, .seeded rfl, mem_reports_decodeSentence.mp h⟩
  | retransmission =>
    cases payload with
    | nil => cases h
    | cons count payload =>
      simp only [decodePayload, Logged.value_bind, Logged.value_pure] at h
      cases hread : (decodeRecords device 0 count.toNat payload).value with
      | error error => rw [hread] at h; cases h
      | ok reports =>
        rw [hread] at h
        obtain ⟨sentence, hdecoded⟩ := decoded_decodeRecords hread decoded h
        exact ⟨_, _, sentence, .blank, hdecoded⟩
  | heartbeat | serverQuery | login | loginResponse => cases h

/-- **Every report of a payload is about its device.** -/
theorem device_decodePayload
    (h : decoded ∈ reportsOf (decodePayload lastFix device command payload).value) :
    decoded.device = device := by
  obtain ⟨kind, start, sentence, hstart, hdecoded⟩ := decoded_decodePayload h
  rw [SentenceKind.decode_device hdecoded]
  cases hstart with
  | blank => rfl
  | alarm code => exact addAlarm_device code _
  | cards cards => exact addCards_device 1 cards _
  | seeded => exact seed_device _ _

/-- Of the last fixes, a payload's decoding reads that of its device. -/
theorem decodePayload_congr (h : lastFix device = lastFix' device) :
    decodePayload lastFix device command payload =
      decodePayload lastFix' device command payload := by
  cases command <;> simp only [decodePayload, h]

/-- The commands that carry readings of an engine. -/
def isEngine : Command → Bool
  | .obdRealtime | .obdAggregate => true
  | _ => false

/-- An engine's report is the last fix of its device with readings added. -/
theorem engine_decodePayload (hengine : isEngine command = true)
    (h : decoded ∈ reportsOf (decodePayload lastFix device command payload).value) :
    ∃ attributes odometer, decoded =
      { (Report.blank device).seed (lastFix device) with attributes, odometer } := by
  cases command with
  | obdRealtime | obdAggregate =>
    exact SentenceKind.decode_engine rfl (mem_reports_decodeSentence.mp h)
  | _ => cases hengine

end Payloads

/-! ## Frames -/

section Frames

variable {settings : Settings} {registry : Registry} {link : Option Link} {frame : Frame}

theorem decodeIdentified_registry : (decodeIdentified registry frame).value.2 =
    (registry.resolve (Identity.ofRaw frame.id).candidates).value.2 := by
  cases hdevice : (registry.resolve (Identity.ofRaw frame.id).candidates).value.1 with
  | none => rw [decodeIdentified_unresolved frame hdevice]
  | some device => rw [decodeIdentified_resolved frame hdevice]

variable (settings registry link frame) in
/-- A frame leaves the registry as it is, or as its lookup leaves it. -/
theorem handle_registry : (handle settings registry link frame).value.registry = registry ∨
    (handle settings registry link frame).value.registry =
      (registry.resolve (Identity.ofRaw frame.id).candidates).value.2 := by
  cases h : handshake? settings link frame with
  | some answer => exact .inl (by rw [handle_answered h])
  | none => exact .inr (by rw [handle_decoded h, decodeIdentified_registry])

theorem handle_fixes : (handle settings registry link frame).value.registry.fixes =
    registry.fixes := by
  rcases handle_registry settings registry link frame with h | h
  · rw [h]
  · rw [h, Registry.resolve_fixes]

/-- **Where reports come from.** A frame with a report is resolved to a device and carries a known
command, and its payload has that report. -/
theorem reports_handle {report : Report}
    (h : report ∈ reportsOf (handle settings registry link frame).value.outcome) :
    ∃ device command, registry.Resolves frame.id device ∧ frame.command? = some command ∧
      report ∈ reportsOf (decodePayload registry.lastFix device command frame.payload).value := by
  cases hanswer : handshake? settings link frame with
  | some answer => rw [handle_answered hanswer] at h; cases h
  | none =>
    rw [handle_decoded hanswer] at h
    cases hdevice : (registry.resolve (Identity.ofRaw frame.id).candidates).value.1 with
    | none =>
      rw [decodeIdentified_unresolved frame hdevice] at h
      cases h
    | some device =>
      rw [decodeIdentified_resolved frame hdevice] at h
      cases hcommand : frame.command? with
      | none => simp only [decodeFrame, hcommand] at h; cases h
      | some command =>
        simp only [decodeFrame, hcommand, Registry.resolve_lastFix] at h
        exact ⟨device, command, hdevice, rfl, h⟩

/-- **Every report of a frame is about the device that the frame resolves to.** -/
theorem device_handle {report : Report}
    (h : report ∈ reportsOf (handle settings registry link frame).value.outcome) :
    registry.Resolves frame.id report.device := by
  obtain ⟨device, command, hresolves, -, hreport⟩ := reports_handle h
  rw [device_decodePayload hreport]
  exact hresolves

end Frames

end Decoder

end TrackerWire
