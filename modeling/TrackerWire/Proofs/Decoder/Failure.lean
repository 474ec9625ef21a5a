import TrackerWire.Proofs.Decoder.Reports
import TrackerWire.Proofs.Session.Live

/-!
# When decoding fails

`Short` lists the payloads that end within a part of fixed width, with the error that tells of it.
No sentence is among them: whatever a sentence holds, it gives a report or none.

* `BatchRecord.exists_layout`: all bytes are records, joined and perhaps ended by delimiters, so a
  batch is short just when it counts more of them than there are;
* `decodePayload_error_iff`: a payload fails just when it is short;
* `outcome_error_iff`: a frame fails just when it is decoded, its device resolves and its payload
  is short;
* `handle_registry_eq`: failed or not, it leaves the registry that its lookup leaves;
* `handle_unlinked`: a connection only matters to handshakes.
-/
namespace TrackerWire

namespace BatchRecord

theorem layout_one (closed : Bool) (record : BatchRecord) : layout closed [record] =
    record.bytes ++ if closed then [Decoder.recordDelimiter] else [] := by
  simp [layout]

theorem layout_next (closed : Bool) (record next : BatchRecord) (others : List BatchRecord) :
    layout closed (record :: next :: others) =
      record.bytes ++ Decoder.recordDelimiter :: layout closed (next :: others) := by
  simp [layout, List.intercalate_cons_cons]

/-- **All bytes are a batch.** -/
theorem exists_layout (payload : Bytes) :
    ∃ closed records, payload = layout closed records := by
  match payload with
  | [] => exact ⟨false, [], rfl⟩
  | alarm :: rest =>
    let plain : UInt8 → Bool := (· ≠ Decoder.recordDelimiter)
    let record : BatchRecord := ⟨alarm, rest.takeWhile plain, fun h => by
      simpa [plain] using List.all_eq_true.mp List.all_takeWhile _ h⟩
    have hrest : alarm :: rest = record.bytes ++ rest.dropWhile plain :=
      congrArg (alarm :: ·) List.takeWhile_append_dropWhile.symm
    rw [hrest]
    cases hbehind : rest.dropWhile plain with
    | nil => exact ⟨false, [record], by rw [layout_one]; rfl⟩
    | cons delimiter others =>
      have hdelimiter : delimiter = Decoder.recordDelimiter := by
        have hhead := List.head?_dropWhile_not plain rest
        rw [hbehind] at hhead
        simpa [plain] using hhead
      have hshorter : others.length < rest.length + 1 := by
        have hlength := (List.dropWhile_suffix plain (l := rest)).length_le
        rw [hbehind, List.length_cons] at hlength
        omega
      obtain ⟨closed, records, hothers⟩ := exists_layout others
      rw [hdelimiter, hothers]
      cases records with
      | nil => exact ⟨true, [record], by rw [layout_one]; cases closed <;> rfl⟩
      | cons next records => exact ⟨closed, record :: next :: records, by rw [layout_next]⟩
termination_by payload.length

end BatchRecord

namespace Decoder

/-- The payload of a command ends within a part of fixed width: the code of an alarm, the time of a
logged position, the cards of a swipe, the count of a batch, or the alarm code that a record counted
begins with. -/
inductive Short : Command → Bytes → DecodeError → Prop
  | alarmCode : Short .alarm [] (.truncated .alarmCode 1 0)
  | loggedTimestamp {payload : Bytes} (h : payload.length < 6) :
    Short .positionLogged payload (.truncated .loggedTimestamp 6 payload.length)
  | cardBlock {payload : Bytes} (h : payload.length < 60) :
    Short .rfid payload (.truncated .cardBlock 60 payload.length)
  | recordCount : Short .retransmission [] (.truncated .recordCount 1 0)
  | recordAlarm {count : UInt8} {records : List BatchRecord} (closed : Bool)
    (h : records.length < count.toNat) :
    Short .retransmission (count :: BatchRecord.layout closed records)
      (.truncated .recordAlarm 1 0)

section Payloads

variable {lastFix : DeviceId → Option Fix} {device : DeviceId} {command : Command}
  {payload : Bytes} {error : DecodeError}

theorem decodeSentence_ne_error {kind : SentenceKind} {report : Report} :
    (decodeSentence command kind report payload).value ≠ .error error := by
  rw [value_decodeSentence]
  exact nofun

/-- A batch is read to its end, unless it counts more records than there are. -/
theorem retransmission_value (count : UInt8) (closed : Bool) (records : List BatchRecord) :
    (decodePayload lastFix device .retransmission
        (count :: BatchRecord.layout closed records)).value =
      if count.toNat ≤ records.length then
        .ok (.batch ((records.take count.toNat).flatMap fun r => (recordReport device r).toList))
      else .error (.truncated .recordAlarm 1 0) := by
  simp only [decodePayload, Logged.value_bind, Logged.value_pure, decodeRecords_layout]
  split <;> rfl

/-- **A payload fails just when it is short.** -/
theorem decodePayload_error_iff :
    (decodePayload lastFix device command payload).value = .error error ↔
      Short command payload error := by
  refine ⟨fun h => ?_, fun h => ?_⟩
  · cases command with
    | position | obdRealtime | obdAggregate => exact absurd h decodeSentence_ne_error
    | positionLogged =>
      simp only [decodePayload] at h
      split at h
      · cases h
        exact .loggedTimestamp ‹_›
      · exact absurd h decodeSentence_ne_error
    | alarm =>
      cases payload with
      | nil =>
        cases h
        exact .alarmCode
      | cons code sentence => exact absurd h decodeSentence_ne_error
    | rfid =>
      simp only [decodePayload] at h
      split at h
      · cases h
        exact .cardBlock ‹_›
      · exact absurd h decodeSentence_ne_error
    | retransmission =>
      cases payload with
      | nil =>
        cases h
        exact .recordCount
      | cons count rest =>
        obtain ⟨closed, records, rfl⟩ := BatchRecord.exists_layout rest
        rw [retransmission_value] at h
        split at h
        · cases h
        · cases h
          exact .recordAlarm closed (Nat.lt_of_not_le ‹_›)
    | heartbeat | serverQuery | login | loginResponse => cases h
  · cases h with
    | alarmCode | recordCount => rfl
    | loggedTimestamp h =>
      have hshort : payload.length < timestampSize := h
      simp only [decodePayload, if_pos hshort]
      rfl
    | cardBlock h =>
      have hshort : payload.length < cardSlots * 4 := h
      simp only [decodePayload, if_pos hshort]
      rfl
    | recordAlarm closed h => rw [retransmission_value, if_neg (Nat.not_le_of_lt h)]

end Payloads

section Frames

variable {settings : Settings} {registry : Registry} {link : Option Link} {frame : Frame}
  {error : DecodeError}

/-- Looking a frame up and decoding it fails just when its device resolves and its payload is
short. -/
theorem decodeIdentified_error_iff :
    (decodeIdentified registry frame).value.1 = .error error ↔
      (∃ device, registry.Resolves frame.id device) ∧
        ∃ command, frame.command? = some command ∧ Short command frame.payload error := by
  cases hdevice : (registry.resolve (Identity.ofRaw frame.id).candidates).value.1 with
  | none =>
    rw [decodeIdentified_unresolved frame hdevice]
    refine iff_of_false (by simp) ?_
    rintro ⟨⟨device, hresolves⟩, -⟩
    rw [Registry.Resolves, hdevice] at hresolves
    cases hresolves
  | some device =>
    have hresolves : registry.Resolves frame.id device := hdevice
    rw [decodeIdentified_resolved frame hresolves, and_iff_right ⟨device, hresolves⟩]
    cases hcommand : frame.command? with
    | none => simp [decodeFrame, hcommand]
    | some command =>
      simp only [decodeFrame, hcommand, Option.some.injEq, exists_eq_left']
      exact decodePayload_error_iff

/-- A frame that is answered does not fail; any other fails as its device and its payload say. -/
theorem outcome_error_iff : (handle settings registry link frame).value.outcome = .error error ↔
    (link.isSome && frame.isHandshake) = false ∧ (Identity.ofRaw frame.id).isEmpty = false ∧
      (∃ device, registry.Resolves frame.id device) ∧
      ∃ command, frame.command? = some command ∧ Short command frame.payload error := by
  rw [← isSome_handshake? settings]
  cases hhandshake : handshake? settings link frame with
  | some answer =>
    rw [handle_answered hhandshake]
    exact iff_of_false nofun nofun
  | none =>
    rw [handle_decoded hhandshake, decodeIdentified_error_iff]
    refine ⟨fun ⟨⟨device, hresolves⟩, hshort⟩ => ?_, fun ⟨_, _, h⟩ => h⟩
    have hempty : (Identity.ofRaw frame.id).isEmpty = false := Bool.eq_false_iff.mpr fun h =>
      hresolves.candidates_ne_nil (Identity.candidates_of_isEmpty h)
    exact ⟨rfl, hempty, ⟨device, hresolves⟩, hshort⟩

/-- The registry is the one that the lookup leaves, if there is one. -/
theorem handle_registry_eq : (handle settings registry link frame).value.registry =
    if link.isSome && frame.isHandshake || (Identity.ofRaw frame.id).isEmpty then registry
    else (registry.resolve (Identity.ofRaw frame.id).candidates).value.2 := by
  rw [← isSome_handshake? settings]
  cases hhandshake : handshake? settings link frame with
  | some answer =>
    rw [handle_answered hhandshake]
    rfl
  | none =>
    rw [handle_decoded hhandshake, decodeIdentified_registry, Option.isSome_none, Bool.false_or]
    split
    · rw [Identity.candidates_of_isEmpty ‹_›, Registry.resolve_nil]
    · rfl

/-- Handshakes apart, a connection makes no difference. -/
theorem handle_unlinked (h : frame.isHandshake = false) :
    (handle settings registry link frame).value =
      { (handle settings registry none frame).value with link } := by
  have hdecoded : ∀ link, handshake? settings link frame = none := fun link => by
    rw [← Option.not_isSome_iff_eq_none, isSome_handshake?, h, Bool.and_false]
    exact Bool.false_ne_true
  rw [handle_decoded (hdecoded link), handle_decoded (hdecoded none)]

/-- **Decoding fails only where a part of fixed width is short.** A frame has an error just when it
is not a handshake on a connection, it names a device that resolves, and its payload is short for
its command; the error tells of the part that is short. Whatever comes of it, the registry
afterwards is the one that looking its candidates up leaves, or the same as before for a handshake
answered and for a frame that names no device, and the last fixes are untouched. For every frame
but the handshakes a connection makes no difference, and nothing is sent on it. -/
theorem error_iff_short (settings : Settings) (registry : Registry) (link : Option Link)
    (frame : Frame) :
    let handled := (handle settings registry link frame).value
    let identity := Identity.ofRaw frame.id
    let answered := link.isSome && frame.isHandshake
    (∀ error, handled.outcome = .error error ↔
      answered = false ∧ identity.isEmpty = false ∧
        (∃ device, registry.Resolves frame.id device) ∧
        ∃ command, frame.command? = some command ∧ Short command frame.payload error) ∧
    handled.registry = (if answered || identity.isEmpty then registry
      else (registry.resolve identity.candidates).value.2) ∧
    handled.registry.fixes = registry.fixes ∧
    (frame.isHandshake = false →
      let alone := (handle settings registry none frame).value
      handled.outcome = alone.outcome ∧ handled.registry = alone.registry ∧
        handled.link = link) := by
  intro handled identity answered
  refine ⟨fun _ => outcome_error_iff, handle_registry_eq, handle_fixes, fun hdecoded => ?_⟩
  intro alone
  have hunlinked : handled = { alone with link } := handle_unlinked hdecoded
  rw [hunlinked]
  exact ⟨rfl, rfl, rfl⟩

/-- A batch of a device that is enrolled by it, on a connection: it counts a record more than it
holds, and fails at the missing alarm code without a reply. -/
theorem error_of_short_batch :
    let id : RawId := ⟨[0x13, 0x61, 0x23, 0x45, 0x67, 0x8F, 0xFF], rfl⟩
    let registry : Registry := { acceptsUnknown := true }
    let link : Link := ⟨⟨.v4 10 0 0 1, 5009, 0⟩, ⟨.v4 10 0 0 2, 40001, 0⟩, true, []⟩
    let records : List BatchRecord := [⟨0x5C, [0x41], by decide⟩, ⟨0x01, [], by decide⟩]
    let frame : Frame := ⟨id, Command.retransmission.code, 3 :: BatchRecord.layout true records⟩
    let handled := (handle {} registry (some link) frame).value
    frame.isHandshake = false ∧
    handled.outcome = .error (.truncated .recordAlarm 1 0) ∧
    handled.registry.ids.get? "13612345678" = some 1 ∧
    handled.outcome = (handle {} registry none frame).value.outcome ∧
    handled.link = some link := by
  intro id registry link records frame handled
  have hdecoded : frame.isHandshake = false := by decide
  obtain ⟨hfails, hregistry, -, hsame⟩ := error_iff_short {} registry (some link) frame
  obtain ⟨houtcome, -, hlink⟩ := hsame hdecoded
  have hshort : Short .retransmission frame.payload (.truncated .recordAlarm 1 0) :=
    .recordAlarm true (by decide)
  refine ⟨hdecoded, ?_, ?_, houtcome, hlink⟩
  · exact (hfails _).mpr ⟨by decide, by decide +kernel, ⟨1, by decide +kernel⟩,
      .retransmission, by decide, hshort⟩
  · rw [hregistry]
    decide +kernel

end Frames

end Decoder

end TrackerWire
