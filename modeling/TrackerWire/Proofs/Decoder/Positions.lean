import TrackerWire.Proofs.Decoder.Handle
import TrackerWire.Proofs.Sentence.Times

/-!
# One sentence under three commands

A position is a sentence. A logged position has a time of six bytes in front of it, an alarm a code
of one byte. The sentence is read the same under all three: the time is left unread, and the code
adds to the report what it signals (`decode_addAlarm`).

`positions_agree`: for one device in one registry, the three lead to the same reports.
-/
namespace TrackerWire

/-- What an alarm code adds to a report that says nothing yet: its classification, and the input
that it tells of as the only one. -/
theorem Decoder.addAlarm_blank (code : UInt8) (device : DeviceId) :
    addAlarm code (.blank device) =
      { Report.blank device with
        alarm := Alarm.ofCode? code, inputs := ⟨(inputChange? code).toList⟩ } := by
  unfold addAlarm
  cases inputChange? code <;> rfl

namespace Decoder

section Commands

variable (settings : Settings) (link : Option Link) {registry found : Registry} {id : RawId}
  {device : DeviceId} {command : Command}

theorem handle_unresolved (hdecoded : isHandshake command = false)
    (hnone : (registry.resolve (Identity.ofRaw id).candidates).value = (none, found))
    (payload : Bytes) : (handle settings registry link ⟨id, command.code, payload⟩).value =
      { outcome := .ok .nothing, registry := found, link } := by
  have hdevice : (registry.resolve (Identity.ofRaw id).candidates).value.1 = none := by rw [hnone]
  rw [handle_decoded (handshake?_command hdecoded payload),
    decodeIdentified_unresolved ⟨id, command.code, payload⟩ hdevice]
  simp only [hnone]

theorem handle_resolved (hdecoded : isHandshake command = false)
    (hsome : (registry.resolve (Identity.ofRaw id).candidates).value = (some device, found))
    (payload : Bytes) : (handle settings registry link ⟨id, command.code, payload⟩).value =
      { outcome := (decodePayload found.lastFix device command payload).value
        registry := found
        link } := by
  have hdevice : registry.Resolves id device := by rw [Registry.Resolves, hsome]
  rw [handle_decoded (handshake?_command hdecoded payload),
    decodeIdentified_resolved ⟨id, command.code, payload⟩ hdevice]
  simp only [hsome, decodeFrame, Frame.command?, Command.ofCode?_code]

end Commands

section Payloads

variable (lastFix : DeviceId → Option Fix) (device : DeviceId) (sentence : Bytes)

/-- The report of a sentence, if it gives one. -/
def sentenceReport : Option Report :=
  SentenceKind.regular.decode (.blank device) (Ascii.text sentence)

theorem decodePayload_position : (decodePayload lastFix device .position sentence).value =
    .ok (.ofOption (sentenceReport device sentence)) :=
  value_decodeSentence ..

/-- The time of a logged position is left unread. -/
theorem decodePayload_positionLogged {time : Bytes} (htime : time.length = 6) :
    (decodePayload lastFix device .positionLogged (time ++ sentence)).value =
      .ok (.ofOption (sentenceReport device sentence)) := by
  have hsize : timestampSize = time.length := htime.symm
  have hlong : ¬ (time ++ sentence).length < timestampSize := by
    rw [hsize, List.length_append]
    omega
  simp only [decodePayload, if_neg hlong, value_decodeSentence]
  rw [hsize, List.drop_left]
  rfl

/-- A sentence behind an alarm code is read as without it, and what the code says stays. -/
theorem decode_addAlarm (code : UInt8) :
    SentenceKind.regular.decode (addAlarm code (.blank device)) (Ascii.text sentence) =
      (sentenceReport device sentence).map fun report =>
        { report with
          alarm := Alarm.ofCode? code, inputs := ⟨(inputChange? code).toList⟩ } := by
  rw [addAlarm_blank, sentenceReport, SentenceKind.decode, SentenceKind.decode, Option.map_bind]
  refine Option.bind_congr fun captures _ => ?_
  exact Sentence.fillRegular_signalled captures _ _ _

theorem decodePayload_alarm (code : UInt8) :
    (decodePayload lastFix device .alarm (code :: sentence)).value =
      .ok (.ofOption ((sentenceReport device sentence).map fun report =>
        { report with
          alarm := Alarm.ofCode? code, inputs := ⟨(inputChange? code).toList⟩ })) := by
  rw [← decode_addAlarm]
  exact value_decodeSentence ..

end Payloads

/-- **A sentence gives the same position under the three commands.** Whatever the registry, the
device and the sentence are, a logged position leads to what the position leads to, and an alarm to
a report just when the position does: the same report but for its alarm, which is the classification
of the code, and its inputs, which hold the change that the code signals and no other. None of them
fails, and all leave the same registry and connection. -/
theorem positions_agree (settings : Settings) (registry : Registry) (link : Option Link)
    (id : RawId) (sentence time : Bytes) (htime : time.length = 6) (code : UInt8) :
    let position := (handle settings registry link ⟨id, Command.position.code, sentence⟩).value
    let logged :=
      (handle settings registry link ⟨id, Command.positionLogged.code, time ++ sentence⟩).value
    let alarm := (handle settings registry link ⟨id, Command.alarm.code, code :: sentence⟩).value
    logged = position ∧ alarm.registry = position.registry ∧ alarm.link = position.link ∧
      (position.outcome = .ok .nothing ∧ alarm.outcome = .ok .nothing ∨
        ∃ report, position.outcome = .ok (.report report) ∧
          alarm.outcome = .ok (.report { report with
            alarm := Alarm.ofCode? code, inputs := ⟨(inputChange? code).toList⟩ })) := by
  intro position logged alarm
  rcases hfound : (registry.resolve (Identity.ofRaw id).candidates).value with
    ⟨_ | device, found⟩
  · have hposition : position = _ := handle_unresolved settings link rfl hfound sentence
    have hlogged : logged = _ := handle_unresolved settings link rfl hfound (time ++ sentence)
    have halarm : alarm = _ := handle_unresolved settings link rfl hfound (code :: sentence)
    rw [hposition, hlogged, halarm]
    exact ⟨rfl, rfl, rfl, .inl ⟨rfl, rfl⟩⟩
  · have hposition : position = _ := handle_resolved settings link rfl hfound sentence
    have hlogged : logged = _ := handle_resolved settings link rfl hfound (time ++ sentence)
    have halarm : alarm = _ := handle_resolved settings link rfl hfound (code :: sentence)
    rw [hposition, hlogged, halarm, decodePayload_position,
      decodePayload_positionLogged _ _ _ htime, decodePayload_alarm]
    cases sentenceReport device sentence with
    | none => exact ⟨rfl, rfl, rfl, .inl ⟨rfl, rfl⟩⟩
    | some report => exact ⟨rfl, rfl, rfl, .inr ⟨report, rfl, rfl⟩⟩

/-- The input that an alarm switches off, behind the sentence of a position. -/
theorem positions_agree_on_input :
    let id : RawId := ⟨[0x13, 0x61, 0x23, 0x45, 0x67, 0x8F, 0xFF], rfl⟩
    let registry := (Registry.register {} "13612345678").2
    let place : Sentence.PlaceText := ⟨⟨Ascii.utf8 "1234.5678", by decide⟩, false,
      ⟨Ascii.utf8 "09876.5432", by decide⟩, false⟩
    let header : Sentence.HeaderText :=
      { hour := 12, minute := 34, second := 56, point := false, fraction := ⟨[], by decide⟩
        valid := true, place, speed := none, course := none, day := 1, month := 1, year := 22 }
    let time : Bytes := [0x16, 0x01, 0x01, 0x0C, 0x22, 0x38]
    let outcome := fun (command : Command) (payload : Bytes) =>
      (handle {} registry none ⟨id, command.code, payload⟩).value.outcome
    Ascii.text header.bytes = "123456,A,1234.5678,N,09876.5432,E,,,010122" ∧ time.length = 6 ∧
      ∃ report, outcome .position header.bytes = .ok (.report report) ∧
        outcome .positionLogged (time ++ header.bytes) = .ok (.report report) ∧
        outcome .alarm (0x33 :: header.bytes) =
          .ok (.report { report with alarm := none, inputs := ⟨[(3, false)]⟩ }) := by
  intro id registry place header time outcome
  have hresolves : registry.Resolves id 1 := by decide +kernel
  have hreal : header.stamp.IsReal := ⟨by decide, by decide, by decide, by decide, by decide⟩
  have hcarries : Sentence.Carries .regular (Ascii.text header.bytes) header.stamp := by
    have hcarries := Sentence.Carries.regular header (show Sentence.IsTail "" by decide)
    rw [String.append_empty] at hcarries
    exact hcarries
  have hposition : outcome .position header.bytes =
      .ok (.ofOption (sentenceReport 1 header.bytes)) :=
    (outcome_resolved hresolves rfl _).trans (decodePayload_position _ _ _)
  obtain ⟨report, hreport⟩ :=
    Option.isSome_iff_exists.mp ((hcarries.isSome_decode (.blank 1)).mpr hreal)
  rw [sentenceReport, hreport] at hposition
  obtain ⟨hlogged, -, -, hagree⟩ :=
    positions_agree {} registry none id header.bytes time rfl 0x33
  refine ⟨by decide +kernel, rfl, report, hposition, ?_, ?_⟩
  · exact (congrArg Handled.outcome hlogged).trans hposition
  · rcases hagree with ⟨hnothing, -⟩ | ⟨same, hsame, halarm⟩
    · cases hposition.symm.trans hnothing
    · cases hposition.symm.trans hsame
      exact halarm

end Decoder

end TrackerWire
