import TrackerWire.Proofs.Decoder.Handle

/-!
# A batch is its records

A batch is a count and then records, joined by one delimiter and perhaps ended by one. `layout`
writes the records down. The byte behind a delimiter is an alarm code whatever it is, the delimiter
included, so only the sentences must not hold it; `BatchRecord` asks just that.

* `decodeRecords_layout`: the records counted are read one by one, each as its own sentence, and a
  count beyond the records fails where the next alarm code should be.
* `retransmission_eq_positions`: a device's batch gives what its sentences give when each is sent
  as a position of its own.
-/
namespace TrackerWire

/-- A record of a batch. -/
structure BatchRecord where
  alarm : UInt8
  sentence : Bytes
  plain : Decoder.recordDelimiter ∉ sentence

namespace BatchRecord

def bytes (record : BatchRecord) : Bytes := record.alarm :: record.sentence

/-- Records with one delimiter between them, and perhaps one behind the last. -/
def layout (closed : Bool) (records : List BatchRecord) : Bytes :=
  List.intercalate [Decoder.recordDelimiter] (records.map bytes) ++
    if closed && !records.isEmpty then [Decoder.recordDelimiter] else []

/-- Behind the sentence of the first record the batch ends, or the delimiter stands and behind it
the other records. -/
theorem layout_cons (closed : Bool) (record : BatchRecord) (records : List BatchRecord) :
    ∃ behind, layout closed (record :: records) = record.alarm :: (record.sentence ++ behind) ∧
      behind.drop 1 = layout closed records ∧
      (behind = [] ∨ behind.head? = some Decoder.recordDelimiter) := by
  cases records with
  | nil =>
    refine ⟨if closed then [Decoder.recordDelimiter] else [], ?_, ?_, ?_⟩ <;> cases closed <;>
      simp [layout, bytes]
  | cons next others =>
    refine ⟨Decoder.recordDelimiter :: layout closed (next :: others), ?_, rfl, .inr rfl⟩
    simp [layout, bytes, List.intercalate_cons_cons]

end BatchRecord

namespace Decoder

open BatchRecord

theorem takeWhile_sentence {sentence behind : Bytes} (hplain : recordDelimiter ∉ sentence)
    (hbehind : behind = [] ∨ behind.head? = some recordDelimiter) :
    (sentence ++ behind).takeWhile (· ≠ recordDelimiter) = sentence ∧
      (sentence ++ behind).dropWhile (· ≠ recordDelimiter) = behind := by
  have hall : ∀ b ∈ sentence, decide (b ≠ recordDelimiter) = true := by
    intro b hb
    exact decide_eq_true fun he => hplain (he ▸ hb)
  rw [List.takeWhile_append_of_pos hall, List.dropWhile_append_of_pos hall]
  cases behind with
  | nil => exact ⟨List.append_nil _, rfl⟩
  | cons b rest =>
    have hb : b = recordDelimiter := by simpa using hbehind
    subst hb
    simp

/-- The report of a record, if its sentence gives one. -/
def recordReport (device : DeviceId) (record : BatchRecord) : Option Report :=
  SentenceKind.regular.decode (.blank device) (Ascii.text record.sentence)

theorem decodeRecords_cons (device : DeviceId) (index count : Nat) (alarm : UInt8)
    (payload : Bytes) :
    (decodeRecords device index (count + 1) (alarm :: payload)).value =
      (decodeRecords device (index + 1) count
        ((payload.dropWhile (· ≠ recordDelimiter)).drop 1)).value.map
        ((SentenceKind.regular.decode (.blank device)
          (Ascii.text (payload.takeWhile (· ≠ recordDelimiter)))).toList ++ ·) := by
  simp only [decodeRecords, Logged.value_bind, SentenceKind.value_decodeLogged]
  -- whether a dropped record is told of makes no difference to the reports
  split <;> rfl

/-- **The records counted are read one by one.** -/
theorem decodeRecords_layout (device : DeviceId) (closed : Bool) (records : List BatchRecord)
    (index count : Nat) :
    (decodeRecords device index count (layout closed records)).value =
      if count ≤ records.length then
        .ok ((records.take count).flatMap fun record => (recordReport device record).toList)
      else .error (.truncated .recordAlarm 1 0) := by
  induction records generalizing index count with
  | nil =>
    cases count with
    | zero => rfl
    | succ count => cases closed <;> rfl
  | cons record records ih =>
    cases count with
    | zero => rfl
    | succ count =>
      obtain ⟨behind, hlayout, hrest, hbehind⟩ := layout_cons closed record records
      obtain ⟨htake, hdrop⟩ := takeWhile_sentence record.plain hbehind
      rw [hlayout, decodeRecords_cons, htake, hdrop, hrest, ih]
      simp only [List.length_cons, Nat.add_le_add_iff_right]
      by_cases hcount : count ≤ records.length
      · rw [if_pos hcount, if_pos hcount]
        rfl
      · rw [if_neg hcount, if_neg hcount]
        rfl

/-- Reading records fails in one way only. -/
theorem decodeRecords_error {device : DeviceId} {count : Nat} {error : DecodeError} :
    ∀ {index : Nat} {payload : Bytes},
      (decodeRecords device index count payload).value = .error error →
        error = .truncated .recordAlarm 1 0 := by
  induction count with
  | zero =>
    intro index payload h
    cases h
  | succ count ih =>
    intro index payload h
    cases payload with
    | nil =>
      cases h
      rfl
    | cons alarm payload =>
      rw [decodeRecords_cons] at h
      cases hothers : (decodeRecords device (index + 1) count
          ((payload.dropWhile (· ≠ recordDelimiter)).drop 1)).value with
      | ok reports => rw [hothers] at h; cases h
      | error other =>
        rw [hothers] at h
        cases h
        exact ih hothers

theorem position_resolved {settings : Settings} {registry : Registry} {link : Option Link}
    {id : RawId} {device : DeviceId} (hresolves : registry.Resolves id device)
    (sentence : Bytes) :
    (handle settings registry link ⟨id, Command.position.code, sentence⟩).value.outcome =
      .ok (.ofOption (SentenceKind.regular.decode (.blank device) (Ascii.text sentence))) := by
  rw [outcome_resolved hresolves rfl]
  exact value_decodeSentence ..

theorem retransmission_resolved {settings : Settings} {registry : Registry} {link : Option Link}
    {id : RawId} {device : DeviceId} (hresolves : registry.Resolves id device)
    (count : UInt8) (records : Bytes) :
    (handle settings registry link
        ⟨id, Command.retransmission.code, count :: records⟩).value.outcome =
      (decodeRecords device 0 count.toNat records).value.map .batch := by
  rw [outcome_resolved hresolves rfl]
  rfl

theorem reports_ofOption (decoded : Option Report) :
    (Outcome.ofOption decoded).reports = decoded.toList := by
  cases decoded <;> rfl

/-- **A batch equals its records sent one by one.** Each sentence has an outcome of its own as a
position of the device, never an error, whatever the registry and the connection are as long as the
device is resolved. A batch of at most as many records as are there gives the reports of those
outcomes, in order; one that counts more fails at the missing alarm code. Whatever a batch holds, it
fails only for want of its count or of an alarm code. -/
theorem retransmission_eq_positions (settings : Settings) (registry : Registry)
    (link : Option Link) (id : RawId) (device : DeviceId)
    (hresolves : registry.Resolves id device) :
    (∃ alone : Bytes → Outcome,
      (∀ settings' registry' link', registry'.Resolves id device → ∀ sentence,
        (handle settings' registry' link' ⟨id, Command.position.code, sentence⟩).value.outcome =
          .ok (alone sentence)) ∧
      ∀ (count : UInt8) (records : List BatchRecord) (closed : Bool),
        count.toNat ≤ records.length →
        (handle settings registry link
            ⟨id, Command.retransmission.code, count :: layout closed records⟩).value.outcome =
          .ok (.batch ((records.take count.toNat).flatMap fun r => (alone r.sentence).reports))) ∧
    (∀ (count : UInt8) (records : List BatchRecord) (closed : Bool),
      records.length < count.toNat →
      (handle settings registry link
          ⟨id, Command.retransmission.code, count :: layout closed records⟩).value.outcome =
        .error (.truncated .recordAlarm 1 0)) ∧
    ∀ (payload : Bytes) (error : DecodeError),
      (handle settings registry link
          ⟨id, Command.retransmission.code, payload⟩).value.outcome = .error error →
      error = .truncated .recordCount 1 0 ∨ error = .truncated .recordAlarm 1 0 := by
  refine ⟨⟨fun sentence => .ofOption (SentenceKind.regular.decode (.blank device)
    (Ascii.text sentence)), ?_, ?_⟩, ?_, ?_⟩
  · intro settings' registry' link' hresolves' sentence
    exact position_resolved hresolves' sentence
  · intro count records closed hcount
    rw [retransmission_resolved hresolves, decodeRecords_layout, if_pos hcount]
    simp only [reports_ofOption]
    rfl
  · intro count records closed hcount
    rw [retransmission_resolved hresolves, decodeRecords_layout,
      if_neg (Nat.not_le_of_lt hcount)]
    rfl
  · intro payload error herror
    cases payload with
    | nil =>
      rw [outcome_resolved hresolves rfl] at herror
      cases herror
      exact .inl rfl
    | cons count records =>
      rw [retransmission_resolved hresolves] at herror
      cases hread : (decodeRecords device 0 count.toNat records).value with
      | ok reports => rw [hread] at herror; cases herror
      | error other =>
        rw [hread] at herror
        cases herror
        exact .inr (decodeRecords_error hread)

/-- Two positions, the later one first and with the delimiter as its alarm code: a count of two gives
both reports in the order they came in, a count of three fails. -/
theorem retransmission_of_two :
    let id : RawId := ⟨[0x13, 0x61, 0x23, 0x45, 0x67, 0x8F, 0xFF], rfl⟩
    let registry := (Registry.register {} "13612345678").2
    let later := Ascii.utf8 "123457,A,1234.5678,N,09876.5432,E,10.5,90.0,010122"
    let earlier := Ascii.utf8 "123456,A,1234.5600,N,09876.5400,E,,,010122|1.2|100"
    let records : List BatchRecord := [⟨0x5C, later, by decide⟩, ⟨0x01, earlier, by decide⟩]
    let outcome := fun (command : Command) (payload : Bytes) =>
      (handle {} registry none ⟨id, command.code, payload⟩).value.outcome
    registry.Resolves id 1 ∧
    layout true records = [0x5C] ++ later ++ [0x5C, 0x01] ++ earlier ++ [0x5C] ∧
    (∃ alone : Bytes → Outcome,
      (∀ r ∈ records, outcome .position r.sentence = .ok (alone r.sentence)) ∧
      outcome .retransmission (2 :: layout true records) =
        .ok (.batch ((records.take 2).flatMap fun r => (alone r.sentence).reports))) ∧
    (reportsOf (outcome .retransmission (2 :: layout true records))).map Report.time =
      [some 1641040497, some 1641040496] ∧
    outcome .retransmission (3 :: layout false records) =
      .error (.truncated .recordAlarm 1 0) := by
  intro id registry later earlier records outcome
  have hresolves : registry.Resolves id 1 := by decide +kernel
  obtain ⟨⟨alone, halone, hbatch⟩, hmissing, -⟩ :=
    retransmission_eq_positions {} registry none id 1 hresolves
  refine ⟨hresolves, by decide +kernel, ⟨alone, ?_, ?_⟩, by decide +kernel, ?_⟩
  · intro r _
    exact halone {} registry none hresolves r.sentence
  · exact hbatch 2 records true (by decide)
  · exact hmissing 3 records false (by decide)

end Decoder

end TrackerWire
