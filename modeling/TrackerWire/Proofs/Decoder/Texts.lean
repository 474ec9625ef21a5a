import TrackerWire.Proofs.Decoder.Reports
import TrackerWire.Proofs.Sentence.Engine
import TrackerWire.Proofs.Sentence.Readable
import TrackerWire.Proofs.Text.Visible

/-!
# The texts of a report

A report carries text from a payload: its status and its tag, and the keys and values of its
attributes. None of them has a control character in it, whatever bytes the payload is made of: a
text is cut out of a sentence only where the grammar has hexadecimal digits, cards are written in
digits, and the keys are those of the fields and the slots.

* `shows_decode`: a sentence read into a report keeps it so, kind by kind.
* `shows_decodePayload`, `shows_handle`: so is every report of a payload and of a frame.
* `Report.Shows.line`: the line of such a report has no control character.
-/
namespace TrackerWire

open Text

/-! ## Reports -/

/-- No text of the report has a control character in it. -/
structure Report.Shows (report : Report) : Prop where
  status : ∀ s ∈ report.status, Visible s
  uniqueId : ∀ s ∈ report.uniqueId, Visible s
  attributes : ∀ entry ∈ report.attributes.entries, Visible entry.1 ∧ Visible entry.2.display

namespace Report

variable {report : Report}

theorem shows_blank (device : DeviceId) : (blank device).Shows where
  status := fun _ h => nomatch h
  uniqueId := fun _ h => nomatch h
  attributes := List.forall_mem_nil _

theorem Shows.set (h : report.Shows) {key : String} {value : Attribute} (hkey : Visible key)
    (hvalue : Visible value.display) : (report.set key value).Shows where
  status := h.status
  uniqueId := h.uniqueId
  attributes := fun entry hentry => by
    rcases Table.mem_entries_put hentry with rfl | hentry
    · exact ⟨hkey, hvalue⟩
    · exact h.attributes entry hentry

theorem Shows.setOpt (h : report.Shows) {key : String} {value : Option Attribute}
    (hkey : Visible key) (hvalue : ∀ v ∈ value, Visible v.display) :
    (report.setOpt key value).Shows := by
  cases value with
  | none => exact h
  | some value => exact h.set hkey (hvalue value rfl)

theorem Shows.seed (h : report.Shows) (fix : Option Fix) : (report.seed fix).Shows := by
  cases fix <;> exact ⟨h.status, h.uniqueId, h.attributes⟩

theorem visible_labelled {label : String} {value : Option String} (hlabel : Visible label)
    (hvalue : ∀ s ∈ value, Visible s) : Visible (labelled label value) := by
  cases value with
  | none => exact allShow_nil
  | some value =>
    exact visible_append.mpr ⟨visible_append.mpr ⟨visible_append.mpr
      ⟨by decide, hlabel⟩, by decide⟩, hvalue value rfl⟩

theorem visible_labelled_map {α : Type} {label : String} (hlabel : Visible label)
    {f : α → String} (h : ∀ x, Visible (f x)) (value : Option α) :
    Visible (labelled label (value.map f)) := by
  refine visible_labelled hlabel fun s hs => ?_
  obtain ⟨x, -, rfl⟩ := Option.map_eq_some_iff.mp hs
  exact h x

theorem visible_inputText (entry : Nat × Bool) : Visible (inputText entry) := by
  refine visible_labelled (visible_append.mpr ⟨by decide, visible_nat _⟩) fun s hs => ?_
  rw [← Option.some.inj hs]
  split <;> decide

theorem visible_attributeText {entry : String × Attribute}
    (h : Visible entry.1 ∧ Visible entry.2.display) : Visible (attributeText entry) :=
  visible_labelled h.1 fun _ hs => Option.some.inj hs ▸ h.2

/-- **The line of a report shows** if its texts do. -/
theorem Shows.line (h : report.Shows) : Visible report.line := by
  have hdouble (label : String) (hlabel : Visible label) (value : Option Float) :
      Visible (labelled label (value.map Decimal.text)) :=
    visible_labelled_map hlabel Decimal.visible_text value
  have hpieces : Visible " device " ∧ Visible " " ∧ Visible "," := by decide
  have htime : Visible (report.time.elim "--------------------" Calendar.text) := by
    cases report.time with
    | none => decide
    | some time => exact Calendar.visible_text time
  have hvalid : Visible (if report.valid then "valid" else "invalid") := by
    split <;> decide
  have hsatellites : Visible (labelled "sat" (report.satellites.map toString)) :=
    visible_labelled_map (by decide) visible_nat _
  have hid : Visible (labelled "id" report.uniqueId) := visible_labelled (by decide) h.uniqueId
  have halarm : Visible (labelled "alarm" (report.alarm.map Alarm.name)) :=
    visible_labelled_map (by decide) (fun alarm => by cases alarm <;> decide) _
  have hinputs : Visible (String.join (report.inputs.entries.map inputText)) :=
    visible_join fun entry _ => visible_inputText entry
  have hattributes : Visible (String.join (report.attributes.entries.map attributeText)) :=
    visible_join fun entry hentry => visible_attributeText (h.attributes entry hentry)
  unfold Report.line
  simp only [visible_append, hpieces, htime, visible_nat, Decimal.visible_fixed, hvalid,
    hdouble "speed" (by decide), hdouble "course" (by decide),
    hdouble "altitude" (by decide), hdouble "odometer" (by decide),
    hsatellites, hid, halarm, hinputs, hattributes, and_self]

end Report

/-! ## Sentences -/

namespace Sentence

theorem visible_hex {min : Nat} {max : Option Nat} {piece : Bytes}
    (h : (Token.hex min max).Accepts piece) : Visible (Ascii.text piece) := by
  have hdigits : AllShow hexDigits := by decide
  refine visible_ofList.mpr fun c hc => ?_
  obtain ⟨b, hb, rfl⟩ := List.mem_map.mp hc
  exact hdigits _ (hexDigits_char (h.1 b hb))

/-- What is read as text is a text of the capture's token. -/
theorem textAt_regular {s : String} {captures : Captures} (h : regular.parse s = some captures)
    (field : RegularField) {t : String} (ht : captures.textAt field.index = some t) :
    ∃ piece, field.token.Accepts piece ∧ t = Ascii.text piece := by
  cases hpresent : captures.isPresent field.index with
  | false =>
    rw [Captures.textAt, Captures.bind_absent hpresent] at ht
    cases ht
  | true =>
    obtain ⟨piece, hpiece, haccepts⟩ :=
      bytesAt_present (regular_eq ▸ h) (tokens_regular field) field.suits.plain hpresent
    have hascii : Ascii.All piece := fun b hb =>
      of_decide_eq_true (field.suits.plain.ascii b (Token.allOf_alphabet haccepts b hb))
    rw [Captures.textAt, hpiece, Option.bind_some, Utf8.fromUTF8?_ascii hascii] at ht
    exact ⟨piece, haccepts, (Option.some.inj ht).symm⟩

theorem shows_fillRegular {s : String} {captures : Captures} {before after : Report}
    (h : before.Shows) (hparse : regular.parse s = some captures)
    (hfill : fillRegular before captures = some after) : after.Shows := by
  have hfills := fillRegular_fills hfill
  obtain ⟨-, -, -, -, -, hattributes⟩ := hfills.others
  have hhex (field : RegularField) {min : Nat} {max : Option Nat}
      (htoken : field.token = .hex min max) (earlier : Option String)
      (hearlier : ∀ t ∈ earlier, Visible t) :
      ∀ t ∈ (captures.textAt field.index).or earlier, Visible t := by
    intro t ht
    rcases Option.or_eq_some_iff.mp ht with ht | ⟨-, ht⟩
    · obtain ⟨piece, haccepts, rfl⟩ := textAt_regular hparse field ht
      exact visible_hex (htoken ▸ haccepts)
    · exact hearlier t ht
  refine ⟨?_, ?_, ?_⟩
  · rw [hfills.status]
    exact hhex .status rfl _ h.status
  · rw [hfills.uniqueId]
    split
    · exact hhex .uniqueId rfl _ h.uniqueId
    · exact h.uniqueId
  · rw [hattributes]
    exact h.attributes

/-- A reading is a number, under the name of its field. -/
theorem shows_fill {field : EngineField} (hfield : ∀ key ∈ field.destination.key?, Visible key)
    (captures : Captures) (index : Nat) {report : Report} (h : report.Shows) :
    (field.fill captures index report).Shows := by
  obtain ⟨token, destination⟩ := field
  cases destination with
  | whole key =>
    refine h.setOpt (hfield key rfl) fun value hvalue => ?_
    obtain ⟨n, -, rfl⟩ := Option.map_eq_some_iff.mp hvalue
    exact visible_int n
  | real key =>
    refine h.setOpt (hfield key rfl) fun value hvalue => ?_
    obtain ⟨x, -, rfl⟩ := Option.map_eq_some_iff.mp hvalue
    exact Decimal.visible_text x
  | odometer => exact ⟨h.status, h.uniqueId, h.attributes⟩

theorem shows_fillEngine (captures : Captures) {index : Nat} {fields : List EngineField}
    (hfields : ∀ field ∈ fields, ∀ key ∈ field.destination.key?, Visible key) {report : Report}
    (h : report.Shows) : (fillEngine captures index fields report).Shows := by
  induction fields generalizing index report with
  | nil => exact h
  | cons field fields ih =>
    obtain ⟨hfield, hrest⟩ := List.forall_mem_cons.mp hfields
    exact ih hrest (shows_fill hfield captures index h)

end Sentence

/-- **A sentence brings no control character into a report.** -/
theorem SentenceKind.shows_decode {kind : SentenceKind} {report decoded : Report} {s : String}
    (h : report.Shows) (hdecode : kind.decode report s = some decoded) : decoded.Shows := by
  obtain ⟨captures, hparse, hfill⟩ := Option.bind_eq_some_iff.mp hdecode
  cases kind with
  | regular => exact Sentence.shows_fillRegular h hparse hfill
  | rfid =>
    rw [(Sentence.fillRfid_fills hfill).others]
    exact ⟨h.status, h.uniqueId, h.attributes⟩
  | obdRealtime =>
    cases hfill
    exact Sentence.shows_fillEngine captures (by decide) h
  | obdAggregate =>
    cases hfill
    exact Sentence.shows_fillEngine captures (by decide) h

/-! ## Payloads and frames -/

namespace Decoder

theorem shows_addAlarm (code : UInt8) {report : Report} (h : report.Shows) :
    (addAlarm code report).Shows := by
  unfold addAlarm
  dsimp only
  split <;> exact ⟨h.status, h.uniqueId, h.attributes⟩

theorem shows_addCards (slot : Nat) (cards : List Nat) {report : Report} (h : report.Shows) :
    (addCards slot cards report).Shows := by
  induction cards generalizing slot report with
  | nil => exact h
  | cons card cards ih =>
    rw [addCards]
    refine ih (slot + 1) ?_
    split
    · exact h
    · have hcard : Visible (cardText card) := visible_zeroPad 10 card
      have hset : (report.set ("card" ++ toString slot) (.text (cardText card))).Shows :=
        h.set (visible_append.mpr ⟨by decide, visible_nat slot⟩) hcard
      exact ⟨hset.status, fun s hs => Option.some.inj hs ▸ hcard, hset.attributes⟩

variable {lastFix : DeviceId → Option Fix} {device : DeviceId} {command : Command}
  {kind : SentenceKind} {report : Report} {payload : Bytes}

theorem Starts.shows (h : Starts lastFix device kind report) : report.Shows := by
  have hblank := Report.shows_blank device
  cases h with
  | blank => exact hblank
  | alarm code => exact shows_addAlarm code hblank
  | cards cards => exact shows_addCards 1 cards hblank
  | seeded => exact hblank.seed _

theorem shows_decodePayload
    (h : report ∈ reportsOf (decodePayload lastFix device command payload).value) :
    report.Shows := by
  obtain ⟨kind, start, sentence, hstart, hdecode⟩ := decoded_decodePayload h
  exact SentenceKind.shows_decode hstart.shows hdecode

/-- **No text of a frame's reports has a control character in it**, whatever the frame holds. -/
theorem shows_handle {settings : Settings} {registry : Registry} {link : Option Link}
    {frame : Frame}
    (h : report ∈ reportsOf (handle settings registry link frame).value.outcome) :
    report.Shows := by
  obtain ⟨device, command, -, -, hreport⟩ := reports_handle h
  exact shows_decodePayload hreport

end Decoder

end TrackerWire
