import TrackerWire.Proofs.Grammar.Values
import TrackerWire.Proofs.Sentence.Fill
import TrackerWire.Proofs.Sentence.Separated

/-!
# Engine sentences are split at their commas

The readings of an engine go to the destinations of their fields, one field after the other. No two
fields share a destination, so what one puts there stays, and a field that is left out leaves the
others in their places (`valueIn_fillEngine`, `valueIn_fillEngine_other`).

* `engine_sentences_split`: both kinds of engine sentences, from the commas to the report.
-/
namespace TrackerWire

open Slot

namespace Report

variable (report : Report) (key : String) (value : Option Attribute)

theorem attribute?_setOpt (other : String) : (report.setOpt key value).attribute? other =
    if key = other then value.or (report.attribute? other) else report.attribute? other := by
  cases value with
  | none => exact (ite_self _).symm
  | some value => exact Table.get?_put report.attributes key other value

theorem odometer_setOpt : (report.setOpt key value).odometer = report.odometer := by
  cases value <;> rfl

end Report

namespace Sentence

/-! ## Destinations -/

/-- The key of the attribute; the odometer has none. -/
def Destination.key? : Destination → Option String
  | whole key | real key => some key
  | odometer => none

/-- What a report has there. -/
def Destination.valueIn (destination : Destination) (report : Report) : Option Attribute :=
  match destination with
  | whole key | real key => report.attribute? key
  | odometer => report.odometer.map .float

namespace EngineField

/-- The reading of a field, if its capture is read. -/
def reading? (field : EngineField) (captures : Captures) (index : Nat) : Option Attribute :=
  match field.destination with
  | .whole _ => (captures.intAt index).map .int
  | .real _ | .odometer => (captures.floatAt index).map .float

section
variable (field : EngineField) (captures : Captures) (index : Nat) (report : Report)

theorem valueIn_fill : field.destination.valueIn (field.fill captures index report) =
    (field.reading? captures index).or (field.destination.valueIn report) := by
  obtain ⟨token, destination⟩ := field
  cases destination with
  | whole key => exact (report.attribute?_setOpt key _ key).trans (if_pos rfl)
  | real key => exact (report.attribute?_setOpt key _ key).trans (if_pos rfl)
  | odometer =>
    simp only [fill, reading?, Destination.valueIn]
    cases captures.floatAt index <;> rfl

theorem valueIn_fill_other {destination : Destination}
    (h : field.destination.key? ≠ destination.key?) :
    destination.valueIn (field.fill captures index report) = destination.valueIn report := by
  obtain ⟨token, target⟩ := field
  cases target with
  | whole key | real key =>
    cases destination with
    | whole other | real other =>
      exact (report.attribute?_setOpt key _ other).trans (if_neg fun heq => h (congrArg some heq))
    | odometer => exact congrArg (Option.map Attribute.float) (report.odometer_setOpt key _)
  | odometer =>
    cases destination with
    | whole other | real other => rfl
    | odometer => exact absurd rfl h

end

end EngineField

section
variable (captures : Captures) (index : Nat) (report : Report) {fields : List EngineField}

theorem valueIn_fillEngine_other (destination : Destination)
    (h : ∀ field ∈ fields, field.destination.key? ≠ destination.key?) :
    destination.valueIn (fillEngine captures index fields report) = destination.valueIn report := by
  induction fields generalizing index report with
  | nil => rfl
  | cons field fields ih =>
    obtain ⟨hfield, hothers⟩ := List.forall_mem_cons.mp h
    rw [fillEngine, ih _ _ hothers, field.valueIn_fill_other captures index report hfield]

/-- **Each field is put to its own destination**, whatever the others are. -/
theorem valueIn_fillEngine (hdistinct : (fields.map (·.destination.key?)).Nodup) {i : Nat}
    {field : EngineField} (hfield : fields[i]? = some field) :
    field.destination.valueIn (fillEngine captures index fields report) =
      (field.reading? captures (index + i)).or (field.destination.valueIn report) := by
  induction fields generalizing index report i with
  | nil => cases hfield
  | cons first fields ih =>
    obtain ⟨hfirst, hothers⟩ := List.nodup_cons.mp hdistinct
    rw [fillEngine]
    cases i with
    | zero =>
      cases hfield
      have hlast : ∀ other ∈ fields, other.destination.key? ≠ field.destination.key? :=
        fun other hother heq => hfirst (List.mem_map.mpr ⟨other, hother, heq⟩)
      rw [valueIn_fillEngine_other _ _ _ _ hlast, EngineField.valueIn_fill]
      rfl
    | succ i =>
      have hmem : field ∈ fields := List.mem_of_getElem? hfield
      have hapart : first.destination.key? ≠ field.destination.key? :=
        fun heq => hfirst (List.mem_map.mpr ⟨field, hmem, heq.symm⟩)
      rw [ih _ _ hothers hfield, first.valueIn_fill_other captures index report hapart,
        Nat.add_assoc, Nat.add_comm 1]

end

/-! ## Sentences -/

/-- What the text of a field makes of a report. A whole number that has no room in a signed word of
64 bits is left out. -/
def EngineField.Puts (field : EngineField) (text : String) (before after : Report) : Prop :=
  match field.destination with
  | .whole key => after.attribute? key =
      if Whole.Fits64 (Whole.signedNumber (Ascii.utf8 text)) then
        some (.int (Whole.signedNumber (Ascii.utf8 text)))
      else before.attribute? key
  | .real key => ∃ x, Decimal.read? (Ascii.utf8 text) = some x ∧
      after.attribute? key = some (.float x)
  | .odometer => ∃ x, Decimal.read? (Ascii.utf8 text) = some x ∧ after.odometer = some x

/-- The report after the fields have been put into the report before: each by its own text, and
nothing else is changed. -/
structure EnginePuts (fields : List EngineField) (texts : List String) (before after : Report) :
    Prop where
  puts : List.Forall₂ (fun field text => field.Puts text before after) fields texts
  otherKeys : ∀ key, (∀ field ∈ fields, field.destination.key? ≠ some key) →
    after.attribute? key = before.attribute? key
  odometer : (∀ field ∈ fields, field.destination ≠ .odometer) → after.odometer = before.odometer
  others : ∃ attributes odometer, after = { before with attributes, odometer }

/-- The sentences of a kind are split at their commas. -/
structure SplitAtCommas (kind : SentenceKind) (fields : List EngineField) (s : String) : Prop where
  /-- One text for each field, as a whole of the form of the field. -/
  accepted : (kind.grammar.parse s).isSome = true ↔
    List.Forall₂ (fun field text => field.token.Accepts (Ascii.utf8 text)) fields (commaFields s)
  captured : ∀ captures, kind.grammar.parse s = some captures →
    ∀ index, captures.textAt index = (commaFields s)[index]?
  decoded : ∀ captures, kind.grammar.parse s = some captures → ∀ before,
    ∃ after, kind.decode before s = some after ∧ EnginePuts fields (commaFields s) before after

/-- Whole numbers become whole attributes; decimals and numbers become doubles. -/
inductive EngineField.Suits : EngineField → Prop
  | whole (key : String) : Suits ⟨Sentence.whole, .whole key⟩
  | signed (key : String) : Suits ⟨.signedInteger, .whole key⟩
  | real (key : String) : Suits ⟨.decimal, .real key⟩
  | odometer : Suits ⟨.number, .odometer⟩

namespace EngineField.Suits

variable {field : EngineField} (h : field.Suits)
include h

theorem isNumeric : field.token.isNumeric = true := by
  cases h <;> rfl

/-- A destination that has been given the reading of a field has been given the field's text. -/
theorem puts {captures : Captures} {index : Nat} {text : String} {before after : Report}
    (haccepts : field.token.Accepts (Ascii.utf8 text))
    (hbytes : captures.bytesAt index = some (Ascii.utf8 text))
    (hvalue : field.destination.valueIn after =
      (field.reading? captures index).or (field.destination.valueIn before)) :
    field.Puts text before after := by
  have hwhole : ∀ {key : String}, Token.IsSigned Token.IsInteger (Ascii.utf8 text) →
      after.attribute? key = ((captures.intAt index).map .int).or (before.attribute? key) →
      EngineField.Puts ⟨.signedInteger, .whole key⟩ text before after := by
    intro key hsigned hkey
    show after.attribute? key = _
    rw [hkey, Captures.intAt, hbytes, Option.bind_some, Whole.signed64?_eq hsigned]
    split <;> rfl
  have hreal : Token.IsNumber (Ascii.utf8 text) →
      ∃ x, Decimal.read? (Ascii.utf8 text) = some x ∧ captures.floatAt index = some x := by
    intro hnumber
    obtain ⟨x, hx⟩ := Decimal.exists_read (.inl hnumber)
    exact ⟨x, hx, by rw [Captures.floatAt, hbytes]; exact hx⟩
  cases h with
  | whole key =>
    obtain ⟨hdigits, hleast, -⟩ := haccepts
    exact hwhole (.inl ⟨hdigits, List.ne_nil_of_length_pos hleast⟩) hvalue
  | signed key => exact hwhole haccepts hvalue
  | real key =>
    obtain ⟨x, hx, hread⟩ := hreal (Decimal.isNumber_of_isDecimal Nat.one_pos haccepts)
    refine ⟨x, hx, hvalue.trans ?_⟩
    rw [reading?, hread]
    rfl
  | odometer =>
    obtain ⟨x, hx, hread⟩ := hreal haccepts
    refine ⟨x, hx, ?_⟩
    rw [reading?, hread] at hvalue
    obtain ⟨y, hy, hxy⟩ := Option.map_eq_some_iff.mp hvalue
    cases hxy
    exact hy

end EngineField.Suits

section
variable {kind : SentenceKind} {fields : List EngineField}

/-- A kind of sentence that is read field by field. -/
theorem splitAtCommas_of (name : String) (hgrammar : kind.grammar = engineGrammar name fields)
    (hfill : ∀ before captures,
      kind.fill before captures = some (fillEngine captures 0 fields before))
    (hne : fields ≠ []) (hsuits : ∀ field ∈ fields, field.Suits)
    (hdistinct : (fields.map (·.destination.key?)).Nodup) (s : String) :
    SplitAtCommas kind fields s := by
  have htokens : fields.map EngineField.token ≠ [] := fun hnil => hne (List.map_eq_nil_iff.mp hnil)
  have hnumeric : ∀ token ∈ fields.map EngineField.token, token.isNumeric = true :=
    List.forall_mem_map.mpr fun field hfield => (hsuits field hfield).isNumeric
  have htexts : List.Forall₂ Token.Accepts (fields.map EngineField.token)
      ((commaFields s).map Ascii.utf8) ↔ List.Forall₂
        (fun field text => field.token.Accepts (Ascii.utf8 text)) fields (commaFields s) := by
    rw [List.forall₂_map_left_iff, List.forall₂_map_right_iff]
  have hmatch : ∀ captures, kind.grammar.parse s = some captures →
      List.Forall₂ (fun field text => field.token.Accepts (Ascii.utf8 text)) fields
        (commaFields s) ∧
      ∀ index, captures.bytesAt index = (commaFields s)[index]?.map Ascii.utf8 := by
    intro captures hparse
    rw [hgrammar] at hparse
    obtain ⟨haccepts, hbytes⟩ := fields_separated htokens hnumeric hparse
    exact ⟨htexts.mp haccepts, fun index => (hbytes index).trans List.getElem?_map⟩
  refine ⟨?_, fun captures hparse index => ?_, fun captures hparse before => ?_⟩
  · rw [hgrammar, engineGrammar, isSome_parse_separated htokens hnumeric, htexts]
  · rw [Captures.textAt, (hmatch captures hparse).2 index]
    cases (commaFields s)[index]? with
    | none => rfl
    | some text => exact Utf8.fromUTF8?_utf8 text
  · obtain ⟨haccepts, hbytes⟩ := hmatch captures hparse
    refine ⟨fillEngine captures 0 fields before, ?_, ?_, fun key hkey => ?_, fun hnone => ?_,
      fillEngine_keeps captures 0 fields before⟩
    · rw [kind.decode_of_parse hparse, hfill]
    · refine List.forall₂_iff_get.mpr ⟨haccepts.length_eq, fun i hfield htext => ?_⟩
      have hvalue := valueIn_fillEngine captures 0 before hdistinct
        (List.getElem?_eq_getElem hfield)
      rw [Nat.zero_add] at hvalue
      refine (hsuits _ (List.getElem_mem hfield)).puts (haccepts.get hfield htext) ?_ hvalue
      rw [hbytes i, List.getElem?_eq_getElem htext]
      rfl
    · exact valueIn_fillEngine_other captures 0 before (.real key) hkey
    · have hkey : ∀ field ∈ fields, field.destination.key? ≠ none := by
        intro field hfield heq
        cases hdestination : field.destination with
        | whole | real => rw [hdestination] at heq; cases heq
        | odometer => exact hnone field hfield hdestination
      have hodometer := valueIn_fillEngine_other captures 0 before .odometer hkey
      exact Option.map_injective (fun _ _ hxy => Attribute.float.inj hxy) hodometer

end

/-- **Engine sentences are split at their commas.** A sentence matches just when it has one field
for each token and each field as a whole is a text of its token; its captures are the fields. Then
it is decoded into any report. Each field is put under its own key, the tenth of the live readings
into the odometer, whether fields before it were left out or not; only whole numbers that have no
room are, and what was under their keys stays. Nothing else of the report is changed. -/
theorem engine_sentences_split (s : String) :
    SplitAtCommas .obdRealtime realtimeFields s ∧
      SplitAtCommas .obdAggregate aggregateFields s := by
  have hrealtime : ∀ field ∈ realtimeFields, field.Suits := by
    simp only [realtimeFields, List.forall_mem_cons]
    and_intros
    all_goals first
      | exact .real _
      | exact .whole _
      | exact .signed _
      | exact .odometer
      | exact List.forall_mem_nil _
  have haggregate : ∀ field ∈ aggregateFields, field.Suits := by
    simp only [aggregateFields, List.forall_mem_cons]
    and_intros
    all_goals first
      | exact .real _
      | exact .whole _
      | exact List.forall_mem_nil _
  exact ⟨splitAtCommas_of "obd realtime" rfl (fun _ _ => rfl) (by decide) hrealtime (by decide) s,
    splitAtCommas_of "obd aggregate" rfl (fun _ _ => rfl) (by decide) haggregate (by decide) s⟩

end Sentence

end TrackerWire
