import TrackerWire.Proofs.Sentence.Header

/-!
# Which regular sentences are accepted

A regular sentence is a header and a tail. The tail has parts as well, but none of them is needed:
any text up to a bar, extras, any text up to the end of the line. What is not extras is text, so all
that a tail must not do is to end its line at or behind its first bar (`IsTail`).

* `reads_tail`: what the grammar reads behind the date is a tail, all of them and nothing else.
* `parse_header`: a match holds the parts of the header, whatever tail stands behind it.
* `position_from_header`: a sentence is accepted just when it is a header and a tail, and its
  position is that of the header.
-/
namespace TrackerWire

open Slot

namespace Sentence

/-- From the first bar on the line does not end. Text without a bar is a tail. -/
def IsTail (tail : String) : Prop :=
  ∀ c ∈ tail.toList.dropWhile (· ≠ '|'), c ≠ '\r' ∧ c ≠ '\n'

instance (tail : String) : Decidable (IsTail tail) := List.decidableBAll _ _

theorem isTail_iff (tail : String) : IsTail tail ↔
    Token.AllOf Token.inLine ((Ascii.utf8 tail).dropWhile (· ≠ Ascii.bar)) := by
  have hbar : Ascii.char Ascii.bar = '|' := by decide
  have hcr : Ascii.char Ascii.cr = '\r' := by decide
  have hlf : Ascii.char Ascii.lf = '\n' := by decide
  have hmem : ∀ b < 0x80, b ∈ (Ascii.utf8 tail).dropWhile (· ≠ Ascii.bar) ↔
      Ascii.char b ∈ tail.toList.dropWhile (· ≠ '|') := by
    intro b hb
    rw [Utf8.dropWhile_utf8 (by decide), hbar, Utf8.mem_utf8_iff hb, String.toList_ofList]
  refine ⟨fun h b hb => ?_, fun h c hc => ⟨?_, ?_⟩⟩
  · simp only [Token.inLine, Bool.and_eq_true, decide_eq_true_eq]
    refine ⟨?_, ?_⟩
    · rintro rfl
      exact (h _ ((hmem Ascii.cr (by decide)).mp hb)).1 hcr
    · rintro rfl
      exact (h _ ((hmem Ascii.lf (by decide)).mp hb)).2 hlf
  · rintro rfl
    exact absurd (h _ ((hmem Ascii.cr (by decide)).mpr (hcr ▸ hc))) (by decide)
  · rintro rfl
    exact absurd (h _ ((hmem Ascii.lf (by decide)).mpr (hlf ▸ hc))) (by decide)

/-! ## What the slots are made of -/

theorem numeric_ascii {token : Token} (h : token.isNumeric = true) : token.MadeOf (· < 0x80) :=
  fun _ hb => decide_eq_true (Token.lt_of_alphabet h hb)

theorem numeric_inLine {token : Token} (h : token.isNumeric = true) :
    token.MadeOf Token.inLine := by
  have hcr : token.alphabet Ascii.cr = false := by
    cases token <;> first | rfl | cases h
  have hlf : token.alphabet Ascii.lf = false := by
    cases token <;> first | rfl | cases h
  intro b hb
  simp only [Token.inLine, Bool.and_eq_true, decide_eq_true_eq]
  refine ⟨?_, ?_⟩
  · rintro rfl
    rw [hcr] at hb
    cases hb
  · rintro rfl
    rw [hlf] at hb
    cases hb

theorem letters_ascii {a b : UInt8} (ha : a < 0x80) (hb : b < 0x80) :
    (Token.oneOf [a, b]).MadeOf (· < 0x80) := by
  intro x hx
  rcases List.mem_pair.mp (List.contains_iff_mem.mp hx) with rfl | rfl
  · exact decide_eq_true ha
  · exact decide_eq_true hb

theorem byte_madeOf {p : UInt8 → Bool} {b : UInt8} (h : p b = true) : (byte b).MadeOf p :=
  List.forall_mem_singleton.mpr h

theorem fixSlots_ascii : BlockMadeOf (· < 0x80) fixSlots := by
  simp only [fixSlots, pairs, place, List.cons_append, List.nil_append, BlockMadeOf]
  and_intros
  all_goals first
    | exact numeric_ascii rfl
    | exact letters_ascii (by decide) (by decide)
    | exact byte_madeOf (by decide)
    | trivial

theorem extras_inLine : BlockMadeOf Token.inLine extras := by
  simp only [extras, channels, extraChannel, shortOdometer, longOdometer, anyOf, BlockMadeOf,
    MadeOf, AlternativesMadeOf]
  and_intros
  all_goals first
    | exact numeric_inLine rfl
    | exact byte_madeOf (by decide)
    | trivial

/-! ## The tail -/

def tailSlots : List Slot := [skip (.noneOf [Ascii.bar]), .optional extras, skip .rest]

/-- **What the grammar reads behind the date** does not end its line from the first bar on. -/
theorem reads_tail {start : Nat} {text : Bytes} {r : Reading}
    (h : ReadsBlock tailSlots start text r) :
    Token.AllOf Token.inLine (text.dropWhile (· ≠ Ascii.bar)) := by
  cases h with
  | @cons _ _ _ free _ _ _ hfree h =>
  cases h with
  | cons hextras h =>
  cases h with
  | cons hrest hnil =>
  cases hnil
  cases hfree with
  | skip hfree =>
  cases hrest with
  | @skip _ _ rest hrest =>
  have hplain : ∀ b ∈ free, decide (b ≠ Ascii.bar) = true := fun b hb =>
    decide_eq_true fun hbar => hfree b hb (List.mem_singleton.mpr hbar)
  rw [List.dropWhile_append_of_pos hplain, List.append_nil]
  have hbehind := List.forall_mem_append.mpr
    ⟨allOf_reads (.optional extras) extras_inLine hextras, Token.allOf_alphabet hrest⟩
  exact fun b hb => hbehind b ((List.dropWhile_suffix _).subset hb)

/-- **Every tail is read**, if only as text. -/
theorem exists_reads_tail (start : Nat) {text : Bytes}
    (h : Token.AllOf Token.inLine (text.dropWhile (· ≠ Ascii.bar))) :
    ∃ r, ReadsBlock tailSlots start text r := by
  have hfree : (Token.noneOf [Ascii.bar]).Accepts (text.takeWhile (· ≠ Ascii.bar)) := by
    intro b hb hbar
    have hplain := List.all_eq_true.mp List.all_takeWhile b hb
    exact of_decide_eq_true hplain (List.mem_singleton.mp hbar)
  have hrest : Token.rest.Accepts (text.dropWhile (· ≠ Ascii.bar)) := by
    intro b hb
    simpa [Token.inLine] using h b hb
  have hreads : ReadsBlock tailSlots start
      (text.takeWhile (· ≠ Ascii.bar) ++ ([] ++ (text.dropWhile (· ≠ Ascii.bar) ++ []))) _ :=
    .cons (.skip hfree) (.cons .omitted (.cons (.skip hrest) .nil))
  rw [List.append_nil, List.nil_append, List.takeWhile_append_dropWhile] at hreads
  exact ⟨_, hreads⟩

/-! ## The whole sentence -/

theorem regular_eq : regular = Grammar.build "regular" (fixSlots ++ tailSlots) := rfl

/-- What the grammar reads is a header, whose parts are captured, and a tail. -/
theorem reads_regular {s : String} {r : Reading}
    (h : ReadsBlock (fixSlots ++ tailSlots) 0 (Ascii.utf8 s) r) :
    ∃ (header : HeaderText) (tail : String), s = header.text ++ tail ∧ IsTail tail ∧
      ∃ more, r.texts (Ascii.utf8 s) = header.texts ++ more := by
  obtain ⟨first, second, r₁, r₂, hsplit, rfl, hfirst, hsecond⟩ := readsBlock_append.mp h
  have hascii : Ascii.All first := fun b hb =>
    of_decide_eq_true (allOf_readsBlock fixSlots fixSlots_ascii hfirst b hb)
  obtain ⟨tail, hs, rfl⟩ := Utf8.cut_ascii hascii hsplit
  have hspells : Spells fixSlots first (r₁.texts (Ascii.utf8 s)) :=
    ⟨hascii, [], Ascii.utf8 tail, r₁, Utf8.aligned_utf8 tail, hfirst, by rw [hsplit]; rfl⟩
  obtain ⟨header, rfl, htexts⟩ := spells_header hspells
  refine ⟨header, tail, hs, (isTail_iff tail).mpr (reads_tail hsecond),
    r₂.texts (Ascii.utf8 s), ?_⟩
  rw [Reading.texts_append, htexts]

theorem exists_reads_regular (header : HeaderText) {tail : String} (htail : IsTail tail) :
    ∃ r, ReadsBlock (fixSlots ++ tailSlots) 0 (Ascii.utf8 (header.text ++ tail)) r := by
  obtain ⟨r, hr⟩ := (prefers_header header []).reads (fun _ h => nomatch h)
  obtain ⟨s, hs⟩ := exists_reads_tail (0 + header.bytes.length) ((isTail_iff tail).mp htail)
  refine ⟨r ++ s, readsBlock_append.mpr ⟨_, _, r, s, ?_, rfl, hr, hs⟩⟩
  rw [Utf8.utf8_append, HeaderText.text, Utf8.utf8_text header.ascii]

theorem HeaderText.text_inj {header header' : HeaderText} {tail tail' : String}
    (h : header.text ++ tail = header'.text ++ tail') : header = header' ∧ tail = tail' := by
  have hbytes := congrArg Ascii.utf8 h
  simp only [Utf8.utf8_append, text, Utf8.utf8_text header.ascii, Utf8.utf8_text header'.ascii]
    at hbytes
  obtain ⟨rfl, -⟩ := bytes_inj hbytes
  exact ⟨rfl, String.append_right_inj _ |>.mp h⟩

/-- **A match holds the parts of the header**, whatever tail stands behind it. -/
theorem parse_header {header : HeaderText} {tail : String} {captures : Captures}
    (h : regular.parse (header.text ++ tail) = some captures) (index : Nat)
    (hindex : index < 13) :
    captures.bytesAt index = (header.texts[index]?).join := by
  obtain ⟨r, hreads, hholds⟩ := parse_reads h
  obtain ⟨header', tail', hs, -, more, htexts⟩ := reads_regular hreads
  obtain ⟨rfl, -⟩ := HeaderText.text_inj hs
  rw [hholds.bytesAt_eq, htexts, List.getElem?_append_left hindex]

theorem isSome_parse_header (header : HeaderText) {tail : String} (htail : IsTail tail) :
    (regular.parse (header.text ++ tail)).isSome = true := by
  rw [regular_eq, parse_isSome]
  exact exists_reads_regular header htail

/-- Whatever matches is a header and a tail, and the match holds the parts of the header. -/
theorem exists_header {s : String} {captures : Captures} (h : regular.parse s = some captures) :
    ∃ (header : HeaderText) (tail : String), s = header.text ++ tail ∧ IsTail tail ∧
      ∀ index < 13, captures.bytesAt index = (header.texts[index]?).join := by
  obtain ⟨r, hreads, -⟩ := parse_reads (regular_eq ▸ h)
  obtain ⟨header, tail, rfl, htail, -⟩ := reads_regular hreads
  exact ⟨header, tail, rfl, htail, parse_header h⟩

/-! ## Positions -/

/-- Time, validity, place, speed and course. -/
def positionOf (report : Report) :
    Option Time × Bool × Float × Float × Option Float × Option Float :=
  (report.time, report.valid, report.latitude, report.longitude, report.speed, report.course)

/-- Of the captures, the position needs those of the header. -/
theorem fillRegular_congr {captures captures' : Captures}
    (h : ∀ index < 13, captures.bytesAt index = captures'.bytesAt index) (report : Report) :
    (fillRegular report captures).map positionOf =
      (fillRegular report captures').map positionOf := by
  have htriple : ∀ index, index + 2 < 13 → tripleAt captures index = tripleAt captures' index := by
    intro index hindex
    simp only [tripleAt, Captures.wordAt, h index (by omega), h (index + 1) (by omega),
      h (index + 2) hindex]
  have hdegrees : ∀ index, index + 1 < 13 →
      degreesAt captures index = degreesAt captures' index := by
    intro index hindex
    simp only [degreesAt, Captures.coordinateAt, h index (by omega), h (index + 1) hindex]
  have hvalid := h RegularField.validity.index (by decide)
  have hspeed := h RegularField.speed.index (by decide)
  have hcourse := h RegularField.course.index (by decide)
  simp only [fillRegular, htriple RegularField.hour.index (by decide),
    htriple RegularField.day.index (by decide), hdegrees RegularField.latitude.index (by decide),
    hdegrees RegularField.longitude.index (by decide), hvalid, Captures.floatAt, hspeed, hcourse,
    Option.bind_eq_bind, Option.map_bind, Function.comp_def, Option.map_some]
  -- both give a report in the same cases, and its position is the same
  refine Option.bind_congr fun hms _ => Option.bind_congr fun latitude _ =>
    Option.bind_congr fun longitude _ => Option.bind_congr fun dmy _ =>
    Option.bind_congr fun time _ => ?_
  rfl

/-- **Malformed extras never cost a position.** A sentence is accepted just when it is a header and
a tail, and then these are unique. What stands in the tail makes no difference to time, validity,
place, speed and course. -/
theorem position_from_header :
    (∀ s : String, (regular.parse s).isSome = true ↔
      ∃ (header : HeaderText) (tail : String), s = header.text ++ tail ∧ IsTail tail) ∧
    (∀ (header header' : HeaderText) (tail tail' : String),
      header.text ++ tail = header'.text ++ tail' → header = header' ∧ tail = tail') ∧
    ∀ (header : HeaderText) (tail tail' : String), IsTail tail → IsTail tail' →
      ∀ report : Report,
        (SentenceKind.regular.decode report (header.text ++ tail)).map positionOf =
          (SentenceKind.regular.decode report (header.text ++ tail')).map positionOf := by
  have haccepted : ∀ (header : HeaderText) {tail : String}, IsTail tail →
      (regular.parse (header.text ++ tail)).isSome = true := by
    intro header tail htail
    rw [regular_eq, parse_isSome]
    exact exists_reads_regular header htail
  refine ⟨fun s => ⟨fun h => ?_, ?_⟩, fun _ _ _ _ => HeaderText.text_inj, ?_⟩
  · rw [regular_eq, parse_isSome] at h
    obtain ⟨r, hr⟩ := h
    obtain ⟨header, tail, hs, htail, -⟩ := reads_regular hr
    exact ⟨header, tail, hs, htail⟩
  · rintro ⟨header, tail, rfl, htail⟩
    exact haccepted header htail
  · intro header tail tail' htail htail' report
    obtain ⟨captures, hparse⟩ := Option.isSome_iff_exists.mp (haccepted header htail)
    obtain ⟨captures', hparse'⟩ := Option.isSome_iff_exists.mp (haccepted header htail')
    have hsame : ∀ index < 13, captures.bytesAt index = captures'.bytesAt index :=
      fun index hindex => by
        rw [parse_header hparse index hindex, parse_header hparse' index hindex]
    have hdecode : ∀ {sentence : String} {captures : Captures},
        regular.parse sentence = some captures →
        SentenceKind.regular.decode report sentence = fillRegular report captures := by
      intro sentence captures h
      rw [SentenceKind.decode, SentenceKind.grammar, h]
      rfl
    rw [hdecode hparse, hdecode hparse']
    exact fillRegular_congr hsame report

/-- Line ends before a bar and extras of no form behind it: the sentence is accepted and decoded, and
its position is that of the header alone. A line end behind the bar is not accepted. -/
theorem position_before_malformed_extras :
    let header : HeaderText :=
      { hour := 12, minute := 34, second := 56, point := true
        fraction := ⟨Ascii.utf8 "50", by decide⟩, valid := true
        place := ⟨⟨Ascii.utf8 "1234.5678", by decide⟩, false,
          ⟨Ascii.utf8 "09876.5432", by decide⟩, true⟩
        speed := some ⟨Ascii.utf8 "10.", by decide⟩, course := none
        day := 1, month := 2, year := 22 }
    let malformed := "\r\n*1C|1.2|high||00G0"
    let broken := "|1.2|\n"
    header.text = "123456.50,A,1234.5678,N,09876.5432,W,10.,,010222" ∧ IsTail malformed ∧
    (regular.parse (header.text ++ malformed)).isSome = true ∧
    (∀ report : Report, (SentenceKind.regular.decode report (header.text ++ malformed)).map
        positionOf = (SentenceKind.regular.decode report (header.text ++ "")).map positionOf) ∧
    (SentenceKind.regular.decode (.blank 1) (header.text ++ malformed)).map
        (fun decoded => (decoded.time, decoded.valid)) = some (some 1643718896, true) ∧
    (regular.parse (header.text ++ broken)).isSome = false := by
  intro header malformed broken
  have hmalformed : IsTail malformed := by decide
  obtain ⟨haccepted, hunique, hposition⟩ := position_from_header
  refine ⟨by decide +kernel, hmalformed, ?_, ?_, by decide +kernel, ?_⟩
  · exact (haccepted _).mpr ⟨header, malformed, rfl, hmalformed⟩
  · exact hposition header malformed "" hmalformed (by decide)
  · rw [Bool.eq_false_iff]
    intro h
    obtain ⟨header', tail, hs, htail⟩ := (haccepted _).mp h
    obtain ⟨-, rfl⟩ := hunique header header' broken tail hs
    exact absurd htail (by decide)

end Sentence

end TrackerWire
