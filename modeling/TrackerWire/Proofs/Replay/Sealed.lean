import TrackerWire.Proofs.Decoder.Texts
import TrackerWire.Proofs.Replay.Lines

/-!
# What is captured stays within its line

Without colour no line of a replay's output has a control character in it, so nothing that a
device has sent ends a line or reaches the terminal. Identifiers are written in digits, payloads and
bad digits are escaped, and the texts of a report show (`Decoder.shows_handle`).

* `visible_answer`: every answer to a line shows.
* `output_is_sealed`: the output is one answer after the other, and all of it shows.
-/
namespace TrackerWire

open Text

/-! ## The parts of a line -/

theorem FrameError.visible_message (error : FrameError) : Visible error.message := by
  have htexts : Visible "frame truncated (needed " ∧ Visible " bytes, " ∧ Visible " available)" ∧
      Visible "invalid frame length " ∧ Visible "invalid checksum (expected " ∧
      Visible ", actual: " ∧ Visible ")" := by decide
  cases error with
  | badMarker | badTerminator => decide
  | truncated | badLength | invalidChecksum =>
    unfold message
    simp only [visible_append, visible_nat, Hex.visible_word, htexts, and_self]

theorem DecodeError.visible_message (error : DecodeError) : Visible error.message := by
  have htexts : Visible " truncated (needed " ∧ Visible " bytes, " ∧ Visible " available)" := by
    decide
  cases error with
  | frame error => exact error.visible_message
  | truncated part needed available =>
    have hname : Visible part.name := by cases part <;> decide
    unfold message
    simp only [visible_append, visible_nat, hname, htexts, and_self]

theorem Identity.visible_ofRaw (id : RawId) : Visible (Identity.ofRaw id).digits :=
  visible_ofList.mpr (allShow_flatMap fun n _ => allShow_toDigits (by decide) (by decide) n)

namespace Replay

theorem visible_hexMessage (error : Hex.Error) : Visible (hexMessage error) := by
  cases error with
  | oddLength => decide
  | badDigit byte index =>
    exact visible_append.mpr ⟨visible_append.mpr
      ⟨visible_append.mpr ⟨by decide, visible_quoted _⟩, by decide⟩, visible_nat index⟩

theorem visible_lineLabel (line : Nat) : Visible (lineLabel line) :=
  visible_append.mpr ⟨visible_padLeft 5 (visible_nat line), by decide⟩

theorem visible_commandName (frame : Frame) : Visible (commandName frame) := by
  unfold commandName
  cases frame.command? with
  | none => decide
  | some command => cases command <;> decide

theorem visible_describe (frame : Frame) : Visible (describe frame) := by
  have htexts : Visible " " ∧ Visible ": " := by decide
  simp only [describe, visible_append, visible_padRight 15 (Identity.visible_ofRaw frame.id),
    Hex.visible_word, visible_padRight 14 (visible_commandName frame), visible_escaped, htexts,
    and_self]

/-! ## Lines -/

/-- **Every line of an answer shows.** -/
theorem visible_answer {line : Nat} {registry registry' : Registry} {text : String}
    {answer : List OutputLine} (h : Answers line registry text answer registry') :
    ∀ out ∈ answer, Visible (out.text false) := by
  have hdescription (frame : Frame) : Visible ((OutputLine.description line frame).text false) :=
    visible_append.mpr ⟨visible_lineLabel line, visible_describe frame⟩
  cases h with
  | skipped => exact List.forall_mem_nil _
  | notHex =>
    refine List.forall_mem_singleton.mpr (visible_append.mpr ⟨visible_append.mpr
      ⟨visible_lineLabel line, by decide⟩, visible_hexMessage _⟩)
  | short =>
    refine List.forall_mem_singleton.mpr (visible_append.mpr ⟨visible_append.mpr ⟨visible_append.mpr
      ⟨visible_lineLabel line, FrameError.visible_message _⟩, by decide⟩, Hex.visible_list _⟩)
  | @decoded frame outcome _ _ hdecoded =>
    refine List.forall_mem_cons.mpr ⟨hdescription frame, fun out hout => ?_⟩
    obtain ⟨report, hreport, rfl⟩ := List.mem_map.mp hout
    have hshows : report.Shows := Decoder.shows_handle (by rw [hdecoded]; exact hreport)
    exact visible_append.mpr ⟨by decide, hshows.line⟩
  | failed =>
    refine List.forall_mem_cons.mpr ⟨hdescription _, List.forall_mem_singleton.mpr ?_⟩
    exact visible_append.mpr ⟨by decide, DecodeError.visible_message _⟩

theorem visible_answers {line : Nat} {registry : Registry} {texts : List String}
    {answers : List (List OutputLine)} (h : AnswersAll line registry texts answers) :
    ∀ out ∈ answers.flatten, Visible (out.text false) := by
  induction h with
  | nil => exact List.forall_mem_nil _
  | cons hanswer _ ih => exact List.forall_mem_append.mpr ⟨visible_answer hanswer, ih⟩

/-- **The output of a replay cannot be forged.** It is the answers to the lines of the input, up to
the first line that is no text: none to a line that is passed over, one line to a line without a
frame, and else the description of the frame with its reports or its failure. None of these lines
has a control character in it. -/
theorem output_is_sealed (input : Bytes) : ∃ texts rest answers,
    inputLines input = texts.map Ascii.utf8 ++ rest ∧
      (∀ bytes ∈ rest.head?, String.fromUTF8? bytes.toByteArray = none) ∧
      AnswersAll 1 startRegistry texts answers ∧
      (replay false input).output = unlines (answers.flatten.map (OutputLine.text false)) ∧
      ∀ out ∈ answers.flatten, ∀ c ∈ (out.text false).toList,
        ¬ (c.toNat ≤ 0x1F ∨ 0x7F ≤ c.toNat ∧ c.toNat ≤ 0x9F) := by
  obtain ⟨texts, rest, answers, hlines, hrest, hanswers, houtput⟩ := answers_outputLines input
  refine ⟨texts, rest, answers, hlines, hrest, hanswers, ?_, fun out hout c hc => ?_⟩
  · rw [replay_output, houtput]
  · have hshows := visible_answers hanswers out hout c hc
    simp only [isControl, Bool.or_eq_false_iff, Bool.and_eq_false_iff,
      decide_eq_false_iff_not] at hshows
    omega

end Replay

end TrackerWire
