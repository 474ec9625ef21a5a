import TrackerWire.Proofs.Frame.Wire
import TrackerWire.Proofs.Text.Hex
import TrackerWire.Proofs.Text.Utf8
import TrackerWire.Replay

/-!
# Lines of a capture

A line of a capture is passed over (`Skipped`), is not hexadecimal, is too short, or holds a frame
(`Carries`). `Answers` says what a replay answers to each: nothing, one line, or the description of
the frame and what comes of it. Only a frame changes the registry.

* `answers_runLine`: every line is answered in this way.
* `answers_outputLines`: so is a whole input, line by line, up to the first one that is no text.
* `outputLines_utf8`, `replay_utf8`: a text is read to its end, in the lines of its characters.
-/
namespace TrackerWire

namespace Text

/-! ## Text without the blanks around it -/

/-- Text of blanks only is left empty; other text from its first character that is not blank on. -/
theorem trim_cases (l : List Char) :
    ((∀ c ∈ l, isBlank c = true) ∧ trim l = []) ∨
      ∃ c inner, isBlank c = false ∧ (l.dropWhile isBlank).head? = some c ∧
        trim l = c :: inner := by
  cases hdrop : l.dropWhile isBlank with
  | nil =>
    refine .inl ⟨?_, by rw [trim, hdrop]; rfl⟩
    have hall : l.takeWhile isBlank = l := by
      have hsplit := List.takeWhile_append_dropWhile (p := isBlank) (l := l)
      rwa [hdrop, List.append_nil] at hsplit
    intro c hc
    rw [← hall] at hc
    exact List.all_eq_true.mp List.all_takeWhile c hc
  | cons c rest =>
    have hc : isBlank c = false := by
      have hhead := List.head?_dropWhile_not isBlank l
      rwa [hdrop] at hhead
    refine .inr ⟨c, ((rest.reverse.dropWhile isBlank).reverse), hc, rfl, ?_⟩
    rw [trim, hdrop, List.reverse_cons, List.dropWhile_append]
    split
    · rename_i hempty
      rw [List.isEmpty_iff.mp hempty, List.dropWhile_cons_of_neg (by rw [hc]; decide)]
      rfl
    · rw [List.reverse_append]
      rfl

end Text

namespace Replay

/-! ## What a line is -/

/-- The characters of a line without the blanks around it, and without spaces. -/
def content (text : String) : List Char := (Text.trim text.toList).filter (· ≠ ' ')

/-- What of a line is read as hexadecimal. -/
def digits (text : String) : Bytes := Ascii.utf8 (String.ofList (content text))

/-- A line that is passed over. -/
inductive Skipped (text : String) : Prop
  /-- There is nothing in it. -/
  | blank (h : ∀ c ∈ text.toList, Text.isBlank c = true)
  /-- It starts with a number sign, perhaps behind blanks. -/
  | remark (h : (text.toList.dropWhile Text.isBlank).head? = some '#')

/-- The frame that a line holds, in seventeen bytes or more. -/
def Carries (text : String) (frame : Frame) : Prop :=
  ∃ bytes, Hex.decode (digits text) = .ok bytes ∧ 17 ≤ bytes.length ∧
    Frame.parse bytes = .ok frame

theorem Carries.isHex {text : String} {frame : Frame} (h : Carries text frame) :
    Hex.IsHex (digits text) ∧ 34 ≤ (digits text).length := by
  obtain ⟨bytes, hdecode, hlong, -⟩ := h
  have hdigits := Hex.decodes_decode (digits text)
  rw [hdecode] at hdigits
  cases hdigits with
  | ok hhex hlength => exact ⟨hhex, by omega⟩

theorem skipped_iff (text : String) : Skipped text ↔
    Text.trim text.toList = [] ∨ (Text.trim text.toList).head? = some '#' := by
  rcases Text.trim_cases text.toList with ⟨hblank, htrim⟩ | ⟨c, inner, hc, hfirst, htrim⟩
  · exact iff_of_true (.blank hblank) (.inl htrim)
  · rw [htrim]
    refine ⟨fun h => ?_, fun h => ?_⟩
    · cases h with
      | blank h =>
        have hmem : c ∈ text.toList :=
          (List.dropWhile_sublist _).subset (List.mem_of_mem_head? hfirst)
        rw [h c hmem] at hc
        cases hc
      | remark h => exact .inr (by rw [List.head?_cons, ← hfirst, h])
    · rcases h with h | h
      · cases h
      · exact .remark (by rw [hfirst, ← h, List.head?_cons])

/-- A line is answered by what its content is read as. -/
theorem runLine_eq (line : Nat) (registry : Registry) {text : String} (h : ¬ Skipped text) :
    runLine line registry text =
      match Hex.decode (digits text) with
      | .error error => ([.notHex line error], registry)
      | .ok bytes =>
        match Frame.parse bytes with
        | .error error => ([.noFrame line error bytes], registry)
        | .ok frame => runFrame line registry frame := by
  unfold runLine digits content
  dsimp only
  refine (if_neg fun hskipped => h ((skipped_iff text).mpr hskipped)).trans ?_
  -- nothing is to be computed of what is decoded
  generalize Hex.decode _ = decoded
  rfl

theorem runLine_skipped (line : Nat) (registry : Registry) {text : String} (h : Skipped text) :
    runLine line registry text = ([], registry) :=
  if_pos ((skipped_iff text).mp h)

/-! ## What a line is answered by -/

/-- The answer to an input line: the lines of output, and the registry that is left. -/
inductive Answers (line : Nat) (registry : Registry) (text : String) :
    List OutputLine → Registry → Prop
  | skipped (h : Skipped text) : Answers line registry text [] registry
  | notHex {error : Hex.Error} (h : ¬ Skipped text) (hhex : ¬ Hex.IsHex (digits text))
    (herror : Hex.decode (digits text) = .error error) :
    Answers line registry text [.notHex line error] registry
  | short {bytes : Bytes} (h : ¬ Skipped text) (hbytes : Hex.decode (digits text) = .ok bytes)
    (hshort : bytes.length < 17) :
    Answers line registry text [.noFrame line (.truncated 17 bytes.length) bytes] registry
  /-- A line for the frame, and one for each of its reports. -/
  | decoded {frame : Frame} {outcome : Outcome} (h : ¬ Skipped text) (hframe : Carries text frame)
    (hdecoded : (Decoder.handle {} registry none frame).value.outcome = .ok outcome) :
    Answers line registry text (.description line frame :: outcome.reports.map .report)
      ((Decoder.handle {} registry none frame).value.registry.recordAll outcome.reports)
  /-- A line for the frame, and one for the reason why it cannot be decoded. -/
  | failed {frame : Frame} {error : DecodeError} (h : ¬ Skipped text)
    (hframe : Carries text frame)
    (hfailed : (Decoder.handle {} registry none frame).value.outcome = .error error) :
    Answers line registry text [.description line frame, .failure error]
      (Decoder.handle {} registry none frame).value.registry

theorem answers_runFrame {line : Nat} (registry : Registry) {text : String} {frame : Frame}
    (h : ¬ Skipped text) (hframe : Carries text frame) :
    Answers line registry text (runFrame line registry frame).1
      (runFrame line registry frame).2 := by
  unfold runFrame
  simp only
  cases houtcome : (Decoder.handle {} registry none frame).value.outcome with
  | ok outcome => exact .decoded h hframe houtcome
  | error error => exact .failed h hframe houtcome

/-- **Every line is answered.** -/
theorem answers_runLine (line : Nat) (registry : Registry) (text : String) :
    Answers line registry text (runLine line registry text).1
      (runLine line registry text).2 := by
  by_cases h : Skipped text
  · rw [runLine_skipped line registry h]
    exact .skipped h
  · have hdigits := Hex.decodes_decode (digits text)
    rw [runLine_eq line registry h]
    cases hdecode : Hex.decode (digits text) with
    | error error =>
      rw [hdecode] at hdigits
      cases hdigits with
      | error hhex => exact .notHex h hhex hdecode
    | ok bytes =>
      cases hparse : Frame.parse bytes with
      | error error =>
        obtain ⟨hshort, rfl⟩ := Frame.parse_error_iff.mp hparse
        simp only [hparse]
        exact .short h hdecode hshort
      | ok frame =>
        obtain ⟨hlong, -⟩ := Frame.parse_ok_iff.mp hparse
        simp only [hparse]
        exact answers_runFrame registry h ⟨bytes, hdecode, hlong, hparse⟩

/-- The answers to lines one after the other, the first of which has the number `line`. -/
inductive AnswersAll : Nat → Registry → List String → List (List OutputLine) → Prop
  | nil {line : Nat} {registry : Registry} : AnswersAll line registry [] []
  | cons {line : Nat} {registry registry' : Registry} {text : String} {texts : List String}
    {answer : List OutputLine} {answers : List (List OutputLine)}
    (h : Answers line registry text answer registry')
    (hrest : AnswersAll (line + 1) registry' texts answers) :
    AnswersAll line registry (text :: texts) (answer :: answers)

theorem answersAll_run (line : Nat) (registry : Registry) (texts : List String) :
    ∃ answers, AnswersAll line registry texts answers ∧
      run line registry texts = answers.flatten := by
  induction texts generalizing line registry with
  | nil => exact ⟨[], .nil, rfl⟩
  | cons text texts ih =>
    obtain ⟨answers, hanswers, hrun⟩ := ih (line + 1) (runLine line registry text).2
    refine ⟨_ :: answers, .cons (answers_runLine line registry text) hanswers, ?_⟩
    rw [run, hrun, List.flatten_cons]

/-! ## A whole input -/

theorem utf8_of_fromUTF8? {bytes : Bytes} {text : String}
    (h : String.fromUTF8? bytes.toByteArray = some text) : Ascii.utf8 text = bytes := by
  rw [String.fromUTF8?] at h
  split at h
  · cases h
    exact List.toList_data_toByteArray
  · cases h

/-- The lines that are read are texts, and the first line that is not read, if any, is not. -/
theorem readableLines_split (lines : List Bytes) : ∃ rest,
    lines = (readableLines lines).1.map Ascii.utf8 ++ rest ∧
      ∀ bytes ∈ rest.head?, String.fromUTF8? bytes.toByteArray = none := by
  induction lines with
  | nil => exact ⟨[], rfl, fun _ h => nomatch h⟩
  | cons bytes lines ih =>
    rw [readableLines]
    cases hread : String.fromUTF8? bytes.toByteArray with
    | none =>
      refine ⟨bytes :: lines, rfl, fun first hfirst => ?_⟩
      cases hfirst
      exact hread
    | some text =>
      obtain ⟨rest, hlines, hrest⟩ := ih
      refine ⟨rest, ?_, hrest⟩
      rw [List.map_cons, List.cons_append, utf8_of_fromUTF8? hread, ← hlines]

/-- The lines of output for an input. -/
def outputLines (input : Bytes) : List OutputLine :=
  run 1 startRegistry (readableLines (inputLines input)).1

theorem replay_output (colour : Bool) (input : Bytes) :
    (replay colour input).output = unlines ((outputLines input).map (OutputLine.text colour)) := rfl

/-- **An input is answered line by line**, up to the first line that is no text. -/
theorem answers_outputLines (input : Bytes) : ∃ texts rest answers,
    inputLines input = texts.map Ascii.utf8 ++ rest ∧
      (∀ bytes ∈ rest.head?, String.fromUTF8? bytes.toByteArray = none) ∧
      AnswersAll 1 startRegistry texts answers ∧ outputLines input = answers.flatten := by
  obtain ⟨rest, hlines, hrest⟩ := readableLines_split (inputLines input)
  obtain ⟨answers, hanswers, hrun⟩ := answersAll_run 1 startRegistry
    (readableLines (inputLines input)).1
  exact ⟨_, rest, answers, hlines, hrest, hanswers, hrun⟩

/-! ## The input is a text -/

/-- The lines of a text; a line end at the end of the text starts no further line. -/
def textLines (text : String) : List String :=
  let lines := (text.toList.splitOnP (· = '\n')).map String.ofList
  if lines.getLast? = some "" then lines.dropLast else lines

/-- What holds no separator goes in front of the first part of what is split. -/
theorem splitOnP_append {α : Type} {p : α → Bool} {front : List α} (h : ∀ x ∈ front, p x = false)
    (rest : List α) :
    (front ++ rest).splitOnP p = (rest.splitOnP p).modifyHead (front ++ ·) := by
  induction front with
  | nil =>
    cases hsplit : rest.splitOnP p <;> rw [List.nil_append, hsplit] <;> rfl
  | cons x front ih =>
    obtain ⟨hx, hfront⟩ := List.forall_mem_cons.mp h
    rw [List.cons_append, List.splitOnP_cons_eq_if_modifyHead, if_neg (by rw [hx]; decide),
      ih hfront]
    cases rest.splitOnP p <;> rfl

/-- Line ends are found in the bytes of a text just where they are in its characters. -/
theorem splitOnP_utf8 (chars : List Char) :
    (chars.flatMap String.utf8EncodeChar).splitOnP (· = Ascii.lf) =
      (chars.splitOnP (· = '\n')).map (·.flatMap String.utf8EncodeChar) := by
  induction chars with
  | nil => rfl
  | cons c chars ih =>
    rw [List.flatMap_cons, List.splitOnP_cons_eq_if_modifyHead]
    by_cases hc : c = '\n'
    · have hbyte : String.utf8EncodeChar c = [Ascii.lf] := by rw [hc]; rfl
      rw [if_pos (decide_eq_true hc), hbyte, List.singleton_append,
        List.splitOnP_cons_eq_if_modifyHead, if_pos (by decide), ih, List.map_cons,
        List.flatMap_nil]
    · have hbytes : ∀ b ∈ String.utf8EncodeChar c, decide (b = Ascii.lf) = false :=
        fun b hb => decide_eq_false (Utf8.encode_of_ne (by decide) hc b hb)
      rw [if_neg (by simpa using hc), splitOnP_append hbytes, ih]
      cases chars.splitOnP (· = '\n') with
      | nil => rfl
      | cons line lines =>
        rw [List.map_cons, List.modifyHead_cons, List.modifyHead_cons, List.map_cons,
          List.flatMap_cons]

theorem inputLines_utf8 (text : String) :
    inputLines (Ascii.utf8 text) = (textLines text).map Ascii.utf8 := by
  have hsplit : (Ascii.utf8 text).splitOnP (· = Ascii.lf) =
      ((text.toList.splitOnP (· = '\n')).map String.ofList).map Ascii.utf8 := by
    rw [Utf8.utf8_eq, splitOnP_utf8, List.map_map]
    exact List.map_congr_left fun line _ => by
      rw [Function.comp_apply, Utf8.utf8_eq, String.toList_ofList]
  have hlast (lines : List String) :
      (lines.map Ascii.utf8).getLast? = some [] ↔ lines.getLast? = some "" := by
    rw [List.getLast?_map, Option.map_eq_some_iff]
    refine ⟨fun ⟨line, hline, hempty⟩ => ?_, fun h => ⟨"", h, rfl⟩⟩
    rw [hline, Utf8.utf8_inj (t := "") hempty]
  simp only [inputLines, textLines, hsplit, hlast]
  split
  · exact List.map_dropLast.symm
  · rfl

theorem readableLines_utf8 (texts : List String) :
    readableLines (texts.map Ascii.utf8) = (texts, false) := by
  induction texts with
  | nil => rfl
  | cons text texts ih => rw [List.map_cons, readableLines, Utf8.fromUTF8?_utf8, ih]

theorem outputLines_utf8 (text : String) :
    outputLines (Ascii.utf8 text) = run 1 startRegistry (textLines text) := by
  rw [outputLines, inputLines_utf8, readableLines_utf8]

/-- A text is read to its end. -/
theorem replay_utf8 (colour : Bool) (text : String) :
    replay colour (Ascii.utf8 text) =
      { exit := 0
        output := unlines ((outputLines (Ascii.utf8 text)).map (OutputLine.text colour)) } := by
  rw [replay, outputLines, inputLines_utf8, readableLines_utf8]
  rfl

end Replay

end TrackerWire
