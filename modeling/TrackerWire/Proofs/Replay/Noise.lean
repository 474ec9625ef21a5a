import TrackerWire.Proofs.Replay.Lines

/-!
# Noise in a capture

Lines that hold no frame (`Noise`) tell nothing and leave the registry as it is, and a line may have
its spaces and the case of its digits changed (`Respelled`). So two captures that differ in that
alone (`Reworked`) tell the same of their frames, wherever the lines stand: what is said of a frame
is read without the number of its line (`told`).

* `runLine_noise`, `runLine_respelled`, `told_runLine`: what one line does.
* `told_run`: two runs from the same registry, by induction on how the captures differ.
* `noise_tells_nothing`: two whole inputs.
-/
namespace TrackerWire

namespace Text

/-! ## Blanks of which some are left out everywhere -/

variable {q : Char → Bool} (h : ∀ c, q c = false → isBlank c = true)
include h

theorem filter_dropWhile (l : List Char) :
    (l.dropWhile isBlank).filter q = (l.filter q).dropWhile isBlank := by
  induction l with
  | nil => rfl
  | cons c l ih =>
    cases hblank : isBlank c with
    | true =>
      rw [List.dropWhile_cons_of_pos hblank, ih]
      cases hkept : q c with
      | true => rw [List.filter_cons_of_pos hkept, List.dropWhile_cons_of_pos hblank]
      | false => rw [List.filter_cons_of_neg (by rw [hkept]; decide)]
    | false =>
      have hkept : q c = true := by
        cases hkept : q c with
        | true => rfl
        | false => rw [h c hkept] at hblank; cases hblank
      have hnot : ¬ isBlank c = true := by rw [hblank]; decide
      rw [List.dropWhile_cons_of_neg hnot, List.filter_cons_of_pos hkept,
        List.dropWhile_cons_of_neg hnot]

theorem filter_trim (l : List Char) : (trim l).filter q = trim (l.filter q) := by
  simp only [trim, List.filter_reverse, filter_dropWhile h]

end Text

namespace Replay

/-! ## A line written in another way -/

/-- The digits that are written in two ways. -/
def hexLetters : List Char := "abcdefABCDEF".toList

/-- The same character, or the same digit in the other case. -/
def SameChar (c c' : Char) : Prop :=
  c = c' ∨ c ∈ hexLetters ∧ c' ∈ hexLetters ∧ c.toLower = c'.toLower

instance : DecidableRel SameChar := fun c c' => inferInstanceAs
  (Decidable (c = c' ∨ c ∈ hexLetters ∧ c' ∈ hexLetters ∧ c.toLower = c'.toLower))

/-- The second text is the first one with spaces put in and taken out, and with digits put in the
other case. -/
inductive Respelled : List Char → List Char → Prop
  | nil : Respelled [] []
  | char {c c' : Char} {text text' : List Char} (hc : SameChar c c') (h : Respelled text text') :
    Respelled (c :: text) (c' :: text')
  | spaced {text text' : List Char} (h : Respelled text text') : Respelled text (' ' :: text')
  | joined {text text' : List Char} (h : Respelled text text') : Respelled (' ' :: text) text'

theorem SameChar.isBlank {c c' : Char} (h : SameChar c c') :
    Text.isBlank c = Text.isBlank c' := by
  have hletters : hexLetters.all (Text.isBlank · = false) = true := by decide
  rcases h with rfl | ⟨hc, hc', -⟩
  · rfl
  · rw [of_decide_eq_true (List.all_eq_true.mp hletters c hc),
      of_decide_eq_true (List.all_eq_true.mp hletters c' hc')]

theorem SameChar.eq_iff {c c' d : Char} (h : SameChar c c') (hd : d ∉ hexLetters) :
    c = d ↔ c' = d := by
  rcases h with rfl | ⟨hc, hc', -⟩
  · rfl
  · exact iff_of_false (fun heq => hd (heq ▸ hc)) (fun heq => hd (heq ▸ hc'))

/-- A letter has the value of its small form. -/
theorem encode_hexLetter {c : Char} (hc : c ∈ hexLetters) :
    String.utf8EncodeChar c = [UInt8.ofNat c.toNat] ∧
      (Ascii.hexValue? (UInt8.ofNat c.toNat)).isSome ∧
      Ascii.hexValue? (UInt8.ofNat c.toNat) = Ascii.hexValue? (UInt8.ofNat c.toLower.toNat) := by
  have hletters : hexLetters.all (fun c => String.utf8EncodeChar c = [UInt8.ofNat c.toNat] ∧
      (Ascii.hexValue? (UInt8.ofNat c.toNat)).isSome ∧
      Ascii.hexValue? (UInt8.ofNat c.toNat) =
        Ascii.hexValue? (UInt8.ofNat c.toLower.toNat)) = true := by decide
  exact of_decide_eq_true (List.all_eq_true.mp hletters c hc)

theorem SameChar.bytes {c c' : Char} (h : SameChar c c') :
    List.Forall₂ Hex.SameDigit (String.utf8EncodeChar c) (String.utf8EncodeChar c') := by
  rcases h with rfl | ⟨hc, hc', hcase⟩
  · exact List.forall₂_same.mpr fun _ _ => .inl rfl
  · obtain ⟨hbyte, hdigit, hvalue⟩ := encode_hexLetter hc
    obtain ⟨hbyte', -, hvalue'⟩ := encode_hexLetter hc'
    obtain ⟨n, hn⟩ := Option.isSome_iff_exists.mp hdigit
    rw [hbyte, hbyte']
    exact .cons (.inr ⟨n, hn, by rw [hvalue', ← hcase, ← hvalue, hn]⟩) .nil

theorem Respelled.filter {text text' : List Char} (h : Respelled text text') :
    List.Forall₂ SameChar (text.filter (· ≠ ' ')) (text'.filter (· ≠ ' ')) := by
  induction h with
  | nil => exact .nil
  | spaced _ ih => exact ih
  | joined _ ih => exact ih
  | @char c c' text text' hc _ ih =>
    have hspace := hc.eq_iff (d := ' ') (by decide)
    by_cases hkept : c = ' '
    · rw [List.filter_cons_of_neg (by simpa using hkept),
        List.filter_cons_of_neg (by simpa using hspace.mp hkept)]
      exact ih
    · rw [List.filter_cons_of_pos (by simpa using hkept),
        List.filter_cons_of_pos (by simpa using fun heq => hkept (hspace.mpr heq))]
      exact .cons hc ih

theorem respelled_of_filter {text text' : List Char}
    (h : List.Forall₂ SameChar (text.filter (· ≠ ' ')) (text'.filter (· ≠ ' '))) :
    Respelled text text' := by
  -- spaces are taken from either text until both start with a character that is kept
  induction text generalizing text' with
  | nil =>
    induction text' with
    | nil => exact .nil
    | cons c' text' ih' =>
      by_cases hspace' : c' = ' '
      · rw [hspace'] at h ⊢
        exact .spaced (ih' h)
      · rw [List.filter_cons_of_pos (by simpa using hspace')] at h
        cases h
  | cons c text ih =>
    by_cases hspace : c = ' '
    · rw [hspace] at h ⊢
      exact .joined (ih h)
    · rw [List.filter_cons_of_pos (by simpa using hspace)] at h
      induction text' with
      | nil => cases h
      | cons c' text' ih' =>
        by_cases hspace' : c' = ' '
        · rw [hspace'] at h ⊢
          exact .spaced (ih' h)
        · rw [List.filter_cons_of_pos (by simpa using hspace')] at h
          obtain ⟨hc, hrest⟩ := List.forall₂_cons.mp h
          exact .char hc (ih hrest)

/-- Texts are ways to write the same if they are character by character, spaces left out. -/
theorem respelled_iff {text text' : List Char} : Respelled text text' ↔
    List.Forall₂ SameChar (text.filter (· ≠ ' ')) (text'.filter (· ≠ ' ')) :=
  ⟨Respelled.filter, respelled_of_filter⟩

instance : DecidableRel Respelled := fun _ _ => decidable_of_iff' _ respelled_iff

theorem forall₂_dropWhile {text text' : List Char} (h : List.Forall₂ SameChar text text') :
    List.Forall₂ SameChar (text.dropWhile Text.isBlank) (text'.dropWhile Text.isBlank) := by
  induction h with
  | nil => exact .nil
  | @cons c c' text text' hc hrest ih =>
    rw [List.dropWhile_cons, List.dropWhile_cons, hc.isBlank]
    split
    · exact ih
    · exact .cons hc hrest

theorem content_eq (text : String) : content text = Text.trim (text.toList.filter (· ≠ ' ')) :=
  Text.filter_trim (fun c hc => by
    have hspace : c = ' ' := by simpa using hc
    rw [hspace]
    rfl) _

theorem Respelled.content {text text' : String} (h : Respelled text.toList text'.toList) :
    List.Forall₂ SameChar (content text) (content text') := by
  rw [content_eq, content_eq]
  have hfront := forall₂_dropWhile h.filter
  exact List.rel_reverse (forall₂_dropWhile (List.rel_reverse hfront))

theorem Respelled.digits {text text' : String} (h : Respelled text.toList text'.toList) :
    List.Forall₂ Hex.SameDigit (digits text) (digits text') := by
  rw [Replay.digits, Replay.digits, Utf8.utf8_eq, Utf8.utf8_eq, String.toList_ofList,
    String.toList_ofList]
  exact List.rel_flatMap h.content fun _ _ hc => hc.bytes

theorem skipped_iff_content (text : String) :
    Skipped text ↔ content text = [] ∨ (content text).head? = some '#' := by
  rw [skipped_iff, content]
  rcases Text.trim_cases text.toList with ⟨-, htrim⟩ | ⟨c, inner, hc, -, htrim⟩
  · rw [htrim]
    rfl
  · have hspace : c ≠ ' ' := fun heq => by
      rw [heq] at hc
      cases hc
    rw [htrim, List.filter_cons_of_pos (by simpa using hspace)]
    simp

theorem Respelled.skipped_iff {text text' : String} (h : Respelled text.toList text'.toList) :
    Skipped text ↔ Skipped text' := by
  have hcontent := h.content
  rw [skipped_iff_content, skipped_iff_content]
  generalize Replay.content text = content, Replay.content text' = content' at hcontent ⊢
  cases hcontent with
  | nil => rfl
  | cons hc _ => simp only [List.head?_cons, Option.some.injEq, reduceCtorEq, false_or,
      hc.eq_iff (d := '#') (by decide)]

/-- **A line is answered in the same way however it is written.** -/
theorem runLine_respelled (line : Nat) (registry : Registry) {text text' : String}
    (h : Respelled text.toList text'.toList) :
    runLine line registry text = runLine line registry text' := by
  by_cases hskipped : Skipped text
  · rw [runLine_skipped line registry hskipped,
      runLine_skipped line registry (h.skipped_iff.mp hskipped)]
  · rw [runLine_eq line registry hskipped,
      runLine_eq line registry (fun h' => hskipped (h.skipped_iff.mpr h')),
      Hex.decode_congr h.digits]

/-! ## What is told of frames -/

/-- An output line that tells of a frame, without the number of its input line. -/
def OutputLine.told? : OutputLine → Option OutputLine
  | notHex .. | noFrame .. => none
  | description _ frame => some (.description 0 frame)
  | report decoded => some (.report decoded)
  | failure error => some (.failure error)

/-- What output lines tell of frames: descriptions, reports and failures. -/
def told (lines : List OutputLine) : List OutputLine := lines.filterMap OutputLine.told?

/-- The number of a line is not told, and nothing depends on it. -/
theorem told_runLine (line line' : Nat) (registry : Registry) (text : String) :
    told (runLine line registry text).1 = told (runLine line' registry text).1 ∧
      (runLine line registry text).2 = (runLine line' registry text).2 := by
  by_cases hskipped : Skipped text
  · rw [runLine_skipped line registry hskipped, runLine_skipped line' registry hskipped]
    exact ⟨rfl, rfl⟩
  · rw [runLine_eq line registry hskipped, runLine_eq line' registry hskipped]
    split
    · exact ⟨rfl, rfl⟩
    · split
      · exact ⟨rfl, rfl⟩
      · exact ⟨rfl, rfl⟩

/-! ## Lines that hold no frame -/

/-- A line that holds no frame. -/
inductive Noise (text : String) : Prop
  /-- It is blank or a remark. -/
  | skipped (h : Skipped text)
  /-- It is not hexadecimal. -/
  | notHex (h : ¬ Hex.IsHex (digits text))
  /-- It has digits for less than seventeen bytes. -/
  | short (h : (digits text).length < 34)

/-- **Noise tells nothing**, and no device is registered, resolved or moved by it. -/
theorem runLine_noise (line : Nat) (registry : Registry) {text : String} (h : Noise text) :
    told (runLine line registry text).1 = [] ∧ (runLine line registry text).2 = registry := by
  have hframe (frame : Frame) (hskipped : ¬ Skipped text) : ¬ Carries text frame := by
    intro hcarries
    obtain ⟨hhex, hlong⟩ := hcarries.isHex
    cases h with
    | skipped h => exact hskipped h
    | notHex h => exact h hhex
    | short h => omega
  have hanswers := answers_runLine line registry text
  generalize runLine line registry text = answer at hanswers ⊢
  obtain ⟨lines, registry'⟩ := answer
  cases hanswers with
  | skipped => exact ⟨rfl, rfl⟩
  | notHex => exact ⟨rfl, rfl⟩
  | short => exact ⟨rfl, rfl⟩
  | decoded hskipped hcarries => exact absurd hcarries (hframe _ hskipped)
  | failed hskipped hcarries => exact absurd hcarries (hframe _ hskipped)

/-! ## Two captures -/

/-- The second capture is the first one with noise put in and taken out, and with lines written in
another way. -/
inductive Reworked : List String → List String → Prop
  | nil : Reworked [] []
  | line {text text' : String} {texts texts' : List String}
    (htext : Respelled text.toList text'.toList) (h : Reworked texts texts') :
    Reworked (text :: texts) (text' :: texts')
  | inserted {text : String} {texts texts' : List String} (htext : Noise text)
    (h : Reworked texts texts') : Reworked texts (text :: texts')
  | deleted {text : String} {texts texts' : List String} (htext : Noise text)
    (h : Reworked texts texts') : Reworked (text :: texts) texts'

theorem told_run_cons (line : Nat) (registry : Registry) (text : String) (texts : List String) :
    told (run line registry (text :: texts)) =
      told (runLine line registry text).1 ++
        told (run (line + 1) (runLine line registry text).2 texts) := List.filterMap_append

/-- **Captures that differ in noise alone tell the same.** The registry of a run is the same behind
each two lines that go together, and noise leaves it as it is. -/
theorem told_run {texts texts' : List String} (h : Reworked texts texts') (line line' : Nat)
    (registry : Registry) :
    told (run line registry texts) = told (run line' registry texts') := by
  induction h generalizing line line' registry with
  | nil => rfl
  | @line text text' texts texts' htext _ ih =>
    obtain ⟨htold, hregistry⟩ := told_runLine line line' registry text
    rw [told_run_cons, told_run_cons, ← runLine_respelled line' registry htext, htold, hregistry,
      ih (line + 1) (line' + 1)]
  | inserted htext _ ih =>
    obtain ⟨htold, hregistry⟩ := runLine_noise line' registry htext
    rw [told_run_cons, htold, hregistry, List.nil_append, ih line (line' + 1)]
  | deleted htext _ ih =>
    obtain ⟨htold, hregistry⟩ := runLine_noise line registry htext
    rw [told_run_cons, htold, hregistry, List.nil_append, ih (line + 1) line']

/-- **Noise does not change what is told of the frames of an input**: neither the descriptions, nor
the reports with their devices and positions, nor the failures, nor their order. -/
theorem noise_tells_nothing {text text' : String}
    (h : Reworked (textLines text) (textLines text')) :
    (∀ colour, replay colour (Ascii.utf8 text) =
      { exit := 0
        output := unlines ((outputLines (Ascii.utf8 text)).map (OutputLine.text colour)) }) ∧
    (∀ colour, replay colour (Ascii.utf8 text') =
      { exit := 0
        output := unlines ((outputLines (Ascii.utf8 text')).map (OutputLine.text colour)) }) ∧
    told (outputLines (Ascii.utf8 text)) = told (outputLines (Ascii.utf8 text')) := by
  refine ⟨fun colour => replay_utf8 colour text, fun colour => replay_utf8 colour text', ?_⟩
  rw [outputLines_utf8, outputLines_utf8]
  exact told_run h 1 1 startRegistry

/-- A capture of one login. -/
def login : String := "40400011123456FFFFFFFF500047BA0D0A"

/-- The login in groups of digits, among a remark, a blank line, letters and the start of a frame. -/
def noisyLogin : String := "# login\n\n40400011 123456ffffffff 5000 47ba 0d0a\nlogout\n4040\n"

theorem noise_tells_nothing_of_login : Reworked (textLines login) (textLines noisyLogin) ∧
    told (outputLines (Ascii.utf8 login)) = told (outputLines (Ascii.utf8 noisyLogin)) := by
  have hletters : ¬ Hex.IsHex (digits "logout") := fun h =>
    absurd (h.digits 0x6C (by decide +kernel)) (by decide)
  have hreworked : Reworked (textLines login) (textLines noisyLogin) := by
    rw [show textLines login = [login] by decide +kernel,
      show textLines noisyLogin =
        ["# login", "", "40400011 123456ffffffff 5000 47ba 0d0a", "logout", "4040"] by
          decide +kernel]
    exact .inserted (.skipped (.remark (by decide))) <|
      .inserted (.skipped (.blank (List.forall_mem_nil _))) <|
      .line (by decide +kernel) <|
      .inserted (.notHex hletters) <|
      .inserted (.short (by decide +kernel)) .nil
  exact ⟨hreworked, (noise_tells_nothing hreworked).2.2⟩

end Replay

end TrackerWire
