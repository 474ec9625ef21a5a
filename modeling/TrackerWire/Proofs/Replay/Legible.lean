import TrackerWire.Proofs.Decoder.Failure
import TrackerWire.Proofs.Replay.Sealed
import TrackerWire.Proofs.Text.Legible

/-!
# What the lines of an output say

Without colour, the lines of a replay can be read: the kind of a line from its first characters
(`readKind`), and then what it says. `SaysSame` is what two lines have in common that look the
same: the same error and the same bytes, or the same device, command and payload text, or reports
of the same device, with the same time, place and validity. So no payload makes the line of one
frame look like the line of another, or like a report.

* `Report.cut_line`: what the line of a report says of it.
* `saysSame_of_text`: lines that look the same say the same.
* `output_tells`: so do outputs, line by line.
* `columns_description`: where command and payload stand.
-/
namespace TrackerWire

open Text

/-! ## Reports -/

/-- A time is written with digits and these. -/
def Calendar.isTimeChar (c : Char) : Bool := c.isDigit || "-+: ".toList.contains c

theorem Calendar.only_text (time : Time) : Only isTimeChar (Calendar.text time) := by
  have hmarks : Only isTimeChar "-" ∧ Only isTimeChar "+" ∧ Only isTimeChar ":" ∧
      Only isTimeChar " " := by decide
  have hpad (width n : Nat) : Only isTimeChar (zeroPad width n) := fun c hc => by
    rw [isTimeChar, only_zeroPad width n c hc, Bool.true_or]
  have hyear (year : Int) : Only isTimeChar (yearText year) := by
    unfold yearText
    split
    · exact hpad _ _
    · refine only_append.mpr ⟨?_, hpad _ _⟩
      split <;> simp only [hmarks]
  simp only [Calendar.text, only_append, hyear, hpad, hmarks, and_self]

theorem Calendar.no_letter {c : Char} (h : isTimeChar c = true) : c.isAlpha = false := by
  rcases Bool.or_eq_true_iff.mp h with hdigit | hmark
  · exact not_isAlpha hdigit
  · have hmarks : Only (!·.isAlpha) "-+: " := by decide
    exact (Bool.not_eq_true' _).mp (hmarks c (List.contains_iff_mem.mp hmark))

/-- A double with a fixed number of places is written with digits and these. -/
def Decimal.isFixedChar (c : Char) : Bool := c.isDigit || ".-NaNinf".toList.contains c

theorem Decimal.only_fixed (places : Nat) (x : Float) :
    Only isFixedChar (Decimal.fixed places x) := by
  have htexts : Only isFixedChar "-" ∧ Only isFixedChar "." ∧ Only isFixedChar "NaN" ∧
      Only isFixedChar "inf" := by decide
  have hdigits {s : String} (h : Only Char.isDigit s) : Only isFixedChar s := fun c hc => by
    rw [isFixedChar, h c hc, Bool.true_or]
  have hsign (negative : Bool) {s : String} (h : Only isFixedChar s) :
      Only isFixedChar (withSign negative s) := by
    unfold withSign
    split
    · exact only_append.mpr ⟨htexts.1, h⟩
    · exact h
  unfold Decimal.fixed
  split
  · exact htexts.2.2.1
  · exact hsign _ htexts.2.2.2
  · refine hsign _ ?_
    simp only [only_append, hdigits (only_number _), hdigits (only_zeroPad _ _), htexts, and_self]

namespace Report

variable {report report' : Report}

/-- The first characters of a report's line: a time, or what stands for none. -/
def timeText (report : Report) : String := report.time.elim "--------------------" Calendar.text

def latitudeText (report : Report) : String := Decimal.fixed 6 report.latitude

def longitudeText (report : Report) : String := Decimal.fixed 6 report.longitude

/-- Two reports that look the same in front of their readings. -/
structure SameFix (report report' : Report) : Prop where
  time : report.timeText = report'.timeText
  device : report.device = report'.device
  latitude : report.latitudeText = report'.latitudeText
  longitude : report.longitudeText = report'.longitudeText
  valid : report.valid = report'.valid

theorem only_timeText (report : Report) : Only Calendar.isTimeChar report.timeText := by
  unfold timeText
  cases report.time with
  | none => decide
  | some time => exact Calendar.only_text time

theorem toList_line (report : Report) : ∃ readings : List Char, report.line.toList =
    report.timeText.toList ++ (" ".toList ++ 'd' :: ("evice ".toList ++
      ((toString report.device).toList ++ [' '] ++ (report.latitudeText.toList ++ ',' ::
        (report.longitudeText.toList ++ ' ' ::
          ((if report.valid then "valid" else "invalid").toList ++ readings)))))) := by
  refine ⟨(labelled "speed" (report.speed.map Decimal.text) ++
    labelled "course" (report.course.map Decimal.text) ++
    labelled "altitude" (report.altitude.map Decimal.text) ++
    labelled "odometer" (report.odometer.map Decimal.text) ++
    labelled "sat" (report.satellites.map toString) ++
    labelled "id" report.uniqueId ++
    labelled "alarm" (report.alarm.map Alarm.name) ++
    String.join (report.inputs.entries.map inputText) ++
    String.join (report.attributes.entries.map attributeText)).toList, ?_⟩
  unfold line timeText latitudeText longitudeText
  simp only [String.toList_append, List.append_assoc]
  rfl

theorem head_line (report : Report) : ∃ c rest, report.line.toList = c :: rest ∧
    Calendar.isTimeChar c = true := by
  obtain ⟨readings, hline⟩ := toList_line report
  rw [hline]
  cases htime : report.timeText.toList with
  | nil => exact ⟨_, _, rfl, rfl⟩
  | cons c rest => exact ⟨_, _, rfl, only_timeText report c (htime ▸ List.mem_cons_self)⟩

/-- **What the line of a report says of it.** -/
theorem cut_line (h : report.line = report'.line) : SameFix report report' := by
  obtain ⟨readings, hline⟩ := toList_line report
  obtain ⟨readings', hline'⟩ := toList_line report'
  rw [h, hline'] at hline
  have htimeChars (r : Report) : 'd' ∉ r.timeText.toList ++ " ".toList := by
    rw [← String.toList_append]
    exact (only_append.mpr ⟨only_timeText r, by decide⟩).not_mem (by decide)
  simp only [← List.append_assoc _ " ".toList] at hline
  obtain ⟨htime, hbehind⟩ := cut_at (htimeChars report') (htimeChars report) hline
  obtain ⟨hdevice, hplace⟩ := delimited_number (by decide) (List.append_cancel_left hbehind)
  obtain ⟨hlatitude, hlongitude⟩ := cut_at ((Decimal.only_fixed 6 _).not_mem (by decide))
    ((Decimal.only_fixed 6 _).not_mem (by decide)) hplace
  obtain ⟨hlongitude, hvalid⟩ := cut_at ((Decimal.only_fixed 6 _).not_mem (by decide))
    ((Decimal.only_fixed 6 _).not_mem (by decide)) hlongitude
  refine ⟨(String.toList_inj.mp (List.append_cancel_right htime)).symm, hdevice.symm,
    (String.toList_inj.mp hlatitude).symm, (String.toList_inj.mp hlongitude).symm, ?_⟩
  cases hv : report.valid <;> cases hv' : report'.valid
  · rfl
  · rw [hv, hv'] at hvalid; cases hvalid
  · rw [hv, hv'] at hvalid; cases hvalid
  · rfl

end Report

theorem Identity.only_digits (id : RawId) : Only Char.isDigit (Identity.ofRaw id).digits := by
  intro c hc
  rw [ofRaw, String.toList_ofList] at hc
  obtain ⟨n, -, hc⟩ := List.mem_flatMap.mp hc
  exact Nat.isDigit_of_mem_toDigits (by decide) (by decide) hc

/-! ## Errors -/

theorem PayloadPart.name_injective : Function.Injective PayloadPart.name := by
  intro part part' h
  cases part <;> cases part' <;> first | rfl | exact absurd h (by decide)

/-- The message of a part that is short tells which part, and both numbers. -/
theorem DecodeError.cut_truncated {part part' : PayloadPart}
    {needed needed' available available' : Nat}
    (h : (truncated part needed available).message = (truncated part' needed' available').message) :
    truncated part needed available = truncated part' needed' available' := by
  have hname (p : PayloadPart) : '(' ∉ p.name.toList ++ " truncated ".toList := by
    cases p <;> decide
  have hlist (p : PayloadPart) (m n : Nat) : (truncated p m n).message.toList =
      p.name.toList ++ " truncated ".toList ++ '(' :: ("needed ".toList ++
        ((toString m).toList ++ [' '] ++ ("bytes, ".toList ++
          ((toString n).toList ++ [' '] ++ "available)".toList)))) := by
    unfold message
    simp only [String.toList_append, List.append_assoc]
    rfl
  have hsame := congrArg String.toList h
  rw [hlist, hlist] at hsame
  obtain ⟨hpart, hbehind⟩ := cut_at (hname _) (hname _) hsame
  obtain ⟨rfl, hrest⟩ := delimited_number (by decide) (List.append_cancel_left hbehind)
  obtain ⟨rfl, -⟩ := delimited_number (by decide) (List.append_cancel_left hrest)
  rw [PayloadPart.name_injective (String.toList_inj.mp (List.append_cancel_right hpart))]

theorem FrameError.message_truncated (needed available : Nat) : ∃ rest,
    (truncated needed available).message.toList = 'f' :: rest := by
  unfold message
  simp only [String.toList_append, List.append_assoc]
  exact ⟨_, rfl⟩

theorem DecodeError.message_truncated (part : PayloadPart) (needed available : Nat) : ∃ c rest,
    (truncated part needed available).message.toList = c :: rest ∧ c.isAlpha = true := by
  unfold message
  simp only [String.toList_append, List.append_assoc]
  cases part <;> exact ⟨_, _, rfl, rfl⟩

theorem FrameError.no_colon (needed available : Nat) :
    ':' ∉ (truncated needed available).message.toList := by
  have hplain : Only (· ≠ ':') "frame truncated (needed " ∧ Only (· ≠ ':') " bytes, " ∧
      Only (· ≠ ':') " available)" := by decide
  have hdigits (n : Nat) : Only (· ≠ ':') (toString n) := fun c hc => decide_eq_true fun h => by
    rw [h] at hc
    cases only_number n _ hc
  have hmessage : Only (· ≠ ':') (truncated needed available).message := by
    unfold message
    simp only [only_append, hdigits, hplain, and_self]
  exact hmessage.not_mem (by decide)

theorem Decoder.Short.eq_truncated {command : Command} {payload : Bytes} {error : DecodeError}
    (h : Short command payload error) :
    ∃ part needed available, error = .truncated part needed available := by
  cases h <;> exact ⟨_, _, _, rfl⟩

namespace Replay

theorem char_injective : Function.Injective fun b : UInt8 => Char.ofNat b.toNat := by
  intro b b' h
  have hnumber (b : UInt8) : (Char.ofNat b.toNat).toNat = b.toNat := by
    have hb := b.toNat_lt
    rw [Char.ofNat, dif_pos (.inl (by omega))]
    rfl
  have hsame := congrArg Char.toNat h
  simp only [hnumber] at hsame
  exact UInt8.toNat_inj.mp hsame

theorem hexMessage_injective : Function.Injective hexMessage := by
  intro error error' h
  have hlist (byte : UInt8) (index : Nat) : (hexMessage (.badDigit byte index)).toList =
      "Invalid character ".toList ++ ((quoted (Char.ofNat byte.toNat)).toList ++
        (" at position ".toList ++ (toString index).toList)) := by
    show ("Invalid character " ++ quoted (Char.ofNat byte.toNat) ++ " at position " ++
      toString index).toList = _
    simp only [String.toList_append, List.append_assoc]
  have hsame := congrArg String.toList h
  cases error with
  | oddLength =>
    cases error' with
    | oddLength => rfl
    | badDigit byte' index' => rw [hlist] at hsame; cases congrArg List.head? hsame
  | badDigit byte index =>
    cases error' with
    | oddLength => rw [hlist] at hsame; cases congrArg List.head? hsame
    | badDigit byte' index' =>
      rw [hlist, hlist] at hsame
      obtain ⟨hbyte, hindex⟩ := delimited_quoted (List.append_cancel_left hsame)
      rw [char_injective hbyte, toString_injective (List.append_cancel_left hindex)]

/-! ## Kinds of lines -/

/-- What a line is for. -/
inductive Kind where
  | notHex
  | noFrame
  | description
  | report
  | failure
  deriving DecidableEq

def OutputLine.kind : OutputLine → Kind
  | notHex .. => .notHex
  | noFrame .. => .noFrame
  | description .. => .description
  | report .. => .report
  | failure .. => .failure

/-- The kind of a line by its characters. A line without a number is a failure if it starts with a
letter, else a report; a line with a number says behind it if there is no frame. -/
def readKind (text : List Char) : Kind :=
  if (text.take 5).all (· = ' ') then
    if (text.drop 7).head?.any Char.isAlpha then .failure else .report
  else
    match ((text.dropWhile (· ≠ ':')).drop 2).head? with
    | some 'i' => .notHex
    | some 'f' => .noFrame
    | _ => .description

/-- The errors that a replay tells of: of bytes that are too short for a frame, and of payloads that
are too short for their command. -/
def OutputLine.Replayed : OutputLine → Prop
  | noFrame _ error bytes => error = .truncated 17 bytes.length
  | failure error => ∃ part needed available, error = .truncated part needed available
  | _ => True

theorem toList_label (line : Nat) (body : List Char) : (lineLabel line).toList ++ body =
    (padLeft 5 (toString line)).toList ++ [':'] ++ ' ' :: body := by
  simp only [lineLabel, String.toList_append, List.append_assoc]
  rfl

theorem readKind_labelled (line : Nat) (body : List Char) :
    readKind ((lineLabel line).toList ++ body) =
      match body.head? with
      | some 'i' => .notHex
      | some 'f' => .noFrame
      | _ => .description := by
  obtain ⟨d, rest, hd, -, hpad⟩ := exists_digit_padLeft 5 line
  rw [toList_label]
  have hfirst : (((padLeft 5 (toString line)).toList ++ [':'] ++ ' ' :: body).take 5).all
      (· = ' ') = false := by
    refine List.all_eq_false.mpr ⟨d, ?_, fun hblank => ?_⟩
    · have hcolumn : 5 - (rest.length + 1) < 5 := by omega
      refine List.mem_of_getElem? (i := 5 - (rest.length + 1)) ?_
      rw [List.getElem?_take_of_lt hcolumn, hpad]
      simp
    · rw [of_decide_eq_true hblank] at hd
      cases hd
  have hbehind : ((padLeft 5 (toString line)).toList ++ [':'] ++ ' ' :: body).dropWhile (· ≠ ':') =
      ':' :: ' ' :: body := by
    have hnone : ∀ c ∈ (padLeft 5 (toString line)).toList, decide (c ≠ ':') = true :=
      fun c hc => decide_eq_true fun h => not_mem_padLeft 5 line (by decide) rfl (h ▸ hc)
    rw [List.append_assoc, List.dropWhile_append_of_pos hnone]
    rfl
  rw [readKind, hfirst, hbehind]
  rfl

theorem readKind_indented (body : List Char) : readKind (indent.toList ++ body) =
    if body.head?.any Char.isAlpha then .failure else .report := rfl

theorem toList_describe (frame : Frame) : (describe frame).toList =
    (padRight 15 (Identity.ofRaw frame.id).digits).toList ++ ' ' ::
      ((Hex.word frame.command).toList ++ (": ".toList ++
        ((padRight 14 (commandName frame)).toList ++ ' ' ::
          (escaped (Ascii.text frame.payload)).toList))) := by
  simp only [describe, String.toList_append, List.append_assoc]
  rfl

/-- A device's digits come first in a description, or a blank. -/
theorem head_describe (frame : Frame) : ∃ c rest, (describe frame).toList = c :: rest ∧
    (c.isDigit || c = ' ') = true := by
  rw [toList_describe]
  cases hcolumn : (padRight 15 (Identity.ofRaw frame.id).digits).toList with
  | nil => exact ⟨_, _, rfl, rfl⟩
  | cons c rest =>
    refine ⟨_, _, rfl, ?_⟩
    have hc : c ∈ (padRight 15 (Identity.ofRaw frame.id).digits).toList :=
      hcolumn ▸ List.mem_cons_self
    rw [toList_padRight] at hc
    rcases List.mem_append.mp hc with hdigit | hblank
    · rw [Identity.only_digits frame.id c hdigit, Bool.true_or]
    · rw [List.eq_of_mem_replicate hblank]; rfl

/-- **The kind of a line can be read off it.** -/
theorem readKind_text {out : OutputLine} (h : out.Replayed) :
    readKind (out.text false).toList = out.kind := by
  cases out with
  | notHex line error =>
    show readKind (lineLabel line ++ "invalid hex: " ++ hexMessage error).toList = _
    simp only [String.toList_append, List.append_assoc, readKind_labelled]
    rfl
  | noFrame line error bytes =>
    cases h
    obtain ⟨rest, hmessage⟩ := FrameError.message_truncated 17 bytes.length
    show readKind (lineLabel line ++ (FrameError.truncated 17 bytes.length).message ++ ": " ++
      Hex.list bytes).toList = _
    simp only [String.toList_append, List.append_assoc, readKind_labelled, hmessage]
    rfl
  | description line frame =>
    obtain ⟨c, rest, hhead, hc⟩ := head_describe frame
    show readKind (lineLabel line ++ describe frame).toList = _
    rw [String.toList_append, readKind_labelled, hhead]
    split
    · rename_i hletter
      cases hletter
      cases hc
    · rename_i hletter
      cases hletter
      cases hc
    · rfl
  | report decoded =>
    obtain ⟨c, rest, hhead, hc⟩ := decoded.head_line
    show readKind (indent ++ decoded.line).toList = _
    rw [String.toList_append, readKind_indented, hhead]
    show (if c.isAlpha = true then Kind.failure else Kind.report) = _
    rw [Calendar.no_letter hc]
    rfl
  | failure error =>
    obtain ⟨part, needed, available, rfl⟩ := h
    obtain ⟨c, rest, hhead, hc⟩ := DecodeError.message_truncated part needed available
    show readKind (indent ++ (DecodeError.truncated part needed available).message).toList = _
    rw [String.toList_append, readKind_indented, hhead]
    exact if_pos hc

/-! ## What lines say -/

/-- What two lines have in common that look the same. -/
inductive SaysSame : OutputLine → OutputLine → Prop
  | notHex (line : Nat) (error : Hex.Error) : SaysSame (.notHex line error) (.notHex line error)
  | noFrame (line : Nat) (error : FrameError) (bytes : Bytes) :
    SaysSame (.noFrame line error bytes) (.noFrame line error bytes)
  | description (line : Nat) {frame frame' : Frame}
    (hdevice : (Identity.ofRaw frame.id).digits = (Identity.ofRaw frame'.id).digits)
    (hcommand : frame.command = frame'.command)
    (hpayload : Ascii.text frame.payload = Ascii.text frame'.payload) :
    SaysSame (.description line frame) (.description line frame')
  | report {report report' : Report} (h : report.SameFix report') :
    SaysSame (.report report) (.report report')
  | failure (error : DecodeError) : SaysSame (.failure error) (.failure error)

theorem cut_label {line line' : Nat} {body body' : String}
    (h : lineLabel line ++ body = lineLabel line' ++ body') : line = line' ∧ body = body' := by
  have hsame := congrArg String.toList h
  rw [String.toList_append, String.toList_append, toList_label, toList_label] at hsame
  obtain ⟨rfl, hbody⟩ := delimited_label 5 hsame
  exact ⟨rfl, String.toList_inj.mp (List.cons.inj hbody).2⟩

theorem cut_describe {frame frame' : Frame} (h : describe frame = describe frame') :
    (Identity.ofRaw frame.id).digits = (Identity.ofRaw frame'.id).digits ∧
      frame.command = frame'.command ∧
      Ascii.text frame.payload = Ascii.text frame'.payload := by
  have hsame := congrArg String.toList h
  rw [toList_describe, toList_describe] at hsame
  obtain ⟨hdevice, hsame⟩ := cut_column ((Identity.only_digits _).not_mem rfl)
    ((Identity.only_digits _).not_mem rfl) hsame
  obtain ⟨hcommand, hsame⟩ := Hex.delimited_word hsame
  have hname : commandName frame = commandName frame' := by
    rw [commandName, commandName, Frame.command?, Frame.command?, hcommand]
  rw [hname] at hsame
  have hpayload := (List.cons.inj (List.append_cancel_left (List.append_cancel_left hsame))).2
  exact ⟨hdevice, hcommand, escaped_injective (String.toList_inj.mp hpayload)⟩

theorem cut_notHex {line line' : Nat} {error error' : Hex.Error}
    (h : (OutputLine.notHex line error).text false = (OutputLine.notHex line' error').text false) :
    line = line' ∧ error = error' := by
  have hsame : lineLabel line ++ ("invalid hex: " ++ hexMessage error) =
      lineLabel line' ++ ("invalid hex: " ++ hexMessage error') := by
    rw [← String.append_assoc, ← String.append_assoc]
    exact h
  obtain ⟨hline, hbody⟩ := cut_label hsame
  exact ⟨hline, hexMessage_injective ((String.append_right_inj _).mp hbody)⟩

theorem cut_noFrame {line line' : Nat} {bytes bytes' : Bytes}
    (h : (OutputLine.noFrame line (.truncated 17 bytes.length) bytes).text false =
      (OutputLine.noFrame line' (.truncated 17 bytes'.length) bytes').text false) :
    line = line' ∧ bytes = bytes' := by
  have hsame : lineLabel line ++ ((FrameError.truncated 17 bytes.length).message ++
        (": " ++ Hex.list bytes)) =
      lineLabel line' ++ ((FrameError.truncated 17 bytes'.length).message ++
        (": " ++ Hex.list bytes')) := by
    rw [← String.append_assoc, ← String.append_assoc, ← String.append_assoc,
      ← String.append_assoc]
    exact h
  obtain ⟨hline, hbody⟩ := cut_label hsame
  have hbody := congrArg String.toList hbody
  simp only [String.toList_append] at hbody
  -- the message has no colon, so the bytes start behind the first one
  obtain ⟨-, hlist⟩ := cut_at (FrameError.no_colon _ _) (FrameError.no_colon _ _) hbody
  exact ⟨hline, Hex.list_injective (String.toList_inj.mp (List.cons.inj hlist).2)⟩

/-- **Lines that look the same say the same.** -/
theorem saysSame_of_text {out out' : OutputLine} (h : out.Replayed) (h' : out'.Replayed)
    (hsame : out.text false = out'.text false) : SaysSame out out' := by
  have hkind : out.kind = out'.kind := by rw [← readKind_text h, ← readKind_text h', hsame]
  cases out with
  | notHex line error =>
    cases out' with
    | notHex line' error' =>
      obtain ⟨rfl, rfl⟩ := cut_notHex hsame
      exact .notHex _ _
    | _ => cases hkind
  | noFrame line error bytes =>
    cases out' with
    | noFrame line' error' bytes' =>
      cases h
      cases h'
      obtain ⟨rfl, rfl⟩ := cut_noFrame hsame
      exact .noFrame _ _ _
    | _ => cases hkind
  | description line frame =>
    cases out' with
    | description line' frame' =>
      obtain ⟨rfl, hbody⟩ := cut_label hsame
      obtain ⟨hdevice, hcommand, hpayload⟩ := cut_describe hbody
      exact .description _ hdevice hcommand hpayload
    | _ => cases hkind
  | report report =>
    cases out' with
    | report report' => exact .report (Report.cut_line ((String.append_right_inj _).mp hsame))
    | _ => cases hkind
  | failure error =>
    cases out' with
    | failure error' =>
      obtain ⟨part, needed, available, rfl⟩ := h
      obtain ⟨part', needed', available', rfl⟩ := h'
      rw [DecodeError.cut_truncated ((String.append_right_inj _).mp hsame)]
      exact .failure _
    | _ => cases hkind

/-! ## What outputs say -/

theorem replayed_answer {line : Nat} {registry registry' : Registry} {text : String}
    {answer : List OutputLine} (h : Answers line registry text answer registry') :
    ∀ out ∈ answer, out.Replayed := by
  cases h with
  | skipped => exact List.forall_mem_nil _
  | notHex => exact List.forall_mem_singleton.mpr trivial
  | short => exact List.forall_mem_singleton.mpr rfl
  | decoded =>
    refine List.forall_mem_cons.mpr ⟨trivial, fun out hout => ?_⟩
    obtain ⟨report, -, rfl⟩ := List.mem_map.mp hout
    trivial
  | failed _ _ hfailed =>
    obtain ⟨-, -, -, command, -, hshort⟩ := Decoder.outcome_error_iff.mp hfailed
    exact List.forall_mem_cons.mpr ⟨trivial, List.forall_mem_singleton.mpr hshort.eq_truncated⟩

theorem replayed_answers {line : Nat} {registry : Registry} {texts : List String}
    {answers : List (List OutputLine)} (h : AnswersAll line registry texts answers) :
    ∀ out ∈ answers.flatten, out.Replayed := by
  induction h with
  | nil => exact List.forall_mem_nil _
  | cons hanswer _ ih => exact List.forall_mem_append.mpr ⟨replayed_answer hanswer, ih⟩

theorem toList_unlines_cons (s : String) (lines : List String) :
    (unlines (s :: lines)).toList = s.toList ++ '\n' :: (unlines lines).toList := by
  simp only [unlines, List.map_cons, String.join_cons, String.toList_append, List.append_assoc]
  rfl

/-- Lines that have no line end in them are known from their text. -/
theorem unlines_injective {lines lines' : List String} (h : ∀ s ∈ lines, Visible s)
    (h' : ∀ s ∈ lines', Visible s) (hsame : unlines lines = unlines lines') : lines = lines' := by
  have hend {s : String} (hs : Visible s) : '\n' ∉ s.toList := fun hmem => by cases hs _ hmem
  have hne (s : String) (rest : List String) : unlines (s :: rest) ≠ "" := fun hnil => by
    have hlist := congrArg String.toList hnil
    rw [toList_unlines_cons] at hlist
    exact List.append_ne_nil_of_right_ne_nil _ (List.cons_ne_nil _ _) hlist
  induction lines generalizing lines' with
  | nil =>
    cases lines' with
    | nil => rfl
    | cons s' lines' => exact absurd hsame.symm (hne s' lines')
  | cons s lines ih =>
    cases lines' with
    | nil => exact absurd hsame (hne s lines)
    | cons s' lines' =>
      obtain ⟨hs, hlines⟩ := List.forall_mem_cons.mp h
      obtain ⟨hs', hlines'⟩ := List.forall_mem_cons.mp h'
      have hlists := congrArg String.toList hsame
      rw [toList_unlines_cons, toList_unlines_cons] at hlists
      obtain ⟨hfirst, hrest⟩ := cut_at (hend hs) (hend hs') hlists
      rw [String.toList_inj.mp hfirst, ih hlines hlines' (String.toList_inj.mp hrest)]

theorem saysSame_of_texts {outs outs' : List OutputLine} (h : ∀ out ∈ outs, out.Replayed)
    (h' : ∀ out ∈ outs', out.Replayed)
    (hsame : outs.map (OutputLine.text false) = outs'.map (OutputLine.text false)) :
    List.Forall₂ SaysSame outs outs' := by
  induction outs generalizing outs' with
  | nil =>
    cases outs' with
    | nil => exact .nil
    | cons out' outs' => cases hsame
  | cons out outs ih =>
    cases outs' with
    | nil => cases hsame
    | cons out' outs' =>
      obtain ⟨hfirst, hothers⟩ := List.forall_mem_cons.mp h
      obtain ⟨hfirst', hothers'⟩ := List.forall_mem_cons.mp h'
      obtain ⟨htext, htexts⟩ := List.cons.inj hsame
      exact .cons (saysSame_of_text hfirst hfirst' htext) (ih hothers hothers' htexts)

/-- **Outputs that are the same say the same, line by line.** -/
theorem output_tells {input input' : Bytes}
    (h : (replay false input).output = (replay false input').output) :
    List.Forall₂ SaysSame (outputLines input) (outputLines input') := by
  have hlines (input : Bytes) : (∀ out ∈ outputLines input, out.Replayed) ∧
      ∀ s ∈ (outputLines input).map (OutputLine.text false), Visible s := by
    obtain ⟨texts, rest, answers, -, -, hanswers, houtput⟩ := answers_outputLines input
    rw [houtput]
    exact ⟨replayed_answers hanswers, List.forall_mem_map.mpr (visible_answers hanswers)⟩
  rw [replay_output, replay_output] at h
  exact saysSame_of_texts (hlines input).1 (hlines input').1
    (unlines_injective (hlines input).2 (hlines input').2 h)

/-! ## Columns -/

/-- **Where command and payload stand.** On the first 99 999 lines, and if the device has at most
fifteen digits, the command is in the columns from 23 on and the payload in those from 44 on. -/
theorem columns_description {line : Nat} {frame : Frame} (hline : line < 100000)
    (hdevice : (Identity.ofRaw frame.id).digits.length ≤ 15) :
    let text := ((OutputLine.description line frame).text false).toList
    (text.drop 23).take 4 = (Hex.word frame.command).toList ∧
      text.drop 44 = (escaped (Ascii.text frame.payload)).toList := by
  intro text
  have hnumber : (toString line).length ≤ 5 := (Nat.length_repr_le_iff (by decide)).mpr hline
  have hname : (commandName frame).length ≤ 14 := by
    unfold commandName
    cases frame.command? with
    | none => decide
    | some command => cases command <;> decide
  let front := (padLeft 5 (toString line)).toList ++ [':', ' '] ++
    (padRight 15 (Identity.ofRaw frame.id).digits).toList ++ [' ']
  let middle := ": ".toList ++ (padRight 14 (commandName frame)).toList ++ [' ']
  have hfront : front.length = 23 := by
    simp only [front, List.length_append, length_padLeft hnumber, length_padRight hdevice]
    rfl
  have hmiddle : middle.length = 17 := by
    simp only [middle, List.length_append, length_padRight hname]
    rfl
  have htext : text = front ++ ((Hex.word frame.command).toList ++
      (middle ++ (escaped (Ascii.text frame.payload)).toList)) := by
    show (lineLabel line ++ describe frame).toList = _
    rw [String.toList_append, toList_label, toList_describe]
    simp [front, middle]
  rw [htext]
  refine ⟨?_, ?_⟩
  · rw [List.drop_left' hfront, List.take_left' (Hex.length_word _)]
  · have hcolumns :
        44 = front.length + ((Hex.word frame.command).toList.length + middle.length) := by
      rw [hfront, hmiddle, Hex.length_word]
    rw [hcolumns, ← List.drop_drop, List.drop_left, ← List.drop_drop, List.drop_left,
      List.drop_left]

end Replay

end TrackerWire
