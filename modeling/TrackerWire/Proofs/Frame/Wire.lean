import TrackerWire.Frame

/-!
# The wire form of a frame

`Framed bytes` says what a byte string needs to look like a frame from outside: the marker, a
length field that tells its own length, the terminator. The checksum field then decides:

* `framed_wire`, `intact_wire`: what a frame that fits its length field writes is framed, and its
  checksum field is right.
* `exists_wire`: every framed byte string with the right checksum is written by a frame, the one
  it is parsed as.
* `Corrupted`: framed, with another checksum.

`encode_parse_inverse` puts the two directions side by side: what is written is read back, and what
is read is written back from the framed and intact byte strings alone.
-/
namespace TrackerWire

namespace Bytes

theorem ofWord_word (hi lo : UInt8) : ofWord (word hi lo) = [hi, lo] := by
  have hhi := hi.toNat_lt; have hlo := lo.toNat_lt
  have h1 : UInt8.ofNat ((hi.toNat * 256 + lo.toNat) / 256) = hi := by
    apply UInt8.toNat_inj.mp; rw [UInt8.toNat_ofNat']; omega
  have h2 : UInt8.ofNat ((hi.toNat * 256 + lo.toNat) % 256) = lo := by
    apply UInt8.toNat_inj.mp; rw [UInt8.toNat_ofNat']; omega
  rw [ofWord, word_toNat, h1, h2]

theorem ofWord_leadingWord {bytes : Bytes} (h : 2 ≤ bytes.length) :
    ofWord (leadingWord bytes) = bytes.take 2 := by
  match bytes with
  | [] => simp at h
  | [_] => simp at h
  | hi :: lo :: rest => rw [leadingWord, ofWord_word]; rfl

theorem leadingWord_append {bytes : Bytes} (h : 2 ≤ bytes.length) (more : Bytes) :
    leadingWord (bytes ++ more) = leadingWord bytes := by
  match bytes with
  | [] => simp at h
  | [_] => simp at h
  | hi :: lo :: rest => rfl

end Bytes

namespace Frame

/-- The length of the frame fits the length field. -/
def Fits (f : Frame) : Prop := f.encodedLength ≤ maxSize

instance (f : Frame) : Decidable f.Fits := inferInstanceAs (Decidable (_ ≤ _))

theorem encode_of_fits {f : Frame} (h : f.Fits) : f.encode = .ok f.wire := by
  unfold Fits at h; unfold encode
  rw [if_neg (by omega)]

theorem length_checkedPart (f : Frame) : f.checkedPart.length = 13 + f.payload.length := by
  simp only [checkedPart, marker, List.length_append, Bytes.length_ofWord, f.id.length_eq,
    List.length_cons, List.length_nil]

theorem length_wire (f : Frame) : f.wire.length = f.encodedLength := by
  simp only [wire, List.length_append, length_checkedPart, Bytes.length_ofWord, terminator,
    encodedLength, minSize, headerSize, trailerSize, List.length_cons, List.length_nil]
  omega

theorem minSize_le_encodedLength (f : Frame) : minSize ≤ f.encodedLength := Nat.le_add_right _ _

theorem parse_wire (f : Frame) : parse f.wire = .ok f := by
  have hlen := f.length_wire
  have hmin := f.minSize_le_encodedLength
  have hid := f.id.length_eq
  have hbody : ∃ front behind : Bytes, front.length = 4 ∧ behind.length = 4 ∧
      f.wire = front ++ (f.id.bytes ++ (Bytes.ofWord f.command ++ (f.payload ++ behind))) := by
    refine ⟨marker ++ Bytes.ofWord (UInt16.ofNat f.encodedLength),
      Bytes.ofWord (crc16 f.checkedPart) ++ terminator, rfl, rfl, ?_⟩
    simp only [wire, List.append_assoc]
    simp only [checkedPart, List.append_assoc]
  obtain ⟨front, behind, hfront, hbehind, hw⟩ := hbody
  have hdrop4 : f.wire.drop 4 =
      f.id.bytes ++ (Bytes.ofWord f.command ++ (f.payload ++ behind)) := by
    rw [hw, ← hfront, List.drop_left]
  have hdrop11 : f.wire.drop 11 = Bytes.ofWord f.command ++ (f.payload ++ behind) := by
    rw [← List.drop_drop (i := 7) (j := 4), hdrop4, ← hid, List.drop_left]
  have hdrop13 : f.wire.drop 13 = f.payload ++ behind := by
    rw [← List.drop_drop (i := 2) (j := 11), hdrop11]; rfl
  have hpayload : f.wire.length - minSize = f.payload.length := by
    rw [hlen, encodedLength]; omega
  unfold parse
  rw [dif_neg (by omega)]
  refine congrArg Except.ok ?_
  cases f with
  | mk id command payload =>
    simp only [headerSize, mk.injEq] at *
    refine ⟨?_, ?_, ?_⟩
    · cases id with
      | mk bytes length_eq =>
        simp only [RawId.mk.injEq] at *
        rw [hdrop4, ← hid, List.take_left]
    · rw [hdrop11, Bytes.leadingWord_ofWord]
    · rw [hdrop13, hpayload, List.take_left]

/-- What a buffer of the shortest length or more is cut into. -/
theorem parse_parts {bytes : Bytes} (h : minSize ≤ bytes.length) :
    ∃ f, parse bytes = .ok f ∧ f.encodedLength = bytes.length ∧
      bytes = bytes.take 4 ++ (f.id.bytes ++ Bytes.ofWord f.command ++ f.payload) ++
        bytes.drop (bytes.length - trailerSize) := by
  have hsize : minSize = 17 := rfl
  have htrailer : trailerSize = 4 := rfl
  unfold parse
  rw [dif_neg (by omega)]
  refine ⟨_, rfl, ?_, ?_⟩
  · simp only [encodedLength, headerSize, List.length_take, List.length_drop]; omega
  · have hcommand : Bytes.ofWord (Bytes.leadingWord (bytes.drop 11)) = (bytes.drop 11).take 2 :=
      Bytes.ofWord_leadingWord (by rw [List.length_drop]; omega)
    have hpayload : (bytes.drop 13).drop (bytes.length - minSize) =
        bytes.drop (bytes.length - trailerSize) := by
      rw [List.drop_drop]; congr 1; omega
    simp only [headerSize]
    rw [hcommand, ← hpayload]
    simp only [List.append_assoc, List.take_append_drop]
    rw [← List.drop_drop (i := 2) (j := 11), List.take_append_drop,
      ← List.drop_drop (i := 7) (j := 4), List.take_append_drop, List.take_append_drop]

end Frame

/-- A frame as it looks from outside; the checksum is left open. -/
structure Framed (bytes : Bytes) : Prop where
  marker : Frame.marker <+: bytes
  size : Frame.minSize ≤ bytes.length
  length : (Bytes.leadingWord (bytes.drop 2)).toNat = bytes.length
  terminator : Frame.terminator <:+ bytes

/-- The checksum field is the check of the bytes before it. -/
def Intact (bytes : Bytes) : Prop :=
  Bytes.leadingWord (bytes.drop (bytes.length - Frame.trailerSize)) =
    crc16 (bytes.take (bytes.length - Frame.trailerSize))

/-- A frame from outside, with a wrong checksum. -/
def Corrupted (bytes : Bytes) : Prop := Framed bytes ∧ ¬ Intact bytes

namespace Frame

theorem framed_wire {f : Frame} (h : f.Fits) : Framed f.wire := by
  have hlen := f.length_wire
  refine ⟨?_, ?_, ?_, ⟨_, rfl⟩⟩
  · simp only [wire, checkedPart, List.append_assoc]
    exact List.prefix_append _ _
  · rw [hlen]; exact f.minSize_le_encodedLength
  · have hdrop : ∃ behind, f.wire.drop 2 =
        Bytes.ofWord (UInt16.ofNat f.encodedLength) ++ behind := by
      simp only [wire, checkedPart, List.append_assoc]
      exact ⟨_, rfl⟩
    obtain ⟨behind, hdrop⟩ := hdrop
    unfold Fits maxSize at h
    rw [hdrop, Bytes.leadingWord_ofWord, hlen, UInt16.toNat_ofNat']
    omega

theorem take_wire (f : Frame) : f.wire.take (f.wire.length - trailerSize) = f.checkedPart := by
  have hlen : f.wire.length - trailerSize = f.checkedPart.length := by
    rw [length_wire, length_checkedPart, encodedLength, minSize, headerSize, trailerSize]; omega
  rw [hlen, wire, List.append_assoc, List.take_left]

theorem drop_wire (f : Frame) : f.wire.drop (f.wire.length - trailerSize) =
    Bytes.ofWord (crc16 f.checkedPart) ++ terminator := by
  have hlen : f.wire.length - trailerSize = f.checkedPart.length := by
    rw [length_wire, length_checkedPart, encodedLength, minSize, headerSize, trailerSize]; omega
  rw [hlen, wire, List.append_assoc, List.drop_left]

theorem intact_wire (f : Frame) : Intact f.wire := by
  unfold Intact
  rw [take_wire, drop_wire, Bytes.leadingWord_ofWord]

/-- A framed byte string with the right checksum is what its frame writes. -/
theorem exists_wire {bytes : Bytes} (h : Framed bytes) (hsum : Intact bytes) :
    ∃ f : Frame, f.Fits ∧ f.wire = bytes := by
  have hmin : 17 ≤ bytes.length := h.size
  have htrailer : trailerSize = 4 := rfl
  obtain ⟨f, -, hlen, hparts⟩ := parse_parts h.size
  have hfits : f.Fits := by
    have := (Bytes.leadingWord (bytes.drop 2)).toNat_lt
    have := h.length
    unfold Fits maxSize; omega
  have hfront : bytes.take 4 = marker ++ Bytes.ofWord (UInt16.ofNat f.encodedLength) := by
    have hfield : UInt16.ofNat f.encodedLength = Bytes.leadingWord (bytes.drop 2) := by
      rw [hlen, ← h.length, UInt16.ofNat_toNat]
    have hmarker : bytes.take 2 = marker := (List.prefix_iff_eq_take.mp h.marker).symm
    rw [hfield, Bytes.ofWord_leadingWord (by rw [List.length_drop]; omega), ← hmarker]
    exact List.take_add (i := 2) (j := 2)
  have hchecked : f.checkedPart = bytes.take (bytes.length - trailerSize) := by
    have hw : f.checkedPart ++ bytes.drop (bytes.length - trailerSize) = bytes := by
      simp only [checkedPart]
      rw [← hfront, List.append_assoc (bytes.take 4), List.append_assoc (bytes.take 4)]
      exact hparts.symm
    have hl : f.checkedPart.length = bytes.length - trailerSize := by
      rw [length_checkedPart, ← hlen, encodedLength, minSize, headerSize, trailerSize]; omega
    rw [← hl, ← hw, List.take_left]
  have hbehind : bytes.drop (bytes.length - trailerSize) =
      Bytes.ofWord (crc16 f.checkedPart) ++ terminator := by
    obtain ⟨front, hend⟩ := h.terminator
    have hfl : bytes.length - trailerSize + 2 = front.length := by
      rw [← hend, List.length_append] at hmin ⊢
      simp only [terminator, List.length_cons, List.length_nil] at hmin ⊢; omega
    have hterm : (bytes.drop (bytes.length - trailerSize)).drop 2 = terminator := by
      rw [List.drop_drop, hfl, ← hend, List.drop_left]
    rw [hchecked, ← hsum, Bytes.ofWord_leadingWord (by rw [List.length_drop]; omega), ← hterm,
      List.take_append_drop]
  refine ⟨f, hfits, ?_⟩
  rw [wire, List.append_assoc, ← hbehind, hchecked, List.take_append_drop]

/-! ## Writing and reading -/

/-- What a frame says: device, command and payload. -/
def content (f : Frame) : Bytes := f.id.bytes ++ Bytes.ofWord f.command ++ f.payload

/-- A buffer without its first four and its last four bytes. -/
def body (bytes : Bytes) : Bytes := (bytes.drop 4).take (bytes.length - 8)

theorem content_injective {f g : Frame} (h : f.content = g.content) : f = g := by
  obtain ⟨⟨id, hid⟩, command, payload⟩ := f
  obtain ⟨⟨id', hid'⟩, command', payload'⟩ := g
  simp only [content, List.append_assoc] at h
  obtain ⟨rfl, hrest⟩ := List.append_inj h (by rw [hid, hid'])
  obtain ⟨hword, rfl⟩ := List.append_inj hrest rfl
  have hcommand : command = command' := by
    rw [← Bytes.leadingWord_ofWord command [], hword, Bytes.leadingWord_ofWord]
  rw [hcommand]

theorem parse_error_iff {bytes : Bytes} {error : FrameError} : parse bytes = .error error ↔
    bytes.length < 17 ∧ error = .truncated 17 bytes.length := by
  unfold parse
  by_cases h : bytes.length < minSize
  · rw [dif_pos h]
    refine ⟨fun he => ⟨h, ?_⟩, fun he => ?_⟩
    · cases he
      rfl
    · rw [he.2]
      rfl
  · rw [dif_neg h]
    refine ⟨fun he => ?_, fun he => absurd he.1 h⟩
    cases he

/-- Of a buffer of the shortest length or more, the inner bytes are what the frame says. -/
theorem parse_content {bytes : Bytes} (hmin : 17 ≤ bytes.length) :
    ∃ g, parse bytes = .ok g ∧ body bytes = g.content := by
  obtain ⟨g, hg, hlen, hparts⟩ := parse_parts hmin
  have htrailer : trailerSize = 4 := rfl
  refine ⟨g, hg, ?_⟩
  have hcontent : g.content.length = bytes.length - 8 := by
    simp only [content, List.length_append, g.id.length_eq, Bytes.length_ofWord]
    simp only [encodedLength, minSize, headerSize] at hlen
    omega
  have hdrop : bytes.drop 4 = g.content ++ bytes.drop (bytes.length - trailerSize) := by
    have hfront : (bytes.take 4).length = 4 := by rw [List.length_take]; omega
    conv => lhs; rw [hparts, List.append_assoc, List.drop_append_of_le_length (by omega)]
    rw [List.drop_eq_nil_of_le (by omega), List.nil_append]
    rfl
  rw [body, hdrop, ← hcontent, List.take_left]

/-- A buffer is read as the frame that its inner bytes spell. -/
theorem parse_ok_iff {bytes : Bytes} {f : Frame} : parse bytes = .ok f ↔
    17 ≤ bytes.length ∧ body bytes = f.content := by
  refine ⟨fun h => ?_, fun ⟨hmin, hbody⟩ => ?_⟩
  · have hmin : 17 ≤ bytes.length := by
      refine Nat.le_of_not_lt fun hshort => ?_
      rw [parse_error_iff.mpr ⟨hshort, rfl⟩] at h
      cases h
    obtain ⟨g, hg, hbody⟩ := parse_content hmin
    rw [hg] at h
    cases h
    exact ⟨hmin, hbody⟩
  · obtain ⟨g, hg, hcontent⟩ := parse_content hmin
    rw [hg, content_injective (hcontent.symm.trans hbody)]

theorem appendTo_eq (buffer : Bytes) (f : Frame) : appendTo buffer f =
    if 17 + f.payload.length ≤ 65535 then (.ok (), buffer ++ f.wire)
    else (.error (.badLength (17 + f.payload.length)), buffer) := by
  by_cases h : 17 + f.payload.length ≤ 65535
  · rw [if_pos h, appendTo, encode_of_fits h]
  · have hencode : f.encode = .error (.badLength f.encodedLength) := by
      unfold encode
      exact if_pos (Nat.lt_of_not_le h)
    rw [if_neg h, appendTo, hencode]
    rfl

/-- **Writing and reading are inverse.** Behind whatever a buffer holds, a frame that fits is
written as the same bytes, as many as its length, and is read back from them; one that does not fit
leaves the buffer as it is. A buffer of fewer than seventeen bytes is refused, and of any other only
the inner bytes are read. What is read from a buffer is written back as that buffer if and only if
it is framed and its checksum field is right. -/
theorem encode_parse_inverse :
    (∀ f : Frame, ∃ e, e.length = f.encodedLength ∧ parse e = .ok f ∧ ∀ p, appendTo p f =
      if 17 + f.payload.length ≤ 65535 then (.ok (), p ++ e)
      else (.error (.badLength (17 + f.payload.length)), p)) ∧
    (∀ b error, parse b = .error error ↔ b.length < 17 ∧ error = .truncated 17 b.length) ∧
    (∀ b f, parse b = .ok f ↔ 17 ≤ b.length ∧
      body b = f.id.bytes ++ Bytes.ofWord f.command ++ f.payload) ∧
    ∀ b, (∃ f, parse b = .ok f ∧ appendTo [] f = (.ok (), b)) ↔ Framed b ∧ Intact b := by
  refine ⟨fun f => ⟨f.wire, f.length_wire, f.parse_wire, fun p => appendTo_eq p f⟩,
    fun b error => parse_error_iff, fun b f => parse_ok_iff, fun b => ⟨?_, ?_⟩⟩
  · rintro ⟨f, -, hwritten⟩
    rw [appendTo_eq] at hwritten
    split at hwritten
    · rename_i hfits
      cases hwritten
      exact ⟨framed_wire hfits, f.intact_wire⟩
    · cases hwritten
  · rintro ⟨hframed, hintact⟩
    obtain ⟨f, hfits, rfl⟩ := exists_wire hframed hintact
    exact ⟨f, f.parse_wire, by rw [appendTo_eq]; exact if_pos hfits⟩

end Frame

end TrackerWire
