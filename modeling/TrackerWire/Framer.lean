import TrackerWire.Frame

/-!
# Taking frames off a byte stream

A device's connection delivers bytes in pieces of any size, with noise between frames. The framer
holds the bytes not yet used. One look at them (`examine`) says that more are needed, that the
first byte starts no frame and is to be skipped, that a whole frame is damaged and is to be
dropped, or that a good frame is there (specification, §10.5).

* `Framer.next` looks until it has a frame or needs more bytes.
* `Framer.finish` does the same at the end of the stream, where what is left is discarded.
* `Framer.drain` takes every frame there is.
-/

namespace TrackerWire

namespace Framing

/-- What one look at the buffer says. -/
inductive Verdict where
  /-- More bytes are needed. -/
  | wait
  /-- No frame starts at the first byte. -/
  | skip (error : FrameError)
  /-- A frame of this length is here, and its checksum is wrong. -/
  | corrupted (length : Nat) (expected actual : UInt16)
  /-- A frame of this length is here with a right checksum, and its parts cannot be read. -/
  | unparsed (length : Nat) (error : FrameError)
  /-- A good frame of this length is here. -/
  | good (frame : Frame) (length : Nat)
  deriving DecidableEq

/-- Judge the bytes of a whole frame, from marker to terminator, by its checksum. -/
def examineChecksum (length : Nat) (candidate : Bytes) : Verdict :=
  let expected := crc16 (candidate.take (length - Frame.trailerSize))
  let actual := Bytes.leadingWord (candidate.drop (length - Frame.trailerSize))
  if expected ≠ actual then .corrupted length expected actual
  else
    match Frame.parse candidate with
    | .ok frame => .good frame length
    | .error error => .unparsed length error

/-- Judge a buffer by the length field behind its marker: a frame of that length has to end in the
terminator. -/
def examineLength (length : Nat) (buffer : Bytes) : Verdict :=
  if length < Frame.minSize then .skip (.badLength length)
  else
    match buffer.drop (length - 2) with
    | a :: b :: _ =>
      if [a, b] = Frame.terminator then examineChecksum length (buffer.take length)
      -- one byte, where §10.5 has the whole frame: the marker may stand inside junk
      else .skip .badTerminator
    | _ => .wait

/-- Judge the bytes at the start of a buffer. A buffer that ends within the marker or the length
field may still become a frame. Mirrors §10.5, check by check. -/
def examine (buffer : Bytes) : Verdict :=
  match buffer with
  | [] => .wait
  | [a] => if a = Ascii.atSign then .wait else .skip .badMarker
  | a :: b :: rest =>
    if a = Ascii.atSign ∧ b = Ascii.atSign then
      match rest with
      | hi :: lo :: _ => examineLength (Bytes.word hi lo).toNat buffer
      | _ => .wait
    else .skip .badMarker

theorem examineChecksum_length {n : Nat} {c : Bytes} :
    (∀ {l e a}, examineChecksum n c = .corrupted l e a → l = n) ∧
      (∀ {f l}, examineChecksum n c = .good f l → l = n) := by
  unfold examineChecksum
  dsimp only
  split
  · simp +contextual
  · split <;> simp +contextual

theorem examineLength_length {n : Nat} {buffer : Bytes} :
    (∀ {l e a}, examineLength n buffer = .corrupted l e a → l = n ∧ 17 ≤ n) ∧
      (∀ {f l}, examineLength n buffer = .good f l → l = n ∧ 17 ≤ n) := by
  unfold examineLength
  split
  · simp
  · rename_i hn
    simp only [Frame.minSize, Frame.headerSize, Frame.trailerSize] at hn
    split
    · split
      · exact ⟨fun h => ⟨examineChecksum_length.1 h, by omega⟩,
          fun h => ⟨examineChecksum_length.2 h, by omega⟩⟩
      · simp
    · simp

theorem examine_corrupted_length {buffer : Bytes} {l : Nat} {e a : UInt16}
    (h : examine buffer = .corrupted l e a) : 17 ≤ l ∧ buffer ≠ [] := by
  unfold examine at h
  split at h
  · simp at h
  · split at h <;> simp at h
  · split at h
    · split at h
      · obtain ⟨rfl, h17⟩ := examineLength_length.1 h
        exact ⟨h17, by simp⟩
      · simp at h
    · simp at h

theorem examine_good_length {buffer : Bytes} {f : Frame} {l : Nat}
    (h : examine buffer = .good f l) : 17 ≤ l ∧ buffer ≠ [] := by
  unfold examine at h
  split at h
  · simp at h
  · split at h <;> simp at h
  · split at h
    · split at h
      · obtain ⟨rfl, h17⟩ := examineLength_length.2 h
        exact ⟨h17, by simp⟩
      · simp at h
    · simp at h

theorem examine_skip_ne_nil {buffer : Bytes} {e : FrameError} (h : examine buffer = .skip e) :
    buffer ≠ [] := by
  rintro rfl
  simp [examine] at h

theorem examine_unparsed_ne_nil {buffer : Bytes} {l : Nat} {e : FrameError}
    (h : examine buffer = .unparsed l e) : buffer ≠ [] := by
  rintro rfl
  simp [examine] at h

end Framing

/-- The receiving end of a byte stream. -/
structure Framer where
  /-- Bytes received and not yet used. -/
  buffer : Bytes := []
  /-- Bytes skipped since the last good frame. -/
  skipped : Nat := 0
  deriving DecidableEq

namespace Framer

open Framing

def feed (framer : Framer) (chunk : Bytes) : Framer :=
  { framer with buffer := framer.buffer ++ chunk }

/-- Take the next good frame, skipping and dropping whatever stands before it. Without one, the
bytes that may still become a frame stay. A frame whose parts cannot be read is gone before the
byte behind it is skipped. -/
def next (framer : Framer) : Option Frame × Framer :=
  match _h : examine framer.buffer with
  | .wait => (none, framer)
  | .skip _ => next { buffer := framer.buffer.drop 1, skipped := framer.skipped + 1 }
  | .corrupted length _ _ => next { framer with buffer := framer.buffer.drop length }
  | .unparsed length _ =>
    next { buffer := framer.buffer.drop (length + 1), skipped := framer.skipped + 1 }
  | .good frame length => (some frame, { buffer := framer.buffer.drop length, skipped := 0 })
termination_by framer.buffer.length
decreasing_by
  · have := List.length_pos_iff.mpr (examine_skip_ne_nil _h)
    simp only [List.length_drop]
    omega
  · have := examine_corrupted_length _h
    have := List.length_pos_iff.mpr this.2
    simp only [List.length_drop]
    omega
  · have := List.length_pos_iff.mpr (examine_unparsed_ne_nil _h)
    simp only [List.length_drop]
    omega

/-- Take the next good frame at the end of the stream; without one, what is left is discarded. -/
def finish (framer : Framer) : Option Frame × Framer :=
  match framer.next with
  | (some frame, rest) => (some frame, rest)
  | (none, rest) => (none, { rest with buffer := [] })

theorem next_shorter {framer rest : Framer} {frame : Frame}
    (h : framer.next = (some frame, rest)) : rest.buffer.length < framer.buffer.length := by
  fun_induction next framer with
  | case1 => simp at h
  | case2 framer e he ih =>
    have := ih h
    simp only [List.length_drop] at this
    omega
  | case3 framer l e a he ih =>
    have := ih h
    simp only [List.length_drop] at this
    omega
  | case4 framer l e he ih =>
    have := ih h
    simp only [List.length_drop] at this
    omega
  | case5 framer f l he =>
    simp only [Prod.mk.injEq, Option.some.injEq] at h
    obtain ⟨h17, hne⟩ := examine_good_length he
    have := List.length_pos_iff.mpr hne
    rw [← h.2]
    simp only [List.length_drop]
    omega

/-- Take every frame there is. -/
def drain (framer : Framer) : List Frame × Framer :=
  match _h : framer.next with
  | (none, rest) => ([], rest)
  | (some frame, rest) =>
    let later := drain rest
    (frame :: later.1, later.2)
termination_by framer.buffer.length
decreasing_by exact next_shorter _h

/-- Write a frame behind the bytes held. A frame that does not fit its length field is refused,
and the framer stays as it is. -/
def write (framer : Framer) (frame : Frame) : Except FrameError Unit × Framer :=
  let (result, buffer) := frame.appendTo framer.buffer
  (result, { framer with buffer })

end Framer

end TrackerWire
