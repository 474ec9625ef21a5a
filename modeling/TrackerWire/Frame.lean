import TrackerWire.Ascii
import TrackerWire.Checksum.Crc16
import TrackerWire.Command
import TrackerWire.Identity
import TrackerWire.Text.Hex

/-!
# Frames

One message on the wire (specification, §6) is

`@@`, its whole length (16 bits), the device (7 bytes), the command (16 bits), the payload, the
CRC-16 of everything before it (16 bits), carriage return, line feed.

* `Frame.wire` writes a frame, `Frame.encode` refuses one whose length does not fit its field.
* `Frame.parse` cuts a buffer that holds exactly one frame into its parts and checks nothing but
  that there are enough bytes: `Framer` has checked the rest of what comes off a stream.
-/

namespace TrackerWire

/-- Why bytes are no frame; mirrors the frame errors of §10.2. -/
inductive FrameError where
  /-- Too few bytes for a frame. -/
  | truncated (needed available : Nat)
  /-- The frame does not start with the marker. -/
  | badMarker
  /-- The frame does not end in carriage return and line feed. -/
  | badTerminator
  /-- The length does not fit a frame, or not its field. -/
  | badLength (length : Nat)
  /-- The checksum is not the one of the bytes before it. -/
  | invalidChecksum (expected actual : UInt16)
  deriving DecidableEq, Repr

def FrameError.message : FrameError → String
  | truncated needed available =>
    "frame truncated (needed " ++ toString needed ++ " bytes, " ++ toString available ++
      " available)"
  | badMarker => "frame marker not found"
  | badTerminator => "frame terminator not found"
  | badLength length => "invalid frame length " ++ toString length
  | invalidChecksum expected actual =>
    "invalid checksum (expected " ++ Hex.word expected ++ ", actual: " ++ Hex.word actual ++ ")"

/-- One message (§3). -/
structure Frame where
  /-- The device, echoed as it is in replies. -/
  id : RawId
  /-- The command's code, known or not. -/
  command : UInt16
  /-- What stands between the command and the checksum. -/
  payload : Bytes
  deriving DecidableEq

namespace Frame

/-- What a frame starts with (§6). -/
def marker : Bytes := [Ascii.atSign, Ascii.atSign]

/-- What a frame ends with (§6). -/
def terminator : Bytes := [Ascii.cr, Ascii.lf]

/-- Bytes before the payload. -/
def headerSize : Nat := 13

/-- Bytes after the payload. -/
def trailerSize : Nat := 4

/-- The length of a frame without payload. -/
def minSize : Nat := headerSize + trailerSize

/-- The greatest length the length field can hold. -/
def maxSize : Nat := 65535

/-- The known command a frame carries, if its code is known. -/
def command? (frame : Frame) : Option Command := Command.ofCode? frame.command

def encodedLength (frame : Frame) : Nat := minSize + frame.payload.length

/-- A frame up to its checksum. -/
def checkedPart (frame : Frame) : Bytes :=
  marker ++ Bytes.ofWord (UInt16.ofNat frame.encodedLength) ++ frame.id.bytes ++
    Bytes.ofWord frame.command ++ frame.payload

/-- The bytes of a frame, in the order of §6. -/
def wire (frame : Frame) : Bytes :=
  frame.checkedPart ++ Bytes.ofWord (crc16 frame.checkedPart) ++ terminator

/-- The bytes of a frame, if its length fits the length field; mirrors the encoding of §4.2. -/
def encode (frame : Frame) : Except FrameError Bytes :=
  if frame.encodedLength > maxSize then .error (.badLength frame.encodedLength)
  else .ok frame.wire

/-- Write a frame behind what a buffer already holds: whether it fitted, and the buffer after. A
refused frame leaves the buffer as it is. -/
def appendTo (buffer : Bytes) (frame : Frame) : Except FrameError Unit × Bytes :=
  match frame.encode with
  | .ok bytes => (.ok (), buffer ++ bytes)
  | .error error => (.error error, buffer)

/-- The parts of a buffer that holds exactly one frame. Marker, length, checksum and terminator
are skipped unread. Mirrors the decoding of §4.2. -/
def parse (buffer : Bytes) : Except FrameError Frame :=
  if h : buffer.length < minSize then .error (.truncated minSize buffer.length)
  else
    .ok {
      id := ⟨(buffer.drop 4).take 7, by
        simp only [minSize, headerSize, trailerSize] at h
        simp only [List.length_take, List.length_drop]
        omega⟩
      command := Bytes.leadingWord (buffer.drop 11)
      payload := (buffer.drop headerSize).take (buffer.length - minSize) }

end Frame

end TrackerWire
