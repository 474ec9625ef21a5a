import TrackerWire.Decoder
import TrackerWire.Text.Blank
import TrackerWire.Text.Escape

/-!
# Replaying captured frames

The input holds one frame a line, in hexadecimal with blanks anywhere; blank lines and lines that
start with a number sign are skipped. Every other line is answered by a line that describes the
frame, or says what is wrong with it, and by a line for each report decoded. All devices are
accepted, and reports are recorded as last fixes (specification, §10.7, where the descriptions are
not told of).

* `run` replays lines of text into `OutputLine`s.
* `replay` replays bytes; it ends at a line that is not UTF-8.
-/

namespace TrackerWire.Replay

inductive OutputLine where
  /-- The input line is not hexadecimal. -/
  | notHex (line : Nat) (error : Hex.Error)
  /-- The bytes of the input line are no frame. -/
  | noFrame (line : Nat) (error : FrameError) (bytes : Bytes)
  /-- The frame of the input line. -/
  | description (line : Nat) (frame : Frame)
  /-- A report of the frame above. -/
  | report (report : Report)
  /-- Why the frame above cannot be decoded. -/
  | failure (error : DecodeError)

def hexMessage : Hex.Error → String
  | .oddLength => "Odd number of digits"
  | .badDigit byte index =>
    "Invalid character " ++ Text.quoted (Char.ofNat byte.toNat) ++ " at position " ++ toString index

def commandName (frame : Frame) : String := (frame.command?.map Command.name).getD "Unknown"

/-- A frame in columns: device, command, payload. -/
def describe (frame : Frame) : String :=
  Text.padRight 15 (Identity.ofRaw frame.id).digits ++ " " ++ Hex.word frame.command ++ ": " ++
    Text.padRight 14 (commandName frame) ++ " " ++ Text.escaped (Ascii.text frame.payload)

/-- The number of an input line, in its column. Lines are counted without bound; a signed counter
of 32 bits would not get beyond line 2^31 - 1. -/
def lineLabel (line : Nat) : String := Text.padLeft 5 (toString line) ++ ": "

/-- What reports and failures are indented by. -/
def indent : String := "       "

/-- The select-graphic-rendition parameters of a command's colours. -/
def colours : Option Command → String
  | some .login | some .loginResponse | some .heartbeat | some .serverQuery => "46;97"
  | some .position | some .positionLogged => "42;97"
  | some .alarm => "41;97"
  | some .rfid => "44;97"
  | some .obdRealtime | some .obdAggregate => "45;97"
  | some .retransmission => "43;30"
  | none => "40"

/-- The parameters of the colour of failures. -/
def failureColour : String := "31"

/-- Text between the sequences that switch graphic rendition on and off, if colour is on. -/
def rendered (colour : Bool) (parameters text : String) : String :=
  if colour then "\x1b[" ++ parameters ++ "m" ++ text ++ "\x1b[0m" else text

def OutputLine.text (colour : Bool) : OutputLine → String
  | notHex line error => lineLabel line ++ "invalid hex: " ++ hexMessage error
  | noFrame line error bytes => lineLabel line ++ error.message ++ ": " ++ Hex.list bytes
  | description line frame =>
    rendered colour (colours frame.command?) (lineLabel line ++ describe frame)
  | report decoded => indent ++ decoded.line
  | failure error => indent ++ rendered colour failureColour error.message

/-- The registry a replay starts with. -/
def startRegistry : Registry := { acceptsUnknown := true }

def resultLines : Decoded → List OutputLine
  | .ok outcome => outcome.reports.map .report
  | .error error => [.failure error]

/-- Replay one frame, the one of input line `line`. -/
def runFrame (line : Nat) (registry : Registry) (frame : Frame) : List OutputLine × Registry :=
  let handled := (Decoder.handle {} registry none frame).value
  (.description line frame :: resultLines handled.outcome,
    handled.registry.recordAll (Decoder.reportsOf handled.outcome))

/-- Replay one input line; mirrors §10.7. -/
def runLine (line : Nat) (registry : Registry) (text : String) : List OutputLine × Registry :=
  let content := Text.trim text.toList
  if content = [] ∨ content.head? = some '#' then ([], registry)
  else
    match Hex.decode (Ascii.utf8 (String.ofList (content.filter (· ≠ ' ')))) with
    | .error error => ([.notHex line error], registry)
    | .ok bytes =>
      match Frame.parse bytes with
      | .error error => ([.noFrame line error bytes], registry)
      | .ok frame => runFrame line registry frame

/-- Replay input lines, the first of which has the number `line`; the number has no bound
(`lineLabel`). -/
def run (line : Nat) (registry : Registry) : List String → List OutputLine
  | [] => []
  | text :: rest =>
    let first := runLine line registry text
    first.1 ++ run (line + 1) first.2 rest

/-- The lines of an input; a line end at the end of the input starts no further line. -/
def inputLines (input : Bytes) : List Bytes :=
  let lines := input.splitOnP (· = Ascii.lf)
  if lines.getLast? = some [] then lines.dropLast else lines

/-- The lines in front of the first one that is not UTF-8, and whether there is such a one. -/
def readableLines : List Bytes → List String × Bool
  | [] => ([], false)
  | line :: rest =>
    match String.fromUTF8? line.toByteArray with
    | none => ([], true)
    | some text =>
      let others := readableLines rest
      (text :: others.1, others.2)

/-- The result of the tool: its exit code and its output. -/
structure Result where
  exit : Nat
  output : String
  deriving DecidableEq, Repr

/-- Lines of text, each with a line end. -/
def unlines (lines : List String) : String := String.join (lines.map (· ++ "\n"))

/-- Replay an input. An input line that is not UTF-8 ends the tool with exit code 1. -/
def replay (colour : Bool) (input : Bytes) : Result :=
  let (lines, broken) := readableLines (inputLines input)
  { exit := if broken then 1 else 0
    output := unlines ((run 1 startRegistry lines).map (OutputLine.text colour)) }

/-- A known command with its code. -/
def commandLine (colour : Bool) (command : Command) : String :=
  rendered colour (colours (some command)) (Hex.word command.code ++ ": " ++ command.name)

def listCommands (colour : Bool) : Result :=
  { exit := 0, output := unlines (Command.all.map (commandLine colour)) }

end TrackerWire.Replay
