import TrackerWire.Registry
import TrackerWire.Sentence.Decode
import TrackerWire.Settings

/-!
# Decoding frames

What a frame leads to: on a live connection a handshake is answered; otherwise the frame's device
is looked up and the payload decoded into reports (specification, §4.2 to §4.6).

* `handle` does all of it for one frame.
* `decodePayload` is the part behind the lookup; it reads the registry's last fixes and changes
  nothing.
-/

namespace TrackerWire

/-- The parts of a payload that have a fixed width. -/
inductive PayloadPart where
  | alarmCode
  | loggedTimestamp
  | cardBlock
  | recordCount
  | recordAlarm
  deriving DecidableEq, Repr

def PayloadPart.name : PayloadPart → String
  | alarmCode => "alarm code"
  | loggedTimestamp => "logged timestamp"
  | cardBlock => "card block"
  | recordCount => "record count"
  | recordAlarm => "record alarm"

/-- Why a frame cannot be decoded; mirrors the decoding errors of §10.2. -/
inductive DecodeError where
  /-- The bytes are no frame. -/
  | frame (error : FrameError)
  /-- The payload ends within a part of fixed width. -/
  | truncated (part : PayloadPart) (needed available : Nat)
  deriving DecidableEq, Repr

def DecodeError.message : DecodeError → String
  | frame error => error.message
  | truncated part needed available =>
    part.name ++ " truncated (needed " ++ toString needed ++ " bytes, " ++ toString available ++
      " available)"

/-- What a frame was decoded to. -/
inductive Outcome where
  /-- A handshake, an unknown device or command, or a sentence that gives no report. -/
  | nothing
  | report (report : Report)
  /-- The reports of a batch, in the order they came in. -/
  | batch (reports : List Report)

def Outcome.reports : Outcome → List Report
  | nothing => []
  | report decoded => [decoded]
  | batch decoded => decoded

def Outcome.ofOption : Option Report → Outcome
  | some decoded => report decoded
  | none => nothing

/-- The result of decoding: an outcome or an error. -/
abbrev Decoded := Except DecodeError Outcome

/-- A connection that frames can be answered on. -/
structure Link where
  localAddress : SocketAddress
  remote : SocketAddress
  /-- Someone takes the replies. -/
  isOpen : Bool := true
  /-- The replies queued, first one first. -/
  sent : List Frame := []
  deriving DecidableEq

namespace Link

/-- Queue a reply; on a closed connection it is lost. -/
def send (link : Link) (reply : Frame) : Logged Link :=
  if link.isOpen then ⟨{ link with sent := link.sent ++ [reply] }, []⟩
  else ⟨link, [.lostReply link.remote]⟩

/-- The receiving end goes away. -/
def close (link : Link) : Link := { link with isOpen := false }

end Link

namespace Decoder

def acknowledgement : Bytes := [0x01]

/-- The reply to a handshake command; other commands have none. A server query is answered with
the address configured for the protocol, else with the local end of the connection. Mirrors the
table of §4.2. -/
def reply? (settings : Settings) (localAddress : SocketAddress) (frame : Frame)
    (command : Command) : Option Frame :=
  match command with
  | .login => some ⟨frame.id, Command.loginResponse.code, acknowledgement⟩
  | .heartbeat => some ⟨frame.id, Command.heartbeat.code, acknowledgement⟩
  | .serverQuery =>
    let address := (settings.serverAddress? protocolName).getD localAddress.hostPort
    some ⟨frame.id, Command.serverQuery.code, Ascii.utf8 address⟩
  | _ => none

/-! ## Payloads -/

/-- How many bytes stand in front of a logged position (§4.5). -/
def timestampSize : Nat := 6

/-- How many cards a swipe can hold (§4.5). -/
def cardSlots : Nat := 15

/-- What separates the records of a batch (§4.6). -/
def recordDelimiter : UInt8 := Ascii.backslash

/-- A card as ten digits. -/
def cardText (card : Nat) : String := Text.zeroPad 10 card

/-- A report with the cards of a swipe, from slot `slot` on; zero marks an empty slot. The last
card identifies the driver. Mirrors §4.5, with the keys of §10.8. -/
def addCards (slot : Nat) : List Nat → Report → Report
  | [], report => report
  | card :: rest, report =>
    let report :=
      if card = 0 then report
      else
        { report.set ("card" ++ toString slot) (.text (cardText card)) with
          uniqueId := some (cardText card) }
    addCards (slot + 1) rest report

/-- A report with what an alarm code says; mirrors §4.5. -/
def addAlarm (code : UInt8) (report : Report) : Report :=
  let report := { report with alarm := Alarm.ofCode? code }
  match inputChange? code with
  | some (input, active) => { report with inputs := report.inputs.put input active }
  | none => report

/-- The outcome of a payload's sentence, telling of one that gives no report. -/
def decodeSentence (command : Command) (kind : SentenceKind) (report : Report)
    (payload : Bytes) : Logged Decoded := do
  let sentence := Ascii.text payload
  let decoded ← kind.decodeLogged report sentence
  if decoded.isNone then Logged.tell (.droppedSentence command report.device sentence)
  pure (.ok (.ofOption decoded))

/-- The records of a batch from number `index` on, `count` of them. Each is an alarm byte, which
is not reported again, and a sentence up to a delimiter or the end. Mirrors §4.6. -/
def decodeRecords (device : DeviceId) (index : Nat) :
    (count : Nat) → Bytes → Logged (Except DecodeError (List Report))
  | 0, _ => pure (.ok [])
  | _ + 1, [] => pure (.error (.truncated .recordAlarm 1 0))
  | count + 1, _ :: payload => do
    -- §4.6 keeps four bytes back from a record without delimiter; a payload has no trailer to keep
    let sentence := Ascii.text (payload.takeWhile (· ≠ recordDelimiter))
    let decoded ← SentenceKind.regular.decodeLogged (.blank device) sentence
    if decoded.isNone then Logged.tell (.droppedRecord index device sentence)
    let others ← decodeRecords device (index + 1) count
      ((payload.dropWhile (· ≠ recordDelimiter)).drop 1)
    pure (others.map (decoded.toList ++ ·))

/-- What a device's payload says, by its command; mirrors the branches of §4.5. -/
def decodePayload (lastFix : DeviceId → Option Fix) (device : DeviceId) (command : Command)
    (payload : Bytes) : Logged Decoded :=
  let blank := Report.blank device
  match command with
  | .position => decodeSentence command .regular blank payload
  | .positionLogged =>
    if payload.length < timestampSize then
      pure (.error (.truncated .loggedTimestamp timestampSize payload.length))
    else decodeSentence command .regular blank (payload.drop timestampSize)
  | .alarm =>
    match payload with
    | [] => pure (.error (.truncated .alarmCode 1 0))
    | code :: sentence => decodeSentence command .regular (addAlarm code blank) sentence
  | .rfid =>
    if payload.length < cardSlots * 4 then
      pure (.error (.truncated .cardBlock (cardSlots * 4) payload.length))
    else
      let cards := Bytes.words32 (payload.take (cardSlots * 4))
      decodeSentence command .rfid (addCards 1 cards blank) (payload.drop (cardSlots * 4))
  -- no place in these two payloads: the last fix of the device stands in for it
  | .obdRealtime => decodeSentence command .obdRealtime (blank.seed (lastFix device)) payload
  | .obdAggregate => decodeSentence command .obdAggregate (blank.seed (lastFix device)) payload
  | .retransmission =>
    match payload with
    | [] => pure (.error (.truncated .recordCount 1 0))
    | count :: records => do
      let reports ← decodeRecords device 0 count.toNat records
      pure (reports.map .batch)
  | .heartbeat | .serverQuery | .login | .loginResponse => pure (.ok .nothing)

/-! ## Frames -/

/-- What the handling of a frame leaves behind. -/
structure Handled where
  outcome : Decoded
  registry : Registry
  link : Option Link

/-- The connection of a frame that is to be answered, and the answer. -/
def handshake? (settings : Settings) (link : Option Link) (frame : Frame) :
    Option (Link × Command × Frame) := do
  let link ← link
  let command ← frame.command?
  let reply ← reply? settings link.localAddress frame command
  some (link, command, reply)

/-- Decode the frame of a device that has been looked up. -/
def decodeFrame (registry : Registry) (frame : Frame) (device : DeviceId) : Logged Decoded :=
  match frame.command? with
  | none => ⟨.ok .nothing, [.unsupportedCommand frame.command device]⟩
  | some command => decodePayload registry.lastFix device command frame.payload

/-- Look the device of a frame up, and decode the frame; mirrors the end of §4.3. -/
def decodeIdentified (registry : Registry) (frame : Frame) : Logged (Decoded × Registry) :=
  let identity := Identity.ofRaw frame.id
  match identity.candidates with
  | [] => ⟨(.ok .nothing, registry), [.emptyIdentity frame.id]⟩
  | candidates => do
    let (device, registry) ← registry.resolve candidates
    match device with
    | none => ⟨(.ok .nothing, registry), [.unknownDevice identity]⟩
    | some device => do
      let decoded ← decodeFrame registry frame device
      pure (decoded, registry)

/-- Handle one frame. A handshake is answered only on a connection, and then needs no device.
Mirrors §4.2 in front of §4.5. -/
def handle (settings : Settings) (registry : Registry) (link : Option Link) (frame : Frame) :
    Logged Handled :=
  match handshake? settings link frame with
  | some (link, command, reply) => do
    Logged.tell (.answered command link.remote)
    let link ← link.send reply
    pure { outcome := .ok .nothing, registry, link := some link }
  | none => do
    let (outcome, registry) ← decodeIdentified registry frame
    pure { outcome, registry, link }

/-- Handle a buffer that holds exactly one frame. -/
def handleBytes (settings : Settings) (registry : Registry) (link : Option Link)
    (buffer : Bytes) : Logged Handled :=
  match Frame.parse buffer with
  | .error error => pure { outcome := .error (.frame error), registry, link }
  | .ok frame => handle settings registry link frame

/-- The reports of a result; an error has none. -/
def reportsOf : Decoded → List Report
  | .ok outcome => outcome.reports
  | .error _ => []

end Decoder

end TrackerWire
