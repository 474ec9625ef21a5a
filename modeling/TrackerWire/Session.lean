import TrackerWire.Decoder
import TrackerWire.Framer.Events

/-!
# A session

A registry, settings, and one connection with its byte stream. Frames come one at a time, or are
taken off the stream as its bytes arrive; the reports decoded can be recorded as last fixes
(specification, §10.7).
-/

namespace TrackerWire

/-- The state of a session. -/
structure Session where
  registry : Registry
  settings : Settings
  framer : Framer := {}
  link : Link

namespace Session

/-- Remember the reports of a result, if they are to be recorded. -/
def recordIf (record : Bool) (registry : Registry) (decoded : Decoded) : Registry :=
  if record then registry.recordAll (Decoder.reportsOf decoded) else registry

/-- Take over what the handling of a frame has left. -/
def settle (session : Session) (record : Bool) (handled : Decoder.Handled) :
    Decoded × Session :=
  (handled.outcome,
   { session with
     registry := recordIf record handled.registry handled.outcome
     link := handled.link.getD session.link })

/-- The connection, if frames are to be answered. -/
def linkIf (session : Session) (live : Bool) : Option Link :=
  if live then some session.link else none

/-- Handle a frame, on the connection if `live`. -/
def frame (session : Session) (live record : Bool) (frame : Frame) :
    Logged (Decoded × Session) := do
  let handled ← Decoder.handle session.settings session.registry (session.linkIf live) frame
  pure (session.settle record handled)

def bytes (session : Session) (live record : Bool) (buffer : Bytes) :
    Logged (Decoded × Session) := do
  let handled ←
    Decoder.handleBytes session.settings session.registry (session.linkIf live) buffer
  pure (session.settle record handled)

theorem frame_framer (session : Session) (live record : Bool) (f : Frame) :
    (session.frame live record f).value.2.framer = session.framer := rfl

/-- Take the frames off the stream until more bytes are needed, and handle each on the
connection. -/
def drain (session : Session) (record : Bool) : Logged (List Decoded × Session) :=
  let taken := session.framer.nextLogged
  match _h : taken.value with
  | (none, framer) => ⟨([], { session with framer }), taken.events⟩
  | (some f, framer) =>
    let first := ({ session with framer } : Session).frame true record f
    let others := drain first.value.2 record
    ⟨(first.value.1 :: others.value.1, others.value.2),
      taken.events ++ first.events ++ others.events⟩
termination_by session.framer.buffer.length
decreasing_by
  rw [frame_framer]
  exact Framer.next_shorter _h

def stream (session : Session) (record : Bool) (chunk : Bytes) :
    Logged (List Decoded × Session) :=
  ({ session with framer := session.framer.feed chunk } : Session).drain record

def close (session : Session) : Session := { session with link := session.link.close }

def takeReplies (session : Session) : List Frame × Session :=
  (session.link.sent, { session with link := { session.link with sent := [] } })

end Session

end TrackerWire
