import TrackerWire.Address
import TrackerWire.Frame

/-!
# Log events

What the library has to tell besides its results. An event is a value; `Logged` pairs a result
with the events that led to it, in order (specification, §10.3).
-/

namespace TrackerWire

/-- The number a device is registered under. Numbers have no bound here; a counter of 64 bits would
start over only after 2^64 registrations. -/
abbrev DeviceId := Nat

inductive Level where
  | trace
  | debug
  | info
  | warn
  deriving DecidableEq, Repr

def Level.name : Level → String
  | trace => "TRACE"
  | debug => "DEBUG"
  | info => "INFO"
  | warn => "WARN"

/-- Something worth telling. -/
inductive Event where
  /-- A byte of a stream starts no frame. -/
  | skippedByte (error : FrameError)
  /-- A frame of a stream is damaged. -/
  | droppedFrame (error : FrameError) (length : Nat)
  /-- A good frame follows skipped bytes. -/
  | resynchronized (skipped : Nat)
  /-- A stream ends within a frame. -/
  | discardedTail (length : Nat)
  /-- A sentence is not in its grammar. -/
  | noMatch (grammar sentence : String)
  /-- A handshake is answered. -/
  | answered (command : Command) (remote : SocketAddress)
  /-- A reply finds the connection closed. -/
  | lostReply (remote : SocketAddress)
  /-- A frame names no device. -/
  | emptyIdentity (id : RawId)
  /-- A frame's device is not registered. -/
  | unknownDevice (identity : Identity)
  /-- A frame's command is not known. -/
  | unsupportedCommand (code : UInt16) (device : DeviceId)
  /-- A frame's sentence gives no report. -/
  | droppedSentence (command : Command) (device : DeviceId) (sentence : String)
  /-- A record of a batch gives no report. -/
  | droppedRecord (index : Nat) (device : DeviceId) (sentence : String)
  /-- A device is registered at its first frame. -/
  | registered (identifier : String) (device : DeviceId)
  deriving DecidableEq

namespace Event

/-- How much an event matters; mirrors §10.3. -/
def level : Event → Level
  | skippedByte .. | noMatch .. => .trace
  | droppedFrame .. | resynchronized .. | discardedTail .. => .warn
  | registered .. => .info
  | _ => .debug

def message : Event → String
  | skippedByte .. => "skipping byte"
  | droppedFrame .. => "dropping corrupted frame"
  | resynchronized .. => "resynchronized on frame marker"
  | discardedTail .. => "discarding incomplete frame at end of stream"
  | noMatch .. => "sentence did not match"
  | answered .. => "answering handshake"
  | lostReply .. => "connection closed, reply dropped"
  | emptyIdentity .. => "empty device identity"
  | unknownDevice .. => "unknown device"
  | unsupportedCommand .. => "unsupported command"
  | droppedSentence .. => "dropping sentence that did not match"
  | droppedRecord .. => "dropping retransmitted record"
  | registered .. => "registered new device"

/-- The details of an event, each as a name and a text. -/
def fields : Event → List (String × String)
  | skippedByte error => [("error", error.message)]
  | droppedFrame error length => [("error", error.message), ("len", toString length)]
  | resynchronized skipped => [("skipped", toString skipped)]
  | discardedTail length => [("len", toString length)]
  | noMatch grammar sentence => [("grammar", grammar), ("input", sentence)]
  | answered command remote => [("command", command.name), ("remote", remote.text)]
  | lostReply remote => [("remote", remote.text)]
  | emptyIdentity id => [("id", Hex.encode id.bytes)]
  | unknownDevice identity => [("identity", identity.digits)]
  | unsupportedCommand code device =>
    [("command", toString code.toNat), ("device", toString device)]
  | droppedSentence command device sentence =>
    [("command", command.name), ("device", toString device), ("sentence", sentence)]
  | droppedRecord index device sentence =>
    [("record", toString index), ("device", toString device), ("sentence", sentence)]
  | registered identifier device =>
    [("identifier", identifier), ("device", toString device)]

end Event

/-- A result and the events on the way to it. -/
structure Logged (α : Type) where
  value : α
  events : List Event

namespace Logged

variable {α β : Type}

def quiet (value : α) : Logged α := ⟨value, []⟩

/-- Go on with a result; the later events follow the earlier ones. -/
def andThen (first : Logged α) (next : α → Logged β) : Logged β :=
  let second := next first.value
  ⟨second.value, first.events ++ second.events⟩

/-- One event. -/
def tell (event : Event) : Logged Unit := ⟨(), [event]⟩

instance : Monad Logged where
  pure := quiet
  bind := andThen

@[simp] theorem value_pure (a : α) : (pure a : Logged α).value = a := rfl

@[simp] theorem value_bind (x : Logged α) (f : α → Logged β) :
    (x >>= f).value = (f x.value).value := rfl

@[simp] theorem value_map (x : Logged α) (f : α → β) : (f <$> x).value = f x.value := rfl

@[simp] theorem events_pure (a : α) : (pure a : Logged α).events = [] := rfl

@[simp] theorem events_bind (x : Logged α) (f : α → Logged β) :
    (x >>= f).events = x.events ++ (f x.value).events := rfl

end Logged

end TrackerWire
