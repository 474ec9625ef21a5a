import Mathlib.Data.List.Forall2
import TrackerWire.Proofs.Decoder.Reports
import TrackerWire.Proofs.Framer.Resync
import TrackerWire.Session

/-!
# A live connection

A session takes frames off its stream and handles each on its connection. `frames` is the handling
alone, frame by frame, and `streams` the handling of chunks of bytes as they arrive.

What handling does to a session is in `frame_live`: a handshake queues its reply and does nothing
else, every other frame is decoded and may be recorded. It reads neither the framer nor what is
queued already, so both can be exchanged under a run (`frames_framer`, `frames_dropped`).

* `streams_value`: chunks lead where the frames lead that a framer takes off them.
* `frames_link`: an open connection queues the replies that are owed, and no others.
* `frames_recorded`: recording adds the reports of a run to the registry, and nothing else.
* `live_frame_by_frame`: a connection behaves frame by frame, however its bytes are cut, and
  dropping the receiving end makes no difference but to later replies.
-/
namespace TrackerWire

namespace Command

theorem ofCode?_eq_some {code : UInt16} {command : Command} :
    ofCode? code = some command ↔ code = command.code := by
  refine ⟨fun h => ?_, fun h => h ▸ ofCode?_code command⟩
  have := List.find?_some h
  exact (of_decide_eq_true this).symm

end Command

/-- Login, heartbeat and server query: the frames that are answered on a connection. -/
def Frame.isHandshake (frame : Frame) : Bool := frame.command?.any Decoder.isHandshake

/-- What a handshake is answered with. The reply echoes the device; a server query is told the
address configured for the protocol, else the local end of the connection. -/
inductive Answers (settings : Settings) (localAddress : SocketAddress) : Frame → Frame → Prop
  | login (id payload) :
    Answers settings localAddress ⟨id, Command.login.code, payload⟩
      ⟨id, Command.loginResponse.code, [0x01]⟩
  | heartbeat (id payload) :
    Answers settings localAddress ⟨id, Command.heartbeat.code, payload⟩
      ⟨id, Command.heartbeat.code, [0x01]⟩
  | configured (id payload address) (h : settings.serverAddress? "meiligao" = some address) :
    Answers settings localAddress ⟨id, Command.serverQuery.code, payload⟩
      ⟨id, Command.serverQuery.code, Ascii.utf8 address⟩
  | localEnd (id payload) (h : settings.serverAddress? "meiligao" = none) :
    Answers settings localAddress ⟨id, Command.serverQuery.code, payload⟩
      ⟨id, Command.serverQuery.code,
        Ascii.utf8 (localAddress.ip.text ++ ":" ++ toString localAddress.port.toNat)⟩

namespace Decoder

/-- The reply a frame is owed. -/
def answer? (settings : Settings) (localAddress : SocketAddress) (frame : Frame) : Option Frame :=
  frame.command?.bind (reply? settings localAddress frame)

theorem answers_of_answer? {settings : Settings} {localAddress : SocketAddress}
    {frame reply : Frame} (h : answer? settings localAddress frame = some reply) :
    Answers settings localAddress frame reply := by
  obtain ⟨command, hcommand, hreply⟩ := Option.bind_eq_some_iff.mp h
  have hcode := Command.ofCode?_eq_some.mp hcommand
  obtain ⟨id, code, payload⟩ := frame
  simp only at hcode
  subst hcode
  cases command with
  | login => cases hreply; exact .login id payload
  | heartbeat => cases hreply; exact .heartbeat id payload
  | serverQuery =>
    cases hreply
    cases haddress : settings.serverAddress? protocolName with
    | some address => exact .configured id payload address haddress
    | none => exact .localEnd id payload haddress
  | _ => cases hreply

theorem isSome_answer? (settings : Settings) (localAddress : SocketAddress) (frame : Frame) :
    (answer? settings localAddress frame).isSome = frame.isHandshake := by
  unfold answer? Frame.isHandshake
  cases frame.command? with
  | none => rfl
  | some command => exact isSome_reply? localAddress command

theorem isSome_handshake? (settings : Settings) (link : Option Link) (frame : Frame) :
    (handshake? settings link frame).isSome = (link.isSome && frame.isHandshake) := by
  cases link with
  | none => rfl
  | some link =>
    rw [Option.isSome_some, Bool.true_and, ← isSome_answer? settings link.localAddress]
    unfold handshake? answer?
    cases hcommand : frame.command? with
    | none => rfl
    | some command =>
      cases hreply : reply? settings link.localAddress frame command <;> simp [hreply]

end Decoder

open Decoder

namespace Session

variable (session : Session) (record : Bool)

/-! ## One frame -/

/-- **One frame on a live connection.** -/
theorem frame_live (f : Frame) : (session.frame true record f).value =
    match answer? session.settings session.link.localAddress f with
    | some reply => (.ok .nothing, { session with link := (session.link.send reply).value })
    | none =>
      let decoded := (decodeIdentified session.registry f).value
      (decoded.1, { session with registry := recordIf record decoded.2 decoded.1 }) := by
  have hhandshake : handshake? session.settings (some session.link) f =
      (answer? session.settings session.link.localAddress f).bind fun reply =>
        f.command?.map fun command => (session.link, command, reply) := by
    unfold handshake? answer?
    cases f.command? with
    | none => rfl
    | some command =>
      cases hreply : reply? session.settings session.link.localAddress f command <;>
        simp [hreply]
  simp only [frame, linkIf, if_true, Logged.value_bind, Logged.value_pure, settle]
  cases hanswer : answer? session.settings session.link.localAddress f with
  | none =>
    rw [hanswer] at hhandshake
    rw [handle_decoded hhandshake]
    rfl
  | some reply =>
    obtain ⟨command, hcommand, -⟩ := Option.bind_eq_some_iff.mp hanswer
    rw [hanswer, hcommand] at hhandshake
    rw [handle_answered hhandshake]
    cases record <;> rfl

theorem send_value (link : Link) (reply : Frame) : (link.send reply).value =
    { link with sent := link.sent ++ if link.isOpen then [reply] else [] } := by
  obtain ⟨localAddress, remote, isOpen, sent⟩ := link
  cases isOpen <;> simp [Link.send]

theorem send_closed {link : Link} (h : link.isOpen = false) (reply : Frame) :
    (link.send reply).value = link := by
  unfold Link.send
  rw [h]
  rfl

theorem frame_handshake {f : Frame} (h : f.isHandshake = true) :
    (session.frame true record f).value.1 = .ok .nothing ∧
      (session.frame true record f).value.2.registry = session.registry := by
  rw [← isSome_answer? session.settings session.link.localAddress] at h
  obtain ⟨reply, hreply⟩ := Option.isSome_iff_exists.mp h
  rw [frame_live, hreply]
  exact ⟨rfl, rfl⟩

/-- The connection after a frame: the reply it is owed, if anyone takes replies. -/
theorem frame_link (f : Frame) : (session.frame true record f).value.2.link =
    { session.link with
      sent := session.link.sent ++ if session.link.isOpen then
        (answer? session.settings session.link.localAddress f).toList else [] } := by
  rw [frame_live]
  cases answer? session.settings session.link.localAddress f with
  | none => simp
  | some reply => exact send_value session.link reply

theorem frame_settings (f : Frame) :
    (session.frame true record f).value.2.settings = session.settings := rfl

/-- The registry after a frame is what its handling leaves, with its reports recorded if they are
to be. -/
theorem frame_registry (f : Frame) : (session.frame true record f).value.2.registry =
    let handled := (handle session.settings session.registry (some session.link) f).value
    if record then handled.registry.recordAll (reportsOf handled.outcome)
    else handled.registry := rfl

/-- Reports may as well be recorded before a frame that is not recorded as after it. -/
theorem frame_recordAll (reports : List Report) (f : Frame) :
    (({ session with registry := session.registry.recordAll reports } : Session).frame true false
        f).value.2 =
      { (session.frame true false f).value.2 with
        registry := (session.frame true false f).value.2.registry.recordAll reports } := by
  simp only [frame_live]
  cases answer? session.settings session.link.localAddress f with
  | some reply => rfl
  | none =>
    simp only [recordIf, decodeIdentified_registry, Registry.resolve_recordAll, Bool.false_eq_true,
      if_false]

theorem frame_other_framer (framer : Framer) (f : Frame) :
    (({ session with framer } : Session).frame true record f).value =
      ((session.frame true record f).value.1,
        { (session.frame true record f).value.2 with framer }) := by
  simp only [frame_live]
  cases answer? session.settings session.link.localAddress f <;> rfl

/-- On a connection that nobody takes replies from, a frame leads to the same and queues
nothing. -/
theorem frame_dropped (link : Link) (hclosed : link.isOpen = false)
    (hlocal : link.localAddress = session.link.localAddress) (f : Frame) :
    (({ session with link } : Session).frame true record f).value =
      ((session.frame true record f).value.1,
        { (session.frame true record f).value.2 with link }) := by
  simp only [frame_live, hlocal]
  cases answer? session.settings session.link.localAddress f with
  | none => rfl
  | some reply => simp only [send_closed hclosed]

/-! ## Frame by frame -/

/-- Handle frames one after the other on the connection. -/
def frames (session : Session) (record : Bool) : List Frame → List Decoded × Session
  | [] => ([], session)
  | f :: later =>
    let first := (session.frame true record f).value
    let others := frames first.2 record later
    (first.1 :: others.1, others.2)

theorem frames_append (early late : List Frame) : session.frames record (early ++ late) =
    let before := session.frames record early
    (before.1 ++ (before.2.frames record late).1, (before.2.frames record late).2) := by
  induction early generalizing session with
  | nil => rfl
  | cons f early ih => simp only [List.cons_append, frames, ih]

theorem frames_same_framer (fs : List Frame) :
    (session.frames record fs).2.framer = session.framer := by
  induction fs generalizing session with
  | nil => rfl
  | cons f fs ih => rw [frames, ih]; exact frame_framer session true record f

theorem frames_framer (framer : Framer) (fs : List Frame) :
    ({ session with framer } : Session).frames record fs =
      ((session.frames record fs).1, { (session.frames record fs).2 with framer }) := by
  induction fs generalizing session with
  | nil => rfl
  | cons f fs ih => simp only [frames, frame_other_framer, ih]

/-- **An open connection queues the replies that are owed**, in order. -/
theorem frames_link (hopen : session.link.isOpen = true) (fs : List Frame) :
    (session.frames record fs).2.link = { session.link with
      sent := session.link.sent ++
        fs.filterMap (answer? session.settings session.link.localAddress) } := by
  induction fs generalizing session with
  | nil => simp [frames]
  | cons f fs ih =>
    have hlink := frame_link session record f
    rw [if_pos hopen] at hlink
    rw [frames, ih _ (by rw [hlink]; exact hopen), hlink, frame_settings]
    cases hanswer : answer? session.settings session.link.localAddress f with
    | none => rw [List.filterMap_cons_none hanswer]; simp
    | some reply => rw [List.filterMap_cons_some hanswer]; simp

theorem frames_recordAll (reports : List Report) (fs : List Frame) :
    (({ session with registry := session.registry.recordAll reports } : Session).frames false
        fs).2.registry = (session.frames false fs).2.registry.recordAll reports := by
  induction fs generalizing session with
  | nil => rfl
  | cons f fs ih => simp only [frames, frame_recordAll, ih]

/-- **What recording leaves.** A run that records leaves the registry of the run that does not, with
the reports of its own outcomes recorded in it, in order. -/
theorem frames_recorded (fs : List Frame) : (session.frames true fs).2.registry =
    (session.frames false fs).2.registry.recordAll
      ((session.frames true fs).1.flatMap reportsOf) := by
  induction fs generalizing session with
  | nil => rfl
  | cons f fs ih =>
    have hfirst : (session.frame true true f).value.2 =
        { (session.frame true false f).value.2 with
          registry := (session.frame true false f).value.2.registry.recordAll
            (reportsOf (session.frame true true f).value.1) } := rfl
    simp only [frames, ih, List.flatMap_cons]
    -- the reports of the first frame are recorded before the other frames are handled
    rw [hfirst, frames_recordAll]
    simp only [Registry.recordAll, List.foldl_append]

theorem frames_dropped (link : Link) (hclosed : link.isOpen = false)
    (hlocal : link.localAddress = session.link.localAddress) (fs : List Frame) :
    ({ session with link } : Session).frames record fs =
      ((session.frames record fs).1, { (session.frames record fs).2 with link }) := by
  induction fs generalizing session with
  | nil => rfl
  | cons f fs ih =>
    have hnext : link.localAddress = (session.frame true record f).value.2.link.localAddress := by
      rw [frame_link]; exact hlocal
    simp only [frames, frame_dropped session record link hclosed hlocal, ih _ hnext]

/-- The replies owed answer the handshakes among the frames, one each. -/
theorem answers_filter (settings : Settings) (localAddress : SocketAddress) (fs : List Frame) :
    List.Forall₂ (Answers settings localAddress) (fs.filter Frame.isHandshake)
      (fs.filterMap (answer? settings localAddress)) := by
  induction fs with
  | nil => exact .nil
  | cons f fs ih =>
    have hsome := isSome_answer? settings localAddress f
    cases hanswer : answer? settings localAddress f with
    | none =>
      rw [hanswer] at hsome
      rw [List.filterMap_cons_none hanswer, List.filter_cons_of_neg (by rw [← hsome]; decide)]
      exact ih
    | some reply =>
      rw [hanswer] at hsome
      rw [List.filterMap_cons_some hanswer, List.filter_cons_of_pos hsome.symm]
      exact .cons (answers_of_answer? hanswer) ih

/-! ## Chunk by chunk -/

/-- Chunks arrive on the stream one after the other. -/
def streams (session : Session) (record : Bool) : List Bytes → List Decoded × Session
  | [] => ([], session)
  | chunk :: later =>
    let first := (session.stream record chunk).value
    let others := streams first.2 record later
    (first.1 ++ others.1, others.2)

/-- What the framer of a session does while chunks arrive. -/
def reads (chunks : List Bytes) : List Framer.Action :=
  chunks.flatMap fun chunk => [.feed chunk, .drain]

theorem streams_append (early late : List Bytes) : session.streams record (early ++ late) =
    let before := session.streams record early
    (before.1 ++ (before.2.streams record late).1, (before.2.streams record late).2) := by
  induction early generalizing session with
  | nil => rfl
  | cons chunk early ih => simp only [List.cons_append, streams, ih, List.append_assoc]

theorem drain_value (session : Session) (record : Bool) : (session.drain record).value =
    ({ session with framer := session.framer.drain.2 } : Session).frames record
      session.framer.drain.1 := by
  rw [drain, Framer.drain_eq]
  split
  case h_1 framer h =>
    have h : session.framer.next = (none, framer) := h
    rw [h]
    rfl
  case h_2 f framer h =>
    have h : session.framer.next = (some f, framer) := h
    rw [h]
    have hothers := drain_value (({ session with framer } : Session).frame true record f).value.2
      record
    rw [frame_framer] at hothers
    show ((({ session with framer } : Session).frame true record f).value.1 ::
        (drain (({ session with framer } : Session).frame true record f).value.2 record).value.1,
      (drain (({ session with framer } : Session).frame true record f).value.2 record).value.2) = _
    rw [hothers, frame_other_framer session record framer]
    show _ = (({ session with framer := framer.drain.2 } : Session).frames record
      (f :: framer.drain.1))
    rw [frames, frame_other_framer session record framer.drain.2]
termination_by session.framer.buffer.length
decreasing_by
  rw [frame_framer]
  exact Framer.next_shorter h

/-- Chunks lead where the frames lead that the framer takes off them. -/
theorem streams_value (chunks : List Bytes) : session.streams record chunks =
    ({ session with framer := Framer.after session.framer (reads chunks) } : Session).frames record
      (Framer.emitted session.framer (reads chunks)) := by
  induction chunks generalizing session with
  | nil => rfl
  | cons chunk chunks ih =>
    let drained := (session.framer.feed chunk).drain
    have hfirst : (session.stream record chunk).value =
        ({ session with framer := drained.2 } : Session).frames record drained.1 :=
      drain_value _ record
    have hframer : (session.stream record chunk).value.2.framer = drained.2 := by
      rw [hfirst]; exact frames_same_framer _ record _
    have hafter : Framer.after session.framer (reads (chunk :: chunks)) =
        Framer.after drained.2 (reads chunks) := rfl
    have hemitted : Framer.emitted session.framer (reads (chunk :: chunks)) =
        drained.1 ++ Framer.emitted drained.2 (reads chunks) := rfl
    rw [streams, ih, hframer, hafter, hemitted, frames_append, hfirst,
      frames_framer session record drained.2, frames_framer session record (Framer.after ..)]

/-- A framer that waits also waits once everything that has arrived is drained. -/
theorem reads_wait (chunks : List Bytes) (framer : Framer) (h : framer.step? = none) :
    (Framer.after framer (reads chunks)).step? = none := by
  induction chunks generalizing framer with
  | nil => exact h
  | cons chunk chunks ih => exact ih _ (Framer.drain_steps _).2.2

/-- What frames write is taken back frame by frame, in whatever chunks it arrives. -/
theorem reads_wires {fs : List Frame} (hfits : ∀ f ∈ fs, f.Fits) {chunks : List Bytes}
    (hchunks : chunks.flatten = Frame.wires fs) :
    Framer.emitted {} (reads chunks) = fs ∧ Framer.after {} (reads chunks) = {} := by
  have hgoes : ∀ action ∈ reads chunks, action ≠ .finish := by
    intro action h
    obtain ⟨chunk, -, h⟩ := List.mem_flatMap.mp h
    rcases List.mem_pair.mp h with rfl | rfl <;> simp
  have hfed : Framer.fed (reads chunks) = Frame.wires fs := by
    rw [← hchunks]
    clear hchunks hgoes
    induction chunks with
    | nil => rfl
    | cons chunk chunks ih =>
      rw [List.flatten_cons, ← ih]
      rfl
  have hsteps := Framer.replay {} (reads chunks) hgoes
  have hwait := reads_wait chunks {} (Framer.step_wait rfl)
  rw [hfed] at hsteps
  obtain ⟨hsegments, hleft⟩ := Framer.drain_wires hfits 0
  have hall := hsteps.drainSegments
  have hdrain := congrArg Prod.snd hsteps.drain
  rw [Framer.drainSegments_wait hwait, List.append_nil] at hall
  rw [Framer.drain_wait hwait] at hdrain
  refine ⟨?_, ?_⟩
  · rw [Framer.emitted_eq_frames, ← hall]
    show (Framer.drainSegments ⟨Frame.wires fs, 0⟩).filterMap Segment.frame? = fs
    rw [hsegments, List.filterMap_map]
    exact List.filterMap_some
  · refine hdrain.symm.trans ?_
    show (Framer.drain ⟨Frame.wires fs, 0⟩).2 = {}
    rw [hleft, ite_self]

/-! ## The receiving end goes away -/

/-- Dropping the receiving end between two parts of a run changes nothing that follows but the
replies, which are not queued any more. -/
def LosesRepliesOnly {α : Type} (run : Session → List α → List Decoded × Session)
    (session : Session) (early late : List α) : Prop :=
  let before := run session early
  let dropped := run before.2.close late
  let whole := run session (early ++ late)
  before.1 ++ dropped.1 = whole.1 ∧ dropped.2 = { whole.2 with link := before.2.link.close }

theorem losesRepliesOnly_frames (early late : List Frame) :
    LosesRepliesOnly (fun s => s.frames record) session early late := by
  unfold LosesRepliesOnly
  simp only [frames_append]
  generalize (session.frames record early).2 = before
  have hdropped : before.close.frames record late = ((before.frames record late).1,
      { (before.frames record late).2 with link := before.link.close }) :=
    frames_dropped before record before.link.close rfl rfl late
  rw [hdropped]
  exact ⟨rfl, rfl⟩

theorem losesRepliesOnly_streams (early late : List Bytes) :
    LosesRepliesOnly (fun s => s.streams record) session early late := by
  unfold LosesRepliesOnly
  simp only [streams_append]
  generalize (session.streams record early).2 = before
  have hdropped : before.close.streams record late = ((before.streams record late).1,
      { (before.streams record late).2 with link := before.link.close }) := by
    rw [streams_value before.close, streams_value before]
    exact frames_dropped { before with framer := Framer.after before.framer (reads late) } record
      before.link.close rfl rfl (Framer.emitted before.framer (reads late))
  rw [hdropped]
  exact ⟨rfl, rfl⟩

/-! ## A live connection -/

/-- **A live connection behaves frame by frame.** However the bytes of frames are cut into chunks,
they lead to the outcomes, the registry and the queued replies of the frames handled one at a time,
recorded or not. The replies are one for each handshake, in order, and no other frame has one; a
handshake leaves the registry alone. A frame has the outcome of its handling, and leaves the
registry that its handling leaves, with its reports recorded if they are to be; so recording only
adds the reports of a run to the registry. Dropping the receiving end, between any chunks of any
stream or between any frames, loses the later replies and changes nothing else. -/
theorem live_frame_by_frame (hfresh : session.framer = {}) (hopen : session.link.isOpen = true)
    (fs : List Frame) (hfits : ∀ f ∈ fs, f.Fits) (chunks : List Bytes)
    (hchunks : chunks.flatten = Frame.wires fs) :
    session.streams record chunks = session.frames record fs ∧
    (∃ replies,
      (session.frames record fs).2.link =
        { session.link with sent := session.link.sent ++ replies } ∧
      List.Forall₂ (Answers session.settings session.link.localAddress)
        (fs.filter Frame.isHandshake) replies) ∧
    (∀ (s : Session) (f : Frame), f.isHandshake = true →
      (s.frame true record f).value.2.registry = s.registry) ∧
    (∀ (s : Session) (f : Frame),
      let handled := (handle s.settings s.registry (some s.link) f).value
      (s.frame true record f).value.1 = handled.outcome ∧
        (s.frame true record f).value.2.registry =
          if record then handled.registry.recordAll (reportsOf handled.outcome)
          else handled.registry) ∧
    (session.frames true fs).2.registry = (session.frames false fs).2.registry.recordAll
      ((session.frames true fs).1.flatMap reportsOf) ∧
    (∀ early late, LosesRepliesOnly (fun s => s.streams record) session early late) ∧
    ∀ early late, LosesRepliesOnly (fun s => s.frames record) session early late := by
  obtain ⟨hemitted, hafter⟩ := reads_wires hfits hchunks
  refine ⟨?_, ⟨_, frames_link session record hopen fs, answers_filter _ _ fs⟩,
    fun s f h => (frame_handshake s record h).2, fun s f => ⟨rfl, frame_registry s record f⟩,
    frames_recorded session fs, losesRepliesOnly_streams session record,
    losesRepliesOnly_frames session record⟩
  rw [streams_value, hfresh, hemitted, hafter, ← hfresh]

/-- A login, a position, engine totals and a heartbeat of a device that is not known yet, in two
chunks that cut the position in two. The position is recorded, so the totals say its time; without
recording they have none. If the receiving end goes away behind the position, the heartbeat's reply
is lost, and only that. -/
theorem live_login_and_heartbeat :
    let session : Session :=
      { registry := { acceptsUnknown := true }
        settings := {}
        link := ⟨⟨.v4 10 0 0 1, 5009, 0⟩, ⟨.v4 10 0 0 2, 40001, 0⟩, true, []⟩ }
    let id : RawId := ⟨[0x13, 0x61, 0x23, 0x45, 0x67, 0x8F, 0xFF], rfl⟩
    let position : Frame := ⟨id, Command.position.code,
      Ascii.utf8 "123456,A,1234.5678,N,09876.5432,E,10.5,90.0,010122"⟩
    let totals : Frame := ⟨id, Command.obdAggregate.code,
      Ascii.utf8 "120,356.5,40.25,3,45,130,6200,12,9"⟩
    let early : List Frame := [⟨id, Command.login.code, []⟩, position]
    let late : List Frame := [totals, ⟨id, Command.heartbeat.code, []⟩]
    let fs := early ++ late
    let chunks := [(Frame.wires fs).take 40, (Frame.wires fs).drop 40]
    let timesOf := fun (outcomes : List Decoded) =>
      (outcomes.flatMap reportsOf).map fun report => (report.time, report.outdated)
    let dropped := (session.frames true early).2.close.frames true late
    (session.framer = {} ∧ session.link.isOpen = true ∧ (∀ f ∈ fs, f.Fits) ∧
      chunks.flatten = Frame.wires fs) ∧
    session.streams true chunks = session.frames true fs ∧
    (session.frames true fs).2.link.sent =
      [⟨id, Command.loginResponse.code, [0x01]⟩, ⟨id, Command.heartbeat.code, [0x01]⟩] ∧
    timesOf (session.frames true fs).1 = [(some 1641040496, false), (some 1641040496, true)] ∧
    timesOf (session.frames false fs).1 = [(some 1641040496, false), (none, true)] ∧
    (session.frames true fs).2.registry = (session.frames false fs).2.registry.recordAll
      ((session.frames true fs).1.flatMap reportsOf) ∧
    ((session.frames true fs).2.registry.lastFix 1).map Fix.time = some 1641040496 ∧
    LosesRepliesOnly (fun s => s.frames true) session early late ∧
    dropped.2.link.sent = [⟨id, Command.loginResponse.code, [0x01]⟩] ∧
    timesOf dropped.1 = [(some 1641040496, true)] := by
  intro session id position totals early late fs chunks timesOf dropped
  have hfits : ∀ f ∈ fs, f.Fits := by decide
  have hchunks : chunks.flatten = Frame.wires fs := by
    simp only [chunks, List.flatten_cons, List.flatten_nil, List.append_nil, List.take_append_drop]
  obtain ⟨hstream, -, -, -, hrecorded, -, hloses⟩ :=
    live_frame_by_frame session true rfl rfl fs hfits chunks hchunks
  refine ⟨⟨rfl, rfl, hfits, hchunks⟩, hstream, ?_, ?_, ?_, hrecorded, ?_, hloses early late,
    ?_, ?_⟩
  all_goals decide +kernel

end Session

end TrackerWire
