import TrackerWire.Decoder

/-!
# What becomes of a frame

A frame is either answered or decoded. Answered are the three handshakes, and only on a connection
(`handshake?_eq_none`); the registry is then left alone (`handle_answered`). Every other frame is
decoded as it would be without a connection (`handle_decoded`): to nothing without a device
(`decodeIdentified_unresolved`), and as its payload says once its device is resolved
(`outcome_resolved`).
-/
namespace TrackerWire

/-- The registry finds or enrols this device for a packed identifier. -/
def Registry.Resolves (registry : Registry) (id : RawId) (device : DeviceId) : Prop :=
  (registry.resolve (Identity.ofRaw id).candidates).value.1 = some device

instance (registry : Registry) (id : RawId) (device : DeviceId) :
    Decidable (registry.Resolves id device) := inferInstanceAs (Decidable (_ = _))

theorem Registry.resolve_nil (registry : Registry) :
    (registry.resolve []).value = (none, registry) := by
  cases h : registry.acceptsUnknown <;> simp [resolve, lookup, enrol, h]

theorem Identity.candidates_of_isEmpty {identity : Identity} (h : identity.isEmpty = true) :
    identity.candidates = [] :=
  if_pos h

/-- Without candidates there is no device. -/
theorem Registry.Resolves.candidates_ne_nil {registry : Registry} {id : RawId} {device : DeviceId}
    (h : registry.Resolves id device) : (Identity.ofRaw id).candidates ≠ [] := by
  intro hnil
  unfold Resolves at h
  rw [hnil, resolve_nil] at h
  cases h

namespace Decoder

/-- The commands that are answered on a connection. -/
def isHandshake : Command → Bool
  | .login | .heartbeat | .serverQuery => true
  | _ => false

variable {settings : Settings} {registry : Registry} {link : Option Link} {frame : Frame}

theorem isSome_reply? (localAddress : SocketAddress) (command : Command) :
    (reply? settings localAddress frame command).isSome = isHandshake command := by
  cases command <;> rfl

theorem handshake?_eq_none (h : ∀ command, frame.command? = some command →
    isHandshake command = false) : handshake? settings link frame = none := by
  cases link with
  | none => rfl
  | some link =>
    cases hc : frame.command? with
    | none => simp [handshake?, hc]
    | some command =>
      have hreply : reply? settings link.localAddress frame command = none := by
        rw [← Option.not_isSome_iff_eq_none, isSome_reply?, h command hc]
        exact Bool.false_ne_true
      simp [handshake?, hc, hreply]

theorem handshake?_command {command : Command} (h : isHandshake command = false) {id : RawId}
    (payload : Bytes) : handshake? settings link ⟨id, command.code, payload⟩ = none :=
  handshake?_eq_none fun c hc => by
    rw [Frame.command?, Command.ofCode?_code] at hc
    cases hc
    exact h

theorem handle_answered {answering : Link} {command : Command} {reply : Frame}
    (h : handshake? settings link frame = some (answering, command, reply)) :
    (handle settings registry link frame).value =
      { outcome := .ok .nothing, registry, link := some (answering.send reply).value } := by
  simp only [handle, h, Logged.value_bind, Logged.value_pure]

theorem handle_decoded (h : handshake? settings link frame = none) :
    (handle settings registry link frame).value =
      { outcome := (decodeIdentified registry frame).value.1
        registry := (decodeIdentified registry frame).value.2
        link } := by
  simp only [handle, h, Logged.value_bind, Logged.value_pure]

/-- A sentence leads to a report or to nothing, never to an error. -/
theorem value_decodeSentence (command : Command) (kind : SentenceKind) (report : Report)
    (payload : Bytes) : (decodeSentence command kind report payload).value =
      .ok (.ofOption (kind.decode report (Ascii.text payload))) := by
  simp only [decodeSentence, Logged.value_bind, SentenceKind.value_decodeLogged]
  -- whether a dropped sentence is told of makes no difference
  split <;> rfl

/-- A frame of a resolved device is decoded in the registry that the lookup leaves. -/
theorem decodeIdentified_resolved (frame : Frame) {device : DeviceId}
    (h : registry.Resolves frame.id device) :
    (decodeIdentified registry frame).value =
      let found := (registry.resolve (Identity.ofRaw frame.id).candidates).value.2
      ((decodeFrame found frame device).value, found) := by
  unfold decodeIdentified
  cases hc : (Identity.ofRaw frame.id).candidates with
  | nil => exact absurd hc h.candidates_ne_nil
  | cons first others =>
    unfold Registry.Resolves at h
    rw [hc] at h
    simp only [hc, Logged.value_bind, h, Logged.value_pure]

theorem decodeIdentified_unresolved (frame : Frame)
    (h : (registry.resolve (Identity.ofRaw frame.id).candidates).value.1 = none) :
    (decodeIdentified registry frame).value =
      (.ok .nothing, (registry.resolve (Identity.ofRaw frame.id).candidates).value.2) := by
  unfold decodeIdentified
  cases hc : (Identity.ofRaw frame.id).candidates with
  | nil => simp only [hc, Registry.resolve_nil]
  | cons first others =>
    rw [hc] at h
    simp only [hc, Logged.value_bind, h]

/-- The outcome for a resolved device whose frame carries no handshake: what the payload says. -/
theorem outcome_resolved {id : RawId} {device : DeviceId} (hresolves : registry.Resolves id device)
    {command : Command} (hdecoded : isHandshake command = false) (payload : Bytes) :
    (handle settings registry link ⟨id, command.code, payload⟩).value.outcome =
      (decodePayload (registry.resolve (Identity.ofRaw id).candidates).value.2.lastFix device
        command payload).value := by
  rw [handle_decoded (handshake?_command hdecoded payload),
    decodeIdentified_resolved ⟨id, command.code, payload⟩ hresolves]
  simp only [decodeFrame, Frame.command?, Command.ofCode?_code]

end Decoder

end TrackerWire
