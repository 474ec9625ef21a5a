import TrackerWire.Proofs.Framer.Step

/-!
# Where a framer waits

`Unfinished` lists the buffers that may be the start of a frame and are not a whole one yet. A look
says to wait on these and on no others (`examine_wait_iff`), and each is shorter than the longest
frame (`Unfinished.length_le`).

`next_comes_to_rest`: a read without a frame leaves such a buffer, and a read that gives a frame has
taken bytes that end in it.
-/
namespace TrackerWire

namespace Framing

/-- The start of a frame: nothing, a part of the marker or of the length field behind it, or a
frame of the length that its field tells, which has not arrived to its end. -/
inductive Unfinished : Bytes → Prop
  | nothing : Unfinished []
  | halfMarker : Unfinished [Ascii.atSign]
  | marker : Unfinished [Ascii.atSign, Ascii.atSign]
  | halfLength (hi : UInt8) : Unfinished [Ascii.atSign, Ascii.atSign, hi]
  | frame (hi lo : UInt8) (rest : Bytes) (hmin : 17 ≤ hi.toNat * 256 + lo.toNat)
    (hlen : (Ascii.atSign :: Ascii.atSign :: hi :: lo :: rest).length <
      hi.toNat * 256 + lo.toNat) :
    Unfinished (Ascii.atSign :: Ascii.atSign :: hi :: lo :: rest)

theorem Unfinished.length_le {buffer : Bytes} (h : Unfinished buffer) :
    buffer.length ≤ 65534 := by
  cases h with
  | nothing | halfMarker | marker | halfLength => simp
  | frame hi lo rest hmin hlen =>
    have := hi.toNat_lt
    have := lo.toNat_lt
    omega

theorem examineChecksum_ne_wait (n : Nat) (candidate : Bytes) :
    examineChecksum n candidate ≠ .wait := by
  unfold examineChecksum
  dsimp only
  split
  · nofun
  · split <;> nofun

/-- Behind marker and length field only a frame that has not arrived to its end is waited for. -/
theorem examineLength_wait_iff (n : Nat) (buffer : Bytes) :
    examineLength n buffer = .wait ↔ 17 ≤ n ∧ buffer.length < n := by
  have hsize : Frame.minSize = 17 := rfl
  refine ⟨fun h => ?_, fun ⟨hmin, hlen⟩ => examineLength_wait hmin hlen⟩
  unfold examineLength at h
  split at h
  · cases h
  · refine ⟨by omega, Nat.lt_of_not_le fun hlen => ?_⟩
    have hlast : 2 ≤ (buffer.drop (n - 2)).length := by rw [List.length_drop]; omega
    match hdrop : buffer.drop (n - 2), hlast with
    | _ :: _ :: _, _ =>
      simp only [hdrop] at h
      split at h
      · exact examineChecksum_ne_wait _ _ h
      · cases h

/-- **A look says to wait on the start of a frame, and on nothing else.** -/
theorem examine_wait_iff (buffer : Bytes) : examine buffer = .wait ↔ Unfinished buffer := by
  refine ⟨fun h => ?_, fun h => ?_⟩
  · rcases buffer with _ | ⟨a, _ | ⟨b, rest⟩⟩
    · exact .nothing
    · by_cases ha : a = Ascii.atSign
      · subst ha; exact .halfMarker
      · simp [examine, ha] at h
    · by_cases hab : a = Ascii.atSign ∧ b = Ascii.atSign
      · obtain ⟨rfl, rfl⟩ := hab
        rcases rest with _ | ⟨hi, _ | ⟨lo, rest⟩⟩
        · exact .marker
        · exact .halfLength hi
        · rw [examine_marker, examineLength_wait_iff, Bytes.word_toNat] at h
          exact .frame hi lo rest h.1 h.2
      · simp [examine, hab] at h
  · cases h with
    | nothing | halfMarker | marker | halfLength => rfl
    | frame hi lo rest hmin hlen =>
      rw [examine_marker, examineLength_wait_iff, Bytes.word_toNat]
      exact ⟨hmin, hlen⟩

end Framing

namespace Framer

open Framing

theorem next_taken (framer : Framer) : ∃ taken, framer.buffer = taken ++ framer.next.2.buffer ∧
    ∀ f, framer.next.1 = some f → f.Fits ∧ f.wire <:+ taken := by
  induction framer using step_induction with
  | wait a h =>
    rw [next_wait h]
    exact ⟨[], rfl, nofun⟩
  | step a s b h ih =>
    obtain ⟨taken, hbuffer, hframe⟩ := ih
    cases hf : s.frame? with
    | none =>
      rw [next_onward h hf]
      refine ⟨s.bytes ++ taken, ?_, fun f hnext => ?_⟩
      · rw [step_bytes h, hbuffer, List.append_assoc]
      · obtain ⟨hfits, hend⟩ := hframe f hnext
        exact ⟨hfits, hend.trans (List.suffix_append _ _)⟩
    | some f =>
      rw [next_frame h hf]
      rcases step_some h with ⟨byte, rest, e, rfl, -⟩ | ⟨c, rest, rfl, -⟩ |
          ⟨g, rest, rfl, rfl, hg, hfits⟩
      · cases hf
      · cases hf
      · cases hf
        refine ⟨f.wire, hg, fun g hnext => ?_⟩
        cases hnext
        exact ⟨hfits, List.suffix_refl _⟩

/-- **Where a read comes to rest.** A read without a frame leaves an end of the buffer that is the
start of a frame, so never more than 65534 bytes, and another read leaves everything as it is. A
read that gives a frame has taken at least as many bytes as the frame has, and they end in what the
frame writes. -/
theorem next_comes_to_rest (framer : Framer) :
    (framer.next.1 = none →
      let rest := framer.next.2
      rest.buffer <:+ framer.buffer ∧ Unfinished rest.buffer ∧ rest.buffer.length ≤ 65534 ∧
        rest.next = (none, rest)) ∧
    ∀ f, framer.next.1 = some f →
      ∃ taken encoding, framer.buffer = taken ++ framer.next.2.buffer ∧
        f.encode = .ok encoding ∧ encoding.length = f.encodedLength ∧
        f.encodedLength ≤ taken.length ∧ encoding <:+ taken := by
  obtain ⟨taken, hbuffer, hframe⟩ := next_taken framer
  refine ⟨fun hnone => ?_, fun f hf => ?_⟩
  · intro rest
    have hwait : rest.step? = none := (next_steps framer).2.2 hnone
    have hrest : Unfinished rest.buffer := (examine_wait_iff rest.buffer).mp (step_none hwait).1
    exact ⟨⟨taken, hbuffer.symm⟩, hrest, hrest.length_le, next_wait hwait⟩
  · obtain ⟨hfits, hend⟩ := hframe f hf
    have hlen := hend.length_le
    rw [f.length_wire] at hlen
    exact ⟨taken, f.wire, hbuffer, Frame.encode_of_fits hfits, f.length_wire, hlen, hend⟩

/-- A byte that starts no frame, a heartbeat and the start of another: the first read takes byte and
heartbeat, the second comes to rest on what has arrived of the other. -/
theorem rests_behind_heartbeat :
    let id : RawId := ⟨[0x13, 0x61, 0x23, 0x45, 0x67, 0x8F, 0xFF], rfl⟩
    let f : Frame := ⟨id, Command.heartbeat.code, [0x20, 0x41]⟩
    let framer : Framer := ⟨0x01 :: (f.wire ++ f.wire.take 12), 0⟩
    let behind := framer.next.2
    framer.next.1 = some f ∧ behind.next.1 = none ∧
      (∃ taken, framer.buffer = taken ++ behind.buffer ∧ 19 ≤ taken.length) ∧
      Unfinished behind.next.2.buffer ∧ behind.next.2.next = (none, behind.next.2) := by
  intro id f framer behind
  have hskip : framer.step? = some (.skipped 0x01, ⟨f.wire ++ f.wire.take 12, 1⟩) :=
    step_skip rfl 0
  have hnext : framer.next = (some f, ⟨f.wire.take 12, 0⟩) :=
    (next_onward hskip rfl).trans (next_frame (step_wire (by decide) _ 1) rfl)
  have hbehind : behind.next = (none, behind) := by
    have hwait : behind.step? = none := by
      simp only [behind, hnext]
      exact step_wait (by decide +kernel)
    exact next_wait hwait
  have hfirst : framer.next.1 = some f := by rw [hnext]
  have hnone : behind.next.1 = none := by rw [hbehind]
  obtain ⟨taken, encoding, hbuffer, -, -, hlen, -⟩ := (next_comes_to_rest framer).2 f hfirst
  obtain ⟨-, hunfinished, -, hstays⟩ := (next_comes_to_rest behind).1 hnone
  exact ⟨hfirst, hnone, ⟨taken, hbuffer, hlen⟩, hunfinished, hstays⟩

end Framer

end TrackerWire
