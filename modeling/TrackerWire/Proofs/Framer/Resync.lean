import TrackerWire.Proofs.Framer.Run

/-!
# Finding the frames behind junk

Junk can hold a false header, and with it the framer may wait for, drop or even take more than the
junk: up to the longest frame. Behind that nothing false is left, if the frames that follow hold
the marker's byte in their marker alone. For then a look that falls inside a frame skips to its end
(`settles_quiet`), and a look at the start of one takes it.

A framer `Settles` on the frames to come if draining it takes all of them, one behind the other, at
the end. The step before a framer that settles comes from one that settles, which is what every
induction here goes by.
-/
namespace TrackerWire

open Framing

namespace Frame

def wires (frames : List Frame) : Bytes := frames.flatMap wire

/-- The marker's byte stands in the marker alone. -/
def Clean (f : Frame) : Prop := Ascii.atSign ∉ f.wire.drop 2

instance (f : Frame) : Decidable f.Clean := inferInstanceAs (Decidable (¬ _))

theorem wires_cons (f : Frame) (frames : List Frame) :
    wires (f :: frames) = f.wire ++ wires frames := rfl

theorem wires_append (early late : List Frame) :
    wires (early ++ late) = wires early ++ wires late := List.flatMap_append

theorem length_wires_replicate (n : Nat) (f : Frame) :
    (wires (List.replicate n f)).length = n * f.encodedLength := by
  induction n with
  | zero => rw [Nat.zero_mul]; rfl
  | succ n ih =>
    rw [List.replicate_succ, wires_cons, List.length_append, ih, length_wire, Nat.succ_mul,
      Nat.add_comm]

end Frame

open TrackerWire.Frame

/-! ## Inside a clean frame -/

/-- No frame starts at any of these bytes, whatever follows them. -/
def Quiet (bytes : Bytes) : Prop :=
  Ascii.atSign ∉ bytes ∨
    ∃ byte rest, bytes = Ascii.atSign :: byte :: rest ∧ Ascii.atSign ∉ byte :: rest

theorem quiet_nil : Quiet [] := .inl List.not_mem_nil

theorem quiet_tail {byte : UInt8} {rest : Bytes} (h : Quiet (byte :: rest)) : Quiet rest := by
  rcases h with h | ⟨next, behind, heq, h⟩
  · exact .inl fun hmem => h (List.mem_cons_of_mem _ hmem)
  · cases heq
    exact .inl h

theorem examine_quiet {byte : UInt8} {rest : Bytes} (h : Quiet (byte :: rest)) (more : Bytes) :
    examine (byte :: rest ++ more) = .skip .badMarker := by
  rcases h with h | ⟨next, behind, heq, h⟩
  · have hbyte : byte ≠ Ascii.atSign := fun he => h (he ▸ List.mem_cons_self ..)
    cases hrest : rest ++ more with
    | nil => simp [examine, hrest, hbyte]
    | cons next behind => simp [examine, hrest, hbyte]
  · cases heq
    have hnext : next ≠ Ascii.atSign := fun he => h (he ▸ List.mem_cons_self ..)
    simp [examine, hnext]

/-- What is left of a clean frame once its first byte is gone. -/
theorem quiet_of_wire {f : Frame} (h : f.Clean) {byte : UInt8} {front rest : Bytes}
    (hw : f.wire = byte :: front ++ rest) : Quiet rest := by
  have hhead : f.wire = Ascii.atSign :: Ascii.atSign :: f.wire.drop 2 := by
    simp only [wire, checkedPart, List.append_assoc]; rfl
  have hlen := f.length_wire
  have hmin : 17 ≤ f.encodedLength := f.minSize_le_encodedLength
  unfold Clean at h
  cases front with
  | nil =>
    rw [hhead] at hw
    have hrest : rest = Ascii.atSign :: f.wire.drop 2 := by
      simp only [List.cons_append, List.nil_append, List.cons.injEq] at hw
      exact hw.2.symm
    cases hd : f.wire.drop 2 with
    | nil =>
      have := congrArg List.length hd
      rw [List.length_drop, List.length_nil] at this
      omega
    | cons next behind =>
      rw [hd] at hrest h
      exact .inr ⟨next, behind, hrest, h⟩
  | cons next front =>
    rw [hw] at h
    exact .inl fun hmem => h (List.mem_append_right front hmem)

/-- What is left of clean frames once bytes are gone: the end of one, and the frames behind it. -/
theorem suffix_wires {frames : List Frame} (h : ∀ f ∈ frames, f.Clean) {front rest : Bytes}
    (hw : wires frames = front ++ rest) :
    ∃ quiet behind, Quiet quiet ∧ rest = quiet ++ wires behind ∧ ∀ f ∈ behind, f ∈ frames := by
  induction frames generalizing front with
  | nil =>
    have hrest : rest = [] := (List.append_eq_nil_iff.mp hw.symm).2
    exact ⟨[], [], quiet_nil, hrest, fun f hf => hf⟩
  | cons f frames ih =>
    cases front with
    | nil => exact ⟨[], f :: frames, quiet_nil, hw.symm, fun g hg => hg⟩
    | cons byte front =>
      rw [wires_cons] at hw
      rcases List.append_eq_append_iff.mp hw with ⟨beyond, hfront, hbehind⟩ | ⟨quiet, hwire, hrest⟩
      · obtain ⟨quiet, behind, hquiet, hrest, hmem⟩ :=
          ih (fun g hg => h g (List.mem_cons_of_mem _ hg)) hbehind
        exact ⟨quiet, behind, hquiet, hrest, fun g hg => List.mem_cons_of_mem _ (hmem g hg)⟩
      · exact ⟨quiet, frames, quiet_of_wire (h f (List.mem_cons_self ..)) hwire, hrest,
          fun g hg => List.mem_cons_of_mem _ hg⟩

namespace Framer

/-! ## Settling -/

/-- Draining ends with these frames, with nothing between them and nothing left behind them. -/
def Settles (late : List Frame) (framer : Framer) : Prop :=
  (∃ before, framer.drainSegments = before ++ late.map .frame) ∧
    (late ≠ [] → framer.drain.2 = {})

theorem settles_step {a b : Framer} {s : Segment} {late : List Frame}
    (h : a.step? = some (s, b)) (hb : Settles late b) : Settles late a := by
  obtain ⟨⟨before, hbefore⟩, hleft⟩ := hb
  refine ⟨⟨s :: before, ?_⟩, fun hne => ?_⟩
  · rw [drainSegments_step h, hbefore, List.cons_append]
  · rw [drain_step h]; exact hleft hne

theorem drain_wires {late : List Frame} (h : ∀ f ∈ late, f.Fits) (n : Nat) :
    drainSegments ⟨wires late, n⟩ = late.map .frame ∧
      (drain ⟨wires late, n⟩).2 = ⟨[], if late = [] then n else 0⟩ := by
  induction late generalizing n with
  | nil =>
    have hwait : step? ⟨[], n⟩ = none := step_wait rfl
    rw [wires, List.flatMap_nil, drainSegments_wait hwait, drain_wait hwait]
    exact ⟨rfl, rfl⟩
  | cons f late ih =>
    have hstep := step_wire (h f (List.mem_cons_self ..)) (wires late) n
    obtain ⟨hsegments, hleft⟩ := ih (fun g hg => h g (List.mem_cons_of_mem _ hg)) 0
    rw [wires_cons, drainSegments_step hstep, drain_step hstep, hsegments, hleft]
    refine ⟨rfl, ?_⟩
    simp only [List.cons_ne_nil, if_false, ite_self]

/-- From the end of a frame on, everything settles. -/
theorem settles_quiet {quiet : Bytes} (hquiet : Quiet quiet) {early late : List Frame}
    (h : ∀ f ∈ early ++ late, f.Fits) (n : Nat) :
    Settles late ⟨quiet ++ wires (early ++ late), n⟩ := by
  induction quiet generalizing n with
  | nil =>
    induction early generalizing n with
    | nil =>
      obtain ⟨hsegments, hleft⟩ := drain_wires h n
      refine ⟨⟨[], hsegments⟩, fun hne => ?_⟩
      exact hleft.trans (by rw [List.nil_append, if_neg hne])
    | cons f early ih =>
      have hstep := step_wire (h f (List.mem_cons_self ..)) (wires (early ++ late)) n
      exact settles_step hstep (ih (fun g hg => h g (List.mem_cons_of_mem _ hg)) 0)
  | cons byte rest ih =>
    have hstep := step_skip (examine_quiet hquiet (wires (early ++ late))) n
    exact settles_step hstep (ih (quiet_tail hquiet) (n + 1))

theorem settles_suffix {early late : List Frame} (hfits : ∀ f ∈ early ++ late, f.Fits)
    (hclean : ∀ f ∈ early, f.Clean) {front rest : Bytes} (hw : wires early = front ++ rest)
    (n : Nat) : Settles late ⟨rest ++ wires late, n⟩ := by
  obtain ⟨quiet, behind, hquiet, hrest, hmem⟩ := suffix_wires hclean hw
  have hbehind : ∀ f ∈ behind ++ late, f.Fits := by
    intro f hf
    rcases List.mem_append.mp hf with hf | hf
    · exact hfits f (List.mem_append_left _ (hmem f hf))
    · exact hfits f (List.mem_append_right _ hf)
  rw [hrest, List.append_assoc, ← wires_append]
  exact settles_quiet hquiet hbehind n

/-- On as many bytes as the longest frame has, a framer makes a step, and it ends within them. -/
theorem step_within {bytes : Bytes} (h : maxSize ≤ bytes.length) (more : Bytes) (n : Nat) :
    ∃ s rest skipped, step? ⟨bytes ++ more, n⟩ = some (s, ⟨rest ++ more, skipped⟩) ∧
      bytes = s.bytes ++ rest ∧ 0 < s.bytes.length := by
  cases hstep : step? ⟨bytes ++ more, n⟩ with
  | none =>
    have hlt := (step_none hstep).2
    simp only [List.length_append] at hlt
    omega
  | some taken =>
    obtain ⟨s, b⟩ := taken
    obtain ⟨hpos, hmax⟩ := step_length hstep
    have hbytes : bytes ++ more = s.bytes ++ b.buffer := step_bytes hstep
    have hprefix : s.bytes <+: bytes :=
      List.prefix_of_prefix_length_le ⟨b.buffer, hbytes.symm⟩ (List.prefix_append bytes more)
        (Nat.le_trans hmax h)
    obtain ⟨rest, hrest⟩ := hprefix
    have hb : b.buffer = rest ++ more := by
      rw [← hrest, List.append_assoc] at hbytes
      exact (List.append_cancel_left hbytes).symm
    refine ⟨s, rest, b.skipped, ?_, hrest.symm, hpos⟩
    rw [← hb]

/-- A step that begins in the junk ends in the junk or in the clean frames behind it. -/
theorem settles_junk {early late : List Frame} (hfits : ∀ f ∈ early ++ late, f.Fits)
    (hclean : ∀ f ∈ early, f.Clean) (hfar : maxSize ≤ (wires early).length)
    (junk : Bytes) (n : Nat) : Settles late ⟨junk ++ wires early ++ wires late, n⟩ := by
  have hlen : maxSize ≤ (junk ++ wires early).length := by rw [List.length_append]; omega
  obtain ⟨s, rest, skipped, hstep, hbytes, hpos⟩ := step_within hlen (wires late) n
  refine settles_step hstep ?_
  rcases List.append_eq_append_iff.mp hbytes with ⟨front, -, hearly⟩ | ⟨behind, hjunk, hrest⟩
  · exact settles_suffix hfits hclean hearly skipped
  · rw [hrest]
    exact settles_junk hfits hclean hfar behind skipped
termination_by junk.length
decreasing_by rw [hjunk, List.length_append]; omega

/-- **Resynchronization is bounded.** Whatever comes first, and in whatever chunks: behind frames
that are together as long as the longest frame can be, and hold the marker's byte in their markers
alone, every frame is emitted, in order. From the first of them on nothing is skipped or dropped,
and at the end nothing is left. -/
theorem resynchronizes (junk : Bytes) (early late : List Frame) (pieces : List (Bytes × Nat))
    (hfits : ∀ f ∈ early ++ late, f.Fits) (hclean : ∀ f ∈ early, f.Clean)
    (hfar : maxSize ≤ (wires early).length)
    (hpieces : pieces.flatMap Prod.fst = junk ++ wires (early ++ late)) :
    (∃ before, history {} (schedule pieces ++ [.drain]) = before ++ late.map .frame ∧
      emitted {} (schedule pieces ++ [.drain]) = before.filterMap Segment.frame? ++ late) ∧
    (late ≠ [] → after {} (schedule pieces ++ [.drain]) = {}) := by
  have hsteps := replay {} (schedule pieces) (schedule_goes_on pieces)
  rw [fed_schedule, hpieces] at hsteps
  obtain ⟨⟨before, hbefore⟩, hleft⟩ := settles_junk hfits hclean hfar junk 0
  rw [List.append_assoc, ← wires_append] at hbefore hleft
  have hhistory : history {} (schedule pieces ++ [.drain]) = before ++ late.map .frame := by
    rw [history_append, ← hbefore]
    have := hsteps.drainSegments
    simp only [history, Action.segments, List.append_nil]
    exact this.symm
  refine ⟨⟨before, hhistory, ?_⟩, fun hne => ?_⟩
  · have hframes : (late.map Segment.frame).filterMap Segment.frame? = late := by
      rw [List.filterMap_map]
      exact List.filterMap_some
    rw [emitted_eq_frames, hhistory, List.filterMap_append, hframes]
  · rw [after_append]
    have := congrArg Prod.snd hsteps.drain
    exact this.symm.trans (hleft hne)

/-- A frame without payload, 17 bytes long. -/
def heartbeat : Frame := ⟨⟨[0x13, 0x61, 0x23, 0x45, 0x67, 0x8F, 0xFF], rfl⟩, 1, []⟩

/-- A false header that promises the longest frame, then heartbeats: 3855 of them are as long as
that, and the next is emitted. -/
theorem resynchronizes_heartbeats :
    let early := List.replicate 3855 heartbeat
    let run := schedule [([0x40, 0x40], 1), (0xFF :: 0xFF :: wires (early ++ [heartbeat]), 0)]
    (∃ before, history {} (run ++ [.drain]) = before ++ [.frame heartbeat] ∧
      emitted {} (run ++ [.drain]) = before.filterMap Segment.frame? ++ [heartbeat]) ∧
    ([heartbeat] ≠ [] → after {} (run ++ [.drain]) = {}) := by
  have hfits : heartbeat.Fits := by decide
  have hclean : heartbeat.Clean := by decide +kernel
  have hlen : (wires (List.replicate 3855 heartbeat)).length = 3855 * 17 :=
    length_wires_replicate 3855 heartbeat
  have hall : ∀ f ∈ List.replicate 3855 heartbeat, f = heartbeat :=
    fun f hf => List.eq_of_mem_replicate hf
  generalize List.replicate 3855 heartbeat = early at hlen hall
  have hevery : ∀ f ∈ early ++ [heartbeat], f.Fits := by
    intro f hf
    rcases List.mem_append.mp hf with hf | hf
    · rw [hall f hf]; exact hfits
    · rw [List.mem_singleton.mp hf]; exact hfits
  have hpieces : [(([0x40, 0x40] : Bytes), 1),
      (0xFF :: 0xFF :: wires (early ++ [heartbeat]), 0)].flatMap Prod.fst =
      [0x40, 0x40, 0xFF, 0xFF] ++ wires (early ++ [heartbeat]) := by
    simp only [List.flatMap_cons, List.flatMap_nil, List.append_nil, List.cons_append,
      List.nil_append]
  exact resynchronizes [0x40, 0x40, 0xFF, 0xFF] early [heartbeat] _ hevery
    (fun f hf => by rw [hall f hf]; exact hclean) (by rw [hlen]; decide) hpieces

end Framer

end TrackerWire
