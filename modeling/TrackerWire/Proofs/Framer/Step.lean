import TrackerWire.Proofs.Framer.Examine

/-!
# Steps of a framer

`step?` is one look of `Framer.next`, with the segment it takes off the buffer: a byte at which no
frame starts, a corrupted frame, or a good one (`step_cases`). `next` and `drain` are runs of such
steps (`next_steps`, `drain_steps`): `next` up to the first frame, `drain` up to a buffer that
waits.

Bytes that arrive later change no step that could be made without them (`step_feed`). So a run can
be replayed on a buffer that holds them from the start (`Steps.feed`).
-/
namespace TrackerWire

/-- What is taken off a stream at once. -/
inductive Segment where
  /-- A byte at which no frame starts. -/
  | skipped (byte : UInt8)
  /-- A frame with a wrong checksum. -/
  | corrupted (bytes : Bytes)
  /-- A frame whose parts could not be read, and the byte behind it. -/
  | lost (bytes : Bytes)
  /-- A good frame. -/
  | frame (frame : Frame)
  /-- What is left at the end of the stream. -/
  | discarded (bytes : Bytes)

namespace Segment

def bytes : Segment → Bytes
  | .skipped byte => [byte]
  | .corrupted c | .lost c | .discarded c => c
  | .frame f => f.wire

/-- The frame emitted with the segment. -/
def frame? : Segment → Option Frame
  | .frame f => some f
  | _ => none

def isSkipped : Segment → Bool
  | .skipped _ => true
  | _ => false

/-- The bytes skipped since the last frame, from the number before the segment. -/
def tally (skipped : Nat) : Segment → Nat
  | .skipped _ => skipped + 1
  | .frame _ => 0
  | _ => skipped

end Segment

namespace Framer

open Framing

/-! ## One step -/

/-- The segment the next look takes and the framer it leaves, unless it waits. -/
def step? (framer : Framer) : Option (Segment × Framer) :=
  match examine framer.buffer with
  | .wait => none
  | .skip _ => framer.buffer.head?.map fun byte =>
    (.skipped byte, ⟨framer.buffer.drop 1, framer.skipped + 1⟩)
  | .corrupted length _ _ =>
    some (.corrupted (framer.buffer.take length), ⟨framer.buffer.drop length, framer.skipped⟩)
  | .unparsed length _ =>
    some (.lost (framer.buffer.take (length + 1)),
      ⟨framer.buffer.drop (length + 1), framer.skipped + 1⟩)
  | .good frame length => some (.frame frame, ⟨framer.buffer.drop length, 0⟩)

theorem step_wait {a : Framer} (h : examine a.buffer = .wait) : a.step? = none := by
  rw [step?, h]

theorem step_skip {byte : UInt8} {rest : Bytes} {error : FrameError}
    (h : examine (byte :: rest) = .skip error) (n : Nat) :
    step? ⟨byte :: rest, n⟩ = some (.skipped byte, ⟨rest, n + 1⟩) := by
  rw [step?, h]; rfl

theorem step_corrupted {c : Bytes} (h : Corrupted c) (rest : Bytes) (n : Nat) :
    step? ⟨c ++ rest, n⟩ = some (.corrupted c, ⟨rest, n⟩) := by
  obtain ⟨expected, actual, he⟩ := examine_corrupted h rest
  simp only [step?, he, List.take_left, List.drop_left]

theorem step_wire {f : Frame} (h : f.Fits) (rest : Bytes) (n : Nat) :
    step? ⟨f.wire ++ rest, n⟩ = some (.frame f, ⟨rest, 0⟩) := by
  simp only [step?, examine_wire h rest, ← f.length_wire, List.drop_left]

/-- **One step.** A framer waits on fewer bytes than the longest frame has, or it skips a byte
whatever follows, drops a corrupted frame, or takes what a frame writes. -/
theorem step_cases (a : Framer) :
    (a.step? = none ∧ examine a.buffer = .wait ∧ a.buffer.length < Frame.maxSize) ∨
    (∃ byte rest error, a.buffer = byte :: rest ∧
      (∀ more, examine (byte :: rest ++ more) = .skip error) ∧
      a.step? = some (.skipped byte, ⟨rest, a.skipped + 1⟩)) ∨
    (∃ c rest, a.buffer = c ++ rest ∧ Corrupted c ∧
      a.step? = some (.corrupted c, ⟨rest, a.skipped⟩)) ∨
    (∃ f rest, a.buffer = f.wire ++ rest ∧ f.Fits ∧ a.step? = some (.frame f, ⟨rest, 0⟩)) := by
  cases a with
  | mk buffer n =>
    rcases examine_cases buffer with hwait | ⟨hne, error, hskip⟩ | ⟨c, rest, hc, hbuffer⟩
    · exact .inl ⟨step_wait hwait.1, hwait⟩
    · cases buffer with
      | nil => exact absurd rfl hne
      | cons byte rest =>
        have hnow := hskip []
        rw [List.append_nil] at hnow
        exact .inr (.inl ⟨byte, rest, error, rfl, hskip, step_skip hnow n⟩)
    · subst hbuffer
      by_cases hsum : Intact c
      · obtain ⟨f, hfits, hf⟩ := Frame.exists_wire hc hsum
        subst hf
        exact .inr (.inr (.inr ⟨f, rest, rfl, hfits, step_wire hfits rest n⟩))
      · exact .inr (.inr (.inl ⟨c, rest, rfl, ⟨hc, hsum⟩, step_corrupted ⟨hc, hsum⟩ rest n⟩))

variable {a b : Framer} {s : Segment}

theorem step_none (h : a.step? = none) :
    examine a.buffer = .wait ∧ a.buffer.length < Frame.maxSize := by
  rcases step_cases a with ⟨-, hwait⟩ | ⟨byte, rest, e, -, -, hs⟩ | ⟨c, rest, -, -, hs⟩ |
      ⟨f, rest, -, -, hs⟩
  · exact hwait
  all_goals rw [h] at hs; cases hs

/-- What a step takes, and what it leaves. -/
theorem step_some (h : a.step? = some (s, b)) :
    (∃ byte rest error, s = .skipped byte ∧ b = ⟨rest, a.skipped + 1⟩ ∧
      a.buffer = byte :: rest ∧ ∀ more, examine (byte :: rest ++ more) = .skip error) ∨
    (∃ c rest, s = .corrupted c ∧ b = ⟨rest, a.skipped⟩ ∧ a.buffer = c ++ rest ∧ Corrupted c) ∨
    ∃ f rest, s = .frame f ∧ b = ⟨rest, 0⟩ ∧ a.buffer = f.wire ++ rest ∧ f.Fits := by
  rcases step_cases a with ⟨hs, -⟩ | ⟨byte, rest, e, hb, hskip, hs⟩ | ⟨c, rest, hb, hc, hs⟩ |
      ⟨f, rest, hb, hf, hs⟩ <;> rw [hs] at h <;> cases h
  · exact .inl ⟨byte, rest, e, rfl, rfl, hb, hskip⟩
  · exact .inr (.inl ⟨c, rest, rfl, rfl, hb, hc⟩)
  · exact .inr (.inr ⟨f, rest, rfl, rfl, hb, hf⟩)

theorem step_bytes (h : a.step? = some (s, b)) : a.buffer = s.bytes ++ b.buffer := by
  rcases step_some h with ⟨byte, rest, e, rfl, rfl, hb, -⟩ | ⟨c, rest, rfl, rfl, hb, -⟩ |
      ⟨f, rest, rfl, rfl, hb, -⟩ <;> exact hb

theorem step_tally (h : a.step? = some (s, b)) : b.skipped = s.tally a.skipped := by
  rcases step_some h with ⟨byte, rest, e, rfl, rfl, -⟩ | ⟨c, rest, rfl, rfl, -⟩ |
      ⟨f, rest, rfl, rfl, -⟩ <;> rfl

theorem step_length (h : a.step? = some (s, b)) :
    0 < s.bytes.length ∧ s.bytes.length ≤ Frame.maxSize := by
  have hmax : Frame.maxSize = 65535 := rfl
  rcases step_some h with ⟨byte, rest, e, rfl, -⟩ | ⟨c, rest, rfl, -, -, hc⟩ |
      ⟨f, rest, rfl, -, -, hf⟩
  · exact ⟨Nat.one_pos, by simp [Segment.bytes, hmax]⟩
  · have hsize : 17 ≤ c.length := hc.1.size
    have hlen := hc.1.length
    have := (Bytes.leadingWord (c.drop 2)).toNat_lt
    simp only [Segment.bytes]
    omega
  · have hmin : 17 ≤ f.encodedLength := f.minSize_le_encodedLength
    simp only [Segment.bytes, f.length_wire]
    exact ⟨by omega, hf⟩

theorem step_shorter (h : a.step? = some (s, b)) : b.buffer.length < a.buffer.length := by
  have := (step_length h).1
  rw [step_bytes h, List.length_append]
  omega

/-- **Bytes that arrive later change no step.** -/
theorem step_feed (h : a.step? = some (s, b)) (chunk : Bytes) :
    (a.feed chunk).step? = some (s, b.feed chunk) := by
  cases a with
  | mk buffer n =>
    rcases step_some h with ⟨byte, rest, e, rfl, rfl, hb, hskip⟩ | ⟨c, rest, rfl, rfl, hb, hc⟩ |
        ⟨f, rest, rfl, rfl, hb, hf⟩ <;> simp only at hb <;> subst hb
    · exact step_skip (hskip chunk) n
    · simp only [feed, List.append_assoc]
      exact step_corrupted hc (rest ++ chunk) n
    · simp only [feed, List.append_assoc]
      exact step_wire hf (rest ++ chunk) n

/-- What holds where a framer waits, and of a framer if of the one a step leaves, holds of all. -/
theorem step_induction {motive : Framer → Prop}
    (wait : ∀ a, a.step? = none → motive a)
    (step : ∀ a s b, a.step? = some (s, b) → motive b → motive a) (framer : Framer) :
    motive framer := by
  match h : framer.step? with
  | none => exact wait framer h
  | some (s, b) => exact step framer s b h (step_induction wait step b)
termination_by framer.buffer.length
decreasing_by exact step_shorter h

/-! ## Runs of steps -/

/-- A run of steps with the segments they take. -/
inductive Steps : Framer → List Segment → Framer → Prop where
  | nil (a : Framer) : Steps a [] a
  | cons {a b c : Framer} {s : Segment} {l : List Segment} (h : a.step? = some (s, b))
    (rest : Steps b l c) : Steps a (s :: l) c

namespace Steps

variable {a b c : Framer} {l m : List Segment}

theorem append (h : Steps a l b) (h' : Steps b m c) : Steps a (l ++ m) c := by
  induction h with
  | nil => exact h'
  | cons hs _ ih => exact .cons hs (ih h')

/-- A run can be made with the bytes that arrive after it already there. -/
theorem feed (h : Steps a l b) (chunk : Bytes) : Steps (a.feed chunk) l (b.feed chunk) := by
  induction h with
  | nil => exact .nil _
  | cons hs _ ih => exact .cons (step_feed hs chunk) ih

end Steps

/-! ## `next` and `drain` as runs -/

/-- `next` makes one step after another until it has a frame or waits. -/
theorem next_eq (framer : Framer) : framer.next =
    match framer.step? with
    | none => (none, framer)
    | some (s, rest) => match s.frame? with
      | some f => (some f, rest)
      | none => rest.next := by
  rw [next, step?]
  split
  · rename_i h; rw [h]
  · rename_i e h
    rw [h]
    cases hb : framer.buffer with
    | nil => exact absurd hb (examine_skip_ne_nil h)
    | cons byte rest => rfl
  all_goals rename_i h; rw [h]; rfl

theorem next_wait (h : a.step? = none) : a.next = (none, a) := by
  rw [next_eq, h]

theorem next_frame {f : Frame} (h : a.step? = some (s, b)) (hf : s.frame? = some f) :
    a.next = (some f, b) := by
  rw [next_eq, h]
  simp only [hf]

theorem next_onward (h : a.step? = some (s, b)) (hf : s.frame? = none) : a.next = b.next := by
  rw [next_eq, h]
  simp only [hf]

def segments (framer : Framer) : List Segment :=
  match _h : framer.step? with
  | none => []
  | some (s, rest) => match s.frame? with
    | some _ => [s]
    | none => s :: segments rest
termination_by framer.buffer.length
decreasing_by exact step_shorter _h

theorem segments_wait (h : a.step? = none) : a.segments = [] := by
  rw [segments]; split
  · rfl
  · rename_i h'; rw [h] at h'; cases h'

theorem segments_step (h : a.step? = some (s, b)) :
    a.segments = s :: match s.frame? with
      | some _ => []
      | none => b.segments := by
  rw [segments]; split
  · rename_i h'; rw [h] at h'; cases h'
  · rename_i h'; rw [h] at h'; cases h'
    split <;> rfl

/-- **`next` as a run of steps.** Its frame is the only one it passes, and without one the buffer
left waits. -/
theorem next_steps (framer : Framer) : Steps framer framer.segments framer.next.2 ∧
    framer.segments.filterMap Segment.frame? = framer.next.1.toList ∧
    (framer.next.1 = none → framer.next.2.step? = none) := by
  induction framer using step_induction with
  | wait a h =>
    rw [next_wait h, segments_wait h]
    exact ⟨.nil a, rfl, fun _ => h⟩
  | step a s b h ih =>
    have hsegments := segments_step h
    cases hf : s.frame? with
    | some f =>
      simp only [hf] at hsegments
      rw [next_frame h hf, hsegments]
      exact ⟨.cons h (.nil b), List.filterMap_cons_some hf, fun hn => by cases hn⟩
    | none =>
      simp only [hf] at hsegments
      rw [next_onward h hf, hsegments, List.filterMap_cons_none hf]
      exact ⟨.cons h ih.1, ih.2⟩

theorem drain_eq (framer : Framer) : framer.drain =
    match framer.next with
    | (none, rest) => ([], rest)
    | (some f, rest) => (f :: rest.drain.1, rest.drain.2) := by
  rw [drain]
  split <;> rename_i h <;> rw [h]

theorem drain_wait (h : a.step? = none) : a.drain = ([], a) := by
  rw [drain_eq, next_wait h]

theorem drain_step (h : a.step? = some (s, b)) :
    a.drain = (s.frame?.toList ++ b.drain.1, b.drain.2) := by
  cases hf : s.frame? with
  | some f => rw [drain_eq, next_frame h hf]; rfl
  | none => rw [drain_eq, next_onward h hf, ← drain_eq]; rfl

def drainSegments (framer : Framer) : List Segment :=
  match _h : framer.step? with
  | none => []
  | some (s, rest) => s :: drainSegments rest
termination_by framer.buffer.length
decreasing_by exact step_shorter _h

theorem drainSegments_wait (h : a.step? = none) : a.drainSegments = [] := by
  rw [drainSegments]; split
  · rfl
  · rename_i h'; rw [h] at h'; cases h'

theorem drainSegments_step (h : a.step? = some (s, b)) :
    a.drainSegments = s :: b.drainSegments := by
  rw [drainSegments]; split
  · rename_i h'; rw [h] at h'; cases h'
  · rename_i h'; rw [h] at h'; cases h'; rfl

/-- **`drain` as a run of steps**, up to a buffer that waits. -/
theorem drain_steps (framer : Framer) : Steps framer framer.drainSegments framer.drain.2 ∧
    framer.drainSegments.filterMap Segment.frame? = framer.drain.1 ∧
    framer.drain.2.step? = none := by
  induction framer using step_induction with
  | wait a h =>
    rw [drain_wait h, drainSegments_wait h]
    exact ⟨.nil a, rfl, h⟩
  | step a s b h ih =>
    rw [drain_step h, drainSegments_step h]
    refine ⟨.cons h ih.1, ?_, ih.2.2⟩
    cases hf : s.frame? with
    | some f => rw [List.filterMap_cons_some hf, ih.2.1]; rfl
    | none => rw [List.filterMap_cons_none hf, ih.2.1]; rfl

/-- Draining at the start of a run gives the frames of the run and then those behind it. -/
theorem Steps.drain {l : List Segment} (h : Steps a l b) :
    a.drain = (l.filterMap Segment.frame? ++ b.drain.1, b.drain.2) := by
  induction h with
  | nil => rfl
  | @cons a b c s l hs _ ih =>
    rw [drain_step hs, ih]
    cases hf : s.frame? with
    | some f => rw [List.filterMap_cons_some hf]; rfl
    | none => rw [List.filterMap_cons_none hf]; rfl

theorem Steps.drainSegments {l : List Segment} (h : Steps a l b) :
    a.drainSegments = l ++ b.drainSegments := by
  induction h with
  | nil => rfl
  | cons hs _ ih => rw [drainSegments_step hs, ih]; rfl

end Framer

end TrackerWire
