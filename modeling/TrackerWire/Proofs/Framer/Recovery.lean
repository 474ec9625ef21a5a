import TrackerWire.Proofs.Framer.Accounting
import TrackerWire.Proofs.Framer.Resync

/-!
# Every good frame among noise is found

A stream is made up of passages: what good frames write, corrupted frames, and runs of junk. Junk
may hold single marker bytes, whole markers and any bytes at all. What it must not hold is a
header that a framer would believe: the marker and, behind it, a length that a frame can have.
`Honest` asks just that, of every offset inside a run, reading on into what follows the run.

On such a stream a framer takes the passages one by one (`steps_stream`): a junk run byte by byte,
a frame as a whole, whatever its payload holds. `recovers_every_frame` says so of a new framer, in
whatever chunks the stream comes.
-/
namespace TrackerWire

open Framing

/-- A part of a stream. -/
inductive Passage where
  | good (frame : Frame) (fits : frame.Fits)
  | corrupted (bytes : Bytes) (damaged : Corrupted bytes)
  | junk (run : Bytes)

namespace Passage

def bytes : Passage → Bytes
  | .good f _ => f.wire
  | .corrupted c _ => c
  | .junk run => run

def frame? : Passage → Option Frame
  | .good f _ => some f
  | _ => none

def noise : Passage → Bytes
  | .junk run => run
  | _ => []

def isJunk : Passage → Bool
  | .junk _ => true
  | _ => false

/-- What a framer takes a passage as. -/
def segments : Passage → List Segment
  | .good f _ => [.frame f]
  | .corrupted c _ => [.corrupted c]
  | .junk run => run.map .skipped

def stream (passages : List Passage) : Bytes := passages.flatMap bytes

/-- The last passage is a frame, good or corrupted. -/
def EndsInFrame (passages : List Passage) : Prop := passages.getLast?.map isJunk = some false

/-- The junk behind the last good frame. -/
def noiseBehind (passages : List Passage) : Bytes :=
  (passages.rtakeWhile fun p => p.frame?.isNone).flatMap noise

theorem stream_cons (p : Passage) (passages : List Passage) :
    stream (p :: passages) = p.bytes ++ stream passages := rfl

theorem frames_segments (p : Passage) : p.segments.filterMap Segment.frame? = p.frame?.toList := by
  cases p with
  | good f fits => rfl
  | corrupted c damaged => rfl
  | junk run =>
    rw [segments, List.filterMap_map]
    exact List.filterMap_eq_nil_iff.mpr fun _ _ => rfl

theorem frames_flatMap_segments (passages : List Passage) :
    (passages.flatMap segments).filterMap Segment.frame? = passages.filterMap frame? := by
  induction passages with
  | nil => rfl
  | cons p passages ih =>
    rw [List.flatMap_cons, List.filterMap_append, ih, frames_segments]
    cases h : p.frame? with
    | none => rw [List.filterMap_cons_none h]; rfl
    | some f => rw [List.filterMap_cons_some h]; rfl

theorem foldl_tally_skipped (run : Bytes) (n : Nat) :
    (run.map Segment.skipped).foldl Segment.tally n = n + run.length := by
  induction run generalizing n with
  | nil => rfl
  | cons byte run ih =>
    rw [List.map_cons, List.foldl_cons, ih, List.length_cons]
    simp only [Segment.tally]
    omega

/-- Counted through a whole stream, what is left is the junk behind the last good frame. -/
theorem foldl_tally_segments (passages : List Passage) :
    (passages.flatMap segments).foldl Segment.tally 0 = (noiseBehind passages).length := by
  induction passages using List.reverseRecOn with
  | nil => rfl
  | append_singleton passages p ih =>
    rw [List.flatMap_append, List.flatMap_singleton, List.foldl_append, ih]
    unfold noiseBehind
    cases p with
    | good f fits => rw [List.rtakeWhile_concat_neg _ _ _ (by simp [frame?])]; rfl
    | corrupted c damaged =>
      rw [List.rtakeWhile_concat_pos _ _ _ rfl, List.flatMap_append, List.length_append]
      rfl
    | junk run =>
      rw [List.rtakeWhile_concat_pos _ _ _ rfl, List.flatMap_append, List.flatMap_singleton,
        List.length_append]
      exact foldl_tally_skipped run _

theorem bytes_length {p : Passage} (h : p.isJunk = false) : Frame.minSize ≤ p.bytes.length := by
  cases p with
  | good f fits => rw [bytes, f.length_wire]; exact f.minSize_le_encodedLength
  | corrupted c damaged => exact damaged.1.size
  | junk run => cases h

theorem EndsInFrame.length_stream {passages : List Passage} (h : EndsInFrame passages) :
    Frame.minSize ≤ (stream passages).length := by
  obtain ⟨last, hlast, hjunk⟩ := Option.map_eq_some_iff.mp h
  obtain ⟨before, hbefore⟩ := List.getLast?_eq_some_iff.mp hlast
  have := bytes_length hjunk
  rw [hbefore, stream, List.flatMap_append, List.flatMap_singleton, List.length_append]
  omega

/-- Behind a passage that does not end the stream, and behind junk, the stream ends as before. -/
theorem EndsInFrame.tail {p : Passage} {passages : List Passage} (h : EndsInFrame (p :: passages))
    (hmore : passages ≠ [] ∨ p.isJunk = true) : EndsInFrame passages := by
  cases passages with
  | nil =>
    simp only [EndsInFrame, List.getLast?_singleton, Option.map_some, Option.some.injEq] at h
    simp [h] at hmore
  | cons q passages =>
    rw [EndsInFrame, List.getLast?_cons_cons] at h
    exact h

end Passage

/-! ## Junk -/

/-- The bytes start like a frame: with the marker and a length that a frame can have. -/
def LooksLikeFrame : Bytes → Prop
  | a :: b :: hi :: lo :: _ =>
    a = Ascii.atSign ∧ b = Ascii.atSign ∧ Frame.minSize ≤ (Bytes.word hi lo).toNat
  | _ => False

instance : DecidablePred LooksLikeFrame
  | _ :: _ :: _ :: _ :: _ => inferInstanceAs (Decidable (_ ∧ _ ∧ _))
  | [] | [_] | [_, _] | [_, _, _] => inferInstanceAs (Decidable False)

/-- No offset inside a junk run looks like the start of a frame. -/
def Honest : List Passage → Prop
  | [] => True
  | p :: passages =>
    (∀ i < p.noise.length, ¬ LooksLikeFrame ((p.noise ++ Passage.stream passages).drop i)) ∧
      Honest passages

theorem examine_junk {bytes : Bytes} (hlen : 4 ≤ bytes.length) (h : ¬ LooksLikeFrame bytes) :
    ∃ error, examine bytes = .skip error := by
  match bytes with
  | [] | [_] | [_, _] | [_, _, _] => simp at hlen
  | a :: b :: hi :: lo :: rest =>
    by_cases hab : a = Ascii.atSign ∧ b = Ascii.atSign
    · obtain ⟨rfl, rfl⟩ := hab
      have hsmall : (Bytes.word hi lo).toNat < Frame.minSize :=
        Nat.lt_of_not_le fun hle => h ⟨rfl, rfl, hle⟩
      exact ⟨_, by rw [examine_marker, examineLength, if_pos hsmall]⟩
    · exact ⟨.badMarker, by simp [examine, hab]⟩

namespace Framer

open Passage

/-- A junk run is skipped byte by byte up to what follows it. -/
theorem steps_junk {run rest : Bytes} (hlen : 4 ≤ rest.length)
    (h : ∀ i < run.length, ¬ LooksLikeFrame ((run ++ rest).drop i)) (n : Nat) :
    Steps ⟨run ++ rest, n⟩ (run.map .skipped) ⟨rest, n + run.length⟩ := by
  induction run generalizing n with
  | nil => exact .nil _
  | cons byte run ih =>
    have hbytes : 4 ≤ (byte :: run ++ rest).length := by
      rw [List.length_append]; omega
    obtain ⟨error, hskip⟩ := examine_junk hbytes (h 0 (Nat.succ_pos _))
    have hrun := ih (fun i hi => h (i + 1) (Nat.succ_lt_succ hi)) (n + 1)
    rw [List.length_cons, Nat.add_comm run.length, ← Nat.add_assoc]
    exact .cons (step_skip hskip n) hrun

/-- A framer takes an honest stream passage by passage, and nothing is left of it. -/
theorem steps_stream {passages : List Passage} (hhonest : Honest passages)
    (hends : passages ≠ [] → EndsInFrame passages) (n : Nat) :
    Steps ⟨stream passages, n⟩ (passages.flatMap Passage.segments)
      ⟨[], (passages.flatMap Passage.segments).foldl Segment.tally n⟩ := by
  induction passages generalizing n with
  | nil => exact .nil _
  | cons p passages ih =>
    have hends := hends (List.cons_ne_nil _ _)
    have hrest := ih hhonest.2 fun hne => hends.tail (.inl hne)
    rw [stream_cons, List.flatMap_cons, List.foldl_append]
    cases p with
    | good f fits => exact .cons (step_wire fits _ n) (hrest 0)
    | corrupted c damaged => exact .cons (step_corrupted damaged _ n) (hrest n)
    | junk run =>
      have hlen : 4 ≤ (stream passages).length :=
        Nat.le_trans (by decide) (hends.tail (.inr rfl)).length_stream
      have hjunk := steps_junk hlen hhonest.1 n
      rw [Passage.segments, foldl_tally_skipped]
      exact hjunk.append (hrest (n + run.length))

/-- **Every good frame among noise is found.** On an honest stream that ends in a frame, good or
corrupted, a new framer emits exactly the good frames, in order, in whatever chunks the stream
comes and however often it is read in between. Nothing is left in the buffer, and the bytes counted
as skipped are the junk behind the last good frame. -/
theorem recovers_every_frame (passages : List Passage) (pieces : List (Bytes × Nat))
    (hhonest : Honest passages) (hends : EndsInFrame passages)
    (hpieces : pieces.flatMap Prod.fst = stream passages) :
    emitted {} (schedule pieces ++ [.drain]) = passages.filterMap frame? ∧
      after {} (schedule pieces ++ [.drain]) =
        { buffer := [], skipped := (noiseBehind passages).length } := by
  have hsteps := steps_stream hhonest (fun _ => hends) 0
  have hwait : step? ⟨[], (noiseBehind passages).length⟩ = none := step_wait rfl
  rw [foldl_tally_segments] at hsteps
  have hdrain : drain ⟨stream passages, 0⟩ =
      (passages.filterMap frame?, ⟨[], (noiseBehind passages).length⟩) := by
    rw [hsteps.drain, drain_wait hwait, frames_flatMap_segments, List.append_nil]
  obtain ⟨hemitted, hafter⟩ := drain_schedule {} pieces
  rw [hemitted, hafter, hpieces]
  simp only [emitted, after, Action.apply, feed, List.nil_append, List.append_nil]
  rw [hdrain]
  exact ⟨rfl, rfl⟩

/-- A heartbeat with a zero where its checksum should be. -/
def damagedHeartbeat : Bytes := heartbeat.checkedPart ++ [0x00, 0x00] ++ Frame.terminator

theorem corrupted_damagedHeartbeat : Corrupted damagedHeartbeat := by
  refine ⟨⟨by decide, by decide, by decide, by decide⟩, ?_⟩
  unfold Intact
  decide +kernel

/-- Junk with a marker byte and with a marker before a length that is too small, a damaged frame,
two good frames with junk between them, and a damaged frame at the end. -/
theorem recovers_two_heartbeats :
    let good := Passage.good heartbeat (by decide)
    let damaged := Passage.corrupted damagedHeartbeat corrupted_damagedHeartbeat
    let passages := [.junk [0x01, 0x40, 0x02, 0x40, 0x40, 0x00, 0x05], damaged, good,
      .junk [0x40, 0x40, 0x00, 0x10], good, .junk [0x40, 0x0A], damaged]
    let pieces := [((stream passages).take 3, 2), ((stream passages).drop 3, 0)]
    (Honest passages ∧ EndsInFrame passages ∧ pieces.flatMap Prod.fst = stream passages) ∧
      emitted {} (schedule pieces ++ [.drain]) = passages.filterMap frame? ∧
      after {} (schedule pieces ++ [.drain]) =
        { buffer := [], skipped := (noiseBehind passages).length } := by
  intro good damaged passages pieces
  have hhonest : Honest passages := by
    refine ⟨by decide +kernel, by decide, by decide, by decide +kernel, by decide,
      by decide +kernel, by decide, trivial⟩
  have hends : EndsInFrame passages := rfl
  have hpieces : pieces.flatMap Prod.fst = stream passages := by
    simp only [pieces, List.flatMap_cons, List.flatMap_nil, List.append_nil, List.take_append_drop]
  exact ⟨⟨hhonest, hends, hpieces⟩,
    recovers_every_frame passages pieces hhonest hends hpieces⟩

end Framer

end TrackerWire
