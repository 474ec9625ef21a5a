import TrackerWire.Proofs.Framer.Step

/-!
# Runs of a framer

A connection uses its framer by feeding it and reading it in any order. `emitted`, `after` and
`history` tell what such a run of actions gives: the frames, the framer left, and the segments the
bytes fed were cut into.

The main result, `drain_schedule`: how the bytes are cut into chunks, and how often the framer is
read in between, makes no difference once it is drained. It rests on `replay`: the run is also a
run of steps from the framer that held all the bytes at the start.
-/
namespace TrackerWire.Framer

theorem feed_nil (framer : Framer) : framer.feed [] = framer := by
  simp only [feed, List.append_nil]

theorem feed_feed (framer : Framer) (chunk more : Bytes) :
    (framer.feed chunk).feed more = framer.feed (chunk ++ more) := by
  simp only [feed, List.append_assoc]

/-- What can be done with a framer. -/
inductive Action where
  | feed (chunk : Bytes)
  | next
  | finish
  | drain

namespace Action

/-- The frames an action emits and the framer it leaves. -/
def apply (framer : Framer) : Action → List Frame × Framer
  | .feed chunk => ([], framer.feed chunk)
  | .next => (framer.next.1.toList, framer.next.2)
  | .finish => (framer.finish.1.toList, framer.finish.2)
  | .drain => framer.drain

def bytes : Action → Bytes
  | .feed chunk => chunk
  | _ => []

/-- The bytes the end of the stream discards, if it finds no frame before them. -/
def tail (framer : Framer) : List Segment :=
  match framer.next with
  | (some _, _) => []
  | (none, rest) => if rest.buffer = [] then [] else [.discarded rest.buffer]

def segments (framer : Framer) : Action → List Segment
  | .feed _ => []
  | .next => framer.segments
  | .finish => framer.segments ++ tail framer
  | .drain => framer.drainSegments

theorem tail_frames (framer : Framer) : (tail framer).filterMap Segment.frame? = [] := by
  unfold tail
  split
  · rfl
  · split <;> rfl

theorem apply_frames (framer : Framer) (action : Action) :
    (action.apply framer).1 = (action.segments framer).filterMap Segment.frame? := by
  cases action with
  | feed chunk => rfl
  | next => exact (next_steps framer).2.1.symm
  | finish =>
    simp only [apply, segments, List.filterMap_append, tail_frames, (next_steps framer).2.1,
      List.append_nil]
    unfold Framer.finish
    split <;> rename_i h <;> rw [h]
  | drain => exact (drain_steps framer).2.1.symm

/-- Every action but the end of the stream is a run of steps once its bytes are there. -/
theorem apply_steps (framer : Framer) (action : Action) (h : action ≠ .finish) :
    Steps (framer.feed action.bytes) (action.segments framer) (action.apply framer).2 := by
  cases action with
  | feed chunk => exact .nil _
  | next => simp only [bytes, feed_nil]; exact (next_steps framer).1
  | finish => exact absurd rfl h
  | drain => simp only [bytes, feed_nil]; exact (drain_steps framer).1

end Action

/-- The frames a run emits. -/
def emitted (framer : Framer) : List Action → List Frame
  | [] => []
  | action :: actions => (action.apply framer).1 ++ emitted (action.apply framer).2 actions

/-- The framer a run leaves. -/
def after (framer : Framer) : List Action → Framer
  | [] => framer
  | action :: actions => after (action.apply framer).2 actions

/-- The segments a run takes off the stream, in order. -/
def history (framer : Framer) : List Action → List Segment
  | [] => []
  | action :: actions => action.segments framer ++ history (action.apply framer).2 actions

def fed (actions : List Action) : Bytes := actions.flatMap Action.bytes

/-- Chunks that arrive one after another, each with the number of reads behind it. -/
def schedule (pieces : List (Bytes × Nat)) : List Action :=
  pieces.flatMap fun piece => .feed piece.1 :: List.replicate piece.2 .next

section Runs

variable (framer : Framer) (actions more : List Action)

theorem emitted_append : emitted framer (actions ++ more) =
    emitted framer actions ++ emitted (after framer actions) more := by
  induction actions generalizing framer with
  | nil => rfl
  | cons action actions ih => simp only [List.cons_append, emitted, after, ih, List.append_assoc]

theorem after_append : after framer (actions ++ more) = after (after framer actions) more := by
  induction actions generalizing framer with
  | nil => rfl
  | cons action actions ih => simp only [List.cons_append, after, ih]

theorem history_append : history framer (actions ++ more) =
    history framer actions ++ history (after framer actions) more := by
  induction actions generalizing framer with
  | nil => rfl
  | cons action actions ih => simp only [List.cons_append, history, after, ih, List.append_assoc]

theorem emitted_eq_frames :
    emitted framer actions = (history framer actions).filterMap Segment.frame? := by
  induction actions generalizing framer with
  | nil => rfl
  | cons action actions ih =>
    rw [emitted, history, List.filterMap_append, ih, Action.apply_frames]

/-- **Replay.** A run without an end of the stream is a run of steps from the framer that held all
its bytes at the start. -/
theorem replay (h : ∀ action ∈ actions, action ≠ .finish) :
    Steps (framer.feed (fed actions)) (history framer actions) (after framer actions) := by
  induction actions generalizing framer with
  | nil =>
    rw [fed, List.flatMap_nil, feed_nil]
    exact .nil framer
  | cons action actions ih =>
    have hfirst := Action.apply_steps framer action (h action (List.mem_cons_self ..))
    have hrest := ih (action.apply framer).2 fun a ha => h a (List.mem_cons_of_mem _ ha)
    rw [fed, List.flatMap_cons, ← feed_feed]
    exact (hfirst.feed (fed actions)).append hrest

end Runs

theorem fed_schedule (pieces : List (Bytes × Nat)) :
    fed (schedule pieces) = pieces.flatMap Prod.fst := by
  induction pieces with
  | nil => rfl
  | cons piece pieces ih =>
    have hreads : fed (List.replicate piece.2 .next) = [] := by
      simp [fed, List.flatMap_replicate, Action.bytes]
    have hpiece : fed (schedule (piece :: pieces)) =
        piece.1 ++ (fed (List.replicate piece.2 .next) ++ fed (schedule pieces)) := by
      simp only [schedule, fed, List.flatMap_cons, List.flatMap_append, List.cons_append]
      rfl
    rw [hpiece, hreads, ih]; rfl

theorem schedule_goes_on (pieces : List (Bytes × Nat)) :
    ∀ action ∈ schedule pieces, action ≠ .finish := by
  intro action h
  obtain ⟨piece, -, h⟩ := List.mem_flatMap.mp h
  rcases List.mem_cons.mp h with h | h
  · rw [h]; intro he; cases he
  · rw [List.eq_of_mem_replicate h]; intro he; cases he

/-- **Chunking makes no difference.** Whatever framer the stream comes to, however it is cut into
chunks and however often the framer is read in between: once drained it has emitted the frames it
emits when the whole stream comes at once, and the same bytes and the same count are left. -/
theorem drain_schedule (framer : Framer) (pieces : List (Bytes × Nat)) :
    emitted framer (schedule pieces ++ [.drain]) =
      emitted framer [.feed (pieces.flatMap Prod.fst), .drain] ∧
    after framer (schedule pieces ++ [.drain]) =
      after framer [.feed (pieces.flatMap Prod.fst), .drain] := by
  have hsteps := replay framer (schedule pieces) (schedule_goes_on pieces)
  rw [fed_schedule] at hsteps
  have hdrain := hsteps.drain
  refine ⟨?_, ?_⟩
  · rw [emitted_append, emitted_eq_frames framer (schedule pieces)]
    simp only [emitted, Action.apply, List.append_nil, List.nil_append]
    rw [hdrain]
  · rw [after_append]
    simp only [after, Action.apply]
    rw [hdrain]

end TrackerWire.Framer
