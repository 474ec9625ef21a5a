import Mathlib.Data.List.DropRight
import TrackerWire.Proofs.Framer.Run

/-!
# No byte is lost

`Accounts a arrived l b` says that the segments `l` account for what became of the bytes a framer
held and of those that arrived: cut into the segments in order, with the rest still held, they are
all there, every segment is what it says it is, and the count of skipped bytes is right. Accounts
of one piece of a run after another add up (`Accounts.append`), every action has one
(`Action.accounts`), and so has every run (`run_accounts`).

`stream_accounted` is the account of a whole connection.
-/
namespace TrackerWire

open Framing

/-! ## Segments that are what they say -/

namespace Segment

/-- What a segment says of the stream from its first byte on. At a skipped byte no frame starts,
good or corrupted; a good frame is what its encoding is; what the end of the stream discards was
waiting for more. -/
def Sound (stream : Bytes) : Segment → Prop
  | .skipped _ => (∀ (f : Frame) (c : Bytes), f.encode = .ok c → ¬ c <+: stream) ∧
    ∀ c, Corrupted c → ¬ c <+: stream
  | .corrupted c => Corrupted c
  | .lost _ => False
  | .frame f => f.encode = .ok f.wire
  | .discarded c => c ≠ [] ∧ examine c = .wait

/-- Every segment is sound where it starts. -/
def AllSound : List Segment → Bytes → Prop
  | [], _ => True
  | s :: l, stream => s.Sound stream ∧ AllSound l (stream.drop s.bytes.length)

theorem allSound_append (l m : List Segment) (stream : Bytes) : AllSound (l ++ m) stream ↔
    AllSound l stream ∧ AllSound m (stream.drop (l.flatMap bytes).length) := by
  induction l generalizing stream with
  | nil => simp [AllSound]
  | cons s l ih =>
    rw [List.cons_append, AllSound, AllSound, ih, List.drop_drop, List.flatMap_cons,
      List.length_append, and_assoc]

/-- The tally of a stream counts the bytes skipped behind its last frame. -/
theorem foldl_tally (l : List Segment) : l.foldl tally 0 =
    (l.rtakeWhile fun s => s.frame?.isNone).countP isSkipped := by
  induction l using List.reverseRecOn with
  | nil => rfl
  | append_singleton l s ih =>
    rw [List.foldl_append, List.foldl_cons, List.foldl_nil, ih]
    cases s with
    | frame f => rw [List.rtakeWhile_concat_neg _ _ _ (by simp [frame?])]; rfl
    | skipped byte =>
      rw [List.rtakeWhile_concat_pos _ _ _ rfl, List.countP_append]; rfl
    | corrupted c | lost c | discarded c =>
      rw [List.rtakeWhile_concat_pos _ _ _ rfl, List.countP_append]; rfl

end Segment

namespace Framer

theorem step_sound {a b : Framer} {s : Segment} (h : a.step? = some (s, b)) (more : Bytes) :
    s.Sound (a.buffer ++ more) := by
  rcases step_some h with ⟨byte, rest, e, rfl, -, hb, hskip⟩ | ⟨c, rest, rfl, -, -, hc⟩ |
      ⟨f, rest, rfl, -, -, hf⟩
  · rw [hb]
    have hlook := hskip more
    refine ⟨?_, ?_⟩
    · intro f c hc hprefix
      obtain ⟨behind, hbehind⟩ := hprefix
      rw [← hbehind] at hlook
      by_cases hfits : f.Fits
      · rw [Frame.encode_of_fits hfits] at hc
        cases hc
        rw [examine_wire hfits] at hlook
        cases hlook
      · unfold Frame.Fits at hfits
        rw [Frame.encode, if_pos (by omega)] at hc
        cases hc
    · intro c hc hprefix
      obtain ⟨behind, hbehind⟩ := hprefix
      obtain ⟨expected, actual, he⟩ := examine_corrupted hc behind
      rw [← hbehind, he] at hlook
      cases hlook
  · exact hc
  · exact Frame.encode_of_fits hf

/-! ## Accounts -/

/-- The segments account for the bytes held at the start and those that arrived. -/
structure Accounts (a : Framer) (arrived : Bytes) (l : List Segment) (b : Framer) : Prop where
  bytes : a.buffer ++ arrived = l.flatMap Segment.bytes ++ b.buffer
  skipped : b.skipped = l.foldl Segment.tally a.skipped
  sound : ∀ more, Segment.AllSound l (a.buffer ++ arrived ++ more)

namespace Accounts

variable {a b c : Framer} {x y : Bytes} {l m : List Segment}

theorem append (h : Accounts a x l b) (h' : Accounts b y m c) :
    Accounts a (x ++ y) (l ++ m) c := by
  refine ⟨?_, ?_, fun more => ?_⟩
  · rw [← List.append_assoc, h.bytes, List.append_assoc, h'.bytes, List.flatMap_append,
      List.append_assoc]
  · rw [List.foldl_append, ← h.skipped, h'.skipped]
  · have hstream : a.buffer ++ (x ++ y) ++ more = a.buffer ++ x ++ (y ++ more) := by
      simp only [List.append_assoc]
    rw [hstream, Segment.allSound_append]
    refine ⟨h.sound (y ++ more), ?_⟩
    have hrest := h'.sound more
    rw [h.bytes, List.append_assoc, List.drop_left, ← List.append_assoc]
    exact hrest

theorem of_step {s : Segment} (h : a.step? = some (s, b)) : Accounts a [] [s] b := by
  refine ⟨?_, step_tally h, fun more => ⟨?_, trivial⟩⟩
  · rw [List.append_nil, List.flatMap_singleton]; exact step_bytes h
  · rw [List.append_nil]; exact step_sound h more

theorem of_steps (h : Steps a l b) : Accounts a [] l b := by
  induction h with
  | nil a => exact ⟨List.append_nil _, rfl, fun _ => trivial⟩
  | cons hs _ ih => exact (of_step hs).append ih

theorem of_feed (h : Steps (a.feed x) l b) : Accounts a x l b := by
  have hfed := of_steps h
  refine ⟨?_, hfed.skipped, fun more => ?_⟩
  · rw [← hfed.bytes, List.append_nil]; rfl
  · have := hfed.sound more
    rw [List.append_nil] at this
    exact this

theorem of_discard (hwait : examine a.buffer = .wait) :
    Accounts a [] (if a.buffer = [] then [] else [.discarded a.buffer])
      { a with buffer := [] } := by
  by_cases h : a.buffer = []
  · rw [if_pos h]
    exact ⟨by rw [h]; rfl, rfl, fun _ => trivial⟩
  · rw [if_neg h]
    refine ⟨?_, rfl, fun _ => ⟨⟨h, hwait⟩, trivial⟩⟩
    rw [List.flatMap_singleton]; rfl

end Accounts

theorem Action.accounts (framer : Framer) (action : Action) :
    Accounts framer action.bytes (action.segments framer) (action.apply framer).2 := by
  by_cases hfinish : action = .finish
  · subst hfinish
    obtain ⟨hsteps, -, hwait⟩ := next_steps framer
    have hnext := Accounts.of_steps hsteps
    simp only [segments, tail, apply, Framer.finish]
    cases hn : framer.next with
    | mk found rest =>
      rw [hn] at hnext hwait
      cases found with
      | some f => simp only [List.append_nil]; exact hnext
      | none => exact hnext.append (.of_discard (step_none (hwait rfl)).1)
  · exact .of_feed (apply_steps framer action hfinish)

/-- **Every run is accounted for.** -/
theorem run_accounts (framer : Framer) (actions : List Action) :
    Accounts framer (fed actions) (history framer actions) (after framer actions) := by
  induction actions generalizing framer with
  | nil => exact ⟨List.append_nil _, rfl, fun _ => trivial⟩
  | cons action actions ih => exact (Action.accounts framer action).append (ih _)

/-! ## The end of the stream -/

theorem finish_empty {framer : Framer} (h : framer.finish.1 = none) :
    framer.finish.2.buffer = [] := by
  unfold finish at h ⊢
  split <;> rename_i hn
  · rw [hn] at h; cases h
  · rfl

theorem Steps.not_discarded {a b : Framer} {l : List Segment} (h : Steps a l b) (c : Bytes) :
    .discarded c ∉ l := by
  induction h with
  | nil => exact List.not_mem_nil
  | @cons a _ _ s l hs _ ih =>
    intro hmem
    rcases List.mem_cons.mp hmem with hhead | htail
    · subst hhead
      rcases step_some hs with ⟨byte, rest, e, h, -⟩ | ⟨c, rest, h, -⟩ | ⟨f, rest, h, -⟩ <;> cases h
    · exact ih htail

/-- Only the end of the stream discards, and only where it finds no frame. -/
theorem Action.discarded {framer : Framer} {action : Action} {c : Bytes}
    (h : .discarded c ∈ action.segments framer) :
    action = .finish ∧ framer.finish.1 = none ∧ framer.next.2.buffer = c := by
  by_cases hfinish : action = .finish
  · subst hfinish
    refine ⟨rfl, ?_⟩
    rcases List.mem_append.mp h with hnext | htail
    · exact absurd hnext ((next_steps framer).1.not_discarded c)
    · unfold tail at htail
      unfold Framer.finish
      cases hn : framer.next with
      | mk found rest =>
        rw [hn] at htail
        cases found with
        | some f => cases htail
        | none =>
          simp only at htail
          split at htail
          · cases htail
          · cases List.mem_singleton.mp htail
            exact ⟨rfl, rfl⟩
  · exact absurd h ((apply_steps framer action hfinish).not_discarded c)

theorem mem_history_discarded {framer : Framer} {actions : List Action} {c : Bytes}
    (h : .discarded c ∈ history framer actions) : ∃ past future,
      actions = past ++ .finish :: future ∧ (after framer past).finish.1 = none ∧
      (after framer past).next.2.buffer = c := by
  induction actions generalizing framer with
  | nil => cases h
  | cons action actions ih =>
    rcases List.mem_append.mp h with hnow | hlater
    · obtain ⟨haction, hfound⟩ := Action.discarded hnow
      exact ⟨[], actions, by rw [haction]; rfl, hfound⟩
    · obtain ⟨past, future, hactions, hfound⟩ := ih hlater
      exact ⟨action :: past, future, by rw [hactions]; rfl, hfound⟩

/-- **No byte of a stream is lost, doubled or made up.** Whatever is done with a new framer, the
bytes fed are the segments taken, in order, and then the bytes still held. Every segment is sound
where it starts, and a discarded one is what an end of the stream found no frame in. The frames
emitted are those among the segments, and the count is that of the bytes skipped behind the last of
them. No look takes more bytes than there are, and an end of the stream without a frame leaves
none. -/
theorem stream_accounted (actions : List Action) :
    fed actions = (history {} actions).flatMap Segment.bytes ++ (after {} actions).buffer ∧
    Segment.AllSound (history {} actions) (fed actions) ∧
    (∀ c, .discarded c ∈ history {} actions → ∃ past future,
      actions = past ++ .finish :: future ∧ (after {} past).finish.1 = none ∧
      (after {} past).next.2.buffer = c) ∧
    emitted {} actions = (history {} actions).filterMap Segment.frame? ∧
    (after {} actions).skipped =
      ((history {} actions).rtakeWhile fun s => s.frame?.isNone).countP Segment.isSkipped ∧
    (∀ buffer, (examine buffer).advance ≤ buffer.length) ∧
    ∀ framer : Framer, framer.finish.1 = none → framer.finish.2.buffer = [] := by
  have haccounts := run_accounts {} actions
  have hsound := haccounts.sound []
  rw [List.append_nil] at hsound
  refine ⟨haccounts.bytes, hsound, fun c hc => mem_history_discarded hc,
    emitted_eq_frames {} actions, ?_, advance_le_length, fun framer h => finish_empty h⟩
  rw [haccounts.skipped]
  exact Segment.foldl_tally _

end Framer

end TrackerWire
