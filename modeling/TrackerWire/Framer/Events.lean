import TrackerWire.Event
import TrackerWire.Framer

/-!
# What a framer has to tell

The events of `Framer.next` and `Framer.finish`: one for every byte skipped and every damaged
frame dropped, one for a good frame behind skipped bytes, one for a discarded tail.
-/

namespace TrackerWire.Framer

open Framing

/-- The events of `next` in front of those `told` so far, latest first. -/
def eventsOnto (told : List Event) (framer : Framer) : List Event :=
  match _h : examine framer.buffer with
  | .wait => told
  | .skip error =>
    eventsOnto (.skippedByte error :: told)
      { buffer := framer.buffer.drop 1, skipped := framer.skipped + 1 }
  | .corrupted length expected actual =>
    eventsOnto (.droppedFrame (.invalidChecksum expected actual) length :: told)
      { framer with buffer := framer.buffer.drop length }
  | .unparsed length error =>
    eventsOnto (.skippedByte error :: told)
      { buffer := framer.buffer.drop (length + 1), skipped := framer.skipped + 1 }
  | .good .. => if framer.skipped > 0 then .resynchronized framer.skipped :: told else told
termination_by framer.buffer.length
decreasing_by
  · have := List.length_pos_iff.mpr (examine_skip_ne_nil _h)
    simp only [List.length_drop]
    omega
  · have := examine_corrupted_length _h
    have := List.length_pos_iff.mpr this.2
    simp only [List.length_drop]
    omega
  · have := List.length_pos_iff.mpr (examine_unparsed_ne_nil _h)
    simp only [List.length_drop]
    omega

/-- The events of `next`, in order. -/
def nextEvents (framer : Framer) : List Event := (eventsOnto [] framer).reverse

def finishEvents (framer : Framer) : List Event :=
  match framer.next with
  | (some _, _) => framer.nextEvents
  | (none, rest) =>
    framer.nextEvents ++ if rest.buffer = [] then [] else [.discardedTail rest.buffer.length]

def nextLogged (framer : Framer) : Logged (Option Frame × Framer) :=
  ⟨framer.next, framer.nextEvents⟩

def finishLogged (framer : Framer) : Logged (Option Frame × Framer) :=
  ⟨framer.finish, framer.finishEvents⟩

end TrackerWire.Framer
