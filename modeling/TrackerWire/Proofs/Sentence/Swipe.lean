import TrackerWire.Proofs.Sentence.Acceptance
import TrackerWire.Proofs.Sentence.Readable

/-!
# Card swipes

Behind the cards of a swipe stand its time, date and place. `SwipeText` has the parts; the grammar
reads the swipes and nothing else, and its captures are the parts (`prefers_swipe`,
`parse_swipe`).
-/
namespace TrackerWire

open Slot

namespace Sentence

/-- What stands behind the cards of a swipe. -/
structure SwipeText where
  hour : Fin 100
  minute : Fin 100
  second : Fin 100
  day : Fin 100
  month : Fin 100
  year : Fin 100
  place : PlaceText

namespace SwipeText

def bytes (swipe : SwipeText) : Bytes :=
  Ascii.bar :: (tripleText swipe.hour swipe.minute swipe.second ++ Ascii.comma ::
    (tripleText swipe.day swipe.month swipe.year ++ Ascii.comma :: swipe.place.bytes))

def text (swipe : SwipeText) : String := Ascii.text swipe.bytes

def texts (swipe : SwipeText) : List (Option Bytes) :=
  [some (pairText swipe.hour), some (pairText swipe.minute), some (pairText swipe.second),
    some (pairText swipe.day), some (pairText swipe.month), some (pairText swipe.year)] ++
  swipe.place.texts

theorem ascii (swipe : SwipeText) : Ascii.All swipe.bytes := by
  simp [bytes, tripleText, ascii_pair, swipe.place.ascii, Ascii.bar, Ascii.comma]

end SwipeText

theorem swipeSlots_ascii : BlockMadeOf (· < 0x80) swipeSlots := by
  simp only [swipeSlots, pairs, place, List.cons_append, List.nil_append, BlockMadeOf]
  and_intros
  all_goals first
    | exact numeric_ascii rfl
    | exact letters_ascii (by decide) (by decide)
    | exact byte_madeOf (by decide)
    | trivial

/-- **Every swipe is read as it was meant.** -/
theorem prefers_swipe (swipe : SwipeText) (after : Bytes) :
    Prefers swipeSlots swipe.bytes after swipe.texts [] := by
  have hcomma : Ascii.comma < 0x80 := by decide
  have hplace : Prefers (comma :: place) (Ascii.comma :: swipe.place.bytes) after
      swipe.place.texts [] := .byte_cons hcomma (prefers_place swipe.place after)
  have hdate : Prefers (comma :: (pairs ++ comma :: place))
      (Ascii.comma :: (tripleText swipe.day swipe.month swipe.year ++
        Ascii.comma :: swipe.place.bytes)) after _ _ :=
    .byte_cons hcomma ((prefers_pairs swipe.day swipe.month swipe.year _).append hplace)
  exact .byte_cons (by decide)
    ((prefers_pairs swipe.hour swipe.minute swipe.second _).append hdate)

/-- **What the grammar reads is a swipe.** -/
theorem spells_swipe {text : Bytes} {texts : List (Option Bytes)}
    (h : Spells swipeSlots text texts) :
    ∃ swipe : SwipeText, text = swipe.bytes ∧ texts = swipe.texts := by
  have hsplit : swipeSlots = byte Ascii.bar :: (pairs ++ (comma :: (pairs ++ (comma :: place)))) :=
    rfl
  rw [hsplit] at h
  obtain ⟨_, rfl, h₁⟩ := h.byte_cons
  obtain ⟨_, _, _, _, rfl, rfl, hclock, h₂⟩ := h₁.append
  obtain ⟨_, rfl, h₃⟩ := h₂.byte_cons
  obtain ⟨_, _, _, _, rfl, rfl, hdate, h₄⟩ := h₃.append
  obtain ⟨_, rfl, hplace⟩ := h₄.byte_cons
  obtain ⟨hour, minute, second, rfl, rfl⟩ := spells_pairs hclock
  obtain ⟨day, month, year, rfl, rfl⟩ := spells_pairs hdate
  obtain ⟨place, rfl, rfl⟩ := spells_place hplace
  exact ⟨⟨hour, minute, second, day, month, year, place⟩, rfl, rfl⟩

/-- **The sentences of a swipe are the swipes**, and a match holds their parts. -/
theorem parse_swipe {s : String} {captures : Captures} (h : rfid.parse s = some captures) :
    ∃ swipe : SwipeText, s = swipe.text ∧
      ∀ index, captures.bytesAt index = (swipe.texts[index]?).join := by
  obtain ⟨texts, hspells, hholds⟩ := parse_spells swipeSlots_ascii (rfid_eq ▸ h)
  obtain ⟨swipe, hbytes, rfl⟩ := spells_swipe hspells
  refine ⟨swipe, ?_, hholds⟩
  rw [SwipeText.text, ← hbytes, Utf8.text_utf8 hspells.1]

/-- Every swipe matches, and the match holds its parts. -/
theorem parse_swipe_text (swipe : SwipeText) : ∃ captures, rfid.parse swipe.text = some captures ∧
    ∀ index, captures.bytesAt index = (swipe.texts[index]?).join := by
  have hprefers := prefers_swipe swipe []
  rw [← Utf8.utf8_text swipe.ascii] at hprefers
  obtain ⟨captures, hparse, hholds⟩ := parse_prefers "rfid" hprefers
  exact ⟨captures, hparse, hholds.bytesAt_eq⟩

end Sentence

end TrackerWire
