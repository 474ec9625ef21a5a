import TrackerWire.Proofs.Grammar.Spelling

/-!
# Foremost readings

The search takes the first reading of a whole input. Then each part of a grammar has the first of
the readings of its own part of the text: another one that comes before it could be put in its
place. So a choice that was made the second way shows that the first way has no reading of the
same text, whatever the search tried and took back on its way.

* `parse_foremost`: what a match holds is the foremost reading of the sentence.
* `Foremost.append`, `Foremost.optional`: so are the readings of its parts.
* `Foremost.repeated`: of equal optional blocks in a row the first ones are there, without a gap.
-/
namespace TrackerWire

theorem tally_readsBlock {block : List Slot} {start : Nat} {text : Bytes} {r : Reading}
    (h : Slot.ReadsBlock block start text r) : r.tally = (Slot.absentBlock block).tally := by
  have hrest : (List.replicate start 0 ++ text).drop start = text :=
    List.drop_left' List.length_replicate
  have hstands : Stands (List.replicate start 0 ++ text) start text (start + text.length) :=
    ⟨hrest.symm ▸ List.prefix_rfl, rfl⟩
  exact tally_readingsBlock _ block start _
    ((mem_readingsBlock _ block start _ r).mpr ⟨text, hstands, h⟩)

/-- Readings one behind the other. -/
def Reading.joined (readings : List Reading) : Reading := readings.foldr (· ++ ·) {}

namespace Slot

/-- A reading that none of the same text comes before. -/
def Foremost (block : List Slot) (start : Nat) (text : Bytes) (r : Reading) : Prop :=
  ReadsBlock block start text r ∧ ∀ other, ReadsBlock block start text other → ¬ other.Before r

variable {block early late : List Slot} {start : Nat} {text : Bytes} {r : Reading}

theorem Foremost.append (h : Foremost (early ++ late) start text r) :
    ∃ first second s t, text = first ++ second ∧ r = s ++ t ∧ Foremost early start first s ∧
      Foremost late (start + first.length) second t := by
  obtain ⟨hreads, hnone⟩ := h
  obtain ⟨first, second, s, t, rfl, rfl, hearly, hlate⟩ := readsBlock_append.mp hreads
  refine ⟨first, second, s, t, rfl, rfl, ⟨hearly, fun other hother hbefore => ?_⟩,
    ⟨hlate, fun other hother hbefore => ?_⟩⟩
  · exact hnone _ (readsBlock_append.mpr ⟨first, second, other, t, rfl, rfl, hother, hlate⟩)
      (hbefore.append t t)
  · exact hnone _ (readsBlock_append.mpr ⟨first, second, s, other, rfl, rfl, hearly, hother⟩)
      (hbefore.prepend s)

theorem Foremost.cons {slot : Slot} {rest : List Slot}
    (h : Foremost (slot :: rest) start text r) :
    ∃ first second s t, text = first ++ second ∧ r = s ++ t ∧ Foremost [slot] start first s ∧
      Foremost rest (start + first.length) second t :=
  @Foremost.append [slot] rest start text r h

theorem readsBlock_single {slot : Slot} (h : Reads slot start text r) :
    ReadsBlock [slot] start text r := by
  have hcons := ReadsBlock.cons h .nil
  rwa [List.append_nil, Reading.append_nil] at hcons

/-- An optional block is there, or it has no reading of the same text, which is empty. -/
theorem Foremost.optional (h : Foremost [.optional block] start text r) :
    (∃ s, r = s.choose .taken ∧ Foremost block start text s) ∨
      text = [] ∧ r = (absentBlock block).choose .omitted ∧ ∀ s, ¬ ReadsBlock block start [] s := by
  obtain ⟨hreads, hnone⟩ := h
  cases readsBlock_singleton hreads with
  | @taken _ _ _ s hblock =>
    refine .inl ⟨s, rfl, hblock, fun other hother hbefore => ?_⟩
    exact hnone _ (readsBlock_single (.taken hother)) (hbefore.choose .taken)
  | omitted =>
    refine .inr ⟨rfl, rfl, fun s hs => ?_⟩
    exact hnone _ (readsBlock_single (.taken hs))
      (Reading.before_of_choice (a := .taken) (b := .omitted) trivial rfl rfl)

/-- **Equal optional blocks in a row are filled from the first one on.** Where one is left out,
those behind it read nothing: the text of the next one would have been read in its place. -/
theorem Foremost.repeated {count : Nat}
    (h : Foremost (List.replicate count (.optional block)) start text r) :
    ∃ taken : List Reading, taken.length ≤ count ∧
      (∀ s ∈ taken, ∃ start text, ReadsBlock block start text s) ∧
      r = .joined (taken.map (·.choose .taken) ++
        List.replicate (count - taken.length) ((absentBlock block).choose .omitted)) := by
  induction count generalizing start text r with
  | zero =>
    cases h.1
    exact ⟨[], Nat.le_refl 0, List.forall_mem_nil _, rfl⟩
  | succ count ih =>
    obtain ⟨first, second, s, t, rfl, rfl, hfirst, hsecond⟩ := Foremost.cons h
    obtain ⟨taken, hcount, htaken, rfl⟩ := ih hsecond
    rcases hfirst.optional with ⟨s, rfl, hs⟩ | ⟨rfl, rfl, -⟩
    · refine ⟨s :: taken, Nat.succ_le_succ hcount, ?_, ?_⟩
      · exact List.forall_mem_cons.mpr ⟨⟨start, first, hs.1⟩, htaken⟩
      · rw [List.length_cons, Nat.succ_sub_succ]
        rfl
    · cases taken with
      | nil => exact ⟨[], Nat.zero_le _, List.forall_mem_nil _, rfl⟩
      | cons s taken =>
        -- the blocks behind the omitted one read the text without it, and one is left over
        have hmoved : ReadsBlock (List.replicate (count + 1) (.optional block)) start
            (second ++ []) (_ ++ (absentBlock block).choose .omitted) :=
          List.replicate_succ' ▸ readsBlock_append.mpr
            ⟨second, [], _, _, rfl, rfl, hsecond.1, readsBlock_single .omitted⟩
        rw [List.append_nil] at hmoved
        exact absurd (Reading.before_of_choice (a := .taken) (b := .omitted) trivial rfl rfl)
          (h.2 _ hmoved)

end Slot

/-- **What a match holds is the foremost reading of the sentence.** -/
theorem parse_foremost {name : String} {slots : List Slot} {sentence : String}
    {captures : Captures} (h : (Grammar.build name slots).parse sentence = some captures) :
    ∃ r, Slot.Foremost slots 0 (Ascii.utf8 sentence) r ∧
      captures = ⟨Ascii.utf8 sentence, r.groups, r.alternatives, 0⟩ := by
  rw [Grammar.parse, marks?_build, Option.map_map, Option.map_eq_some_iff] at h
  obtain ⟨x, hfind, rfl⟩ := h
  obtain ⟨-, hreads, hfirst⟩ := find_readingsBlock_some hfind
  refine ⟨x.2, ⟨hreads, fun other hother hbefore => ?_⟩, rfl⟩
  rcases hfirst other hother with rfl | hbehind
  · exact hbefore.asymm hbefore
  · exact hbefore.asymm hbehind

end TrackerWire
