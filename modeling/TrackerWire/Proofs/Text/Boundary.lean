import TrackerWire.Proofs.Text.Utf8

/-!
# Where a text may be cut

The bytes of a character but the first all continue it. So an offset into the bytes of a text is a
boundary just when the text is two texts, the first of which ends there (`isBoundary_iff`); and what
stands between two boundaries is a text (`exists_between`).
-/
namespace TrackerWire.Utf8

/-- The first of two texts that make up a text has this many bytes. -/
def Splits (s : String) (offset : Nat) (a b : String) : Prop :=
  s = a ++ b ∧ (Ascii.utf8 a).length = offset

theorem encode_continues (c : Char) : ∃ first others, String.utf8EncodeChar c = first :: others ∧
    ∀ b ∈ others, continues b = true := by
  unfold String.utf8EncodeChar
  simp only
  split
  · exact ⟨_, [], rfl, fun _ h => nomatch h⟩
  · split
    · refine ⟨_, _, rfl, ?_⟩
      simp [continues, UInt8.lt_iff_toNat_lt, UInt8.le_iff_toNat_le]
      omega
    · split <;> refine ⟨_, _, rfl, ?_⟩ <;>
        simp [continues, UInt8.lt_iff_toNat_lt, UInt8.le_iff_toNat_le] <;> omega

/-- Behind some bytes, a boundary is one of what follows them. -/
theorem isBoundary_append (front after : Bytes) (offset : Nat) :
    isBoundary (front ++ after) (front.length + offset) = isBoundary after offset := by
  unfold isBoundary
  rw [← List.drop_drop, List.drop_left, List.length_append]
  cases after.drop offset with
  | nil => exact Bool.eq_iff_iff.mpr (by simp)
  | cons b after => rfl

/-- No boundary lies within a character. -/
theorem isBoundary_within {c : Char} {offset : Nat} (hpos : 0 < offset)
    (hlt : offset < (String.utf8EncodeChar c).length) (after : Bytes) :
    isBoundary (String.utf8EncodeChar c ++ after) offset = false := by
  obtain ⟨first, others, he, hothers⟩ := encode_continues c
  rw [he, List.length_cons] at hlt
  obtain ⟨k, rfl⟩ : ∃ k, offset = k + 1 := ⟨offset - 1, by omega⟩
  have hk : k < others.length := by omega
  have hdrop : (first :: others ++ after).drop (k + 1) =
      others[k] :: (others.drop (k + 1) ++ after) := by
    rw [List.cons_append, List.drop_succ_cons, List.drop_append_of_le_length (by omega),
      List.drop_eq_getElem_cons hk, List.cons_append]
  unfold isBoundary
  rw [he, hdrop]
  simp only [hothers _ (List.getElem_mem hk), Bool.not_true]

theorem exists_boundary {cs : List Char} {offset : Nat}
    (h : isBoundary (cs.flatMap String.utf8EncodeChar) offset = true) :
    ∃ a b, cs = a ++ b ∧ (a.flatMap String.utf8EncodeChar).length = offset := by
  induction cs generalizing offset with
  | nil =>
    have hzero : (offset == 0) = true := by simpa [isBoundary] using h
    exact ⟨[], [], rfl, (eq_of_beq hzero).symm⟩
  | cons c cs ih =>
    rw [List.flatMap_cons] at h
    by_cases hzero : offset = 0
    · exact ⟨[], c :: cs, rfl, hzero.symm⟩
    by_cases hwithin : offset < (String.utf8EncodeChar c).length
    · rw [isBoundary_within (Nat.pos_of_ne_zero hzero) hwithin] at h
      cases h
    · obtain ⟨behind, rfl⟩ := Nat.exists_eq_add_of_le (Nat.le_of_not_lt hwithin)
      rw [isBoundary_append] at h
      obtain ⟨a, b, rfl, ha⟩ := ih h
      exact ⟨c :: a, b, rfl, by rw [List.flatMap_cons, List.length_append, ha]⟩

/-- **A boundary is where a text falls into two.** -/
theorem isBoundary_iff (s : String) (offset : Nat) :
    isBoundary (Ascii.utf8 s) offset = true ↔ ∃ a b, Splits s offset a b := by
  refine ⟨fun h => ?_, ?_⟩
  · rw [utf8_eq] at h
    obtain ⟨a, b, hs, ha⟩ := exists_boundary h
    refine ⟨String.ofList a, String.ofList b, ?_, ?_⟩
    · rw [← String.ofList_append, ← hs, String.ofList_toList]
    · rw [utf8_eq, String.toList_ofList, ha]
  · rintro ⟨a, b, rfl, rfl⟩
    rw [utf8_append]
    exact isBoundary_aligned _ (aligned_utf8 b)

namespace Splits

variable {s a b : String} {offset : Nat}

theorem take_eq (h : Splits s offset a b) : (Ascii.utf8 s).take offset = Ascii.utf8 a := by
  obtain ⟨rfl, rfl⟩ := h
  rw [utf8_append, List.take_left]

theorem drop_eq (h : Splits s offset a b) : (Ascii.utf8 s).drop offset = Ascii.utf8 b := by
  obtain ⟨rfl, rfl⟩ := h
  rw [utf8_append, List.drop_left]

end Splits

/-- **Between two boundaries stands a text.** -/
theorem exists_between {s : String} {start stop : Nat}
    (hstart : isBoundary (Ascii.utf8 s) start = true)
    (hstop : isBoundary (Ascii.utf8 s) stop = true) :
    ∃ t, ((Ascii.utf8 s).drop start).take (stop - start) = Ascii.utf8 t := by
  obtain ⟨a, b, hab⟩ := (isBoundary_iff s start).mp hstart
  rw [hab.drop_eq]
  by_cases hle : start ≤ stop
  · -- the second boundary is one of what stands behind the first
    obtain ⟨rfl, rfl⟩ := hab
    obtain ⟨behind, rfl⟩ := Nat.exists_eq_add_of_le hle
    rw [utf8_append, isBoundary_append] at hstop
    obtain ⟨t, after, ht⟩ := (isBoundary_iff b behind).mp hstop
    exact ⟨t, by rw [Nat.add_sub_cancel_left, ht.take_eq]⟩
  · exact ⟨"", by rw [Nat.sub_eq_zero_of_le (Nat.le_of_not_le hle), List.take_zero]; rfl⟩

end TrackerWire.Utf8
