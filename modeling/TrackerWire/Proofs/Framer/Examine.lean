import TrackerWire.Framer
import TrackerWire.Proofs.Frame.Wire

/-!
# What one look at a buffer says

`examine_cases` sums up `examine`: it waits, or it skips a byte whatever follows, or a framed byte
string stands at the front, and then the checksum decides (`examine_corrupted`, `examine_wire`).
No verdict takes more bytes than there are (`advance_le_length`).
-/
namespace TrackerWire

namespace Framing

/-! ## Looking at a framed byte string -/

theorem examine_marker (hi lo : UInt8) (rest : Bytes) :
    examine (Ascii.atSign :: Ascii.atSign :: hi :: lo :: rest) =
      examineLength (Bytes.word hi lo).toNat
        (Ascii.atSign :: Ascii.atSign :: hi :: lo :: rest) := by
  unfold examine
  simp only [true_and, if_true]

theorem framed_head {c : Bytes} (h : Framed c) : ∃ hi lo rest,
    c = Ascii.atSign :: Ascii.atSign :: hi :: lo :: rest ∧ (Bytes.word hi lo).toNat = c.length := by
  obtain ⟨behind, hb⟩ := h.marker
  have hsize : 17 ≤ c.length := h.size
  have hlen := h.length
  match behind with
  | [] | [_] => rw [← hb] at hsize; simp [Frame.marker] at hsize
  | hi :: lo :: rest =>
    refine ⟨hi, lo, rest, hb.symm, ?_⟩
    rw [← hlen, ← hb]; rfl

theorem examine_framed {c : Bytes} (h : Framed c) (rest : Bytes) :
    examine (c ++ rest) = examineChecksum c.length c := by
  have hsize : 17 ≤ c.length := h.size
  have hlook : examine (c ++ rest) = examineLength c.length (c ++ rest) := by
    obtain ⟨hi, lo, behind, hc, hlen⟩ := framed_head h
    rw [← hlen, hc]
    exact examine_marker hi lo (behind ++ rest)
  have hdrop : (c ++ rest).drop (c.length - 2) = Ascii.cr :: Ascii.lf :: rest := by
    obtain ⟨front, hend⟩ := h.terminator
    have hfront : c.length - 2 = front.length := by
      rw [← hend, List.length_append]; simp [Frame.terminator]
    rw [hfront, ← hend, List.append_assoc, List.drop_left]; rfl
  have hmin : ¬ c.length < Frame.minSize := by
    have := h.size; omega
  rw [hlook, examineLength, if_neg hmin, hdrop, List.take_left]
  rfl

theorem examine_corrupted {c : Bytes} (h : Corrupted c) (rest : Bytes) :
    ∃ expected actual, examine (c ++ rest) = .corrupted c.length expected actual := by
  have hsum := h.2
  unfold Intact at hsum
  rw [examine_framed h.1, examineChecksum, if_pos fun he => hsum he.symm]
  exact ⟨_, _, rfl⟩

theorem examine_wire {f : Frame} (h : f.Fits) (rest : Bytes) :
    examine (f.wire ++ rest) = .good f f.encodedLength := by
  have hsum := f.intact_wire
  unfold Intact at hsum
  rw [examine_framed (Frame.framed_wire h), examineChecksum, if_neg fun hne => hne hsum.symm,
    Frame.parse_wire, Frame.length_wire]

/-! ## What a look can say -/

/-- A frame that has not arrived to its end is waited for. -/
theorem examineLength_wait {n : Nat} {buffer : Bytes} (hmin : Frame.minSize ≤ n)
    (h : buffer.length < n) : examineLength n buffer = .wait := by
  have hsize : Frame.minSize = 17 := rfl
  rw [examineLength, if_neg (by omega)]
  have hlen : (buffer.drop (n - 2)).length < 2 := by rw [List.length_drop]; omega
  match buffer.drop (n - 2), hlen with
  | [], _ => rfl
  | [_], _ => rfl
  | _ :: _ :: _, hlen => simp only [List.length_cons] at hlen; omega

/-- The last two bytes of a frame that has arrived decide, and later ones do not. -/
theorem examineLength_arrived {n : Nat} {buffer : Bytes} (hmin : Frame.minSize ≤ n)
    (h : n ≤ buffer.length) : Frame.terminator <:+ buffer.take n ∨
      ∀ more, examineLength n (buffer ++ more) = .skip .badTerminator := by
  have hsize : Frame.minSize = 17 := rfl
  have hdrop : buffer.drop (n - 2) = (buffer.take n).drop (n - 2) ++ buffer.drop n := by
    conv => lhs; rw [← List.take_append_drop n buffer]
    rw [List.drop_append_of_le_length (by rw [List.length_take]; omega)]
  have hlen : ((buffer.take n).drop (n - 2)).length = 2 := by
    rw [List.length_drop, List.length_take]; omega
  match hlast : (buffer.take n).drop (n - 2), hlen with
  | [x, y], _ =>
    by_cases hxy : [x, y] = Frame.terminator
    · refine .inl ⟨(buffer.take n).take (n - 2), ?_⟩
      rw [← hxy, ← hlast, List.take_append_drop]
    · refine .inr fun more => ?_
      rw [examineLength, if_neg (by omega), List.drop_append_of_le_length (by omega), hdrop, hlast]
      exact if_neg hxy

/-- What the marker, the length field and the terminator enclose is framed. -/
theorem framed_take {n : Nat} {buffer : Bytes} (hmarker : Frame.marker <+: buffer)
    (hfield : (Bytes.leadingWord (buffer.drop 2)).toNat = n) (hmin : Frame.minSize ≤ n)
    (hlen : n ≤ buffer.length) (hterm : Frame.terminator <:+ buffer.take n) :
    Framed (buffer.take n) := by
  have hsize : Frame.minSize = 17 := rfl
  have htake : (buffer.take n).length = n := by rw [List.length_take]; omega
  refine ⟨?_, by rw [htake]; exact hmin, ?_, hterm⟩
  · exact List.prefix_take_iff.mpr ⟨hmarker, by simp [Frame.marker]; omega⟩
  · have hdrop : buffer.drop 2 = (buffer.take n).drop 2 ++ buffer.drop n := by
      conv => lhs; rw [← List.take_append_drop n buffer]
      rw [List.drop_append_of_le_length (by omega)]
    rw [hdrop, Bytes.leadingWord_append (by rw [List.length_drop]; omega)] at hfield
    rw [hfield, htake]

theorem examineLength_cases {n : Nat} {buffer : Bytes} (hmarker : Frame.marker <+: buffer)
    (hfield : (Bytes.leadingWord (buffer.drop 2)).toNat = n) :
    (examineLength n buffer = .wait ∧ buffer.length < Frame.maxSize) ∨
      (∃ error, ∀ more, examineLength n (buffer ++ more) = .skip error) ∨
      ∃ c rest, Framed c ∧ buffer = c ++ rest := by
  have hmax : n ≤ Frame.maxSize := by
    have := (Bytes.leadingWord (buffer.drop 2)).toNat_lt
    unfold Frame.maxSize; omega
  by_cases hmin : n < Frame.minSize
  · refine .inr (.inl ⟨.badLength n, fun more => ?_⟩)
    rw [examineLength, if_pos hmin]
  · rw [Nat.not_lt] at hmin
    by_cases hlen : buffer.length < n
    · exact .inl ⟨examineLength_wait hmin hlen, by omega⟩
    · rw [Nat.not_lt] at hlen
      rcases examineLength_arrived hmin hlen with hterm | hskip
      · exact .inr (.inr ⟨buffer.take n, buffer.drop n,
          framed_take hmarker hfield hmin hlen hterm, (List.take_append_drop _ _).symm⟩)
      · exact .inr (.inl ⟨.badTerminator, hskip⟩)

/-- **One look.** It says to wait for more, or to skip a byte whatever follows, or it sees a framed
byte string. -/
theorem examine_cases (buffer : Bytes) :
    (examine buffer = .wait ∧ buffer.length < Frame.maxSize) ∨
      (buffer ≠ [] ∧ ∃ error, ∀ more, examine (buffer ++ more) = .skip error) ∨
      ∃ c rest, Framed c ∧ buffer = c ++ rest := by
  match buffer with
  | [] => exact .inl ⟨rfl, by decide⟩
  | [a] =>
    by_cases ha : a = Ascii.atSign
    · subst ha; exact .inl ⟨rfl, by decide⟩
    · refine .inr (.inl ⟨by simp, .badMarker, fun more => ?_⟩)
      cases more <;> simp [examine, ha]
  | a :: b :: rest =>
    by_cases hab : a = Ascii.atSign ∧ b = Ascii.atSign
    · obtain ⟨rfl, rfl⟩ := hab
      rcases rest with _ | ⟨hi, _ | ⟨lo, rest⟩⟩
      · exact .inl ⟨rfl, by decide⟩
      · exact .inl ⟨rfl, by simp [Frame.maxSize]⟩
      · have hlook := examine_marker hi lo rest
        rcases examineLength_cases (n := (Bytes.word hi lo).toNat)
          ⟨hi :: lo :: rest, rfl⟩ rfl with hwait | ⟨error, hskip⟩ | hframed
        · exact .inl ⟨hlook.trans hwait.1, hwait.2⟩
        · exact .inr (.inl ⟨by simp, error, fun more =>
            (examine_marker hi lo (rest ++ more)).trans (hskip more)⟩)
        · exact .inr (.inr hframed)
    · refine .inr (.inl ⟨by simp, .badMarker, fun more => ?_⟩)
      simp [examine, hab]

/-- The bytes a verdict takes off the buffer. -/
def Verdict.advance : Verdict → Nat
  | .wait => 0
  | .skip _ => 1
  | .corrupted length _ _ => length
  | .unparsed length _ => length + 1
  | .good _ length => length

theorem advance_le_length (buffer : Bytes) : (examine buffer).advance ≤ buffer.length := by
  rcases examine_cases buffer with ⟨hwait, -⟩ | ⟨hne, error, hskip⟩ | ⟨c, rest, hc, rfl⟩
  · rw [hwait]; exact Nat.zero_le _
  · have := hskip []
    rw [List.append_nil] at this
    rw [this]
    exact List.length_pos_iff.mpr hne
  · rw [List.length_append]
    by_cases hsum : Intact c
    · obtain ⟨f, hfits, rfl⟩ := Frame.exists_wire hc hsum
      rw [examine_wire hfits, f.length_wire]
      exact Nat.le_add_right _ _
    · obtain ⟨expected, actual, he⟩ := examine_corrupted ⟨hc, hsum⟩ rest
      rw [he]
      exact Nat.le_add_right _ _

end Framing

end TrackerWire
