import Mathlib.Data.List.Forall2
import TrackerWire.Text.Hex

/-!
# Hexadecimal text

Text is hexadecimal if it is made of digits and has an even number of them (`IsHex`); just then it
is decoded, to half as many bytes (`decodes_decode`). A digit may stand in either case: text with
the same digits is decoded to the same bytes, or refused for the same reason (`decode_congr`).
-/
namespace TrackerWire.Hex

/-- Pairs of hexadecimal digits, of either case. -/
structure IsHex (text : Bytes) : Prop where
  even : text.length % 2 = 0
  digits : ∀ b ∈ text, Ascii.isHexDigit b = true

theorem isHex_cons_cons {hi lo : UInt8} {rest : Bytes} : IsHex (hi :: lo :: rest) ↔
    Ascii.isHexDigit hi = true ∧ Ascii.isHexDigit lo = true ∧ IsHex rest := by
  refine ⟨fun h => ?_, fun ⟨hhi, hlo, h⟩ => ⟨?_, ?_⟩⟩
  · obtain ⟨hhi, hothers⟩ := List.forall_mem_cons.mp h.digits
    obtain ⟨hlo, hrest⟩ := List.forall_mem_cons.mp hothers
    have heven := h.even
    simp only [List.length_cons] at heven
    exact ⟨hhi, hlo, by omega, hrest⟩
  · have heven := h.even
    simp only [List.length_cons]
    omega
  · exact List.forall_mem_cons.mpr ⟨hhi, List.forall_mem_cons.mpr ⟨hlo, h.digits⟩⟩

/-- What comes of text: a byte for each pair of digits, or an error if it is not hexadecimal. -/
inductive Decodes (text : Bytes) : Except Error Bytes → Prop
  | ok {bytes : Bytes} (h : IsHex text) (hlength : text.length = 2 * bytes.length) :
    Decodes text (.ok bytes)
  | error {error : Error} (h : ¬ IsHex text) : Decodes text (.error error)

theorem decodes_decodeFrom : ∀ (index : Nat) (text : Bytes), Decodes text (decodeFrom index text)
  | _, [] => .ok ⟨rfl, List.forall_mem_nil _⟩ rfl
  | _, [_] => .error fun h => Nat.one_ne_zero h.even
  | index, hi :: lo :: rest => by
    have hrest := decodes_decodeFrom (index + 2) rest
    rw [decodeFrom]
    cases hhi : Ascii.hexValue? hi with
    | none =>
      refine .error fun h => ?_
      have hdigit := (isHex_cons_cons.mp h).1
      rw [Ascii.isHexDigit, hhi] at hdigit
      cases hdigit
    | some h =>
      cases hlo : Ascii.hexValue? lo with
      | none =>
        refine .error fun h => ?_
        have hdigit := (isHex_cons_cons.mp h).2.1
        rw [Ascii.isHexDigit, hlo] at hdigit
        cases hdigit
      | some l =>
        generalize decodeFrom (index + 2) rest = result at hrest ⊢
        cases hrest with
        | error hrest => exact .error fun h => hrest (isHex_cons_cons.mp h).2.2
        | ok hrest hlength =>
          refine .ok (isHex_cons_cons.mpr ⟨?_, ?_, hrest⟩) ?_
          · rw [Ascii.isHexDigit, hhi]; rfl
          · rw [Ascii.isHexDigit, hlo]; rfl
          · simp only [List.length_cons, hlength]
            omega

/-- **Hexadecimal text is decoded**, and no other text is. -/
theorem decodes_decode (text : Bytes) : Decodes text (decode text) := by
  unfold decode
  split
  · rename_i hodd
    refine .error fun h => ?_
    rw [h.even] at hodd
    cases hodd
  · exact decodes_decodeFrom 0 text

/-! ## Case -/

/-- The same byte, or two ways to write a digit. -/
def SameDigit (b b' : UInt8) : Prop :=
  b = b' ∨ ∃ n, Ascii.hexValue? b = some n ∧ Ascii.hexValue? b' = some n

theorem SameDigit.value {b b' : UInt8} (h : SameDigit b b') :
    Ascii.hexValue? b = Ascii.hexValue? b' := by
  rcases h with rfl | ⟨n, hb, hb'⟩
  · rfl
  · rw [hb, hb']

theorem SameDigit.eq {b b' : UInt8} (h : SameDigit b b') (hb : Ascii.hexValue? b = none) :
    b = b' := by
  rcases h with rfl | ⟨n, hn, -⟩
  · rfl
  · rw [hb] at hn
    cases hn

theorem decodeFrom_congr : ∀ (index : Nat) {text text' : Bytes},
    List.Forall₂ SameDigit text text' → decodeFrom index text = decodeFrom index text'
  | _, _, _, .nil => rfl
  | _, _, _, .cons _ .nil => rfl
  | index, _, _, .cons hhi (.cons hlo hrest) => by
    simp only [decodeFrom, ← hhi.value, ← hlo.value, decodeFrom_congr (index + 2) hrest]
    split
    · rename_i hnone
      rw [hhi.eq hnone]
    · rename_i hnone
      rw [hlo.eq hnone]
    · rfl

theorem decode_congr {text text' : Bytes} (h : List.Forall₂ SameDigit text text') :
    decode text = decode text' := by
  rw [decode, decode, h.length_eq, decodeFrom_congr 0 h]

end TrackerWire.Hex
