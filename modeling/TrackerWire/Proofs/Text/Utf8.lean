import TrackerWire.Grammar.Captures

/-!
# UTF-8

A character below U+0080 is one byte, its number; every other is several bytes from 0x80 on, of
which only the first does not continue a character. So ASCII is found in the bytes of a text just
where it is in its characters (`char_mem`, `char_head`), and a text may be cut wherever the bytes
behind the cut start a character (`Aligned`).
-/
namespace TrackerWire

namespace Ascii

def All (bytes : Bytes) : Prop := ∀ b ∈ bytes, b < 0x80

@[simp] theorem all_nil : All [] := fun _ h => nomatch h

@[simp] theorem all_cons {b : UInt8} {bytes : Bytes} :
    All (b :: bytes) ↔ b < 0x80 ∧ All bytes := List.forall_mem_cons

@[simp] theorem all_append {a b : Bytes} : All (a ++ b) ↔ All a ∧ All b := List.forall_mem_append

theorem lt_of_isDigit {b : UInt8} (h : isDigit b = true) : b < 0x80 := by
  simp only [isDigit, Bool.and_eq_true, decide_eq_true_eq] at h
  exact UInt8.lt_of_le_of_lt h.2 (by decide)

theorem lt_of_isHexDigit {b : UInt8} (h : isHexDigit b = true) : b < 0x80 := by
  rw [UInt8.lt_iff_toNat_lt]
  simp only [isHexDigit, hexValue?, Bool.and_eq_true, decide_eq_true_eq,
    UInt8.le_iff_toNat_le, UInt8.reduceToNat] at h ⊢
  split at h
  · omega
  · split at h
    · omega
    · split at h
      · omega
      · cases h

end Ascii

namespace Utf8

/-- The bytes do not start inside a character. -/
def Aligned (bytes : Bytes) : Prop := ∀ b ∈ bytes.head?, continues b = false

theorem aligned_append {a b : Bytes} (ha : Aligned a) (hb : Aligned b) : Aligned (a ++ b) := by
  cases a with
  | nil => exact hb
  | cons x a => exact ha

theorem continues_ascii {b : UInt8} (h : b < 0x80) : continues b = false := by
  rw [continues, decide_eq_false (UInt8.not_le.mpr h), Bool.false_and]

theorem aligned_cons {b : UInt8} (h : b < 0x80) (after : Bytes) : Aligned (b :: after) := by
  intro x hx
  cases hx
  exact continues_ascii h

theorem aligned_ascii {bytes : Bytes} (h : Ascii.All bytes) : Aligned bytes :=
  fun b hb => continues_ascii (h b (List.mem_of_mem_head? hb))

/-- A text may be cut where the bytes behind the cut are aligned. -/
theorem isBoundary_aligned (before : Bytes) {after : Bytes} (h : Aligned after) :
    isBoundary (before ++ after) before.length = true := by
  unfold isBoundary
  rw [List.drop_left]
  cases after with
  | nil => simp
  | cons b after =>
    have hb := h b rfl
    simp [hb]

/-! ## The bytes of a character -/

/-- The first byte of a character does not continue one, and an ASCII byte is the whole of it. -/
theorem encode_cases (c : Char) : ∃ first others, String.utf8EncodeChar c = first :: others ∧
    continues first = false ∧
    (first < 0x80 ∧ others = [] ∧ Ascii.char first = c ∨ ∀ b ∈ first :: others, ¬ b < 0x80) := by
  have hmax : c.val.toNat < 0x110000 := by
    rcases c.valid with h | h
    · exact Nat.lt_trans h (by decide)
    · exact h.2
  unfold String.utf8EncodeChar
  simp only
  split
  · have hfirst : (UInt8.ofNat c.val.toNat).toNat = c.val.toNat := by
      rw [UInt8.toNat_ofNat']; omega
    have hlt : UInt8.ofNat c.val.toNat < 0x80 := by
      rw [UInt8.lt_iff_toNat_lt, hfirst]; exact Nat.lt_succ_of_le ‹_›
    refine ⟨_, [], rfl, continues_ascii hlt, .inl ⟨hlt, rfl, ?_⟩⟩
    rw [Ascii.char, if_pos hlt, hfirst]
    exact Char.ofNat_toNat c
  -- the longer forms: the range of the number bounds every byte
  · split
    · refine ⟨_, _, rfl, ?_, .inr ?_⟩ <;>
        simp [continues, UInt8.lt_iff_toNat_lt, UInt8.le_iff_toNat_le] <;> omega
    · split <;> refine ⟨_, _, rfl, ?_, .inr ?_⟩ <;>
        simp [continues, UInt8.lt_iff_toNat_lt, UInt8.le_iff_toNat_le] <;> omega

/-! ## The bytes of a text -/

theorem utf8_eq (s : String) : Ascii.utf8 s = s.toList.flatMap String.utf8EncodeChar := by
  obtain ⟨cs, rfl⟩ : ∃ cs, s = String.ofList cs := ⟨s.toList, String.ofList_toList.symm⟩
  rw [Ascii.utf8, String.toByteArray_ofList, String.toList_ofList, List.utf8Encode,
    List.toList_data_toByteArray]

theorem utf8_append (s t : String) : Ascii.utf8 (s ++ t) = Ascii.utf8 s ++ Ascii.utf8 t := by
  simp only [utf8_eq, String.toList_append, List.flatMap_append]

theorem aligned_utf8 (s : String) : Aligned (Ascii.utf8 s) := by
  rw [utf8_eq]
  cases s.toList with
  | nil => intro b hb; cases hb
  | cons c cs =>
    obtain ⟨first, others, he, hfirst, -⟩ := encode_cases c
    rw [List.flatMap_cons, he]
    intro b hb
    cases hb
    exact hfirst

theorem char_mem {s : String} {b : UInt8} (hmem : b ∈ Ascii.utf8 s) (hb : b < 0x80) :
    Ascii.char b ∈ s.toList := by
  rw [utf8_eq] at hmem
  obtain ⟨c, hc, hmem⟩ := List.mem_flatMap.mp hmem
  obtain ⟨first, others, he, -, ⟨-, rfl, hchar⟩ | hnone⟩ := encode_cases c
  · rw [he, List.mem_singleton] at hmem
    rw [hmem, hchar]; exact hc
  · rw [he] at hmem
    exact absurd hb (hnone b hmem)

theorem char_head {s : String} {b : UInt8} (hhead : b ∈ (Ascii.utf8 s).head?) (hb : b < 0x80) :
    Ascii.char b ∈ s.toList.head? := by
  rw [utf8_eq] at hhead
  cases hs : s.toList with
  | nil => rw [hs] at hhead; cases hhead
  | cons c cs =>
    obtain ⟨first, others, he, -, ⟨-, -, hchar⟩ | hnone⟩ := encode_cases c
    · rw [hs, List.flatMap_cons, he] at hhead
      cases hhead
      rw [hchar]; rfl
    · rw [hs, List.flatMap_cons, he] at hhead
      cases hhead
      exact absurd hb (hnone b List.mem_cons_self)

theorem utf8_text {bytes : Bytes} (h : Ascii.All bytes) :
    Ascii.utf8 (Ascii.text bytes) = bytes := by
  rw [utf8_eq, Ascii.text, String.toList_ofList, List.flatMap_map]
  induction bytes with
  | nil => rfl
  | cons b bytes ih =>
    have hb : b.toNat < 128 := h b List.mem_cons_self
    have hcode : (Ascii.char b).val.toNat = b.toNat := by
      rw [Ascii.char, if_pos (h b List.mem_cons_self), Char.ofNat,
        dif_pos (.inl (Nat.lt_trans hb (by decide)))]
      rfl
    rw [List.flatMap_cons, ih fun x hx => h x (List.mem_cons_of_mem b hx), String.utf8EncodeChar]
    simp only [hcode]
    rw [if_pos (by omega), UInt8.ofNat_toNat]
    rfl

theorem encode_char {b : UInt8} (hb : b < 0x80) : String.utf8EncodeChar (Ascii.char b) = [b] := by
  have hascii : Ascii.All [b] := Ascii.all_cons.mpr ⟨hb, Ascii.all_nil⟩
  have hone := utf8_text hascii
  rwa [utf8_eq, Ascii.text, String.toList_ofList, List.map_singleton, List.flatMap_singleton]
    at hone

theorem encode_of_ne {c : Char} {b : UInt8} (hb : b < 0x80) (hc : c ≠ Ascii.char b) :
    ∀ x ∈ String.utf8EncodeChar c, x ≠ b := by
  obtain ⟨first, others, he, -, ⟨-, rfl, hchar⟩ | hnone⟩ := encode_cases c
  · intro x hx
    rw [he, List.mem_singleton] at hx
    rintro rfl
    exact hc (by rw [hx, hchar])
  · intro x hx
    rintro rfl
    exact hnone x (he ▸ hx) hb

/-- ASCII is among the bytes just where it is among the characters. -/
theorem mem_utf8_iff {s : String} {b : UInt8} (hb : b < 0x80) :
    b ∈ Ascii.utf8 s ↔ Ascii.char b ∈ s.toList := by
  refine ⟨fun hmem => char_mem hmem hb, fun hmem => ?_⟩
  rw [utf8_eq]
  exact List.mem_flatMap.mpr ⟨_, hmem, by rw [encode_char hb]; exact List.mem_singleton.mpr rfl⟩

/-- What stands from the first of an ASCII character on. -/
theorem dropWhile_utf8 {b : UInt8} (hb : b < 0x80) (s : String) :
    (Ascii.utf8 s).dropWhile (· ≠ b) =
      Ascii.utf8 (String.ofList (s.toList.dropWhile (· ≠ Ascii.char b))) := by
  rw [utf8_eq, utf8_eq, String.toList_ofList]
  induction s.toList with
  | nil => rfl
  | cons c cs ih =>
    rw [List.flatMap_cons]
    by_cases hc : c = Ascii.char b
    · rw [hc, encode_char hb, List.dropWhile_cons_of_neg (by simp), List.flatMap_cons,
        encode_char hb, List.singleton_append, List.dropWhile_cons_of_neg (by simp)]
    · rw [List.dropWhile_append_of_pos fun x hx => decide_eq_true (encode_of_ne hb hc x hx), ih,
        List.dropWhile_cons_of_pos (by simpa using hc)]

/-- A text that starts with ASCII bytes starts with their characters. -/
theorem cut_ascii {before after : Bytes} (hascii : Ascii.All before) {s : String}
    (h : Ascii.utf8 s = before ++ after) :
    ∃ t, s = Ascii.text before ++ t ∧ Ascii.utf8 t = after := by
  obtain ⟨cs, rfl⟩ : ∃ cs, s = String.ofList cs := ⟨s.toList, String.ofList_toList.symm⟩
  rw [utf8_eq, String.toList_ofList] at h
  suffices hcut : ∃ t, cs = before.map Ascii.char ++ t ∧
      t.flatMap String.utf8EncodeChar = after by
    obtain ⟨t, rfl, hafter⟩ := hcut
    refine ⟨String.ofList t, String.ofList_append, ?_⟩
    rw [utf8_eq, String.toList_ofList, hafter]
  induction before generalizing cs with
  | nil => exact ⟨cs, rfl, h⟩
  | cons b before ih =>
    obtain ⟨hb, hbefore⟩ := Ascii.all_cons.mp hascii
    cases cs with
    | nil => cases h
    | cons c cs =>
      have hc : c = Ascii.char b := by
        refine Classical.not_not.mp fun hne => ?_
        obtain ⟨first, others, he, -⟩ := encode_cases c
        rw [List.flatMap_cons, he] at h
        exact encode_of_ne hb hne first (by rw [he]; exact List.mem_cons_self)
          (List.cons.inj h).1
      rw [hc, List.flatMap_cons, encode_char hb] at h
      obtain ⟨t, rfl, hafter⟩ := ih hbefore cs (List.cons.inj h).2
      exact ⟨t, by rw [hc]; rfl, hafter⟩

theorem utf8_inj {s t : String} (h : Ascii.utf8 s = Ascii.utf8 t) : s = t :=
  String.toByteArray_inj.mp (ByteArray.ext (Array.toList_inj.mp h))

theorem text_utf8 {s : String} (h : Ascii.All (Ascii.utf8 s)) : Ascii.text (Ascii.utf8 s) = s :=
  utf8_inj (utf8_text h)

theorem fromUTF8?_utf8 (s : String) : String.fromUTF8? (Ascii.utf8 s).toByteArray = some s := by
  have hbytes : (Ascii.utf8 s).toByteArray = s.toByteArray := by
    refine ByteArray.ext (Array.toList_inj.mp ?_)
    rw [List.toList_data_toByteArray]
    rfl
  rw [hbytes, String.fromUTF8?, dif_pos s.isValidUTF8]
  rfl

theorem fromUTF8?_ascii {bytes : Bytes} (h : Ascii.All bytes) :
    String.fromUTF8? bytes.toByteArray = some (Ascii.text bytes) := by
  have hread := fromUTF8?_utf8 (Ascii.text bytes)
  rwa [utf8_text h] at hread

end Utf8

end TrackerWire
