import TrackerWire.Proofs.Checksum.CheckDigit
import TrackerWire.Proofs.Grammar.Values
import TrackerWire.Proofs.Registry.Identifiers

/-!
# Packed identifiers

Seven bytes are fourteen half bytes: those that count, and behind them, if these are fewer, a filler
with anything at all (`Packing`). Every packed identifier is one of these (`Packing.exists_raw`).

* `Packing.text_raw`: its text is the decimal text of each half byte that counts, one behind the
  other.
* `Packing.lookedUpBy`: decimal digits that are packed come back as they were, and the device is
  looked up by them. Fourteen of them have lost their check digit and are looked up with it as well:
  they keep the zeros that lead, and the digit completes them to a Luhn sum divisible by ten.
* `Packing.read_text`: fourteen characters are read as a number whatever half bytes they are of, so
  a check digit can be computed for all of them.
-/
namespace TrackerWire

namespace Bytes

/-- Half bytes put together in pairs, the high half first. -/
def ofHalves : List Nat → Bytes
  | high :: low :: rest => UInt8.ofNat (high * 16 + low) :: ofHalves rest
  | _ => []

/-- The half bytes of a byte string, the high half of each byte first. -/
def halves (bytes : Bytes) : List Nat := bytes.flatMap fun b => [b.toNat / 16, b.toNat % 16]

theorem length_ofHalves (nibbles : List Nat) : (ofHalves nibbles).length = nibbles.length / 2 := by
  fun_induction ofHalves nibbles with
  | case1 high low rest ih => rw [List.length_cons, ih, List.length_cons, List.length_cons]; omega
  | case2 nibbles hnone =>
    match nibbles with
    | [] => rfl
    | [_] => simp
    | high :: low :: rest => exact absurd rfl (hnone high low rest)

theorem halves_ofHalves {nibbles : List Nat} (h : ∀ nibble ∈ nibbles, nibble < 16)
    (heven : nibbles.length % 2 = 0) : halves (ofHalves nibbles) = nibbles := by
  fun_induction ofHalves nibbles with
  | case1 high low rest ih =>
    obtain ⟨hhigh, h⟩ := List.forall_mem_cons.mp h
    obtain ⟨hlow, hrest⟩ := List.forall_mem_cons.mp h
    have hbyte : (UInt8.ofNat (high * 16 + low)).toNat = high * 16 + low := by
      rw [UInt8.toNat_ofNat']; omega
    have hdiv : (high * 16 + low) / 16 = high := by omega
    have hmod : (high * 16 + low) % 16 = low := by omega
    rw [List.length_cons, List.length_cons] at heven
    have hbehind := ih hrest (by omega)
    rw [halves] at hbehind ⊢
    rw [List.flatMap_cons, hbyte, hdiv, hmod, hbehind]
    rfl
  | case2 nibbles hnone =>
    match nibbles with
    | [] => rfl
    | [_] => exact absurd heven (by simp)
    | high :: low :: rest => exact absurd rfl (hnone high low rest)

theorem ofHalves_halves (bytes : Bytes) : ofHalves (halves bytes) = bytes := by
  unfold halves
  induction bytes with
  | nil => rfl
  | cons b bytes ih =>
    have hbyte : UInt8.ofNat (b.toNat / 16 * 16 + b.toNat % 16) = b := by
      rw [Nat.div_add_mod', UInt8.ofNat_toNat]
    rw [List.flatMap_cons, List.cons_append, List.singleton_append, ofHalves, hbyte, ih]

end Bytes

/-- The half bytes of a packed identifier: those that count, and what fills the seven bytes, which
starts with the filler. -/
structure Packing where
  counting : List Nat
  filling : List Nat
  lt_sixteen : ∀ nibble ∈ counting ++ filling, nibble < 16
  length_eq : (counting ++ filling).length = 14
  filler_not_mem : Identity.filler ∉ counting
  filling_head : ∀ nibble ∈ filling.head?, nibble = Identity.filler

namespace Packing

/-- The identifier as it travels. -/
def raw (p : Packing) : RawId where
  bytes := Bytes.ofHalves (p.counting ++ p.filling)
  length_eq := by rw [Bytes.length_ofHalves, p.length_eq]

/-- Only decimal digits count. -/
def IsDecimal (p : Packing) : Prop := ∀ digit ∈ p.counting, digit < 10

theorem nibbles_raw (p : Packing) : p.raw.nibbles = p.counting ++ p.filling :=
  Bytes.halves_ofHalves p.lt_sixteen (by rw [p.length_eq])

theorem significant_raw (p : Packing) : p.raw.significant = p.counting := by
  have hfilling : p.filling.takeWhile (· ≠ Identity.filler) = [] := by
    have hhead := p.filling_head
    cases hlist : p.filling with
    | nil => rfl
    | cons nibble filling =>
      rw [hlist] at hhead
      rw [hhead nibble rfl]
      rfl
  have hcounting : ∀ nibble ∈ p.counting, decide (nibble ≠ Identity.filler) = true :=
    fun nibble hmem => decide_eq_true fun heq => p.filler_not_mem (heq ▸ hmem)
  rw [RawId.significant, nibbles_raw, List.takeWhile_append_of_pos hcounting, hfilling,
    List.append_nil]

/-- **Every packed identifier** is half bytes that count and what fills the rest. -/
theorem exists_raw (id : RawId) : ∃ p : Packing, p.raw = id := by
  have hsplit : id.significant ++ id.nibbles.dropWhile (· ≠ Identity.filler) = id.nibbles :=
    List.takeWhile_append_dropWhile
  refine ⟨⟨id.significant, id.nibbles.dropWhile (· ≠ Identity.filler), ?_, ?_, ?_, ?_⟩, ?_⟩
  · intro nibble hmem
    rw [hsplit] at hmem
    obtain ⟨b, -, hb⟩ := List.mem_flatMap.mp hmem
    have hlt := b.toNat_lt
    simp only [List.mem_cons, List.not_mem_nil, or_false] at hb
    omega
  · rw [hsplit]
    exact id.length_nibbles
  · intro hmem
    have hne := List.all_eq_true.mp List.all_takeWhile _ hmem
    exact absurd rfl (of_decide_eq_true hne)
  · intro nibble hmem
    have hfalse := List.head?_dropWhile_not (· ≠ Identity.filler) id.nibbles
    rw [Option.mem_def.mp hmem] at hfalse
    simpa using hfalse
  · obtain ⟨bytes, hlength⟩ := id
    simp only [raw, RawId.mk.injEq]
    rw [hsplit]
    exact Bytes.ofHalves_halves bytes

/-! ## Its text -/

/-- **The text of a packed identifier** is the decimal text of each half byte that counts. -/
theorem text_raw (p : Packing) :
    (Identity.ofRaw p.raw).digits = String.join (p.counting.map toString) := by
  have hdigits : (Identity.ofRaw p.raw).digits =
      String.ofList (p.raw.significant.flatMap (Nat.toDigits 10)) := rfl
  rw [hdigits, significant_raw]
  induction p.counting with
  | nil => rfl
  | cons nibble counting ih =>
    rw [List.flatMap_cons, List.map_cons, String.join_cons, String.ofList_append, ih]
    rfl

theorem text_decimal {p : Packing} (h : p.IsDecimal) :
    (Identity.ofRaw p.raw).digits = digitsText p.counting := by
  have hraw : p.raw.IsDecimal := by
    unfold RawId.IsDecimal
    rw [significant_raw]
    exact h
  exact (RawId.text_decimal hraw).trans (congrArg digitsText p.significant_raw)

theorem length_counting_le (p : Packing) : p.counting.length ≤ 14 := by
  have hlength := p.length_eq
  rw [List.length_append] at hlength
  omega

end Packing

/-! ## Its candidates -/

/-- What a device with these digits is looked up by, best first. -/
inductive LookedUpBy : List Nat → List String → Prop
  /-- Nothing names it. -/
  | nothing : LookedUpBy [] []
  | digits {digits : List Nat} (hne : digits ≠ []) (hshort : digits.length < 14) :
    LookedUpBy digits [digitsText digits]
  /-- The check digit is appended to all of the digits. -/
  | checked {digits : List Nat} {check : Nat} (hfull : digits.length = 14) (hcheck : check < 10)
    (hsum : 10 ∣ Luhn.sum (digits ++ [check])) :
    LookedUpBy digits [digitsText digits, digitsText (digits ++ [check])]

theorem toNat_digitChar {digit : Nat} (h : digit < 10) :
    (Nat.digitChar digit).toNat - 48 = digit := by
  rw [Nat.toNat_digitChar_of_lt_ten h]
  omega

/-- The number that is read from a text is the one its digits write, leading zeros among them. -/
theorem writes_value {digits : List Nat} (h : ∀ digit ∈ digits, digit < 10) :
    Luhn.Writes digits (Identity.value (digitsText digits).toList) where
  decimal := h
  value_eq := by
    rw [digitsText, String.toList_ofList]
    induction digits using List.reverseRecOn with
    | nil => rfl
    | append_singleton digits digit ih =>
      obtain ⟨hdigits, hdigit⟩ := List.forall_mem_append.mp h
      rw [List.reverse_append, List.reverse_singleton, List.singleton_append, Nat.ofDigits_cons,
        ih hdigits, List.map_append, List.map_singleton, Identity.value, Identity.value,
        List.foldl_concat, toNat_digitChar (hdigit digit (List.mem_singleton.mpr rfl))]
      omega

theorem digitsText_concat (digits : List Nat) {digit : Nat} (h : digit < 10) :
    digitsText (digits ++ [digit]) = digitsText digits ++ toString digit := by
  rw [digitsText, List.map_append, String.ofList_append, List.map_singleton]
  congr 1
  show _ = String.ofList (Nat.toDigits 10 digit)
  rw [Nat.toDigits_of_lt_base h]

namespace Packing

/-- **The device is looked up** by the digits packed, and by their completion if there are
fourteen. -/
theorem lookedUpBy {p : Packing} (h : p.IsDecimal) :
    LookedUpBy p.counting (Identity.ofRaw p.raw).candidates := by
  have htext := text_decimal h
  have hlength : (Identity.ofRaw p.raw).digits.length = p.counting.length := by
    rw [htext, digitsText, String.length_ofList, List.length_map]
  have hempty := RawId.isEmpty_iff p.raw
  rw [significant_raw] at hempty
  unfold Identity.candidates
  by_cases hnone : p.counting = []
  · rw [if_pos (hempty.mpr hnone), hnone]
    exact .nothing
  rw [if_neg fun hyes => hnone (hempty.mp hyes), Identity.withCheckDigit?, hlength,
    Identity.uncheckedLength]
  by_cases hfull : p.counting.length = 14
  · have hwrites := writes_value h
    obtain ⟨hcheck, hsum⟩ := (hwrites.isCheckDigit_iff _).mpr rfl
    rw [if_pos hfull, htext, ← digitsText_concat p.counting hcheck]
    exact .checked hfull hcheck hsum
  · rw [if_neg hfull, htext]
    exact .digits hnone (Nat.lt_of_le_of_ne p.length_counting_le hfull)

end Packing

/-! ## Its number -/

/-- The decimal digits of a half byte. -/
def nibbleDigits (nibble : Nat) : List Nat :=
  if nibble < 10 then [nibble] else [1, nibble - 10]

theorem toDigits_nibble : ∀ nibble < 16,
    Nat.toDigits 10 nibble = (nibbleDigits nibble).map Nat.digitChar := by
  decide

theorem nibbleDigits_decimal {nibble digit : Nat} (h : nibble < 16)
    (hdigit : digit ∈ nibbleDigits nibble) : digit < 10 := by
  unfold nibbleDigits at hdigit
  split at hdigit
  · rw [List.mem_singleton.mp hdigit]
    assumption
  · simp only [List.mem_cons, List.not_mem_nil, or_false] at hdigit
    omega

theorem encode_digitChar : ∀ digit < 10, String.utf8EncodeChar (Nat.digitChar digit) =
    [UInt8.ofNat (48 + digit)] := by
  decide

theorem digitValue?_digit : ∀ digit < 10,
    Ascii.digitValue? (UInt8.ofNat (48 + digit)) = some digit := by
  decide

theorem utf8_digitsText {digits : List Nat} (h : ∀ digit ∈ digits, digit < 10) :
    Ascii.utf8 (digitsText digits) = digits.map fun digit => UInt8.ofNat (48 + digit) := by
  rw [Utf8.utf8_eq, digitsText, String.toList_ofList, List.flatMap_map]
  induction digits with
  | nil => rfl
  | cons digit digits ih =>
    obtain ⟨hdigit, hdigits⟩ := List.forall_mem_cons.mp h
    rw [List.flatMap_cons, List.map_cons, encode_digitChar digit hdigit, ih hdigits]
    rfl

theorem decimalNumber_digitsText {digits : List Nat} (h : ∀ digit ∈ digits, digit < 10) :
    Whole.decimalNumber (Ascii.utf8 (digitsText digits)) =
      Identity.value (digitsText digits).toList := by
  have hdigits : digits.reverse.map (fun digit =>
      (Ascii.digitValue? (UInt8.ofNat (48 + digit))).getD 0) = digits.reverse := by
    refine (List.map_congr_left fun digit hmem => ?_).trans (List.map_id' _)
    rw [digitValue?_digit digit (h digit (List.mem_reverse.mp hmem)), Option.getD_some]
  rw [← (writes_value h).value_eq, utf8_digitsText h, Whole.decimalNumber, Whole.number,
    ← List.map_reverse, List.map_map]
  exact congrArg (Nat.ofDigits 10) hdigits

theorem isInteger_digitsText {digits : List Nat} (h : ∀ digit ∈ digits, digit < 10)
    (hne : digits ≠ []) : Token.IsInteger (Ascii.utf8 (digitsText digits)) := by
  rw [utf8_digitsText h]
  refine ⟨fun b hb => ?_, mt List.map_eq_nil_iff.mp hne⟩
  obtain ⟨digit, hmem, rfl⟩ := List.mem_map.mp hb
  have hvalue := digitValue?_digit digit (h digit hmem)
  unfold Ascii.digitValue? at hvalue
  split at hvalue
  · assumption
  · cases hvalue

namespace Packing

theorem exists_digits (p : Packing) : ∃ digits : List Nat, (∀ digit ∈ digits, digit < 10) ∧
    (Identity.ofRaw p.raw).digits = digitsText digits := by
  have hsmall : ∀ nibble ∈ p.counting, nibble < 16 :=
    (List.forall_mem_append.mp p.lt_sixteen).1
  have hchars : p.counting.flatMap (Nat.toDigits 10) =
      (p.counting.flatMap nibbleDigits).map Nat.digitChar := by
    rw [List.map_flatMap]
    exact List.flatMap_congr fun nibble hmem => toDigits_nibble nibble (hsmall nibble hmem)
  refine ⟨p.counting.flatMap nibbleDigits, fun digit hdigit => ?_, ?_⟩
  · obtain ⟨nibble, hmem, hdigit⟩ := List.mem_flatMap.mp hdigit
    exact nibbleDigits_decimal (hsmall nibble hmem) hdigit
  · have hdigits : (Identity.ofRaw p.raw).digits =
        String.ofList (p.raw.significant.flatMap (Nat.toDigits 10)) := rfl
    rw [hdigits, significant_raw, hchars, digitsText]

/-- **The number of fourteen characters is always read**, so none of them lacks its check digit. -/
theorem read_text {p : Packing} (h : (Identity.ofRaw p.raw).digits.length = 14) :
    Whole.decimalBelow? Whole.limit64 (Ascii.utf8 (Identity.ofRaw p.raw).digits) =
      some (Identity.value (Identity.ofRaw p.raw).digits.toList) := by
  obtain ⟨digits, hdecimal, htext⟩ := p.exists_digits
  rw [htext] at h ⊢
  rw [digitsText, String.length_ofList, List.length_map] at h
  have hne : digits ≠ [] := by
    rintro rfl
    cases h
  have hbound := Whole.decimalNumber_lt (Ascii.utf8 (digitsText digits))
  have hlength : (Ascii.utf8 (digitsText digits)).length = 14 := by
    rw [utf8_digitsText hdecimal, List.length_map, h]
  rw [hlength] at hbound
  rw [Whole.decimalBelow?_eq (isInteger_digitsText hdecimal hne),
    if_pos (Nat.lt_trans hbound (by decide)), decimalNumber_digitsText hdecimal]

end Packing

/-- The check digit is appended to texts of fourteen characters, however many half bytes these
are. -/
theorem Identity.isSome_withCheckDigit? (identity : Identity) :
    identity.withCheckDigit?.isSome = true ↔ identity.digits.length = 14 := by
  unfold withCheckDigit?
  split
  · exact iff_of_true rfl ‹_›
  · exact iff_of_false Bool.false_ne_true ‹_›

/-- **Packed identifiers are read faithfully.** Every identifier packs some half bytes; whatever
fills the rest, its text is that of the half bytes that count, and it has a check digit just when
these are fourteen characters, which are always read as a number. Decimal digits come back as they
were, and name the device. -/
theorem identifiers_faithful :
    (∀ id : RawId, ∃ p : Packing, p.raw = id) ∧
      (∀ p : Packing, (Identity.ofRaw p.raw).digits = String.join (p.counting.map toString) ∧
        ((Identity.ofRaw p.raw).withCheckDigit?.isSome = true ↔
          (Identity.ofRaw p.raw).digits.length = 14) ∧
        ((Identity.ofRaw p.raw).digits.length = 14 →
          Whole.decimalBelow? Whole.limit64 (Ascii.utf8 (Identity.ofRaw p.raw).digits) =
            some (Identity.value (Identity.ofRaw p.raw).digits.toList))) ∧
      ∀ p : Packing, p.IsDecimal → (Identity.ofRaw p.raw).digits = digitsText p.counting ∧
        LookedUpBy p.counting (Identity.ofRaw p.raw).candidates :=
  ⟨Packing.exists_raw, fun p => ⟨p.text_raw, Identity.isSome_withCheckDigit? _, Packing.read_text⟩,
    fun _ h => ⟨Packing.text_decimal h, Packing.lookedUpBy h⟩⟩

/-- Three digits, the filler in a low half and other half bytes behind it. -/
def threeDigits : Packing where
  counting := [1, 0, 3]
  filling := [15, 2, 15, 11, 7, 0, 0, 14, 9, 3, 15]
  lt_sixteen := by decide
  length_eq := rfl
  filler_not_mem := by decide
  filling_head := by decide

/-- Fourteen digits, of which the first two are zeros. -/
def fourteenDigits : Packing where
  counting := [0, 0, 9, 0, 1, 5, 4, 2, 0, 3, 2, 3, 7, 5]
  filling := []
  lt_sixteen := by decide
  length_eq := rfl
  filler_not_mem := by decide
  filling_head := by decide

theorem identifiers_faithful_zeros :
    threeDigits.raw.bytes = [0x10, 0x3F, 0x2F, 0xB7, 0x00, 0xE9, 0x3F] ∧
      threeDigits.IsDecimal ∧ (Identity.ofRaw threeDigits.raw).digits = "103" ∧
      fourteenDigits.raw.bytes = [0x00, 0x90, 0x15, 0x42, 0x03, 0x23, 0x75] ∧
      fourteenDigits.IsDecimal ∧ (Identity.ofRaw fourteenDigits.raw).digits = "00901542032375" ∧
      Whole.decimalBelow? Whole.limit64 (Ascii.utf8 "00901542032375") = some 901542032375 ∧
      LookedUpBy [0, 0, 9, 0, 1, 5, 4, 2, 0, 3, 2, 3, 7, 5]
        (Identity.ofRaw fourteenDigits.raw).candidates := by
  have hthree : threeDigits.IsDecimal := by unfold Packing.IsDecimal; decide
  have hfourteen : fourteenDigits.IsDecimal := by unfold Packing.IsDecimal; decide
  obtain ⟨-, hread, hdecimal⟩ := identifiers_faithful
  obtain ⟨htext, -⟩ := hdecimal threeDigits hthree
  obtain ⟨htext', hcandidates⟩ := hdecimal fourteenDigits hfourteen
  have hdigits : (Identity.ofRaw fourteenDigits.raw).digits = "00901542032375" :=
    htext'.trans (by decide)
  have hnumber := (hread fourteenDigits).2.2 (by rw [hdigits]; rfl)
  rw [hdigits] at hnumber
  exact ⟨by decide, hthree, htext.trans (by decide), by decide, hfourteen, hdigits,
    hnumber.trans (by decide), hcandidates⟩

end TrackerWire
