import TrackerWire.Proofs.Grammar.Spelling
import TrackerWire.Proofs.Sentence.Texts
import TrackerWire.Proofs.Text.Legible

/-!
# Headers of regular sentences

A regular sentence starts with a header: time, validity, place, speed, course and date, with a
comma behind each but the last. `HeaderText` has its parts, whether they make up a date and a time
of day that exist or not.

* `prefers_header`, `spells_header`: what the grammar reads up to the date is a header, all of them
  and nothing else, and its captures are the parts of the header.
* `HeaderText.bytes_inj`: the header that a text starts with is unique, since no part but the
  last holds a comma.
-/
namespace TrackerWire

open Slot

/-! ## Parts of a text -/

theorem Token.Text.not_mem {token : Token} (text : token.Text) {b : UInt8}
    (h : token.alphabet b = false) : b ∉ text.val :=
  fun hb => absurd (allOf_alphabet text.property b hb) (by rw [h]; exact Bool.false_ne_true)

namespace Sentence

theorem pair_of_accepts {text : Bytes} (h : (digits 2).Accepts text) :
    ∃ n, text = pairText n := by
  obtain ⟨hdigits, hleast, hmost⟩ := h
  obtain ⟨x, y, rfl⟩ : ∃ x y, text = [x, y] :=
    List.length_eq_two.mp (Nat.le_antisymm (hmost 2 rfl) hleast)
  obtain ⟨hx, hy⟩ : Ascii.isDigit x = true ∧ Ascii.isDigit y = true := by
    simpa [Token.AllOf] using hdigits
  simp only [Ascii.isDigit, Bool.and_eq_true, decide_eq_true_eq, UInt8.le_iff_toNat_le,
    UInt8.reduceToNat] at hx hy
  refine ⟨⟨(x.toNat - 0x30) * 10 + (y.toNat - 0x30), by omega⟩, ?_⟩
  have hfirst : 0x30 + ((x.toNat - 0x30) * 10 + (y.toNat - 0x30)) / 10 = x.toNat := by omega
  have hsecond : 0x30 + ((x.toNat - 0x30) * 10 + (y.toNat - 0x30)) % 10 = y.toNat := by omega
  rw [pairText, hfirst, hsecond, UInt8.ofNat_toNat, UInt8.ofNat_toNat]

theorem pairText_inj {a b : Fin 100} (h : pairText a = pairText b) : a = b := by
  have hvalue := decimalBelow?_pair a
  rw [h, decimalBelow?_pair b] at hvalue
  exact Fin.ext (Option.some.inj hvalue).symm

theorem tripleText_inj {a b c a' b' c' : Fin 100} {rest rest' : Bytes}
    (h : tripleText a b c ++ rest = tripleText a' b' c' ++ rest') :
    a = a' ∧ b = b' ∧ c = c' ∧ rest = rest' := by
  simp only [tripleText, List.append_assoc] at h
  obtain ⟨ha, h⟩ := List.append_inj h rfl
  obtain ⟨hb, h⟩ := List.append_inj h rfl
  obtain ⟨hc, h⟩ := List.append_inj h rfl
  exact ⟨pairText_inj ha, pairText_inj hb, pairText_inj hc, h⟩

theorem optionalText_inj {token : Token} (hempty : ¬ token.Accepts [])
    {text text' : Option token.Text} (h : optionalText text = optionalText text') :
    text = text' := by
  cases text with
  | none =>
    cases text' with
    | none => rfl
    | some text' =>
      have hnil : [] = text'.val := h
      exact absurd (hnil ▸ text'.property) hempty
  | some text =>
    cases text' with
    | none =>
      have hnil : text.val = [] := h
      exact absurd (hnil ▸ text.property) hempty
    | some text' => exact congrArg some (Subtype.ext h)

theorem letter_inj {a b : UInt8} (hab : a ≠ b) {second second' : Bool}
    (h : letter second a b = letter second' a b) : second = second' := by
  cases second <;> cases second' <;> simp_all [letter]

theorem optionalText_not_mem {token : Token} (text : Option token.Text) {b : UInt8}
    (h : token.alphabet b = false) : b ∉ optionalText text := by
  cases text with
  | none => exact List.not_mem_nil
  | some text => exact text.not_mem h

/-! ### What the grammar reads -/

section
variable {rest : List Slot} {text : Bytes} {texts : List (Option Bytes)}

theorem spells_pairs (h : Spells pairs text texts) : ∃ a b c, text = tripleText a b c ∧
    texts = [some (pairText a), some (pairText b), some (pairText c)] := by
  obtain ⟨first, _, _, rfl, rfl, hfirst, hbehind⟩ := h.captured_cons
  obtain ⟨second, _, _, rfl, rfl, hsecond, hlast⟩ := hbehind.captured_cons
  obtain ⟨third, _, _, rfl, rfl, hthird, hnil⟩ := hlast.captured_cons
  obtain ⟨rfl, rfl⟩ := hnil.nil
  obtain ⟨a, rfl⟩ := pair_of_accepts hfirst
  obtain ⟨b, rfl⟩ := pair_of_accepts hsecond
  obtain ⟨c, rfl⟩ := pair_of_accepts hthird
  exact ⟨a, b, c, by rw [tripleText, List.append_nil], rfl⟩

theorem spells_letter_cons {a b : UInt8}
    (h : Spells (captured (.oneOf [a, b]) :: rest) text texts) : ∃ second more moreTexts,
      text = letter second a b :: more ∧ texts = some [letter second a b] :: moreTexts ∧
        Spells rest more moreTexts := by
  obtain ⟨_, more, moreTexts, rfl, rfl, ⟨x, rfl, hx⟩, hrest⟩ := h.captured_cons
  rcases List.mem_pair.mp hx with rfl | rfl
  · exact ⟨false, more, moreTexts, rfl, rfl, hrest⟩
  · exact ⟨true, more, moreTexts, rfl, rfl, hrest⟩

theorem spells_optional_cons {token : Token}
    (h : Spells (.optional [captured token] :: rest) text texts) :
    ∃ (part : Option token.Text) (more : Bytes) (moreTexts : List (Option Bytes)),
      text = optionalText part ++ more ∧ texts = part.map Subtype.val :: moreTexts ∧
        Spells rest more moreTexts := by
  obtain ⟨_, more, _, moreTexts, rfl, rfl, hpart | ⟨rfl, rfl⟩, hrest⟩ := h.optional_cons
  · obtain ⟨part, _, _, rfl, rfl, haccepts, hnil⟩ := hpart.captured_cons
    obtain ⟨rfl, rfl⟩ := hnil.nil
    exact ⟨some ⟨part, haccepts⟩, more, moreTexts, by rw [List.append_nil]; rfl, rfl, hrest⟩
  · exact ⟨none, more, moreTexts, rfl, rfl, hrest⟩

theorem spells_place (h : Spells place text texts) :
    ∃ p : PlaceText, text = p.bytes ∧ texts = p.texts := by
  obtain ⟨latitude, _, _, rfl, rfl, hlatitude, h₁⟩ := h.captured_cons
  obtain ⟨_, rfl, h₂⟩ := h₁.byte_cons
  obtain ⟨south, _, _, rfl, rfl, h₃⟩ := spells_letter_cons h₂
  obtain ⟨_, rfl, h₄⟩ := h₃.byte_cons
  obtain ⟨longitude, _, _, rfl, rfl, hlongitude, h₅⟩ := h₄.captured_cons
  obtain ⟨_, rfl, h₆⟩ := h₅.byte_cons
  obtain ⟨west, _, _, rfl, rfl, hnil⟩ := spells_letter_cons h₆
  obtain ⟨rfl, rfl⟩ := hnil.nil
  exact ⟨⟨⟨latitude, hlatitude⟩, south, ⟨longitude, hlongitude⟩, west⟩, rfl, rfl⟩

end

/-! ## Headers -/

/-- The header of a sentence. -/
@[ext]
structure HeaderText where
  hour : Fin 100
  minute : Fin 100
  second : Fin 100
  /-- A point follows the seconds. -/
  point : Bool
  fraction : (Token.digits 0 none).Text
  valid : Bool
  place : PlaceText
  speed : Option Token.number.Text
  course : Option Token.number.Text
  day : Fin 100
  month : Fin 100
  year : Fin 100

namespace HeaderText

def validityLetter (header : HeaderText) : UInt8 := letter (!header.valid) 0x41 0x56

def bytes (header : HeaderText) : Bytes :=
  tripleText header.hour header.minute header.second ++
    ((if header.point then [Ascii.point] else []) ++
      (header.fraction.val ++ [Ascii.comma, header.validityLetter, Ascii.comma])) ++
    header.place.bytes ++
    Ascii.comma :: (optionalText header.speed ++ Ascii.comma ::
      (optionalText header.course ++ [Ascii.comma])) ++
    tripleText header.day header.month header.year

def text (header : HeaderText) : String := Ascii.text header.bytes

/-- The texts of the captures. -/
def texts (header : HeaderText) : List (Option Bytes) :=
  [some (pairText header.hour), some (pairText header.minute), some (pairText header.second),
    some [header.validityLetter]] ++ header.place.texts ++
  [header.speed.map Subtype.val, header.course.map Subtype.val,
    some (pairText header.day), some (pairText header.month), some (pairText header.year)]

theorem ascii (header : HeaderText) : Ascii.All header.bytes := by
  have hpoint : Ascii.All (if header.point then [Ascii.point] else []) := by
    cases header.point <;> simp [Ascii.point]
  have hvalidity : header.validityLetter < 0x80 :=
    letter_lt (by decide) (by decide) (!header.valid)
  simp [bytes, tripleText, ascii_pair, hpoint, header.place.ascii, hvalidity,
    header.fraction.ascii rfl, ascii_optional rfl header.speed, ascii_optional rfl header.course,
    Ascii.comma]

end HeaderText

/-! ### Headers are read -/

theorem prefers_validity (header : HeaderText) (after : Bytes) :
    Prefers [.optional [byte Ascii.point], skip (.digits 0 none), comma, captured validity, comma]
      ((if header.point then [Ascii.point] else []) ++
        (header.fraction.val ++ [Ascii.comma, header.validityLetter, Ascii.comma])) after
      [some [header.validityLetter]] [] := by
  have hbehind : Prefers [skip (.digits 0 none), comma, captured validity, comma]
      (header.fraction.val ++ [Ascii.comma, header.validityLetter, Ascii.comma]) after
      [some [header.validityLetter]] [] := by
    refine .skip_cons (header.fraction.aligned rfl) (header.fraction.prefers_cons rfl _) ?_
    refine .byte_cons (by decide) ?_
    refine prefers_letter_cons (by decide) (by decide) (!header.valid) ?_
    exact .byte_cons (by decide) (.nil after)
  cases header.point with
  | true => exact .cons (.taken (.byte_cons (by decide) (.nil _))) hbehind
  | false =>
    refine .cons (.omitted (.byte ?_ [])) hbehind
    -- a digit of the fraction stands there, or the comma
    intro b hb
    cases hfraction : header.fraction.val with
    | nil =>
      rw [hfraction] at hb
      cases hb
      decide
    | cons x fraction =>
      rw [hfraction] at hb
      cases hb
      rintro rfl
      exact header.fraction.not_mem rfl (by rw [hfraction]; exact List.mem_cons_self)

theorem prefers_motion (header : HeaderText) (after : Bytes) : Prefers
    [comma, .optional [captured .number], comma, .optional [captured .number], comma]
    (Ascii.comma :: (optionalText header.speed ++ Ascii.comma ::
      (optionalText header.course ++ [Ascii.comma]))) after
    [header.speed.map Subtype.val, header.course.map Subtype.val] [] := by
  refine .byte_cons (by decide) ?_
  refine prefers_optional_cons rfl (by decide) header.speed (Token.stops_cons rfl _) ?_
  refine .byte_cons (by decide) ?_
  refine prefers_optional_cons rfl (by decide) header.course (Token.stops_cons rfl _) ?_
  exact .byte_cons (by decide) (.nil after)

/-- **Every header is read as it was meant.** -/
theorem prefers_header (header : HeaderText) (after : Bytes) :
    Prefers fixSlots header.bytes after header.texts [] := by
  have hclock := prefers_pairs header.hour header.minute header.second
  have hdate := prefers_pairs header.day header.month header.year
  exact ((((hclock _).append (prefers_validity header _)).append
    (prefers_place header.place _)).append (prefers_motion header _)).append (hdate after)

/-! ### Nothing else is read -/

section
variable {text : Bytes} {texts : List (Option Bytes)}

theorem spells_validity (h : Spells
    [.optional [byte Ascii.point], skip (.digits 0 none), comma, captured validity, comma]
    text texts) :
    ∃ (point : Bool) (fraction : (Token.digits 0 none).Text) (valid : Bool),
      text = (if point then [Ascii.point] else []) ++
        (fraction.val ++ [Ascii.comma, letter (!valid) 0x41 0x56, Ascii.comma]) ∧
      texts = [some [letter (!valid) 0x41 0x56]] := by
  obtain ⟨_, _, _, _, rfl, rfl, hpoint, h₁⟩ := h.optional_cons
  obtain ⟨fraction, _, rfl, hfraction, h₂⟩ := h₁.skip_cons
  obtain ⟨_, rfl, h₃⟩ := h₂.byte_cons
  obtain ⟨invalid, _, _, rfl, rfl, h₄⟩ := spells_letter_cons h₃
  obtain ⟨_, rfl, hnil⟩ := h₄.byte_cons
  obtain ⟨rfl, rfl⟩ := hnil.nil
  rcases hpoint with hpoint | ⟨rfl, rfl⟩
  · obtain ⟨_, rfl, hnil⟩ := hpoint.byte_cons
    obtain ⟨rfl, rfl⟩ := hnil.nil
    exact ⟨true, ⟨fraction, hfraction⟩, !invalid, by rw [Bool.not_not]; rfl,
      by rw [Bool.not_not]; rfl⟩
  · exact ⟨false, ⟨fraction, hfraction⟩, !invalid, by rw [Bool.not_not]; rfl,
      by rw [Bool.not_not]; rfl⟩

theorem spells_motion (h : Spells
    [comma, .optional [captured .number], comma, .optional [captured .number], comma]
    text texts) :
    ∃ speed course : Option Token.number.Text,
      text = Ascii.comma :: (optionalText speed ++ Ascii.comma ::
        (optionalText course ++ [Ascii.comma])) ∧
      texts = [speed.map Subtype.val, course.map Subtype.val] := by
  obtain ⟨_, rfl, h₁⟩ := h.byte_cons
  obtain ⟨speed, _, _, rfl, rfl, h₂⟩ := spells_optional_cons h₁
  obtain ⟨_, rfl, h₃⟩ := h₂.byte_cons
  obtain ⟨course, _, _, rfl, rfl, h₄⟩ := spells_optional_cons h₃
  obtain ⟨_, rfl, hnil⟩ := h₄.byte_cons
  obtain ⟨rfl, rfl⟩ := hnil.nil
  exact ⟨speed, course, rfl, rfl⟩

/-- **What the grammar reads up to the date is a header.** -/
theorem spells_header (h : Spells fixSlots text texts) :
    ∃ header : HeaderText, text = header.bytes ∧ texts = header.texts := by
  obtain ⟨_, _, _, _, rfl, rfl, h₁, hdate⟩ := h.append
  obtain ⟨_, _, _, _, rfl, rfl, h₂, hmotion⟩ := h₁.append
  obtain ⟨_, _, _, _, rfl, rfl, h₃, hplace⟩ := h₂.append
  obtain ⟨_, _, _, _, rfl, rfl, hclock, hvalidity⟩ := h₃.append
  obtain ⟨hour, minute, second, rfl, rfl⟩ := spells_pairs hclock
  obtain ⟨point, fraction, valid, rfl, rfl⟩ := spells_validity hvalidity
  obtain ⟨place, rfl, rfl⟩ := spells_place hplace
  obtain ⟨speed, course, rfl, rfl⟩ := spells_motion hmotion
  obtain ⟨day, month, year, rfl, rfl⟩ := spells_pairs hdate
  refine ⟨⟨hour, minute, second, point, fraction, valid, place, speed, course, day, month, year⟩,
    rfl, ?_⟩
  simp [HeaderText.texts, HeaderText.validityLetter, List.append_assoc]

end

/-! ### The header is unique -/

namespace HeaderText

/-- What stands before the first comma. -/
def clock (header : HeaderText) : Bytes :=
  tripleText header.hour header.minute header.second ++
    ((if header.point then [Ascii.point] else []) ++ header.fraction.val)

/-- The header with the parts that end in a comma one by one. -/
theorem bytes_append (header : HeaderText) (rest : Bytes) : header.bytes ++ rest =
    header.clock ++ Ascii.comma :: ([header.validityLetter] ++ Ascii.comma ::
    (header.place.latitude.val ++ Ascii.comma :: ([header.place.latitudeLetter] ++ Ascii.comma ::
    (header.place.longitude.val ++ Ascii.comma :: ([header.place.longitudeLetter] ++ Ascii.comma ::
    (optionalText header.speed ++ Ascii.comma :: (optionalText header.course ++ Ascii.comma ::
    (tripleText header.day header.month header.year ++ rest)))))))) := by
  simp [bytes, clock, PlaceText.bytes]

theorem clock_not_mem (header : HeaderText) : Ascii.comma ∉ header.clock := by
  have hpair : ∀ n, Ascii.comma ∉ pairText n := fun n =>
    @Token.Text.not_mem (digits 2) ⟨_, accepts_pair n⟩ _ rfl
  have hpoint : Ascii.comma ∉ if header.point then [Ascii.point] else [] := by
    cases header.point <;> decide
  simp [clock, tripleText, hpair, hpoint, header.fraction.not_mem (b := Ascii.comma) rfl]

theorem clock_inj {header header' : HeaderText} (h : header.clock = header'.clock) :
    header.hour = header'.hour ∧ header.minute = header'.minute ∧
      header.second = header'.second ∧ header.point = header'.point ∧
      header.fraction = header'.fraction := by
  obtain ⟨hhour, hminute, hsecond, hrest⟩ := tripleText_inj h
  have hpoint : ∀ header : HeaderText, Ascii.point ∉ header.fraction.val := fun header =>
    header.fraction.not_mem rfl
  suffices hparts : header.point = header'.point ∧ header.fraction.val = header'.fraction.val from
    ⟨hhour, hminute, hsecond, hparts.1, Subtype.ext hparts.2⟩
  cases hp : header.point <;> cases hp' : header'.point <;>
    simp only [hp, hp', if_true, Bool.false_eq_true, if_false, List.nil_append,
      List.cons_append] at hrest
  · exact ⟨rfl, hrest⟩
  · exact absurd (hrest ▸ List.mem_cons_self) (hpoint header)
  · exact absurd (hrest ▸ List.mem_cons_self) (hpoint header')
  · exact ⟨rfl, (List.cons.inj hrest).2⟩

/-- **The header that a text starts with is unique.** -/
theorem bytes_inj {header header' : HeaderText} {rest rest' : Bytes}
    (h : header.bytes ++ rest = header'.bytes ++ rest') : header = header' ∧ rest = rest' := by
  have hletter : ∀ second {a b : UInt8}, a ≠ Ascii.comma → b ≠ Ascii.comma →
      Ascii.comma ∉ [letter second a b] := by
    intro second a b ha hb hmem
    have hcomma := List.mem_singleton.mp hmem
    cases second
    · exact ha hcomma.symm
    · exact hb hcomma.symm
  rw [bytes_append, bytes_append] at h
  obtain ⟨hclock, h₁⟩ := cut_at header.clock_not_mem header'.clock_not_mem h
  obtain ⟨hvalid, h₂⟩ := cut_at (hletter _ (by decide) (by decide))
    (hletter _ (by decide) (by decide)) h₁
  obtain ⟨hlatitude, h₃⟩ := cut_at (Token.Text.not_mem _ rfl) (Token.Text.not_mem _ rfl) h₂
  obtain ⟨hsouth, h₄⟩ := cut_at (hletter _ (by decide) (by decide))
    (hletter _ (by decide) (by decide)) h₃
  obtain ⟨hlongitude, h₅⟩ := cut_at (Token.Text.not_mem _ rfl) (Token.Text.not_mem _ rfl) h₄
  obtain ⟨hwest, h₆⟩ := cut_at (hletter _ (by decide) (by decide))
    (hletter _ (by decide) (by decide)) h₅
  obtain ⟨hspeed, h₇⟩ := cut_at (optionalText_not_mem _ rfl) (optionalText_not_mem _ rfl) h₆
  obtain ⟨hcourse, h₈⟩ := cut_at (optionalText_not_mem _ rfl) (optionalText_not_mem _ rfl) h₇
  obtain ⟨hday, hmonth, hyear, hrest⟩ := tripleText_inj h₈
  obtain ⟨hhour, hminute, hsecond, hpoint, hfraction⟩ := clock_inj hclock
  have hvalidity : header.valid = header'.valid :=
    Bool.not_inj (letter_inj (by decide) (List.singleton_inj.mp hvalid))
  have hplace : header.place = header'.place := by
    have hsouth := letter_inj (by decide) (List.singleton_inj.mp hsouth)
    have hwest := letter_inj (by decide) (List.singleton_inj.mp hwest)
    cases hp : header.place
    cases hp' : header'.place
    simp only [hp, hp'] at hlatitude hsouth hlongitude hwest
    rw [Subtype.ext hlatitude, hsouth, Subtype.ext hlongitude, hwest]
  exact ⟨HeaderText.ext hhour hminute hsecond hpoint hfraction hvalidity hplace
    (optionalText_inj (by decide) hspeed) (optionalText_inj (by decide) hcourse)
    hday hmonth hyear, hrest⟩

end HeaderText

end Sentence

end TrackerWire
