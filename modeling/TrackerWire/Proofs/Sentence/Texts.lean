import TrackerWire.Proofs.Grammar.Preferred
import TrackerWire.Proofs.Grammar.Values
import TrackerWire.Sentence.Decode

/-!
# Texts that sentences are composed of

A text of a token (`Token.Text`) is a byte string that the token stands for. Sentences are composed
of such texts: pairs of digits, places, and texts that may be left out. For each of them there is
how it is written, that a grammar prefers it as it was meant, and what it is read as.
-/
namespace TrackerWire

open Slot

namespace Token

/-- A text of a token. -/
abbrev Text (token : Token) : Type := { text : Bytes // token.Accepts text }

/-- A token stands for a text if it could take the whole of it. -/
theorem accepts_iff (token : Token) (text : Bytes) :
    token.Accepts text ↔ text.length ∈ token.lengths text := by
  rw [mem_lengths]
  refine ⟨fun h => ⟨text, [], (List.append_nil text).symm, rfl, h⟩, ?_⟩
  intro ⟨whole, after, htext, hlen, h⟩
  have hwhole : whole = text :=
    List.IsPrefix.eq_of_length ⟨after, htext.symm⟩ hlen
  exact hwhole ▸ h

instance (token : Token) : DecidablePred token.Accepts := fun text =>
  decidable_of_iff _ (token.accepts_iff text).symm

/-! ## Texts of the numeric tokens -/

/-- The tokens made of digits, points and minus signs. -/
def isNumeric : Token → Bool
  | oneOf _ | noneOf _ | rest => false
  | _ => true

theorem lt_of_alphabet {token : Token} (hnumeric : token.isNumeric = true) {b : UInt8}
    (hb : token.alphabet b = true) : b < 0x80 := by
  have hpointed : (Ascii.isDigit b || b == Ascii.point) = true → b < 0x80 := by
    intro h
    rcases Bool.or_eq_true_iff.mp h with h | h
    · exact Ascii.lt_of_isDigit h
    · rw [eq_of_beq h]; decide
  have hminus : (b == Ascii.minus) = true → b < 0x80 := by
    intro h
    rw [eq_of_beq h]; decide
  cases token with
  | digits min max => exact Ascii.lt_of_isDigit hb
  | hex min max => exact Ascii.lt_of_isHexDigit hb
  | decimal => exact hpointed hb
  | number => exact hpointed hb
  | coordinate => exact hpointed hb
  | signedInteger => exact (Bool.or_eq_true_iff.mp hb).elim Ascii.lt_of_isDigit hminus
  | signedNumber => exact (Bool.or_eq_true_iff.mp hb).elim hpointed hminus
  | oneOf set => cases hnumeric
  | noneOf set => cases hnumeric
  | rest => cases hnumeric

theorem Text.ascii {token : Token} (hnumeric : token.isNumeric = true) (text : token.Text) :
    Ascii.All text.val :=
  fun b hb => lt_of_alphabet hnumeric (allOf_alphabet text.property b hb)

theorem Text.aligned {token : Token} (hnumeric : token.isNumeric = true) (text : token.Text) :
    Utf8.Aligned text.val :=
  Utf8.aligned_ascii (text.ascii hnumeric)

/-- Behind a text stands a byte that the token cannot take. -/
theorem Text.prefers_cons {token : Token} (text : token.Text) {b : UInt8}
    (h : token.alphabet b = false) (after : Bytes) : token.Prefers text.val (b :: after) :=
  prefers_of_stops text.property (stops_cons h after)

theorem Text.prefers_hex {n : Nat} (text : (hex n (some n)).Text) (after : Bytes) :
    (hex n (some n)).Prefers text.val after := by
  refine prefers_of_bound text.property (fun other hother => ?_) after
  have hleast := text.property.2.1
  have hmost := hother.2.2 n rfl
  omega

theorem prefers_letter {set : Bytes} {b : UInt8} (hb : b ∈ set) (after : Bytes) :
    (oneOf set).Prefers [b] after := by
  have haccepts : (oneOf set).Accepts [b] := ⟨b, rfl, hb⟩
  refine prefers_of_bound haccepts (fun other hother => ?_) after
  obtain ⟨c, rfl, -⟩ := hother
  exact Nat.le_refl 1

end Token

namespace Sentence

/-! ## Pairs of digits -/

def pairText (n : Fin 100) : Bytes := [UInt8.ofNat (0x30 + n / 10), UInt8.ofNat (0x30 + n % 10)]

def tripleText (a b c : Fin 100) : Bytes := pairText a ++ (pairText b ++ pairText c)

theorem accepts_pair (n : Fin 100) : (digits 2).Accepts (pairText n) := by
  revert n
  decide +kernel

theorem ascii_pair (n : Fin 100) : Ascii.All (pairText n) :=
  fun b hb => Ascii.lt_of_isDigit ((accepts_pair n).1 b hb)

theorem prefers_pair (n : Fin 100) (after : Bytes) : (digits 2).Prefers (pairText n) after :=
  Token.prefers_of_bound (accepts_pair n) (fun _ hother => hother.2.2 2 rfl) after

theorem prefers_pairs (a b c : Fin 100) (after : Bytes) :
    Prefers pairs (tripleText a b c) after
      [some (pairText a), some (pairText b), some (pairText c)] [] := by
  have haligned := fun n => Utf8.aligned_ascii (ascii_pair n)
  refine .captured_cons (haligned a) (prefers_pair a _) ?_
  refine .captured_cons (haligned b) (prefers_pair b _) ?_
  exact .captured (haligned c) (prefers_pair c after)

theorem decimalBelow?_pair (n : Fin 100) :
    Whole.decimalBelow? Whole.limit32 (pairText n) = some n.val := by
  revert n
  decide +kernel

theorem tripleAt_eq {captures : Captures} {index : Nat} {a b c : Fin 100}
    (ha : captures.bytesAt index = some (pairText a))
    (hb : captures.bytesAt (index + 1) = some (pairText b))
    (hc : captures.bytesAt (index + 2) = some (pairText c)) :
    tripleAt captures index = some (a.val, b.val, c.val) := by
  simp only [tripleAt, Captures.wordAt, ha, hb, hc, Option.bind_some, decimalBelow?_pair,
    Option.bind_eq_bind]

/-! ## Texts that may be left out -/

/-- A text that may be left out. -/
def optionalText {token : Token} (text : Option token.Text) : Bytes := text.elim [] Subtype.val

/-- A text behind a bar, or neither. -/
def barredText {token : Token} (text : Option token.Text) : Bytes :=
  text.elim [] fun text => Ascii.bar :: text.val

theorem prefers_optional {token : Token} (hnumeric : token.isNumeric = true)
    (hempty : ¬ token.Accepts []) (text : Option token.Text) {after : Bytes}
    (hstops : token.Stops after) :
    Prefers [.optional [captured token]] (optionalText text) after
      [text.map Subtype.val] [] := by
  cases text with
  | some text =>
    exact .taken (.captured (text.aligned hnumeric)
      (Token.prefers_of_stops text.property hstops))
  | none =>
    have hnone : token.lengths after = [] := by
      refine Token.lengths_of_stops [] hstops fun other hother => ?_
      exact List.length_pos_iff.mpr fun hnil => hempty (hnil ▸ hother)
    exact .omitted (.captured hnone [])

theorem prefers_optional_cons {token : Token} (hnumeric : token.isNumeric = true)
    (hempty : ¬ token.Accepts []) (text : Option token.Text) {rest : List Slot}
    {more after : Bytes} {texts : List (Option Bytes)} {alternatives : List (Option Nat)}
    (hstops : token.Stops (more ++ after)) (h : Prefers rest more after texts alternatives) :
    Prefers (.optional [captured token] :: rest) (optionalText text ++ more) after
      (text.map Subtype.val :: texts) alternatives :=
  (prefers_optional hnumeric hempty text hstops).cons h

theorem prefers_barred {token : Token} (hnumeric : token.isNumeric = true)
    (text : Option token.Text) {after : Bytes} (hstops : token.Stops after)
    (hbar : ∀ b ∈ after.head?, b ≠ Ascii.bar) :
    Prefers [.optional [bar, captured token]] (barredText text) after
      [text.map Subtype.val] [] := by
  cases text with
  | some text =>
    exact .taken (.byte_cons (by decide) (.captured (text.aligned hnumeric)
      (Token.prefers_of_stops text.property hstops)))
  | none => exact .omitted (.byte hbar _)

theorem ascii_optional {token : Token} (hnumeric : token.isNumeric = true)
    (text : Option token.Text) : Ascii.All (optionalText text) := by
  cases text with
  | some text => exact text.ascii hnumeric
  | none => exact Ascii.all_nil

theorem ascii_barred {token : Token} (hnumeric : token.isNumeric = true)
    (text : Option token.Text) : Ascii.All (barredText text) := by
  cases text with
  | some text => exact Ascii.all_cons.mpr ⟨by decide, text.ascii hnumeric⟩
  | none => exact Ascii.all_nil

/-! ## Letters -/

/-- One of two letters. -/
def letter (second : Bool) (a b : UInt8) : UInt8 := if second then b else a

theorem letter_mem (second : Bool) (a b : UInt8) : letter second a b ∈ [a, b] := by
  cases second <;> simp [letter]

theorem letter_lt {a b : UInt8} (ha : a < 0x80) (hb : b < 0x80) (second : Bool) :
    letter second a b < 0x80 := by
  cases second
  · exact ha
  · exact hb

theorem prefers_letter_cons {a b : UInt8} (ha : a < 0x80) (hb : b < 0x80) (second : Bool)
    {rest : List Slot} {text after : Bytes} {texts : List (Option Bytes)}
    {alternatives : List (Option Nat)} (h : Prefers rest text after texts alternatives) :
    Prefers (captured (.oneOf [a, b]) :: rest) (letter second a b :: text) after
      (some [letter second a b] :: texts) alternatives :=
  .captured_cons (Utf8.aligned_cons (letter_lt ha hb second) [])
    (Token.prefers_letter (letter_mem second a b) _) h

/-! ## Places -/

/-- Latitude and longitude. -/
structure PlaceText where
  latitude : Token.coordinate.Text
  south : Bool
  longitude : Token.coordinate.Text
  west : Bool

namespace PlaceText

def latitudeLetter (place : PlaceText) : UInt8 := letter place.south 0x4E 0x53

def longitudeLetter (place : PlaceText) : UInt8 := letter place.west 0x45 0x57

def bytes (place : PlaceText) : Bytes :=
  place.latitude.val ++ Ascii.comma :: place.latitudeLetter :: Ascii.comma ::
    (place.longitude.val ++ [Ascii.comma, place.longitudeLetter])

/-- The degrees of the two texts, south and west negative. -/
structure Says (place : PlaceText) (latitude longitude : Float) : Prop where
  latitude : ∃ degrees, DenotesDegrees place.latitude.val degrees ∧
    latitude = if place.south then -degrees else degrees
  longitude : ∃ degrees, DenotesDegrees place.longitude.val degrees ∧
    longitude = if place.west then -degrees else degrees

end PlaceText

def PlaceText.texts (place : PlaceText) : List (Option Bytes) :=
  [some place.latitude.val, some [place.latitudeLetter], some place.longitude.val,
    some [place.longitudeLetter]]

theorem prefers_place (p : PlaceText) (after : Bytes) :
    Prefers place p.bytes after p.texts [] := by
  refine .captured_cons (p.latitude.aligned rfl) (p.latitude.prefers_cons rfl _) ?_
  refine .byte_cons (by decide) ?_
  refine prefers_letter_cons (by decide) (by decide) p.south ?_
  refine .byte_cons (by decide) ?_
  refine .captured_cons (p.longitude.aligned rfl) (p.longitude.prefers_cons rfl _) ?_
  refine .byte_cons (by decide) ?_
  exact prefers_letter_cons (by decide) (by decide) p.west (.nil after)

theorem PlaceText.ascii (place : PlaceText) : Ascii.All place.bytes := by
  have hlatitude : place.latitudeLetter < 0x80 := letter_lt (by decide) (by decide) place.south
  have hlongitude : place.longitudeLetter < 0x80 := letter_lt (by decide) (by decide) place.west
  simp [bytes, place.latitude.ascii rfl, place.longitude.ascii rfl, hlatitude, hlongitude,
    Ascii.comma]

theorem degreesAt_eq {captures : Captures} {index : Nat} {text : Bytes} {letter : UInt8}
    (htext : captures.bytesAt index = some text)
    (hletter : captures.bytesAt (index + 1) = some [letter])
    (h : Token.IsDecimal 3 text) : ∃ degrees, DenotesDegrees text degrees ∧
      degreesAt captures index =
        some (if Captures.isNegative (some [letter]) then -degrees else degrees) := by
  obtain ⟨degrees, hdenotes, hdegrees⟩ := degrees?_eq h
  refine ⟨degrees, hdenotes, ?_⟩
  simp only [degreesAt, Captures.coordinateAt, htext, hletter, hdegrees]
  rfl

end Sentence

end TrackerWire
