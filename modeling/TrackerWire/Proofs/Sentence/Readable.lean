import TrackerWire.Proofs.Grammar.Captured
import TrackerWire.Proofs.Sentence.Acceptance
import TrackerWire.Proofs.Sentence.Regular

/-!
# Captures are readable

The decoders read a capture as a number, as a coordinate or as text, and take a failed read for an
absent capture. None fails: the texts of a token are few enough digits of the base, or of the form
that is cut into degrees and minutes, or ASCII (`Token.Suits`), and what has been captured is such
a text.

* `gives_regular`, `gives_rfid`: every capture that took part is read as the decoders read it.
-/
namespace TrackerWire

open Slot

inductive ReadAs where
  /-- A whole number below two to 32. -/
  | word
  /-- A double. -/
  | double
  /-- Signed decimal degrees. -/
  | coordinate
  /-- A hexadecimal number below two to 32. -/
  | hexWord
  /-- A hexadecimal number below two to 64. -/
  | hexLong
  /-- The text itself. -/
  | text
  deriving DecidableEq, Repr

/-- The capture of this number is read. -/
def Captures.Gives (captures : Captures) (index : Nat) : ReadAs → Prop
  | .word => ∃ n, captures.wordAt index = some n
  | .double => ∃ x, captures.floatAt index = some x
  | .coordinate => ∃ degrees, captures.coordinateAt index = .ok (some degrees)
  | .hexWord => ∃ n, captures.hexWordAt index = some n
  | .hexLong => ∃ n, captures.hexLongAt index = some n
  | .text => ∃ s, captures.textAt index = some s

namespace Token

/-- Every text of the token is read in this way. -/
inductive Suits : Token → ReadAs → Prop
  | word {min max : Nat} (hmin : 0 < min) (hmax : 10 ^ max ≤ Whole.limit32) :
    Suits (digits min (some max)) .word
  | hexWord {min max : Nat} (hmin : 0 < min) (hmax : 16 ^ max ≤ Whole.limit32) :
    Suits (hex min (some max)) .hexWord
  | hexLong {min max : Nat} (hmin : 0 < min) (hmax : 16 ^ max ≤ Whole.limit64) :
    Suits (hex min (some max)) .hexLong
  | hexText {min : Nat} {max : Option Nat} (hmin : 0 < min) : Suits (hex min max) .text
  | letter {set : Bytes} (hascii : ∀ b ∈ set, b < 0x80) : Suits (oneOf set) .text
  | decimal : Suits decimal .double
  | number : Suits number .double
  | signedNumber : Suits signedNumber .double
  | coordinate : Suits coordinate .coordinate

theorem plain_numeric {token : Token} (hnumeric : token.isNumeric = true)
    (hsolid : ¬ token.Accepts []) : token.Plain :=
  ⟨Sentence.numeric_ascii hnumeric, hsolid⟩

theorem plain_hex {min : Nat} {max : Option Nat} (h : 0 < min) : (hex min max).Plain :=
  plain_numeric rfl fun haccepts => absurd haccepts.2.1 (Nat.not_le.mpr h)

theorem Suits.plain {token : Token} {how : ReadAs} (h : token.Suits how) : token.Plain := by
  cases h with
  | word hmin hmax =>
    exact plain_numeric rfl fun haccepts => absurd haccepts.2.1 (Nat.not_le.mpr hmin)
  | hexWord hmin hmax => exact plain_hex hmin
  | hexLong hmin hmax => exact plain_hex hmin
  | hexText hmin => exact plain_hex hmin
  | letter hascii =>
    exact ⟨fun b hb => decide_eq_true (hascii b (List.contains_iff_mem.mp hb)),
      fun ⟨_, hnil, _⟩ => nomatch hnil⟩
  | decimal => exact plain_numeric rfl (by decide)
  | number => exact plain_numeric rfl (by decide)
  | signedNumber => exact plain_numeric rfl (by decide)
  | coordinate => exact plain_numeric rfl (by decide)

theorem Suits.gives {token : Token} {how : ReadAs} (h : token.Suits how) {captures : Captures}
    {index : Nat} {piece : Bytes} (hpiece : captures.bytesAt index = some piece)
    (haccepts : token.Accepts piece) : captures.Gives index how := by
  have htext : token.Plain → ∃ s, captures.textAt index = some s := fun hplain => by
    have hascii : Ascii.All piece := fun b hb =>
      of_decide_eq_true (hplain.ascii b (allOf_alphabet haccepts b hb))
    exact ⟨Ascii.text piece, by rw [Captures.textAt, hpiece]; exact Utf8.fromUTF8?_ascii hascii⟩
  have hdouble : IsSigned IsNumber piece → ∃ x, captures.floatAt index = some x := fun hsigned => by
    obtain ⟨x, hx⟩ := Decimal.exists_read hsigned
    exact ⟨x, by rw [Captures.floatAt, hpiece]; exact hx⟩
  cases h with
  | @word min max hmin hmax =>
    obtain ⟨hdigits, hleast, hmost⟩ := haccepts
    have hinteger : IsInteger piece :=
      ⟨hdigits, List.ne_nil_of_length_pos (Nat.lt_of_lt_of_le hmin hleast)⟩
    have hfits : Whole.decimalNumber piece < Whole.limit32 :=
      Nat.lt_of_lt_of_le (Whole.decimalNumber_lt piece)
        (Nat.le_trans (Nat.pow_le_pow_right (by decide) (hmost max rfl)) hmax)
    refine ⟨Whole.decimalNumber piece, ?_⟩
    rw [Captures.wordAt, hpiece, Option.bind_some, Whole.decimalBelow?_eq hinteger, if_pos hfits]
  | hexWord hmin hmax =>
    have hread := Sentence.hexBelow?_accepts haccepts hmin hmax
    exact ⟨_, by rw [Captures.hexWordAt, hpiece]; exact hread⟩
  | hexLong hmin hmax =>
    have hread := Sentence.hexBelow?_accepts haccepts hmin hmax
    exact ⟨_, by rw [Captures.hexLongAt, hpiece]; exact hread⟩
  | hexText hmin => exact htext (plain_hex hmin)
  | letter hascii => exact htext (Suits.letter hascii).plain
  | decimal => exact hdouble (.inl (Decimal.isNumber_of_isDecimal Nat.one_pos haccepts))
  | number => exact hdouble (.inl haccepts)
  | signedNumber => exact hdouble haccepts
  | coordinate =>
    obtain ⟨degrees, -, hdegrees⟩ := degrees?_eq haccepts
    refine ⟨if Captures.isNegative (captures.bytesAt (index + 1)) then -degrees else degrees, ?_⟩
    rw [Captures.coordinateAt, hpiece]
    simp only [hdegrees]
    rfl

end Token

/-! ## The two grammars -/

namespace Sentence

/-- How the decoder reads the field. -/
def RegularField.reads : RegularField → ReadAs
  | hour | minute | second | day | month | year => .word
  | validity | northSouth | eastWest | status | uniqueId => .text
  | latitude | longitude => .coordinate
  | speed | course | hdop | altitude => .double
  | analog _ | rssi | satellites => .hexWord
  | shortOdometer | longOdometer => .hexLong

theorem RegularField.suits (field : RegularField) : field.token.Suits field.reads := by
  cases field with
  | hour | minute | second | day | month | year => exact .word (by decide) (by decide)
  | validity | northSouth | eastWest => exact .letter (by simp)
  | latitude | longitude => exact .coordinate
  | speed | course => exact .number
  | hdop => exact .decimal
  | altitude => exact .signedNumber
  | status | uniqueId => exact .hexText (by decide)
  | analog channel => exact .hexWord (by decide) (by decide)
  | rssi | satellites => exact .hexWord (by decide) (by decide)
  | shortOdometer | longOdometer => exact .hexLong (by decide) (by decide)

theorem tokens_regular (field : RegularField) :
    (blockTokens (fixSlots ++ tailSlots))[field.index]? = some field.token := by
  cases field with
  | analog channel =>
    revert channel
    decide
  | _ => rfl

/-- How the decoder reads the captures of a card swipe: time, date and place. -/
def rfidReads : List ReadAs :=
  [.word, .word, .word, .word, .word, .word, .coordinate, .text, .coordinate, .text]

def swipeSlots : List Slot := [bar] ++ pairs ++ [comma] ++ pairs ++ [comma] ++ place

theorem rfid_eq : rfid = Grammar.build "rfid" swipeSlots := rfl

theorem suits_rfid : List.Forall₂ Token.Suits (blockTokens swipeSlots) rfidReads := by
  have hpair : (digits 2).Suits .word := .word (by decide) (by decide)
  have hnorthSouth : northSouth.Suits .text := .letter (by simp)
  have heastWest : eastWest.Suits .text := .letter (by simp)
  exact .cons hpair (.cons hpair (.cons hpair (.cons hpair (.cons hpair (.cons hpair
    (.cons .coordinate (.cons hnorthSouth (.cons .coordinate (.cons heastWest .nil)))))))))

section
variable {s : String} {captures : Captures}

/-- **Every capture of a regular sentence is read** if it took part in the match. -/
theorem gives_regular (h : regular.parse s = some captures) (field : RegularField)
    (hpresent : captures.isPresent field.index = true) :
    captures.Gives field.index field.reads := by
  obtain ⟨piece, hpiece, haccepts⟩ :=
    bytesAt_present (regular_eq ▸ h) (tokens_regular field) field.suits.plain hpresent
  exact field.suits.gives hpiece haccepts

/-- **Every capture of a card swipe is read.** -/
theorem gives_rfid (h : rfid.parse s = some captures) {index : Nat} {how : ReadAs}
    (hhow : rfidReads[index]? = some how) (hpresent : captures.isPresent index = true) :
    captures.Gives index how := by
  obtain ⟨hindex, rfl⟩ := List.getElem?_eq_some_iff.mp hhow
  have hindex' : index < (blockTokens swipeSlots).length := suits_rfid.length_eq ▸ hindex
  have hsuits := suits_rfid.get hindex' hindex
  obtain ⟨piece, hpiece, haccepts⟩ := bytesAt_present (rfid_eq ▸ h)
    (List.getElem?_eq_getElem hindex') hsuits.plain hpresent
  exact hsuits.gives hpiece haccepts

end

end Sentence

end TrackerWire
