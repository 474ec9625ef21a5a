import Mathlib.Data.Nat.Digits.Defs
import TrackerWire.Calendar
import TrackerWire.Decimal.Fixed
import TrackerWire.Proofs.Text.Legible

/-!
# Text that shows

A text is visible if no character of it is a control character. Numbers, times and hexadecimal text
are, in columns or not, and so is whatever has been escaped; what is put together of visible texts
is visible. A text between the pieces of a line is closed by `decide`.
-/
namespace TrackerWire

namespace Text

/-- Is the character one of U+0000 to U+001F and U+007F to U+009F? -/
def isControl (c : Char) : Bool := c.toNat < 0x20 || (0x7F ≤ c.toNat && c.toNat ≤ 0x9F)

def AllShow (chars : List Char) : Prop := ∀ c ∈ chars, isControl c = false

-- by the list: an instance may be found that goes through all characters
instance (chars : List Char) : Decidable (AllShow chars) := List.decidableBAll _ chars

/-- No character of the text is a control character. -/
def Visible (s : String) : Prop := AllShow s.toList

instance (s : String) : Decidable (Visible s) := inferInstanceAs (Decidable (AllShow s.toList))

/-! ## Texts put together -/

theorem allShow_nil : AllShow [] := List.forall_mem_nil _

@[simp] theorem allShow_cons {c : Char} {chars : List Char} :
    AllShow (c :: chars) ↔ isControl c = false ∧ AllShow chars := List.forall_mem_cons

@[simp] theorem allShow_append {a b : List Char} : AllShow (a ++ b) ↔ AllShow a ∧ AllShow b :=
  List.forall_mem_append

theorem AllShow.sublist {a b : List Char} (h : AllShow b) (hsub : a.Sublist b) : AllShow a :=
  fun c hc => h c (hsub.subset hc)

theorem allShow_replicate {c : Char} (h : isControl c = false) (n : Nat) :
    AllShow (List.replicate n c) :=
  fun x hx => by rw [List.eq_of_mem_replicate hx, h]

theorem allShow_flatMap {α : Type} {items : List α} {f : α → List Char}
    (h : ∀ item ∈ items, AllShow (f item)) : AllShow (items.flatMap f) := by
  intro c hc
  obtain ⟨item, hitem, hc⟩ := List.mem_flatMap.mp hc
  exact h item hitem c hc

@[simp] theorem visible_ofList {chars : List Char} :
    Visible (String.ofList chars) ↔ AllShow chars := by rw [Visible, String.toList_ofList]

@[simp] theorem visible_append {s t : String} : Visible (s ++ t) ↔ Visible s ∧ Visible t := by
  rw [Visible, String.toList_append, allShow_append]
  rfl

theorem visible_join {α : Type} {items : List α} {f : α → String}
    (h : ∀ item ∈ items, Visible (f item)) : Visible (String.join (items.map f)) := by
  rw [Visible, String.toList_join, List.flatMap_map]
  exact allShow_flatMap h

theorem visible_intercalate {separator : String} (hseparator : Visible separator)
    {texts : List String} (h : ∀ s ∈ texts, Visible s) :
    Visible (separator.intercalate texts) := by
  induction texts with
  | nil => exact allShow_nil
  | cons s texts ih =>
    obtain ⟨hs, htexts⟩ := List.forall_mem_cons.mp h
    cases texts with
    | nil => rw [String.intercalate_singleton]; exact hs
    | cons t texts =>
      rw [String.intercalate_cons_cons]
      exact visible_append.mpr ⟨visible_append.mpr ⟨hs, hseparator⟩, ih htexts⟩

/-! ## Columns -/

theorem visible_copies {c : Char} (h : isControl c = false) (n : Nat) : Visible (copies n c) :=
  visible_ofList.mpr (allShow_replicate h n)

theorem visible_padLeft (width : Nat) {s : String} (h : Visible s) : Visible (padLeft width s) :=
  visible_append.mpr ⟨visible_copies rfl _, h⟩

theorem visible_padRight (width : Nat) {s : String} (h : Visible s) : Visible (padRight width s) :=
  visible_append.mpr ⟨h, visible_copies rfl _⟩

/-! ## Digits -/

theorem isControl_digitChar {n : Nat} (h : n < 16) : isControl (Nat.digitChar n) = false := by
  revert n
  decide

theorem allShow_toDigits {base : Nat} (hbase : 1 < base) (hmax : base ≤ 16) (n : Nat) :
    AllShow (Nat.toDigits base n) := by
  intro c hc
  obtain ⟨digit, hdigit, rfl⟩ := mem_toDigits hbase hc
  exact isControl_digitChar (by omega)

@[simp] theorem visible_nat (n : Nat) : Visible (toString n) := by
  rw [Nat.toString_eq_ofList_toDigits]
  exact visible_ofList.mpr (allShow_toDigits (by decide) (by decide) n)

@[simp] theorem visible_int (n : Int) : Visible (toString n) := by
  cases n with
  | ofNat n => exact visible_nat n
  | negSucc n => exact visible_append.mpr ⟨by decide, visible_nat (n + 1)⟩

@[simp] theorem visible_zeroPad (width n : Nat) : Visible (zeroPad width n) :=
  visible_append.mpr ⟨visible_copies rfl _, visible_nat n⟩

/-! ## Escapes -/

/-- **Whatever is escaped shows.** -/
theorem allShow_escapeChar (c : Char) : AllShow (escapeChar c) := by
  unfold escapeChar
  repeat' split
  all_goals try decide
  · exact allShow_append.mpr ⟨allShow_append.mpr
      ⟨by decide, allShow_toDigits (by decide) (by decide) c.toNat⟩, by decide⟩
  · rename_i hhidden
    refine allShow_cons.mpr ⟨?_, allShow_nil⟩
    simp only [isHidden, isControl, Bool.or_eq_true, Bool.or_eq_false_iff, Bool.and_eq_true,
      Bool.and_eq_false_iff, decide_eq_true_eq, decide_eq_false_iff_not, beq_iff_eq] at hhidden ⊢
    omega

theorem visible_escaped (s : String) : Visible (escaped s) := by
  refine visible_ofList.mpr (allShow_flatMap fun c _ => ?_)
  split
  · rename_i hquote
    simp only [isQuote, Bool.or_eq_true, decide_eq_true_eq] at hquote
    rcases hquote with rfl | rfl <;> decide
  · exact allShow_escapeChar c

theorem visible_quoted (c : Char) : Visible (quoted c) := by
  refine visible_ofList.mpr (allShow_append.mpr ⟨allShow_append.mpr ⟨by decide, ?_⟩, by decide⟩)
  split
  · decide
  · exact allShow_escapeChar c

end Text

open Text

/-! ## Hexadecimal text -/

namespace Hex

theorem allShow_byteDigits (b : UInt8) : AllShow (byteDigits b) := by
  have hb := b.toNat_lt
  exact allShow_cons.mpr ⟨isControl_digitChar (by omega),
    allShow_cons.mpr ⟨isControl_digitChar (by omega), allShow_nil⟩⟩

theorem visible_encode (bytes : Bytes) : Visible (encode bytes) :=
  visible_ofList.mpr (allShow_flatMap fun b _ => allShow_byteDigits b)

@[simp] theorem visible_word (w : UInt16) : Visible (word w) := visible_encode _

theorem visible_list (bytes : Bytes) : Visible (list bytes) := by
  refine visible_append.mpr ⟨visible_append.mpr ⟨by decide, ?_⟩, by decide⟩
  refine visible_intercalate (by decide) fun s hs => ?_
  obtain ⟨b, -, rfl⟩ := List.mem_map.mp hs
  exact visible_ofList.mpr (allShow_byteDigits b)

end Hex

/-! ## Times -/

namespace Calendar

theorem visible_yearText (year : Int) : Visible (yearText year) := by
  unfold yearText
  split
  · exact visible_zeroPad _ _
  · refine visible_append.mpr ⟨?_, visible_zeroPad _ _⟩
    split <;> decide

theorem visible_text (time : Time) : Visible (text time) := by
  have hhyphen : Visible "-" := by decide
  have hblank : Visible " " := by decide
  have hcolon : Visible ":" := by decide
  simp only [text, visible_append, visible_yearText, visible_zeroPad, hhyphen, hblank, hcolon,
    and_self]

end Calendar

/-! ## Doubles -/

namespace Decimal

theorem visible_withSign (negative : Bool) {s : String} (h : Visible s) :
    Visible (withSign negative s) := by
  unfold withSign
  split
  · exact visible_append.mpr ⟨by decide, h⟩
  · exact h

theorem visible_positional (d : Scaled) : Visible (positional d) := by
  have hdigits : AllShow (Nat.toDigits 10 d.digits) :=
    allShow_toDigits (by decide) (by decide) d.digits
  have hpadded (n : Nat) : AllShow (List.replicate n '0' ++ Nat.toDigits 10 d.digits) :=
    allShow_append.mpr ⟨allShow_replicate rfl n, hdigits⟩
  unfold positional
  dsimp only
  split
  · exact visible_ofList.mpr (allShow_append.mpr ⟨hdigits, allShow_replicate rfl _⟩)
  · exact visible_ofList.mpr (allShow_append.mpr
      ⟨(hpadded _).sublist (List.take_sublist _ _),
        allShow_cons.mpr ⟨rfl, (hpadded _).sublist (List.drop_sublist _ _)⟩⟩)

theorem visible_text (x : Float) : Visible (text x) := by
  unfold text
  split
  · decide
  · exact visible_withSign _ (by decide)
  · refine visible_withSign _ ?_
    split
    · decide
    · exact visible_positional _

theorem visible_fixed (places : Nat) (x : Float) : Visible (fixed places x) := by
  unfold fixed
  split
  · decide
  · exact visible_withSign _ (by decide)
  · exact visible_withSign _ (visible_append.mpr
      ⟨visible_append.mpr ⟨visible_nat _, by decide⟩, visible_zeroPad _ _⟩)

end Decimal

end TrackerWire
