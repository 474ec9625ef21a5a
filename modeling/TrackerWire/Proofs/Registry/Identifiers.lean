import TrackerWire.Identity
import TrackerWire.Proofs.Registry.Numbering
import TrackerWire.Proofs.Text.Legible

/-!
# Identifiers of decimal digits

The half bytes before the first filler are all that a packed identifier says of its device
(`RawId.significant`). When they are decimal digits, the identifier's text has one character for
each of them, so two texts are equal just when the half bytes are (`text_eq_iff`). A text has
fourteen characters at most and a text with its check digit has more (`lt_length_checked`): where
only texts are known, no check digit makes one device pass for another (`resolve_unchecked`).
-/
namespace TrackerWire

def digitsText (digits : List Nat) : String := String.ofList (digits.map Nat.digitChar)

theorem flatMap_toDigits {digits : List Nat} (h : ∀ digit ∈ digits, digit < 10) :
    digits.flatMap (Nat.toDigits 10) = digits.map Nat.digitChar := by
  induction digits with
  | nil => rfl
  | cons digit digits ih =>
    obtain ⟨hdigit, hdigits⟩ := List.forall_mem_cons.mp h
    rw [List.flatMap_cons, List.map_cons, ih hdigits, Nat.toDigits_of_lt_base hdigit]
    rfl

theorem digitsText_inj {a b : List Nat} (ha : ∀ digit ∈ a, digit < 10)
    (hb : ∀ digit ∈ b, digit < 10) (h : digitsText a = digitsText b) : a = b := by
  have hchars : a.map Nat.digitChar = b.map Nat.digitChar := String.ofList_inj.mp h
  clear h
  induction a generalizing b with
  | nil => exact (List.map_eq_nil_iff.mp hchars.symm).symm
  | cons x a ih =>
    cases b with
    | nil => cases hchars
    | cons y b =>
      obtain ⟨hx, ha⟩ := List.forall_mem_cons.mp ha
      obtain ⟨hy, hb⟩ := List.forall_mem_cons.mp hb
      obtain ⟨hfirst, hrest⟩ := List.cons.inj hchars
      rw [Text.digitChar_injective x (by omega) y (by omega) hfirst, ih ha hb hrest]

namespace RawId

/-- The half bytes before the first filler. -/
def significant (id : RawId) : List Nat := id.nibbles.takeWhile (· ≠ Identity.filler)

theorem significant_of_filler {id : RawId} (h : id.nibbles.head? = some Identity.filler) :
    id.significant = [] := by
  obtain ⟨nibbles, hnibbles⟩ := List.head?_eq_some_iff.mp h
  rw [significant, hnibbles]
  rfl

/-- What stands before the first filler is decimal digits. -/
def IsDecimal (id : RawId) : Prop := ∀ digit ∈ id.significant, digit < 10

instance (id : RawId) : Decidable id.IsDecimal := List.decidableBAll _ _

/-- The text a device is looked up by. -/
def text (id : RawId) : String := (Identity.ofRaw id).digits

variable {id : RawId}

theorem text_decimal (h : id.IsDecimal) : id.text = digitsText id.significant :=
  congrArg String.ofList (flatMap_toDigits h)

/-- **Two decimal identifiers have one text** just when they agree before the filler. -/
theorem text_eq_iff {other : RawId} (h : id.IsDecimal) (h' : other.IsDecimal) :
    id.text = other.text ↔ id.significant = other.significant := by
  rw [text_decimal h, text_decimal h']
  exact ⟨digitsText_inj h h', congrArg digitsText⟩

theorem length_nibbles (id : RawId) : id.nibbles.length = Identity.uncheckedLength := by
  simp only [nibbles, List.length_flatMap, List.length_cons, List.length_nil, List.map_const',
    List.sum_replicate_nat, id.length_eq]
  rfl

theorem length_text (h : id.IsDecimal) : id.text.length ≤ Identity.uncheckedLength := by
  rw [text_decimal h, digitsText, String.length_ofList, List.length_map, ← length_nibbles id]
  exact (List.takeWhile_sublist _).length_le

theorem isEmpty_iff (id : RawId) : (Identity.ofRaw id).isEmpty = true ↔ id.significant = [] := by
  have hdigits : ∀ digits : List Nat, digits.flatMap (Nat.toDigits 10) = [] ↔ digits = [] := by
    intro digits
    cases digits with
    | nil => exact iff_of_true rfl rfl
    | cons digit digits =>
      exact iff_of_false (by simp [Nat.toDigits_ne_nil]) (List.cons_ne_nil _ _)
  rw [Identity.isEmpty, String.isEmpty_iff]
  exact String.ofList_eq_empty_iff.trans (hdigits id.significant)

end RawId

theorem Identity.lt_length_checked {identity : Identity} {checked : String}
    (h : identity.withCheckDigit? = some checked) : uncheckedLength < checked.length := by
  unfold withCheckDigit? at h
  split at h
  · rename_i hlength
    cases h
    have hdigit : 0 < (toString (Luhn.checkDigit (value identity.digits.toList))).length :=
      Nat.length_repr_pos
    rw [String.length_append, hlength]
    exact Nat.lt_add_of_pos_right hdigit
  · cases h

namespace Registry

/-- **An identifier resolves to its own number**, and is registered if it has none, in a registry
that accepts unknown devices and knows no identifier with a check digit. -/
theorem resolve_unchecked {registry : Registry} {id : RawId}
    (haccepts : registry.acceptsUnknown = true)
    (hunchecked : ∀ identifier number, registry.number? identifier = some number →
      identifier.length ≤ Identity.uncheckedLength)
    (hsome : id.significant ≠ []) :
    (registry.resolve (Identity.ofRaw id).candidates).value =
      (some (registry.register id.text).1, (registry.register id.text).2) := by
  have hempty : (Identity.ofRaw id).isEmpty = false :=
    Bool.eq_false_iff.mpr fun h => hsome ((RawId.isEmpty_iff id).mp h)
  have hcandidates : (Identity.ofRaw id).candidates =
      id.text :: (Identity.ofRaw id).withCheckDigit?.toList := by
    rw [Identity.candidates, hempty]
    rfl
  rw [hcandidates]
  cases hknown : registry.number? id.text with
  | some number =>
    have hget : registry.ids.get? id.text = some number := hknown
    have hfound : registry.lookup (id.text :: (Identity.ofRaw id).withCheckDigit?.toList) =
        some number := by
      rw [lookup, List.findSome?_cons, hget]
    rw [register_known hknown, resolve, hfound]
  | none =>
    have hchecked : ∀ checked ∈ (Identity.ofRaw id).withCheckDigit?.toList,
        registry.number? checked = none := by
      intro checked hmem
      have hlong := Identity.lt_length_checked (Option.mem_toList.mp hmem)
      cases hnumber : registry.number? checked with
      | none => rfl
      | some number => exact absurd (hunchecked checked number hnumber) (Nat.not_le_of_lt hlong)
    have hmissed : registry.lookup (id.text :: (Identity.ofRaw id).withCheckDigit?.toList) =
        none := List.findSome?_eq_none_iff.mpr (List.forall_mem_cons.mpr ⟨hknown, hchecked⟩)
    rw [resolve, hmissed]
    simp only [enrol, haccepts]

end Registry

end TrackerWire
