import Mathlib.Data.List.Induction
import TrackerWire.Registry

/-!
# The numbers of devices

A registry gives its numbers out from one on, in the order in which identifiers are first
registered. `Registry.Numbered registry identifiers` says that it has been registered with these
identifiers, one after the other: it knows them and no others, and the number of each is its place
among their first occurrences. Registering keeps this up (`Numbered.register`), known identifier or
not, so a registry never knows two identifiers under one number and never leaves a number out.
-/
namespace TrackerWire

/-! ## First occurrences -/

section FirstOccurrences

variable {α : Type} [BEq α] [LawfulBEq α]

/-- One more entry is a first occurrence if it has not occurred. -/
theorem eraseDups_concat (entries : List α) (entry : α) : (entries ++ [entry]).eraseDups =
    if entry ∈ entries then entries.eraseDups else entries.eraseDups ++ [entry] := by
  rw [List.eraseDups_append]
  by_cases h : entry ∈ entries
  · have hnone : [entry].removeAll entries = [] := by simp [List.removeAll, h]
    rw [if_pos h, hnone, List.eraseDups_nil, List.append_nil]
  · have hone : [entry].removeAll entries = [entry] := by simp [List.removeAll, h]
    rw [if_neg h, hone]
    rfl

/-- First occurrences are told apart as well by what a map makes of them, if the map keeps different
entries apart. -/
theorem eraseDups_map {β : Type} [BEq β] [LawfulBEq β] {f : α → β} {entries : List α}
    (hf : ∀ a ∈ entries, ∀ b ∈ entries, f a = f b → a = b) :
    (entries.map f).eraseDups = entries.eraseDups.map f := by
  induction entries using List.reverseRecOn with
  | nil => rfl
  | append_singleton entries entry ih =>
    have hentry : entry ∈ entries ++ [entry] := List.mem_append_right _ (List.mem_singleton.mpr rfl)
    have hmem : f entry ∈ entries.map f ↔ entry ∈ entries := by
      refine ⟨fun h => ?_, List.mem_map_of_mem⟩
      obtain ⟨a, ha, hfa⟩ := List.mem_map.mp h
      rwa [← hf a (List.mem_append_left _ ha) entry hentry hfa]
    have ih := ih fun a ha b hb =>
      hf a (List.mem_append_left _ ha) b (List.mem_append_left _ hb)
    rw [List.map_append, List.map_cons, List.map_nil, eraseDups_concat, eraseDups_concat, ih]
    by_cases h : entry ∈ entries
    · rw [if_pos h, if_pos (hmem.mpr h)]
    · rw [if_neg h, if_neg (mt hmem.mp h), List.map_append, List.map_cons, List.map_nil]

end FirstOccurrences

namespace Registry

variable {registry : Registry} {identifiers : List String}

/-- The number of an identifier that has been registered. -/
def number? (registry : Registry) (identifier : String) : Option DeviceId :=
  registry.ids.get? identifier

/-! ## Registering -/

theorem register_known {identifier : String} {number : DeviceId}
    (h : registry.number? identifier = some number) :
    registry.register identifier = (number, registry) := by
  unfold number? at h
  simp only [register, h]

theorem register_unknown {identifier : String} (h : registry.number? identifier = none) :
    registry.register identifier = (registry.issued + 1,
      { registry with
        ids := registry.ids.put identifier (registry.issued + 1)
        issued := registry.issued + 1 }) := by
  unfold number? at h
  simp only [register, h]

theorem register_acceptsUnknown (registry : Registry) (identifier : String) :
    (registry.register identifier).2.acceptsUnknown = registry.acceptsUnknown := by
  unfold register
  split <;> rfl

theorem number?_register (registry : Registry) (identifier : String) :
    (registry.register identifier).2.number? identifier =
      some (registry.register identifier).1 := by
  cases h : registry.number? identifier with
  | some number => rw [register_known h, h]
  | none => rw [register_unknown h, number?, Table.get?_put, if_pos rfl]

theorem register_keeps (registry : Registry) (identifier : String) {other : String}
    {number : DeviceId} (h : registry.number? other = some number) :
    (registry.register identifier).2.number? other = some number := by
  cases hknown : registry.number? identifier with
  | some _ => rw [register_known hknown, h]
  | none =>
    have hother : identifier ≠ other := by
      rintro rfl
      rw [hknown] at h
      cases h
    rw [register_unknown hknown, number?, Table.get?_put, if_neg hother]
    exact h

/-! ## Numbered registries -/

/-- The registry has been registered with these identifiers and knows no others. The number of each
is its place among their first occurrences, from one on. -/
structure Numbered (registry : Registry) (identifiers : List String) : Prop where
  issued : registry.issued = identifiers.eraseDups.length
  number?_iff : ∀ identifier number, registry.number? identifier = some number ↔
    ∃ index, identifiers.eraseDups[index]? = some identifier ∧ number = index + 1

theorem numbered_new (acceptsUnknown : Bool) : Numbered { acceptsUnknown } [] where
  issued := rfl
  number?_iff := fun identifier number => by
    simp [number?]

namespace Numbered

/-- Only the identifiers known and the last number given out count. -/
theorem congr (h : registry.Numbered identifiers) {other : Registry}
    (hids : other.ids = registry.ids) (hissued : other.issued = registry.issued) :
    other.Numbered identifiers where
  issued := hissued.trans h.issued
  number?_iff := by
    unfold number?
    rw [hids]
    exact h.number?_iff

theorem known_iff (h : registry.Numbered identifiers) (identifier : String) :
    (∃ number, registry.number? identifier = some number) ↔ identifier ∈ identifiers := by
  rw [← List.mem_eraseDups, List.mem_iff_getElem?]
  refine ⟨?_, ?_⟩
  · intro ⟨number, hnumber⟩
    obtain ⟨index, hindex, -⟩ := (h.number?_iff _ _).mp hnumber
    exact ⟨index, hindex⟩
  · intro ⟨index, hindex⟩
    exact ⟨index + 1, (h.number?_iff _ _).mpr ⟨index, hindex, rfl⟩⟩

theorem number?_eq_none (h : registry.Numbered identifiers) {identifier : String} :
    registry.number? identifier = none ↔ identifier ∉ identifiers := by
  rw [← h.known_iff, Option.eq_none_iff_forall_ne_some, not_exists]

/-- **Registering keeps the numbers in order**, whether the identifier is known already or not. -/
theorem register (h : registry.Numbered identifiers) (identifier : String) :
    (registry.register identifier).2.Numbered (identifiers ++ [identifier]) := by
  by_cases hmem : identifier ∈ identifiers
  · obtain ⟨number, hnumber⟩ := (h.known_iff identifier).mpr hmem
    rw [register_known hnumber]
    exact ⟨by rw [eraseDups_concat, if_pos hmem, h.issued],
      by rw [eraseDups_concat, if_pos hmem]; exact h.number?_iff⟩
  · rw [register_unknown (h.number?_eq_none.mpr hmem)]
    have hlast : (identifiers ++ [identifier]).eraseDups =
        identifiers.eraseDups ++ [identifier] := by
      rw [eraseDups_concat, if_neg hmem]
    refine ⟨by rw [hlast, List.length_append, ← h.issued]; rfl, fun other number => ?_⟩
    rw [hlast, number?, Table.get?_put]
    by_cases hother : identifier = other
    · subst hother
      rw [if_pos rfl]
      -- the new identifier stands behind all others
      have hplace : ∀ index, (identifiers.eraseDups ++ [identifier])[index]? = some identifier ↔
          index = registry.issued := by
        intro index
        rw [h.issued]
        have hnew : ∀ i : Nat, identifiers.eraseDups[i]? ≠ some identifier := fun i hi =>
          hmem (List.mem_eraseDups.mp (List.mem_of_getElem? hi))
        rcases Nat.lt_trichotomy index identifiers.eraseDups.length with hlt | heq | hgt
        · rw [List.getElem?_append_left hlt]
          exact iff_of_false (hnew index) (Nat.ne_of_lt hlt)
        · subst heq
          simp
        · rw [List.getElem?_eq_none (by simp; omega)]
          exact iff_of_false (by simp) (Nat.ne_of_gt hgt)
      simp only [hplace, exists_eq_left, Option.some.injEq]
      exact eq_comm
    · rw [if_neg hother]
      refine (h.number?_iff other number).trans
        (exists_congr fun index => and_congr_left fun _ => ?_)
      rcases Nat.lt_or_ge index identifiers.eraseDups.length with hlt | hge
      · rw [List.getElem?_append_left hlt]
      · rw [List.getElem?_append_right hge, List.getElem?_eq_none hge]
        refine iff_of_false (by simp) fun hlast => hother ?_
        exact (List.mem_singleton.mp (List.mem_of_getElem? hlast)).symm

theorem extend (h : registry.Numbered identifiers) {later : Registry} {others : List String}
    (hlater : later.Numbered (identifiers ++ others)) {identifier : String} {number : DeviceId}
    (hknown : registry.number? identifier = some number) :
    later.number? identifier = some number := by
  obtain ⟨index, hindex, hnumber⟩ := (h.number?_iff _ _).mp hknown
  refine (hlater.number?_iff _ _).mpr ⟨index, ?_, hnumber⟩
  rw [List.eraseDups_append, List.getElem?_append_left (List.getElem?_eq_some_iff.mp hindex).1]
  exact hindex

theorem injective (h : registry.Numbered identifiers) {a b : String} {number : DeviceId}
    (ha : registry.number? a = some number) (hb : registry.number? b = some number) : a = b := by
  obtain ⟨i, hi, rfl⟩ := (h.number?_iff _ _).mp ha
  obtain ⟨j, hj, hij⟩ := (h.number?_iff _ _).mp hb
  obtain rfl : i = j := Nat.succ.inj hij
  exact Option.some.inj (hi.symm.trans hj)

/-- The numbers in use are those from one to the last that was given out. -/
theorem number_iff (h : registry.Numbered identifiers) (number : Nat) :
    (∃ identifier, registry.number? identifier = some number) ↔
      1 ≤ number ∧ number ≤ registry.issued := by
  rw [h.issued]
  refine ⟨?_, ?_⟩
  · intro ⟨identifier, hnumber⟩
    obtain ⟨index, hindex, rfl⟩ := (h.number?_iff _ _).mp hnumber
    exact ⟨Nat.succ_pos index, (List.getElem?_eq_some_iff.mp hindex).1⟩
  · intro ⟨hone, hlast⟩
    have hlt : number - 1 < identifiers.eraseDups.length := by omega
    exact ⟨identifiers.eraseDups[number - 1], (h.number?_iff _ _).mpr
      ⟨number - 1, List.getElem?_eq_getElem hlt, (Nat.sub_add_cancel hone).symm⟩⟩

end Numbered

end Registry

end TrackerWire
