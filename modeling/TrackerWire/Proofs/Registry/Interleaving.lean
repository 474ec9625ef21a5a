import Mathlib.Logic.Function.Basic
import TrackerWire.Proofs.Registry.Isolation
import TrackerWire.Proofs.Registry.Numbering

/-!
# A registry shared between callers

Any number of callers use one registry at the same time. What a caller does in one step is done
without another caller in between: to register an identifier, to look candidates up, to record a
report, to read a last fix. A lookup that finds nothing has not returned yet. What it leads to, the
registration of its first candidate where unknown devices are accepted, is a step of its own, and
other callers may step in before it, perhaps with the same identifier.

`Shared.Step` has one rule for each kind of step, and `Shared.Run` is any order of them.

* `Step.effect`: a step registers one identifier, or leaves the table of identifiers as it is.
* `Run.numbered`: so over a run the identifiers are numbered as they are first registered.
* `table_one_to_one`: whatever the order, the identifiers known are one to one with the numbers
  given out, no number ever changes, and every caller is told the number that holds.
* `run_resolve`: a lookup that nobody steps into is `Registry.resolve`.
-/
namespace TrackerWire

namespace Registry

/-- What a caller has done in one step, with what it was told. -/
inductive Access where
  | registered (identifier : String) (number : DeviceId)
  /-- A lookup has found a candidate. -/
  | found (candidates : List String) (number : DeviceId)
  /-- A lookup has found nothing; it goes on. -/
  | missed (candidates : List String)
  /-- A lookup that had found nothing has returned. -/
  | enrolled (candidates : List String) (answer : Option DeviceId)
  | recorded (report : Report)
  | read (device : DeviceId) (fix : Option Fix)

namespace Access

/-- The identifier that a step has registered, under the number it was told. -/
def registration? : Access → Option (String × DeviceId)
  | registered identifier number => some (identifier, number)
  | enrolled (identifier :: _) (some number) => some (identifier, number)
  | _ => none

end Access

section

variable {Caller : Type}

/-- What has been registered over a run, each with the number that was told. -/
def registrations (accesses : List (Caller × Access)) : List (String × DeviceId) :=
  accesses.filterMap fun access => access.2.registration?

theorem registrations_snoc (accesses : List (Caller × Access)) (access : Caller × Access) :
    registrations (accesses ++ [access]) =
      registrations accesses ++ access.2.registration?.toList := by
  simp only [registrations, List.filterMap_append, List.filterMap_cons, List.filterMap_nil]
  cases access.2.registration? <;> rfl

/-- The identifiers registered over a run, in the order in which each comes first. -/
def firstRegistered (accesses : List (Caller × Access)) : List String :=
  ((registrations accesses).map Prod.fst).eraseDups

end

/-- A registry and its callers. -/
structure Shared (Caller : Type) where
  registry : Registry
  /-- The candidates that a caller has looked up without a hit, until the lookup returns. -/
  waiting : Caller → Option (List String)

namespace Shared

variable {Caller : Type}

/-- A new registry, and nobody is in the middle of a lookup. -/
def new (acceptsUnknown : Bool) : Shared Caller :=
  { registry := { acceptsUnknown }, waiting := fun _ => none }

variable [DecidableEq Caller]

/-- One step of a caller. -/
inductive Step : Shared Caller → Caller × Access → Shared Caller → Prop
  | register {s caller} (identifier : String) (idle : s.waiting caller = none) :
    Step s (caller, .registered identifier (s.registry.register identifier).1)
      { s with registry := (s.registry.register identifier).2 }
  | found {s caller candidates number} (idle : s.waiting caller = none)
    (h : s.registry.lookup candidates = some number) :
    Step s (caller, .found candidates number) s
  | missed {s caller candidates} (idle : s.waiting caller = none)
    (h : s.registry.lookup candidates = none) :
    Step s (caller, .missed candidates)
      { s with waiting := Function.update s.waiting caller (some candidates) }
  | enrol {s caller candidates} (h : s.waiting caller = some candidates) :
    Step s (caller, .enrolled candidates (s.registry.enrol candidates).value.1)
      { registry := (s.registry.enrol candidates).value.2
        waiting := Function.update s.waiting caller none }
  | record {s caller} (report : Report) (idle : s.waiting caller = none) :
    Step s (caller, .recorded report) { s with registry := s.registry.record report }
  | lastFix {s caller} (device : DeviceId) (idle : s.waiting caller = none) :
    Step s (caller, .read device (s.registry.lastFix device)) s

/-- Steps of any callers, in any order. -/
inductive Run (start : Shared Caller) : List (Caller × Access) → Shared Caller → Prop
  | nil : Run start [] start
  | snoc {accesses s access s'} (h : Run start accesses s) (hstep : Step s access s') :
    Run start (accesses ++ [access]) s'

/-! ## One step -/

/-- What follows a lookup without a hit registers the first candidate, or nothing. -/
theorem enrol_cases (registry : Registry) (candidates : List String) :
    (∃ identifier others, candidates = identifier :: others ∧
      (registry.enrol candidates).value =
        (some (registry.register identifier).1, (registry.register identifier).2)) ∨
    (registry.enrol candidates).value = (none, registry) := by
  cases candidates with
  | nil =>
    unfold enrol
    split
    · rename_i h
      cases h
    · exact .inr rfl
  | cons identifier others =>
    cases h : registry.acceptsUnknown with
    | true => exact .inl ⟨identifier, others, rfl, by simp only [enrol, h]⟩
    | false => exact .inr (by simp only [enrol, h])

variable {s s' start : Shared Caller} {access : Caller × Access}
  {accesses : List (Caller × Access)}

/-- **One step** registers an identifier and is told its number, or it registers nothing and leaves
the identifiers as they are. -/
theorem Step.effect (h : Step s access s') :
    (∃ identifier,
      access.2.registration? = some (identifier, (s.registry.register identifier).1) ∧
      s'.registry = (s.registry.register identifier).2) ∨
    access.2.registration? = none ∧ s'.registry.ids = s.registry.ids ∧
      s'.registry.issued = s.registry.issued := by
  cases h with
  | register identifier _ => exact .inl ⟨identifier, rfl, rfl⟩
  | @enrol _ candidates _ =>
    rcases enrol_cases s.registry candidates with ⟨identifier, others, rfl, h⟩ | h
    · exact .inl ⟨identifier, by rw [h]; rfl, by rw [h]⟩
    · refine .inr ⟨?_, by rw [h], by rw [h]⟩
      rw [h]
      cases candidates <;> rfl
  | record report _ =>
    obtain ⟨fixes, h⟩ := record_eq s.registry report
    exact .inr ⟨rfl, by rw [h], by rw [h]⟩
  | found _ _ | missed _ _ | lastFix _ _ => exact .inr ⟨rfl, rfl, rfl⟩

/-- A lookup without a hit returns what its registration leads to. -/
theorem Step.enrolled_eq {caller : Caller} {candidates : List String} {answer : Option DeviceId}
    (h : Step s (caller, .enrolled candidates answer) s') :
    (answer, s'.registry) = (s.registry.enrol candidates).value := by
  cases h with
  | enrol _ => rfl

theorem Step.keeps (h : Step s access s') {identifier : String} {number : DeviceId}
    (hknown : s.registry.number? identifier = some number) :
    s'.registry.number? identifier = some number := by
  rcases h.effect with ⟨other, -, hregistry⟩ | ⟨-, hids, -⟩
  · rw [hregistry]
    exact register_keeps s.registry other hknown
  · rw [number?, hids]
    exact hknown

/-! ## Runs -/

/-- **A run** registers identifiers one after the other, whoever does. -/
theorem Run.numbered {identifiers : List String} (hstart : start.registry.Numbered identifiers)
    (h : Run start accesses s) :
    s.registry.Numbered (identifiers ++ (registrations accesses).map Prod.fst) := by
  induction h with
  | nil => rw [registrations, List.filterMap_nil, List.map_nil, List.append_nil]; exact hstart
  | snoc _ hstep ih =>
    rw [registrations_snoc, List.map_append, ← List.append_assoc]
    rcases hstep.effect with ⟨identifier, hregistration, hregistry⟩ | ⟨hnone, hids, hissued⟩
    · rw [hregistration, hregistry]
      exact ih.register identifier
    · rw [hnone, Option.toList_none, List.map_nil, List.append_nil]
      exact ih.congr hids hissued

theorem Run.keeps (h : Run start accesses s) {identifier : String} {number : DeviceId}
    (hknown : start.registry.number? identifier = some number) :
    s.registry.number? identifier = some number := by
  induction h with
  | nil => exact hknown
  | snoc _ hstep ih => exact hstep.keeps ih

/-- Whoever has registered an identifier has been told the number that it has. -/
theorem Run.registered (h : Run start accesses s) {identifier : String} {number : DeviceId}
    (hmem : (identifier, number) ∈ registrations accesses) :
    s.registry.number? identifier = some number := by
  induction h with
  | nil => cases hmem
  | snoc _ hstep ih =>
    rw [registrations_snoc] at hmem
    rcases List.mem_append.mp hmem with hmem | hmem
    · exact hstep.keeps (ih hmem)
    · rcases hstep.effect with ⟨other, hregistration, hregistry⟩ | ⟨hnone, -⟩
      · rw [hregistration] at hmem
        cases List.mem_singleton.mp hmem
        rw [hregistry]
        exact number?_register _ _
      · rw [hnone] at hmem
        cases hmem

theorem lookup_eq_some {registry : Registry} {candidates : List String} {number : DeviceId} :
    registry.lookup candidates = some number ↔
      ∃ before identifier behind, candidates = before ++ identifier :: behind ∧
        registry.number? identifier = some number ∧
        ∀ unknown ∈ before, registry.number? unknown = none :=
  List.findSome?_eq_some_iff

/-- A lookup that nobody steps into is the whole of it: a hit, or a miss and what follows. -/
theorem run_resolve (s : Shared Caller) {caller : Caller} (idle : s.waiting caller = none)
    (candidates : List String) :
    let resolved := (s.registry.resolve candidates).value
    Run s
      (match s.registry.lookup candidates with
        | some number => [(caller, .found candidates number)]
        | none => [(caller, .missed candidates), (caller, .enrolled candidates resolved.1)])
      { s with registry := resolved.2 } := by
  intro resolved
  cases h : s.registry.lookup candidates with
  | some number =>
    have hresolved : resolved = (some number, s.registry) := by
      simp only [resolved, resolve, h]
    rw [hresolved]
    exact .snoc .nil (.found idle h)
  | none =>
    have hresolved : resolved = (s.registry.enrol candidates).value := by
      simp only [resolved, resolve, h]
    let missed : Shared Caller :=
      { s with waiting := Function.update s.waiting caller (some candidates) }
    have hmissed : Run s [(caller, .missed candidates)] missed := .snoc .nil (.missed idle h)
    have hwaiting : missed.waiting caller = some candidates := Function.update_self ..
    have hreturned := hmissed.snoc (.enrol hwaiting)
    rw [Function.update_idem, Function.update_eq_self_iff.mpr idle.symm] at hreturned
    rw [hresolved]
    exact hreturned

/-- **The table of devices stays one to one under any interleaving.** At every point of every run on
a new registry, by any number of callers, the numbers in use are just those from one to the last
given out, each for one identifier, in the order in which the identifiers were first registered.
Everyone who registered an identifier was told its number, and it keeps that number from then on. A
lookup with a hit tells the number of the earliest candidate that is known, and one that returns
nothing has left the registry as it was. One that nobody steps into is resolved as a whole. -/
theorem table_one_to_one (acceptsUnknown : Bool)
    (hrun : Run (new acceptsUnknown) accesses s) :
    (∀ number : Nat, (∃ identifier, s.registry.number? identifier = some number) ↔
      1 ≤ number ∧ number ≤ s.registry.issued) ∧
    (∀ a b number, s.registry.number? a = some number → s.registry.number? b = some number →
      a = b) ∧
    (∀ identifier number, s.registry.number? identifier = some number ↔
      ∃ index, (firstRegistered accesses)[index]? = some identifier ∧ number = index + 1) ∧
    (∀ identifier number, (identifier, number) ∈ registrations accesses →
      s.registry.number? identifier = some number) ∧
    (∀ later s', Run s later s' → ∀ identifier number,
      s.registry.number? identifier = some number →
        s'.registry.number? identifier = some number) ∧
    (∀ caller candidates number s', Step s (caller, .found candidates number) s' →
      s'.registry = s.registry ∧
      ∃ before identifier behind, candidates = before ++ identifier :: behind ∧
        s.registry.number? identifier = some number ∧
        ∀ unknown ∈ before, s.registry.number? unknown = none) ∧
    (∀ caller candidates s', Step s (caller, .missed candidates) s' ∨
      Step s (caller, .enrolled candidates none) s' → s'.registry = s.registry) ∧
    ∀ caller candidates, s.waiting caller = none →
      let resolved := (s.registry.resolve candidates).value
      Run s
        (match s.registry.lookup candidates with
          | some number => [(caller, .found candidates number)]
          | none => [(caller, .missed candidates), (caller, .enrolled candidates resolved.1)])
        { s with registry := resolved.2 } := by
  have hnumbered := hrun.numbered (numbered_new acceptsUnknown)
  rw [List.nil_append] at hnumbered
  refine ⟨hnumbered.number_iff, fun a b number => hnumbered.injective, hnumbered.number?_iff,
    fun identifier number => hrun.registered, fun later s' hlater identifier number =>
    hlater.keeps, ?_, ?_, fun caller candidates idle => run_resolve s idle candidates⟩
  · intro caller candidates number s' hstep
    cases hstep with
    | found _ h => exact ⟨rfl, lookup_eq_some.mp h⟩
  · rintro caller candidates s' (hstep | hstep)
    · cases hstep
      rfl
    · have hanswer := hstep.enrolled_eq
      rcases enrol_cases s.registry candidates with ⟨identifier, others, -, h⟩ | h
      · rw [h] at hanswer
        cases hanswer
      · rw [h] at hanswer
        exact (Prod.mk.inj hanswer).2

/-- Two callers look an identifier up before either has registered it. Both then register it, and
both are told one number; the lookup of a third list finds it behind a candidate that is not
known. -/
theorem table_one_to_one_race :
    let accesses : List (Bool × Access) :=
      [(false, .missed ["42", "421"]), (true, .missed ["42"]), (true, .enrolled ["42"] (some 1)),
        (true, .registered "7" 2), (false, .enrolled ["42", "421"] (some 1)),
        (true, .found ["0", "42", "7"] 1)]
    ∃ s, Run (new true) accesses s ∧
      firstRegistered accesses = ["42", "7"] ∧
      (∀ number : Nat, (∃ identifier, s.registry.number? identifier = some number) ↔
        1 ≤ number ∧ number ≤ 2) ∧
      s.registry.number? "42" = some 1 ∧ s.registry.number? "7" = some 2 := by
  intro accesses
  let first : Registry := { acceptsUnknown := true, ids := ⟨[("42", 1)]⟩, issued := 1 }
  let second : Registry := { first with ids := ⟨[("42", 1), ("7", 2)]⟩, issued := 2 }
  have hmissed : Run (new true) (accesses.take 1) _ := Run.nil.snoc (.missed rfl rfl)
  have hboth : Run (new true) (accesses.take 2) _ := hmissed.snoc (.missed rfl rfl)
  have hfirst : Run (new true) (accesses.take 3) ⟨first, _⟩ := hboth.snoc (.enrol rfl)
  have hsecond : Run (new true) (accesses.take 4) ⟨second, _⟩ := hfirst.snoc (.register "7" rfl)
  have hagain : Run (new true) (accesses.take 5) ⟨second, _⟩ := hsecond.snoc (.enrol rfl)
  have hrun : Run (new true) accesses ⟨second, _⟩ := hagain.snoc (.found rfl rfl)
  obtain ⟨hnumbers, -⟩ := table_one_to_one true hrun
  exact ⟨_, hrun, rfl, hnumbers, rfl, rfl⟩

end Shared

end Registry

end TrackerWire
