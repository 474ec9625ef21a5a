import TrackerWire.Report

/-!
# The device registry

Which identifiers are known, under which number each is registered, and where each device was
last. Numbers are given out from one on, in the order of registration. A lookup takes the first
candidate that is known; a registry that accepts unknown devices then registers the first
candidate, in a step of its own (specification, §10.6).
-/

namespace TrackerWire

/-- The devices known, and their last fixes. -/
structure Registry where
  /-- Identifiers that are looked up and not known are registered. -/
  acceptsUnknown : Bool := false
  ids : Table String DeviceId := .empty
  /-- The last number given out. It is counted without bound (`DeviceId`). -/
  issued : Nat := 0
  fixes : Table DeviceId Fix := .empty

namespace Registry

/-- The number of an identifier, which is registered if it is not known. -/
def register (registry : Registry) (identifier : String) : DeviceId × Registry :=
  match registry.ids.get? identifier with
  | some id => (id, registry)
  | none =>
    let id := registry.issued + 1
    (id, { registry with ids := registry.ids.put identifier id, issued := id })

/-- The number of the first candidate that is known; mirrors `resolve` of §6. -/
def lookup (registry : Registry) (candidates : List String) : Option DeviceId :=
  candidates.findSome? registry.ids.get?

/-- What a lookup without a hit leads to: the first candidate is registered, if unknown devices
are accepted. -/
def enrol (registry : Registry) (candidates : List String) :
    Logged (Option DeviceId × Registry) :=
  match registry.acceptsUnknown, candidates with
  | true, identifier :: _ =>
    let (id, registry) := registry.register identifier
    ⟨(some id, registry), [.registered identifier id]⟩
  | _, _ => ⟨(none, registry), []⟩

/-- The device of a list of candidates. -/
def resolve (registry : Registry) (candidates : List String) :
    Logged (Option DeviceId × Registry) :=
  match registry.lookup candidates with
  | some id => ⟨(some id, registry), []⟩
  | none => registry.enrol candidates

/-- Remember where a device was, unless the report has no time or copied its place. Mirrors
`record` of §10.6. -/
def record (registry : Registry) (report : Report) : Registry :=
  if report.outdated then registry
  else
    match report.fix? with
    | some fix => { registry with fixes := registry.fixes.put report.device fix }
    | none => registry

/-- Remember reports one after the other. -/
def recordAll (registry : Registry) (reports : List Report) : Registry :=
  reports.foldl record registry

def lastFix (registry : Registry) (device : DeviceId) : Option Fix := registry.fixes.get? device

end Registry

end TrackerWire
