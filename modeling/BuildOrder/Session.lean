import BuildOrder.Closure
import BuildOrder.Policy
import BuildOrder.Positions

/-! # Build sessions

A session gathers units.  A *main* unit is an entry point: the manifest holds it and all that it
needs.  A unit in *limbo* is a candidate that the manifest holds only if something needs it.
Namespaces can be named as entry points as well; their providers become main when the manifest
is computed.  A computed manifest is kept until an operation changes what it depends on.
-/

namespace BuildOrder

/-- Where a unit stands in a session. -/
inductive Role
  | main
  | limbo
deriving DecidableEq

/-- Everything that a session knows. -/
structure Session where
  /-- The units in the order in which they were added. -/
  units : List SourceUnit := []
  /-- The position of each unit in that order. -/
  positions : Positions := .empty
  /-- The role of each unit, in the same order. -/
  roles : List Role := []
  /-- The namespaces named as entry points since the last manifest. -/
  entryPoints : List Namespace := []
  registry : Registry := .empty
  policy : Policy := {}
  /-- The manifest that was computed last. -/
  cached : Option (List SourceUnit) := none
  /-- Whether something has changed since then. -/
  stale : Bool := true

namespace Role

/-- The units that have a role. -/
def select (role : Role) (units : List SourceUnit) (roles : List Role) : List SourceUnit :=
  ((units.zip roles).filter fun p => p.2 == role).map Prod.fst

/-- The roles of units when those that provide nothing are entry points. -/
def promoteMoochers (units : List SourceUnit) (roles : List Role) : List Role :=
  List.zipWith (fun u role => if u.isMoocher then .main else role) units roles

/-- The roles of units when the providers of namespaces are entry points. -/
def promoteProviders (registry : Registry) (positions : Positions) :
    List Namespace → List Role → Except Fault (List Role)
  | [], roles => .ok roles
  | ns :: rest, roles =>
    match registry.resolve ns with
    | none => .error (.missingEntryPoint ns)
    | some provider =>
      match positions.find? provider with
      | none => .error (.invariantViolation (.strangeProvider provider ns))
      | some i => promoteProviders registry positions rest (roles.set i .main)

end Role

namespace Session

/-- The session in which nothing has happened. -/
def new (policy : Policy) : Session := { policy }

/-- The entry points, in the order in which they were added. -/
def mainUnits (s : Session) : List SourceUnit := Role.main.select s.units s.roles

/-- The candidates, in the order in which they were added. -/
def limboUnits (s : Session) : List SourceUnit := Role.limbo.select s.units s.roles

/-- The role of a unit that has been added. -/
def role? (s : Session) (u : SourceUnit) : Option Role := (s.positions.find? u).bind fun i => s.roles[i]?

/-- Whether a unit has been added. -/
def contains (s : Session) (u : SourceUnit) : Bool := (s.positions.find? u).isSome

/-- Whether a unit is an entry point. -/
def isMain (s : Session) (u : SourceUnit) : Bool := s.role? u == some .main

/-- Whether the manifest has to be computed when it is asked for next. -/
def isStale (s : Session) : Bool := s.stale

/-- What a session is after an operation that may fail. -/
abbrev Result := Session × Option Fault

/-- Adds a new unit.  When another unit provides one of its namespaces, the unit is not added,
    and what was registered before the conflict stays registered. -/
def insert (s : Session) (u : SourceUnit) (role : Role) : Result :=
  match s.registry.register u with
  | (registry, none) =>
    ({ s with
        registry
        positions := s.positions.insert u s.units.length
        units := s.units ++ [u]
        roles := s.roles ++ [role]
        stale := true }, none)
  | (registry, some conflict) => ({ s with registry }, some (.duplicateProvider conflict))

/-- Adds a unit as an entry point, or makes a candidate an entry point. -/
def addMain (s : Session) (u : SourceUnit) : Result :=
  match s.positions.find? u with
  | none => s.insert u .main
  | some i =>
    if s.roles[i]? = some .limbo then ({ s with roles := s.roles.set i .main, stale := true }, none)
    else (s, none)

/-- Adds a unit as a candidate, unless it was added before.  A runtime base is always an entry
    point. -/
def addCandidate (s : Session) (u : SourceUnit) : Result :=
  if s.contains u then (s, none) else s.insert u (if u.runtimeBase then .main else .limbo)

/-- Adds units one by one, up to the first failure. -/
def addEach (add : Session → SourceUnit → Result) (s : Session) : List SourceUnit → Result
  | [] => (s, none)
  | u :: rest =>
    match add s u with
    | (next, none) => addEach add next rest
    | (next, some fault) => (next, some fault)

/-- Names a namespace whose provider is to become an entry point. -/
def addEntryPoint (s : Session) (ns : Namespace) : Session :=
  if ns ∈ s.entryPoints then s else { s with entryPoints := s.entryPoints ++ [ns], stale := true }

/-- Changes the policy.  The manifest is kept when the policy stays what it was. -/
def setPolicy (s : Session) (policy : Policy) : Session :=
  if s.policy = policy then s else { s with policy, stale := true }

/-- The roles as the manifest sees them: moochers that are kept and the providers of the named
    entry points count as main. -/
def promoted (s : Session) : Except Fault (List Role) :=
  Role.promoteProviders s.registry s.positions s.entryPoints
    (if s.policy.keepMoochers then Role.promoteMoochers s.units s.roles else s.roles)

/-- The units that the manifest keeps under the given roles, in the order in which they were
    added. -/
def kept (s : Session) (roles : List Role) : Except Fault (List SourceUnit) :=
  if s.policy.keepAllUnits then .ok s.units
  else Closure.units s.registry .fail (Role.main.select s.units roles) s.units

/-- The kept units in the order that the policy asks for. -/
def arranged (s : Session) (units : List SourceUnit) : Except Fault (List SourceUnit) :=
  if s.policy.keepOriginalOrder then .ok units
  else
    match DependencyGraph.build units s.registry .fail with
    | .ok graph => graph.sort s.policy.strategy
    | .error fault => .error fault

/-- Computes the manifest, with the roles as they are afterwards. -/
def compute (s : Session) : Except Fault (List Role × List SourceUnit) :=
  match s.promoted with
  | .error fault => .error fault
  | .ok roles =>
    match s.kept roles with
    | .error fault => .error fault
    | .ok units =>
      match s.arranged units with
      | .error fault => .error fault
      | .ok manifest => .ok (roles, manifest)

/-- The manifest, computed unless nothing has changed since the last one.  Success makes
    promotions last and uses the named entry points up; a failure leaves the session as it was. -/
def manifest (s : Session) : Session × Except Fault (List SourceUnit) :=
  if s.stale then
    match s.compute with
    | .ok (roles, units) =>
      ({ s with roles, entryPoints := [], cached := some units, stale := false }, .ok units)
    | .error fault => (s, .error fault)
  else
    match s.cached with
    | some units => (s, .ok units)
    | none => (s, .error (.invariantViolation .nothingCached))

end Session

end BuildOrder
