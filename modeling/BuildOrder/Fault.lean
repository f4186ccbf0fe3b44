import BuildOrder.Diagnostic
import BuildOrder.SourceUnit

/-! # Faults

Everything that can go wrong while units are declared, registered and ordered.  A fault holds
its cause; its message, its code and its diagnostic are read off it.
-/

namespace BuildOrder

/-- Two different units provide one namespace. -/
structure Conflict where
  ns : Namespace
  first : SourceUnit
  second : SourceUnit
deriving DecidableEq

/-- A condition that holds whenever the library is used as intended, and does not hold here. -/
inductive BrokenInvariant
  /-- A unit was reached that is not among the known ones. -/
  | strayUnit (id : String)
  /-- A cycle was asked for where nothing is left over. -/
  | nothingUnsorted
  /-- A unit is left over although all that it needs is sorted. -/
  | unsortedWithoutReason (unit : SourceUnit)
  /-- A unit was met again that the trail does not lead through. -/
  | offTrail (unit : SourceUnit)
  /-- A registered provider is not a unit of the session. -/
  | strangeProvider (provider : SourceUnit) (ns : Namespace)
  /-- Nothing has changed since the last manifest, but that manifest is not there. -/
  | nothingCached
deriving DecidableEq

namespace BrokenInvariant

/-- What the condition is. -/
def message : BrokenInvariant → String
  | strayUnit id => "unit `" ++ id ++ "` is reachable but was never added"
  | nothingUnsorted => "cycle requested but every unit was sorted"
  | unsortedWithoutReason u => "`" ++ u.id ++ "` is unsorted but has no unsorted dependency"
  | offTrail u => "`" ++ u.id ++ "` is in progress but not on the trail"
  | strangeProvider p ns =>
    "`" ++ p.id ++ "` provides `" ++ ns.name ++ "` but is neither main nor in limbo"
  | nothingCached => "manifest is fresh but nothing is cached"

end BrokenInvariant

/-- A failure with its cause. -/
inductive Fault
  | duplicateProvider (conflict : Conflict)
  | invalidRuntimeBase (id : String)
  | missingDependency (ns : Namespace) (requiredBy : SourceUnit)
  | missingEntryPoint (ns : Namespace)
  /-- The units of a cycle, each of which requires the next and the last the first, and the
      names on the way round, back to the first. -/
  | circularDependency (path : List Namespace) (units : List SourceUnit)
  | invariantViolation (cause : BrokenInvariant)
deriving DecidableEq

namespace Fault

/-- The kinds of fault. -/
inductive Kind
  | duplicateProvider
  | invalidRuntimeBase
  | missingDependency
  | missingEntryPoint
  | circularDependency
  | invariantViolation
deriving DecidableEq

/-- The kind of a fault. -/
def kind : Fault → Kind
  | duplicateProvider _ => .duplicateProvider
  | invalidRuntimeBase _ => .invalidRuntimeBase
  | missingDependency _ _ => .missingDependency
  | missingEntryPoint _ => .missingEntryPoint
  | circularDependency _ _ => .circularDependency
  | invariantViolation _ => .invariantViolation

/-- The name of a kind. -/
def Kind.name : Kind → String
  | duplicateProvider => "DuplicateProvider"
  | invalidRuntimeBase => "InvalidRuntimeBase"
  | missingDependency => "MissingDependency"
  | missingEntryPoint => "MissingEntryPoint"
  | circularDependency => "CircularDependency"
  | invariantViolation => "InvariantViolation"

/-- The code under which a kind of fault is documented. -/
def Kind.code : Kind → String
  | duplicateProvider => "manifest::duplicate_provide"
  | invalidRuntimeBase => "manifest::invalid_runtime_base"
  | missingDependency => "manifest::missing_provide"
  | missingEntryPoint => "manifest::missing_entry_point"
  | circularDependency => "manifest::circular_dependency"
  | invariantViolation => "manifest::invariant"

/-- General advice on a kind of fault. -/
def Kind.help : Kind → Option String
  | duplicateProvider => some "each namespace must be provided by exactly one source unit"
  | invalidRuntimeBase => some "the runtime base provides the root namespace implicitly"
  | missingDependency => some "add the source unit that provides the namespace to the inputs"
  | missingEntryPoint => none
  | circularDependency => some "break the cycle by removing one of the requires"
  | invariantViolation => none

/-- Whether the units and names that were given are at fault. -/
def isInputError (fault : Fault) : Bool := fault.kind != .invariantViolation

/-- The fault in one line. -/
def message : Fault → String
  | duplicateProvider c =>
    "namespace `" ++ c.ns.name ++ "` is provided by both `" ++ c.first.id ++ "` and `" ++ c.second.id ++ "`"
  | invalidRuntimeBase id => "runtime base `" ++ id ++ "` must not declare provides or requires"
  | missingDependency ns user =>
    "required namespace `" ++ ns.name ++ "` is never provided (required by `" ++ user.id ++ "`)"
  | missingEntryPoint ns => "namespace entry point `" ++ ns.name ++ "` is never provided"
  | circularDependency path _ => "circular dependency detected: " ++ Namespace.path path
  | invariantViolation cause => "internal invariant violated: " ++ cause.message

/-- The fault as it is explained to a person. -/
def diagnostic : Fault → Diagnostic
  | duplicateProvider c =>
    { message := "namespace `" ++ c.ns.name ++ "` is provided by multiple source units"
      context := ["first provided by `" ++ c.first.id ++ "`", "provided again by `" ++ c.second.id ++ "`"]
      location := some c.second.id
      suggestions := ["Remove one of the `provide` declarations for `" ++ c.ns.name ++ "`"] }
  | invalidRuntimeBase id =>
    { message := "runtime base declares explicit dependencies"
      location := some id
      suggestions := ["Remove the provide/require declarations from the runtime base"] }
  | missingDependency ns user =>
    { message := "namespace `" ++ ns.name ++ "` is never provided"
      context := ["required by `" ++ user.id ++ "`"]
      location := some user.id
      suggestions := ["Add the source unit that provides `" ++ ns.name ++ "` to the inputs",
        "Check the require for typos"] }
  | missingEntryPoint ns =>
    { message := "namespace entry point `" ++ ns.name ++ "` is never provided"
      suggestions := ["Add the source unit that provides `" ++ ns.name ++ "` to the inputs"] }
  | circularDependency path units =>
    { message := "circular dependency detected"
      context := ("cycle: " ++ Namespace.path path) :: units.map fun u => "involves `" ++ u.id ++ "`"
      suggestions := ["Break the cycle by removing or restructuring a require"] }
  | invariantViolation cause => { message := "internal error: " ++ cause.message }

end Fault

end BuildOrder
