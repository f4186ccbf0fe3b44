import BuildOrder.LastPosition
import BuildOrder.Order.Strategy
import BuildOrder.Registry

/-! # The dependency graph of a list of units

The nodes are the positions of the list.  A position depends on the provider of each namespace
that its unit requires, if that is another unit and in the list; of several positions of one unit
the last one stands for it.
-/

namespace BuildOrder

/-- What becomes of a required namespace that nobody provides. -/
inductive MissingPolicy
  | fail
  | ignore
deriving DecidableEq

/-- Units with the graph of their dependencies. -/
structure DependencyGraph where
  units : List SourceUnit
  graph : Digraph units.length

namespace DependencyGraph

/-- Adds the edges that the provider of a required namespace makes for a position. -/
def link (units : List SourceUnit) (i : Fin units.length) (provider : SourceUnit)
    (g : Digraph units.length) : Digraph units.length :=
  if provider.same (units.get i) then g
  else
    match lastPosition? (SourceUnit.same provider) units with
    | some j => g.addEdge i j
    | none => g

/-- Adds the edges that a list of required namespaces makes for a position. -/
def linkAll (units : List SourceUnit) (registry : Registry) (policy : MissingPolicy)
    (i : Fin units.length) : List Namespace → Digraph units.length → Except Fault (Digraph units.length)
  | [], g => .ok g
  | ns :: rest, g =>
    match registry.resolve ns with
    | some provider => linkAll units registry policy i rest (link units i provider g)
    | none =>
      match policy with
      | .ignore => linkAll units registry policy i rest g
      | .fail => .error (.missingDependency ns (units.get i))

/-- Adds the edges of a list of positions. -/
def linkUnits (units : List SourceUnit) (registry : Registry) (policy : MissingPolicy) :
    List (Fin units.length) → Digraph units.length → Except Fault (Digraph units.length)
  | [], g => .ok g
  | i :: rest, g =>
    match linkAll units registry policy i (units.get i).requires g with
    | .ok next => linkUnits units registry policy rest next
    | .error fault => .error fault

/-- The dependency graph of a list of units. -/
def build (units : List SourceUnit) (registry : Registry) (policy : MissingPolicy) :
    Except Fault DependencyGraph :=
  match linkUnits units registry policy (List.finRange units.length) (.edgeless _) with
  | .ok graph => .ok { units, graph }
  | .error fault => .error fault

/-- The unit at a position. -/
def unit (d : DependencyGraph) (i : Fin d.units.length) : SourceUnit := d.units.get i

/-- The names of units on the way round a cycle, back to the first. -/
def closedPath (units : List SourceUnit) : List Namespace :=
  let names := units.map SourceUnit.representative
  names ++ names.take 1

/-- The fault that a finding about the graph amounts to. -/
def fault (d : DependencyGraph) : Finding d.units.length → Fault
  | .cycle nodes => .circularDependency (closedPath (nodes.map d.unit)) (nodes.map d.unit)
  | .nothingUnsorted => .invariantViolation .nothingUnsorted
  | .unsortedWithoutReason i => .invariantViolation (.unsortedWithoutReason (d.unit i))
  | .offTrail i => .invariantViolation (.offTrail (d.unit i))

/-- The units in an order in which each comes after those it depends on. -/
def sort (d : DependencyGraph) (strategy : Strategy) : Except Fault (List SourceUnit) :=
  match strategy.order d.graph with
  | .ok nodes => .ok (nodes.map d.unit)
  | .error finding => .error (d.fault finding)

/-- Where an order of the positions is found, a sort gives the units at these positions. -/
theorem sort_eq_ok (d : DependencyGraph) (strategy : Strategy) {nodes : List (Fin d.units.length)}
    (h : strategy.order d.graph = .ok nodes) : d.sort strategy = .ok (nodes.map d.unit) := by
  rw [sort, h]

end DependencyGraph

end BuildOrder
