import BuildOrder.Order.DepthFirst
import BuildOrder.Order.Kahn

/-! # Strategies

The two ways of sorting a graph.  Both place each node after its dependencies and prefer low
nodes, but they break ties differently.
-/

namespace BuildOrder

/-- A way of sorting. -/
inductive Strategy
  | depthFirst
  | kahn
deriving DecidableEq

namespace Strategy

/-- The name of a strategy in settings. -/
def name : Strategy → String
  | depthFirst => "depth-first"
  | kahn => "kahn"

/-- The strategy of a name. -/
def ofName? (text : String) : Option Strategy := [depthFirst, kahn].find? fun s => s.name == text

/-- The nodes of a graph, each after its dependencies, or what keeps them from being sorted. -/
def order : Strategy → (g : Digraph n) → Except (Finding n) (List (Fin n))
  | depthFirst, g => DepthFirst.order g
  | kahn, g => Kahn.order g

end Strategy

end BuildOrder
