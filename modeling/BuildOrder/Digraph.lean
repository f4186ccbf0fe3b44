import BuildOrder.Counting
import BuildOrder.Digraph.Ascending
import BuildOrder.Table

/-! # Directed graphs

A graph on the nodes `0, …, n - 1`.  An edge leads from a node to one on which it depends.  The
dependencies of a node are kept in ascending order, each once, and so are its dependents.

* `dependencies_edgeless`      no node depends on anything before an edge is added
* `mem_dependencies_addEdge`   an added edge is there, and all others are as before
* `mem_dependents`             `i ∈ g.dependents j ↔ j ∈ g.dependencies i`
-/

namespace BuildOrder

/-- A directed graph on `n` nodes. -/
structure Digraph (n : Nat) where
  rows : Table (List (Fin n)) n
  /-- The dependencies of each node are in ascending order. -/
  ascending : ∀ i : Fin n, (rows.get i).Pairwise (· < ·)

namespace Digraph

/-- The nodes on which a node depends directly, in ascending order. -/
def dependencies (g : Digraph n) (i : Fin n) : List (Fin n) := g.rows.get i

/-- The nodes that depend directly on a node, in ascending order. -/
def dependents (g : Digraph n) (j : Fin n) : List (Fin n) :=
  (List.finRange n).filter fun i => (g.dependencies i).contains j

/-- The number of direct dependencies of a node. -/
def dependencyCount (g : Digraph n) (i : Fin n) : Nat := (g.dependencies i).length

/-- The number of edges. -/
def edgeCount (g : Digraph n) : Nat := total ((List.finRange n).map g.dependencyCount)

/-- The graph without edges. -/
def edgeless (n : Nat) : Digraph n := ⟨.fill n [], by simp⟩

/-- Adds an edge, unless it is there already. -/
def addEdge (g : Digraph n) (i j : Fin n) : Digraph n :=
  ⟨g.rows.set i (Ascending.insert j (g.dependencies i)), fun k => by
    rw [Table.get_set]
    split
    · exact Ascending.pairwise_insert (g.ascending i)
    · exact g.ascending k⟩

@[simp] theorem dependencies_edgeless (i : Fin n) : (edgeless n).dependencies i = [] := by
  simp [dependencies, edgeless]

theorem dependencies_addEdge (g : Digraph n) (i j k : Fin n) :
    (g.addEdge i j).dependencies k =
      if i = k then Ascending.insert j (g.dependencies i) else g.dependencies k := by
  simp [dependencies, addEdge, Table.get_set]

theorem mem_dependencies_addEdge {g : Digraph n} {i j k l : Fin n} :
    l ∈ (g.addEdge i j).dependencies k ↔ (k = i ∧ l = j) ∨ l ∈ g.dependencies k := by
  rw [dependencies_addEdge]
  split
  · rename_i h
    simp [h]
  · rename_i h
    simp [Ne.symm h]

theorem pairwise_dependencies (g : Digraph n) (i : Fin n) : (g.dependencies i).Pairwise (· < ·) :=
  g.ascending i

@[simp] theorem mem_dependents {g : Digraph n} {i j : Fin n} :
    i ∈ g.dependents j ↔ j ∈ g.dependencies i := by
  simp [dependents, List.mem_finRange]

theorem pairwise_dependents (g : Digraph n) (j : Fin n) : (g.dependents j).Pairwise (· < ·) :=
  (List.pairwise_lt_finRange n).filter _

end Digraph

end BuildOrder
