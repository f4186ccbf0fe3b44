import BuildOrder.Cycle

/-! # Sorting by readiness

A node is ready when everything on which it depends has been placed.  Again and again the lowest
ready node is placed, and the nodes that depend on it come one step closer to being ready.
-/

namespace BuildOrder.Kahn

/-- A sort in progress. -/
structure State (n : Nat) where
  /-- For each node, how many of its dependencies have not been placed. -/
  pending : Table Nat n
  /-- The queue of the nodes that are ready, in ascending order. -/
  ready : List (Fin n)
  /-- The nodes that have been placed, in the order of the result. -/
  placed : List (Fin n)

/-- Before anything is placed, the nodes without dependencies are ready. -/
def start (g : Digraph n) : State n where
  pending := .ofFn g.dependencyCount
  ready := (List.finRange n).filter fun i => g.dependencyCount i == 0
  placed := []

/-- Takes note that one dependency of a node has been placed. -/
def State.release (s : State n) (i : Fin n) : State n :=
  -- The last one makes the node ready.
  let left := s.pending.get i - 1
  { s with
    pending := s.pending.set i left
    ready := if left = 0 then Ascending.enqueue i s.ready else s.ready }

/-- Places the lowest ready node.  Nothing changes when no node is ready. -/
def State.step (g : Digraph n) (s : State n) : State n :=
  match s.ready with
  | [] => s
  | i :: rest => (g.dependents i).foldl State.release { s with ready := rest, placed := s.placed ++ [i] }

theorem State.step_of_ready_nil {g : Digraph n} {s : State n} (h : s.ready = []) : s.step g = s := by
  rw [step, h]

theorem State.step_of_ready_cons {g : Digraph n} {s : State n} {i : Fin n} {rest : List (Fin n)}
    (h : s.ready = i :: rest) :
    s.step g =
      (g.dependents i).foldl State.release { s with ready := rest, placed := s.placed ++ [i] } := by
  rw [step, h]

/-- A number of steps one after the other. -/
def State.steps (g : Digraph n) : Nat → State n → State n
  | 0, s => s
  | k + 1, s => steps g k (s.step g)

/-- The sort when it has ended.  A step places one node, so that there are at most `n` of them. -/
def final (g : Digraph n) : State n := (start g).steps g n

/-- For each node whether it is in a list. -/
def marks (placed : List (Fin n)) : List Bool := (List.finRange n).map fun i => placed.contains i

theorem length_marks (placed : List (Fin n)) : (marks placed).length = n := by simp [marks]

/-- The nodes in an order in which each comes after its dependencies, or what keeps some of them
    from being placed. -/
def order (g : Digraph n) : Except (Finding n) (List (Fin n)) :=
  let placed := (final g).placed
  if placed.length < n then .error (.ofMarks g (marks placed) (Nat.le_of_eq (length_marks placed).symm))
  else .ok placed

end BuildOrder.Kahn
