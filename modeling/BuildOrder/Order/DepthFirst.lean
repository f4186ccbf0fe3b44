import BuildOrder.Cycle

/-! # Sorting depth first

A node is placed as soon as everything on which it depends has been placed.  The nodes are tried
in ascending order, and so are the dependencies of each.  The nodes whose turn has begun but not
ended lie on a stack, so that a long chain of dependencies needs no deep recursion.

The search ends because each step begins a node, or else has less left to do for those that have
begun.
-/

namespace BuildOrder.DepthFirst

/-- How far the search has come with a node. -/
inductive Mark
  | unvisited
  | inProgress
  | done
deriving DecidableEq

/-- A node in progress, with the dependencies that it has not looked at yet. -/
structure Frame (n : Nat) where
  node : Fin n
  remaining : List (Fin n)

/-- A search in progress. -/
structure State (n : Nat) where
  marks : Table Mark n
  /-- The nodes in progress, the latest first. -/
  stack : List (Frame n)
  /-- The nodes that have been placed, in the order of the result. -/
  placed : List (Fin n)

namespace State

/-- Before anything is visited. -/
def start (n : Nat) : State n := ⟨.fill n .unvisited, [], []⟩

/-- Enters a node on top of a stack. -/
def enter (s : State n) (g : Digraph n) (i : Fin n) (below : List (Frame n)) : State n :=
  { s with marks := s.marks.set i .inProgress, stack := ⟨i, g.dependencies i⟩ :: below }

/-- Places the node whose frame was on top of a stack. -/
def finish (s : State n) (i : Fin n) (below : List (Frame n)) : State n :=
  ⟨s.marks.set i .done, below, s.placed ++ [i]⟩

/-- The nodes in progress, the earliest first. -/
def trail (s : State n) : List (Fin n) := (s.stack.map Frame.node).reverse

/-- The number of nodes that have not begun. -/
def unvisited (s : State n) : Nat := (List.finRange n).countP fun i => s.marks.get i == .unvisited

/-- How much there is left to do for the nodes in progress. -/
def work (s : State n) : Nat := total (s.stack.map fun frame => frame.remaining.length + 1)

theorem unvisited_set_lt {s : State n} {i : Fin n} (hi : s.marks.get i = .unvisited) {mark : Mark}
    (hmark : mark ≠ .unvisited) (stack : List (Frame n)) :
    (State.mk (s.marks.set i mark) stack s.placed).unvisited < s.unvisited := by
  apply countP_lt_countP _ (List.mem_finRange i)
  · simpa [Table.get_set] using hmark
  · simpa using hi
  · intro j _
    simp only [Table.get_set]
    split
    · simp [hmark]
    · exact id

theorem unvisited_set_le {s : State n} {i : Fin n} {mark : Mark} (hmark : mark ≠ .unvisited)
    (stack : List (Frame n)) (placed : List (Fin n)) :
    (State.mk (s.marks.set i mark) stack placed).unvisited ≤ s.unvisited := by
  apply List.countP_mono_left
  intro j _
  simp only [Table.get_set]
  split
  · simp [hmark]
  · exact id

/-- Goes on until no node is in progress, or until a node in progress is met again. -/
def run (g : Digraph n) (s : State n) : Except (Finding n) (State n) :=
  match _ : s.stack with
  | [] => .ok s
  -- Everything on which the node depends has been placed.
  | ⟨i, []⟩ :: below => (s.finish i below).run g
  | ⟨i, j :: remaining⟩ :: below =>
    match _ : s.marks.get j with
    | .done => { s with stack := ⟨i, remaining⟩ :: below }.run g
    -- A node in progress is one that leads here, so that the way has come round to it.
    | .inProgress => .error (.ofTrail s.trail j)
    | .unvisited => (s.enter g j (⟨i, remaining⟩ :: below)).run g
termination_by (s.unvisited, s.work)
decreasing_by
  · rename_i hstack
    have hle : (s.finish i below).unvisited ≤ s.unvisited := unvisited_set_le (by decide) _ _
    have hwork : (s.finish i below).work < s.work := by simp [work, total, finish, hstack]
    rcases Nat.lt_or_eq_of_le hle with hlt | heq
    · exact Prod.Lex.left _ _ hlt
    · rw [heq]
      exact Prod.Lex.right _ hwork
  · rename_i hstack _
    exact Prod.Lex.right _ (by simp [work, total, hstack])
  · rename_i hmark
    exact Prod.Lex.left _ _ (unvisited_set_lt hmark (by decide) _)

/-- Visits a node from an empty stack, unless it has been visited. -/
def visit (g : Digraph n) (s : State n) (i : Fin n) : Except (Finding n) (State n) :=
  if s.marks.get i = .unvisited then (s.enter g i []).run g else .ok s

/-- Visits nodes one by one. -/
def visitAll (g : Digraph n) (s : State n) : List (Fin n) → Except (Finding n) (State n)
  | [] => .ok s
  | i :: rest =>
    match s.visit g i with
    | .ok next => next.visitAll g rest
    | .error finding => .error finding

end State

/-- The nodes in an order in which each comes after its dependencies, or what the search ran
    into. -/
def order (g : Digraph n) : Except (Finding n) (List (Fin n)) :=
  match (State.start n).visitAll g (List.finRange n) with
  | .ok s => .ok s.placed
  | .error finding => .error finding

end BuildOrder.DepthFirst
