import BuildOrder.Order.DepthFirst
import BuildOrder.Proofs.Order.Recursive

/-! # The search with a stack does what the recursive one does

The marks of the search with a stack say which nodes are placed and which lie on the path of the
recursive search, and its stack holds that path with what is left to do for each node.

* `run_eq`     working off the top of the stack is a recursive visit
* `order_eq`   both searches have the same outcome
-/

namespace BuildOrder.DepthFirst

open BuildOrder.Digraph

variable {n : Nat}

/-- The mark of a node when a path leads to the current visit. -/
def markOf (path placed : List (Fin n)) (i : Fin n) : Mark :=
  if placed.contains i then .done else if path.contains i then .inProgress else .unvisited

/-- The marks of all nodes. -/
def marksOf (path placed : List (Fin n)) : Table Mark n := .ofFn (markOf path placed)

/-- The path that a stack stands for. -/
def pathOf (stack : List (Frame n)) : List (Fin n) := (stack.map Frame.node).reverse

/-- The search with a given stack, when its marks are as the recursive search has it. -/
def State.at (stack : List (Frame n)) (placed : List (Fin n)) : State n :=
  ⟨marksOf (pathOf stack) placed, stack, placed⟩

/-- The frame on top of the stack holds the last node of the path. -/
@[simp] theorem pathOf_cons (frame : Frame n) (below : List (Frame n)) :
    pathOf (frame :: below) = pathOf below ++ [frame.node] := by
  simp [pathOf]

/-- The table of all marks has the mark of each node. -/
theorem get_marksOf (path placed : List (Fin n)) (i : Fin n) :
    (marksOf path placed).get i = markOf path placed i := by
  simp [marksOf]

/-- Entering a node puts it on the path. -/
theorem enter_at (g : Digraph n) {i : Fin n} (below : List (Frame n)) {placed : List (Fin n)}
    (hi : i ∉ placed) :
    State.enter (State.at below placed) g i below = State.at (⟨i, g.dependencies i⟩ :: below) placed := by
  have hmarks : (marksOf (pathOf below) placed).set i .inProgress =
      marksOf (pathOf below ++ [i]) placed := by
    ext j
    rw [Table.get_set, get_marksOf, get_marksOf]
    simp only [markOf, List.contains_iff_mem, List.mem_append, List.mem_singleton]
    by_cases hji : i = j
    · -- The node is on the path now, and it is not placed.
      subst hji
      simp [hi]
    · simp [hji, Ne.symm hji]
  simp [State.enter, State.at, hmarks]

/-- Finishing a node takes it off the path and places it. -/
theorem finish_at (i : Fin n) (remaining : List (Fin n)) (below : List (Frame n))
    (placed : List (Fin n)) :
    (State.at (⟨i, remaining⟩ :: below) placed).finish i below = State.at below (placed ++ [i]) := by
  -- The node has left the path, and only its mark has changed.
  have hmarks : (marksOf (pathOf below ++ [i]) placed).set i .done =
      marksOf (pathOf below) (placed ++ [i]) := by
    ext j
    rw [Table.get_set, get_marksOf, get_marksOf]
    simp only [markOf, List.contains_iff_mem, List.mem_append, List.mem_singleton]
    by_cases hji : i = j
    · simp [hji]
    · simp [hji, Ne.symm hji]
  simp [State.finish, State.at, hmarks]

/-- What a trail of different nodes shows that has come back to one of them. -/
theorem ofTrail_eq {trail : List (Fin n)} {i : Fin n} (hi : i ∈ trail) :
    Finding.ofTrail trail i = .cycle (trail.dropWhile (· ≠ i)) := by
  rw [Finding.ofTrail, cut_eq_dropWhile hi]

/-! ## One step of the search -/

/-- With nothing on its stack, the search has come to its end. -/
theorem run_empty (g : Digraph n) (placed : List (Fin n)) :
    (State.at [] placed).run g = .ok (State.at [] placed) := by
  rw [State.run]
  rfl

/-- When nothing is left to do for a node, it is placed. -/
theorem run_finish (g : Digraph n) (i : Fin n) (below : List (Frame n)) (placed : List (Fin n)) :
    (State.at (⟨i, []⟩ :: below) placed).run g = (State.at below (placed ++ [i])).run g := by
  rw [State.run, ← finish_at i [] below placed]
  rfl

/-- What becomes of the next dependency of a node depends on its mark. -/
theorem run_next (g : Digraph n) (i j : Fin n) (rest : List (Fin n)) (below : List (Frame n))
    (placed : List (Fin n)) :
    (State.at (⟨i, j :: rest⟩ :: below) placed).run g =
      match markOf (pathOf below ++ [i]) placed j with
      | .done => (State.at (⟨i, rest⟩ :: below) placed).run g
      | .inProgress => .error (.ofTrail (pathOf below ++ [i]) j)
      | .unvisited =>
        (State.enter (State.at (⟨i, rest⟩ :: below) placed) g j (⟨i, rest⟩ :: below)).run g := by
  have hmark : (State.at (⟨i, j :: rest⟩ :: below) placed).marks.get j =
      markOf (pathOf below ++ [i]) placed j := by
    rw [← get_marksOf, ← pathOf_cons ⟨i, j :: rest⟩]
    rfl
  rw [State.run]
  dsimp only [State.at]
  -- The mark in the table decides as the mark of the recursive search does.
  split
  · rename_i h
    rw [hmark.symm.trans h]
    rfl
  · rename_i h
    rw [hmark.symm.trans h]
    simp [State.trail, pathOf]
  · rename_i h
    rw [hmark.symm.trans h]
    rfl

/-- Working off what is left to do for the node on top of the stack is a recursive visit. -/
theorem run_eq (g : Digraph n) (path placed nodes : List (Fin n)) (i : Fin n)
    (below : List (Frame n)) (hpath : path = pathOf below ++ [i]) :
    (State.at (⟨i, nodes⟩ :: below) placed).run g =
      match Recursive.visitAll g path placed nodes with
      | .ok inner => (State.at (⟨i, []⟩ :: below) inner).run g
      | .error cycle => .error (.cycle cycle) := by
  fun_induction Recursive.visitAll g path placed nodes generalizing i below with
  | case1 => rfl
  | case2 path placed j rest hj ih =>
    have hmark : markOf path placed j = .done := by simp [markOf, hj]
    -- Both searches pass over a placed node.
    rw [run_next, ← hpath, hmark]
    exact ih i below hpath
  | case3 path placed j rest hj hjpath =>
    have hmark : markOf path placed j = .inProgress := by simp [markOf, hj, hjpath]
    -- For both searches the path has come round to the node.
    rw [run_next, ← hpath, hmark, ofTrail_eq hjpath]
  | case4 path placed j rest hj hjpath visited hvisit ihdeps ihrest =>
    have hmark : markOf path placed j = .unvisited := by simp [markOf, hj, hjpath]
    rw [run_next, ← hpath, hmark]
    -- The visit of the dependency ends with its node on top of the stack and nothing left to do.
    have hdeps := ihdeps j (⟨i, rest⟩ :: below) (by rw [hpath, pathOf_cons])
    rw [hvisit] at hdeps
    dsimp only at hdeps ⊢
    rw [enter_at g _ hj, hdeps, run_finish]
    exact ihrest i below hpath
  | case5 path placed j rest hj hjpath inner hvisit ihdeps =>
    have hmark : markOf path placed j = .unvisited := by simp [markOf, hj, hjpath]
    rw [run_next, ← hpath, hmark]
    have hdeps := ihdeps j (⟨i, rest⟩ :: below) (by rw [hpath, pathOf_cons])
    rw [hvisit] at hdeps
    dsimp only at hdeps ⊢
    -- The fault ends this visit as well.
    rw [enter_at g _ hj, hdeps]

/-- Visiting nodes one by one from an empty stack is a recursive visit from an empty path. -/
theorem visitAll_eq (g : Digraph n) (placed nodes : List (Fin n)) :
    (State.at [] placed).visitAll g nodes =
      match Recursive.visitAll g [] placed nodes with
      | .ok inner => .ok (State.at [] inner)
      | .error cycle => .error (.cycle cycle) := by
  induction nodes generalizing placed with
  | nil => simp [State.visitAll, Recursive.visitAll]
  | cons i rest ih =>
    -- From an empty path, a node is either placed or unvisited.
    have hmark : (State.at [] placed).marks.get i = markOf [] placed i := get_marksOf [] placed i
    rw [State.visitAll, State.visit, hmark, Recursive.visitAll]
    by_cases hi : i ∈ placed
    · simp [markOf, hi, ih]
    · have hunvisited : markOf [] placed i = .unvisited := by simp [markOf, hi]
      rw [if_pos hunvisited, if_neg hi, dif_neg List.not_mem_nil, enter_at g [] hi,
        run_eq g [i] placed (g.dependencies i) i [] rfl]
      simp only [List.nil_append]
      cases Recursive.visitAll g [i] placed (g.dependencies i) with
      | ok inner => simp only [run_finish, run_empty, ih]
      | error cycle => rfl

/-- Both searches have the same outcome. -/
theorem order_eq (g : Digraph n) :
    order g =
      match Recursive.order g with
      | .ok nodes => .ok nodes
      | .error cycle => .error (.cycle cycle) := by
  -- Before the start, nothing is placed and no path leads anywhere.
  have hstart : State.start n = State.at [] [] := by
    simp only [State.start, State.at, State.mk.injEq, and_true]
    ext i
    simp [marksOf, markOf, pathOf]
  rw [order, hstart, visitAll_eq, Recursive.order]
  cases Recursive.visitAll g [] [] (List.finRange n) <;> rfl

/-- The way into a cycle is no part of it. -/
example :
    order ((((edgeless 3).addEdge 0 1).addEdge 1 2).addEdge 2 1) = .error (.cycle [1, 2]) := by
  cbv

end BuildOrder.DepthFirst
