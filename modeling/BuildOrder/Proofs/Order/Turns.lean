import BuildOrder.Order.DepthFirst
import Mathlib.Logic.Relation

/-! # The search with a stack comes to an end

The search takes one turn after the other, each of them on the frame on top of its stack.  There
is nothing to do when the stack is empty or a node in progress is met again.

* `Stops.not_turn`     where the search stops, there is no further turn
* `exists_stops`       from every state it takes finitely many turns to where it stops
-/

namespace BuildOrder.DepthFirst

open Relation

variable {n : Nat}

/-- A turn of the search. -/
inductive Turn (g : Digraph n) (s : State n) : State n → Prop
  /-- The node on top has nothing left to look at. -/
  | finish {i : Fin n} {below : List (Frame n)} (hstack : s.stack = ⟨i, []⟩ :: below) :
      Turn g s (s.finish i below)
  /-- Its next dependency has been placed. -/
  | pass {i j : Fin n} {remaining : List (Fin n)} {below : List (Frame n)}
      (hstack : s.stack = ⟨i, j :: remaining⟩ :: below) (hmark : s.marks.get j = .done) :
      Turn g s { s with stack := ⟨i, remaining⟩ :: below }
  /-- Its next dependency has not been visited. -/
  | enter {i j : Fin n} {remaining : List (Fin n)} {below : List (Frame n)}
      (hstack : s.stack = ⟨i, j :: remaining⟩ :: below) (hmark : s.marks.get j = .unvisited) :
      Turn g s (s.enter g j (⟨i, remaining⟩ :: below))

/-- Where the search stops, and with which outcome. -/
inductive Stops (s : State n) : Except (Finding n) (State n) → Prop
  | done (hstack : s.stack = []) : Stops s (.ok s)
  | reentered {i j : Fin n} {remaining : List (Fin n)} {below : List (Frame n)}
      (hstack : s.stack = ⟨i, j :: remaining⟩ :: below) (hmark : s.marks.get j = .inProgress) :
      Stops s (.error (.ofTrail s.trail j))

/-- Where the search stops, there is no further turn. -/
theorem Stops.not_turn {g : Digraph n} {s t : State n} {outcome : Except (Finding n) (State n)}
    (h : Stops s outcome) : ¬ Turn g s t := by
  intro hturn
  cases h with
  | done hstack =>
    cases hturn with
    | finish hstack' => simp [hstack] at hstack'
    | pass hstack' => simp [hstack] at hstack'
    | enter hstack' => simp [hstack] at hstack'
  | reentered hstack hmark =>
    cases hturn with
    | finish hstack' => simp [hstack] at hstack'
    | pass hstack' hmark' =>
      -- Both are about the frame on top, and so about one node with one mark.
      obtain ⟨⟨rfl, rfl, rfl⟩, rfl⟩ : _ := by simpa using hstack.symm.trans hstack'
      simp [hmark] at hmark'
    | enter hstack' hmark' =>
      obtain ⟨⟨rfl, rfl, rfl⟩, rfl⟩ : _ := by simpa using hstack.symm.trans hstack'
      simp [hmark] at hmark'

/-- From every state, the search takes finitely many turns to where it stops. -/
theorem exists_stops (g : Digraph n) (s : State n) :
    ∃ last, ReflTransGen (Turn g) s last ∧ Stops last (s.run g) := by
  -- The induction is on the run, which calls itself after each turn that it takes.
  fun_induction State.run g s with
  | case1 s hstack => exact ⟨s, .refl, .done hstack⟩
  | case2 s i below hstack ih =>
    obtain ⟨last, hturns, hstops⟩ := ih
    exact ⟨last, .head (.finish hstack) hturns, hstops⟩
  | case3 s i j remaining below hstack hmark ih =>
    obtain ⟨last, hturns, hstops⟩ := ih
    exact ⟨last, .head (.pass hstack hmark) hturns, hstops⟩
  | case4 s i j remaining below hstack hmark => exact ⟨s, .refl, .reentered hstack hmark⟩
  | case5 s i j remaining below hstack hmark ih =>
    obtain ⟨last, hturns, hstops⟩ := ih
    exact ⟨last, .head (.enter hstack hmark) hturns, hstops⟩

end BuildOrder.DepthFirst
