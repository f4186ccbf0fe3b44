import BuildOrder.Digraph
import BuildOrder.Proofs.Precedence
import Mathlib.Data.List.FinRange
import Mathlib.Logic.Relation

/-! # Orders of a graph

An order of a graph lists all nodes, each once and after the nodes on which it depends.

* `Respects.mem_of_reflTransGen`  what a listed node needs is listed as well
* `Respects.precedes_of_transGen` and listed before it
* `respects_append_singleton`     how an order grows by one node
* `isOrder_of_length_le`          a list of different nodes is an order when it is long enough
* `IsOrder.precedes_of_transGen`  a node comes after all that it needs, directly or not
* `IsOrder.acyclic`               only a graph without cycles has an order
-/

namespace BuildOrder.Digraph

open Relation

variable {n : Nat}

/-- A node depends directly on another. -/
def Depends (g : Digraph n) (i j : Fin n) : Prop := j ∈ g.dependencies i

instance (g : Digraph n) (i j : Fin n) : Decidable (g.Depends i j) :=
  inferInstanceAs (Decidable (j ∈ g.dependencies i))

/-- No node needs itself, directly or through others. -/
def Acyclic (g : Digraph n) : Prop := ∀ i, ¬ TransGen g.Depends i i

/-- Every node of a list comes after the nodes on which it depends. -/
def Respects (g : Digraph n) (xs : List (Fin n)) : Prop :=
  ∀ i ∈ xs, ∀ j, g.Depends i j → Precedes xs j i

/-- All nodes, each once and after the nodes on which it depends. -/
structure IsOrder (g : Digraph n) (xs : List (Fin n)) : Prop where
  perm : xs.Perm (List.finRange n)
  respects : g.Respects xs

theorem respects_nil (g : Digraph n) : g.Respects [] := fun _ hi => absurd hi List.not_mem_nil

/-- All that a node of the list needs is in the list. -/
theorem Respects.mem_of_reflTransGen {g : Digraph n} {xs : List (Fin n)} (h : g.Respects xs)
    {i j : Fin n} (hi : i ∈ xs) (hij : ReflTransGen g.Depends i j) : j ∈ xs := by
  -- Along the way the property goes from each node to the next.
  induction hij with
  | refl => exact hi
  | tail _ hkl ih => exact (h _ ih _ hkl).mem_left

/-- A node of the list comes after all that it needs. -/
theorem Respects.precedes_of_transGen {g : Digraph n} {xs : List (Fin n)} (h : g.Respects xs)
    (hnodup : xs.Nodup) {i j : Fin n} (hi : i ∈ xs) (hij : TransGen g.Depends i j) : Precedes xs j i := by
  induction hij with
  | single hik => exact h i hi _ hik
  -- The next node comes before the last one, which is in the list because it comes before the first
  -- one.
  | tail _ hkl ih => exact (h _ ih.mem_left _ hkl).trans hnodup ih

/-- A node may be put at the end when all that it depends on is there. -/
theorem respects_append_singleton {g : Digraph n} {xs : List (Fin n)} {i : Fin n}
    (h : g.Respects xs) (hi : ∀ j, g.Depends i j → j ∈ xs) : g.Respects (xs ++ [i]) := by
  intro k hk j hkj
  rcases List.mem_append.1 hk with hk | hk
  -- What comes later does not disturb the nodes before it.
  · exact (h k hk j hkj).append [i]
  · obtain rfl := List.mem_singleton.1 hk
    exact precedes_append_singleton (hi j hkj) k

/-- Different nodes are no more than there are. -/
theorem length_le_of_nodup {xs : List (Fin n)} (h : xs.Nodup) : xs.length ≤ n := by
  -- The nodes of the list are among all nodes, with no repetition that would count twice.
  have hsubset := List.subperm_of_subset h fun i _ => List.mem_finRange i
  have hlength := hsubset.length_le
  rwa [List.length_finRange] at hlength

/-- A list that holds all nodes is at least as long. -/
theorem le_length_of_forall_mem {xs : List (Fin n)} (h : ∀ i, i ∈ xs) : n ≤ xs.length := by
  have hsubset : List.finRange n ⊆ xs := fun i _ => h i
  have hlength := (List.subperm_of_subset (List.nodup_finRange n) hsubset).length_le
  rwa [List.length_finRange] at hlength

/-- Different nodes are all the nodes when they are as many. -/
theorem isOrder_of_length_le {g : Digraph n} {xs : List (Fin n)} (hnodup : xs.Nodup)
    (hrespects : g.Respects xs) (hlength : n ≤ xs.length) : g.IsOrder xs := by
  refine ⟨?_, hrespects⟩
  have hsubset : xs.Subperm (List.finRange n) :=
    List.subperm_of_subset hnodup fun i _ => List.mem_finRange i
  exact hsubset.perm_of_length_le (by rwa [List.length_finRange])

theorem IsOrder.mem {g : Digraph n} {xs : List (Fin n)} (h : g.IsOrder xs) (i : Fin n) : i ∈ xs :=
  h.perm.mem_iff.2 (List.mem_finRange i)

theorem IsOrder.nodup {g : Digraph n} {xs : List (Fin n)} (h : g.IsOrder xs) : xs.Nodup :=
  h.perm.nodup_iff.2 (List.nodup_finRange n)

/-- A node comes after all that it needs. -/
theorem IsOrder.precedes_of_transGen {g : Digraph n} {xs : List (Fin n)} (h : g.IsOrder xs)
    {i j : Fin n} (hij : TransGen g.Depends i j) : Precedes xs j i :=
  h.respects.precedes_of_transGen h.nodup (h.mem i) hij

/-- Only a graph without cycles has an order: on a cycle, a node would come before itself. -/
theorem IsOrder.acyclic {g : Digraph n} {xs : List (Fin n)} (h : g.IsOrder xs) : g.Acyclic :=
  fun _ hi => Precedes.irrefl h.nodup (h.precedes_of_transGen hi)

end BuildOrder.Digraph
