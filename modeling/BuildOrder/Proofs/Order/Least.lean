import BuildOrder.Proofs.Order.Strategy

/-! # The sort by readiness gives the least order

Of the nodes whose dependencies have been placed, each step places the lowest.  Where another order
of the graph first differs, it puts a node that could have been placed at that point as well, and so
a higher one.

* `greedy_steps`            the run that makes the sort places the lowest possible node each time
* `IsOrder.eq_or_lex`       an order that does so comes before all others
* `order_least`             the sort by readiness gives the first order of a graph
-/

namespace BuildOrder

variable {n : Nat}

namespace Digraph

/-- Each node of a list is the lowest that could stand in its place: no other node that is new
    there, and whose dependencies stand before, is lower. -/
def Greedy (g : Digraph n) (xs : List (Fin n)) : Prop :=
  ∀ pre v, pre ++ [v] <+: xs → ∀ w, w ∉ pre → (∀ j, g.Depends w j → j ∈ pre) → v ≤ w

theorem greedy_nil (g : Digraph n) : g.Greedy [] := by
  intro pre v hpre
  simp at hpre

/-- One more node may be put at the end when no lower one could stand there. -/
theorem greedy_append_singleton {g : Digraph n} {xs : List (Fin n)} {v : Fin n} (h : g.Greedy xs)
    (hv : ∀ w, w ∉ xs → (∀ j, g.Depends w j → j ∈ xs) → v ≤ w) : g.Greedy (xs ++ [v]) := by
  intro pre u hpre
  rcases List.prefix_concat_iff.1 hpre with heq | hpre
  · -- The last node is the new one.
    obtain ⟨rfl, hu⟩ := List.append_inj' heq rfl
    obtain rfl : u = v := by simpa using hu
    exact hv
  · exact h pre u hpre

/-- Two orders that agree up to some point go on alike, or else the greedy one with a lower node. -/
theorem eq_or_lex_of_append {g : Digraph n} (pre : List (Fin n)) {xs ys : List (Fin n)}
    (hgreedy : g.Greedy (pre ++ xs)) (hys : g.IsOrder (pre ++ ys)) (hlength : xs.length = ys.length) :
    ys = xs ∨ List.Lex (· < ·) xs ys := by
  -- By induction on what follows, with the common part growing by one node at a time.
  induction xs generalizing pre ys with
  | nil =>
    left
    exact List.length_eq_zero_iff.1 hlength.symm
  | cons v xs ih =>
    cases ys with
    | nil => simp at hlength
    | cons w ys =>
      -- The other order may put its next node only when all that it depends on stands before.
      have hw : w ∉ pre := fun hmem =>
        List.disjoint_of_nodup_append hys.nodup hmem List.mem_cons_self
      have hdeps : ∀ j, g.Depends w j → j ∈ pre := fun j hj =>
        Precedes.mem_of_append_cons hys.nodup (hys.respects w (by simp) j hj)
      have hle : v ≤ w := hgreedy pre v (by simp) w hw hdeps
      -- The orders differ here, or they go on with the same node.
      rcases Fin.lt_or_eq_of_le hle with hlt | rfl
      · exact .inr (.rel hlt)
      · have hnext : ys = xs ∨ List.Lex (· < ·) xs ys := by
          refine ih (pre ++ [v]) ?_ ?_ (by simpa using hlength)
          · rwa [List.append_assoc]
          · rwa [List.append_assoc]
        rcases hnext with rfl | hlex
        · exact .inl rfl
        · exact .inr (.cons hlex)

/-- An order that always takes the lowest possible node comes before all others. -/
theorem IsOrder.eq_or_lex {g : Digraph n} {xs ys : List (Fin n)} (hxs : g.IsOrder xs)
    (hgreedy : g.Greedy xs) (hys : g.IsOrder ys) : ys = xs ∨ List.Lex (· < ·) xs ys :=
  eq_or_lex_of_append [] hgreedy hys (hxs.perm.trans hys.perm.symm).length_eq

end Digraph

namespace Kahn

open BuildOrder.Digraph

/-- A step places the lowest node that could be placed. -/
theorem greedy_step {g : Digraph n} {s : State n} (h : Invariant g s) (hgreedy : g.Greedy s.placed) :
    g.Greedy (s.step g).placed := by
  unfold State.step
  cases hready : s.ready with
  -- No node is ready, and none is placed.
  | nil => exact hgreedy
  | cons i rest =>
    dsimp only
    rw [placed_foldl_release]
    refine greedy_append_singleton hgreedy fun w hw hdeps => ?_
    -- Whatever could be placed is ready, and the ready nodes stand in ascending order.
    have hmem : w ∈ s.ready := (h.ready w).2 ⟨hw, missing_eq_zero_iff.2 hdeps⟩
    obtain ⟨-, -, hlow, -⟩ := h.of_ready_cons hready
    rw [hready] at hmem
    rcases List.mem_cons.1 hmem with rfl | hmem
    · exact Fin.le_refl w
    · exact Fin.le_of_lt (hlow w hmem)

/-- A run of any number of steps places the lowest possible node each time. -/
theorem greedy_steps {g : Digraph n} {s : State n} (h : Invariant g s) (hgreedy : g.Greedy s.placed)
    (k : Nat) : g.Greedy (s.steps g k).placed := by
  induction k generalizing s with
  | zero => exact hgreedy
  | succ k ih => exact ih h.step (greedy_step h hgreedy)

/-- The order that the sort gives is a greedy one. -/
theorem greedy_of_order_eq_ok {g : Digraph n} {nodes : List (Fin n)} (h : order g = .ok nodes) :
    g.Greedy nodes := by
  have hfinal : g.Greedy (final g).placed := greedy_steps (invariant_start g) (greedy_nil g) n
  rw [order] at h
  split at h
  · cases h
  · exact Except.ok.inj h ▸ hfinal

/-- On a graph without cycles, the sort by readiness gives an order of the graph, and the first one
    when orders are compared node by node. -/
theorem order_least (g : Digraph n) (hacyclic : g.Acyclic) :
    ∃ nodes, order g = .ok nodes ∧ g.IsOrder nodes ∧
      ∀ other, g.IsOrder other → other = nodes ∨ List.Lex (· < ·) nodes other := by
  obtain ⟨nodes, horder⟩ : ∃ nodes, Strategy.kahn.order g = .ok nodes :=
    Strategy.exists_order_eq_ok_iff.2 hacyclic
  have hnodes := isOrder_of_order_eq_ok horder
  exact ⟨nodes, horder, hnodes, fun other => hnodes.eq_or_lex (greedy_of_order_eq_ok horder)⟩

/-- The first of three nodes depends on the last. -/
def lateNeed : Digraph 3 := (edgeless 3).addEdge 0 2

/-- The first node has to wait for the last one, and no order begins with a lower node than the second. -/
theorem order_least_of_lateNeed :
    lateNeed.Acyclic ∧ order lateNeed = .ok [1, 2, 0] ∧
      ∀ other, lateNeed.IsOrder other → other = [1, 2, 0] ∨ List.Lex (· < ·) [1, 2, 0] other := by
  have horder : order lateNeed = .ok [1, 2, 0] := by decide
  have hacyclic : lateNeed.Acyclic := (isOrder_of_order_eq_ok horder).acyclic
  obtain ⟨nodes, hnodes, -, hleast⟩ := order_least lateNeed hacyclic
  obtain rfl : [1, 2, 0] = nodes := Except.ok.inj (horder.symm.trans hnodes)
  exact ⟨hacyclic, horder, hleast⟩

end Kahn

end BuildOrder
