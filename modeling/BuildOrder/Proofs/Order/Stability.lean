import BuildOrder.Proofs.Order.Strategy
import Mathlib.Order.WellFounded

/-! # The search depth first is stable

The search visits the nodes from the lowest up, and each visit places what its node needs and has
not been placed before.  A node is therefore placed for the lowest node that needs it, and that node
follows when the visit ends.

* `first_eq_of`       which node a node is placed for
* `Stable.visit`      what one visit from the top adds
* `stable_visitAll`   what the visits of all nodes in ascending order come to
* `order_stable`      when a node may come before a lower one
-/

namespace BuildOrder

open Relation

variable {n : Nat}

namespace Digraph

/-- The lowest node that is a given one or needs it, directly or through others. -/
noncomputable def first (g : Digraph n) (v : Fin n) : Fin n :=
  wellFounded_lt.min {r | ReflTransGen g.Depends r v} ⟨v, .refl⟩

/-- The node that a node is placed for is that node or needs it. -/
theorem first_needs (g : Digraph n) (v : Fin n) : ReflTransGen g.Depends (g.first v) v :=
  WellFounded.min_mem wellFounded_lt {r | ReflTransGen g.Depends r v} _

/-- No lower node needs a node than the one that it is placed for. -/
theorem first_le {g : Digraph n} {r v : Fin n} (h : ReflTransGen g.Depends r v) : g.first v ≤ r :=
  Fin.not_lt.1 (WellFounded.not_lt_min wellFounded_lt {r | ReflTransGen g.Depends r v} h)

/-- A node that needs another one is the one that this is placed for, if no lower node needs it. -/
theorem first_eq_of {g : Digraph n} {r v : Fin n} (h : ReflTransGen g.Depends r v)
    (hleast : ∀ k, ReflTransGen g.Depends k v → r ≤ k) : g.first v = r :=
  Fin.le_antisymm (first_le h) (hleast _ (g.first_needs v))

/-- No lower node needs the lowest node that needs another one. -/
theorem first_first (g : Digraph n) (v : Fin n) : g.first (g.first v) = g.first v :=
  first_eq_of .refl fun _ hk => first_le (hk.trans (g.first_needs v))

/-- A node that is not placed for itself is needed by the one that it is placed for. -/
theorem transGen_of_first_ne {g : Digraph n} {v : Fin n} (h : v ≠ g.first v) :
    TransGen g.Depends (g.first v) v :=
  (reflTransGen_iff_eq_or_transGen.1 (g.first_needs v)).resolve_left h

end Digraph

namespace Recursive

open BuildOrder.Digraph

/-- What holds of the placed nodes when some nodes have been visited from the top, the lowest
    first. -/
structure Stable (g : Digraph n) (seen placed : List (Fin n)) : Prop where
  placement : Placement g [] placed
  seen_placed : ∀ i ∈ seen, i ∈ placed
  first_seen : ∀ v ∈ placed, g.first v ∈ seen
  sorted : placed.Pairwise fun v w => g.first v ≤ g.first w
  last : ∀ v ∈ placed, v ≠ g.first v → Precedes placed v (g.first v)

/-- Before any visit, there is nothing to be in order. -/
theorem stable_nil (g : Digraph n) : Stable g [] [] where
  placement := placement_nil g
  seen_placed _ hi := absurd hi List.not_mem_nil
  first_seen _ hv := absurd hv List.not_mem_nil
  sorted := .nil
  last _ hv := absurd hv List.not_mem_nil

/-- What a node needs and has not been placed when all lower nodes are, is placed for that node. -/
theorem Stable.first_eq {g : Digraph n} {seen placed : List (Fin n)} {i v : Fin n}
    (h : Stable g seen placed) (hseen : ∀ j, j ∈ seen ↔ j < i) (hiv : ReflTransGen g.Depends i v)
    (hv : v ∉ placed) : g.first v = i := by
  refine first_eq_of hiv fun k hkv => Fin.not_lt.1 fun hlt => hv ?_
  -- A lower node has been placed, with all that it needs.
  have hk : k ∈ placed := h.seen_placed k ((hseen k).2 hlt)
  exact h.placement.respects.mem_of_reflTransGen hk hkv

/-- A node that has been placed already changes nothing when its turn comes. -/
theorem Stable.pass {g : Digraph n} {seen placed : List (Fin n)} {i : Fin n}
    (h : Stable g seen placed) (hi : i ∈ placed) : Stable g (seen ++ [i]) placed where
  placement := h.placement
  seen_placed j hj := (List.mem_append.1 hj).elim (h.seen_placed j) fun hj => List.mem_singleton.1 hj ▸ hi
  first_seen v hv := List.mem_append_left _ (h.first_seen v hv)
  sorted := h.sorted
  last := h.last

/-- A visit from the top places what its node needs for that node, and then the node. -/
theorem Stable.visit {g : Digraph n} {seen placed inner : List (Fin n)} {i : Fin n}
    (h : Stable g seen placed) (hseen : ∀ j, j ∈ seen ↔ j < i) (hi : i ∉ placed)
    (hvisit : visitAll g [i] placed (g.dependencies i) = .ok inner) :
    Stable g (seen ++ [i]) (inner ++ [i]) := by
  -- What the visit has placed besides the node comes after what was placed before.
  obtain ⟨⟨new, rfl⟩, hdeps, hinner⟩ := visitAll_ok hvisit (h.placement.deeper hi)
  have hnew : ∀ v ∈ new, g.first v = i := by
    intro v hv
    have hfresh : v ∉ placed := fun hmem => List.disjoint_of_nodup_append hinner.nodup hmem hv
    obtain ⟨j, hj, hjv⟩ :=
      (mem_of_visitAll hvisit (List.mem_append_right _ hv)).resolve_left hfresh
    exact h.first_eq hseen (.head hj hjv) hfresh
  have hself : g.first i = i := h.first_eq hseen .refl hi
  -- All that is new, the node included, is placed for the node.
  have hadded : ∀ v ∈ new ++ [i], g.first v = i := by
    intro v hv
    rcases List.mem_append.1 hv with hv | hv
    · exact hnew v hv
    · exact List.mem_singleton.1 hv ▸ hself
  refine ⟨hinner.append_singleton List.not_mem_nil hdeps, fun j hj => ?_, fun v hv => ?_, ?_,
    fun v hv hne => ?_⟩
  · rcases List.mem_append.1 hj with hj | hj
    · exact List.mem_append_left _ (List.mem_append_left _ (h.seen_placed j hj))
    · exact List.mem_append_right _ hj
  · rw [List.append_assoc] at hv
    rcases List.mem_append.1 hv with hv | hv
    · exact List.mem_append_left _ (h.first_seen v hv)
    · rw [hadded v hv]
      exact List.mem_append_right _ List.mem_cons_self
  · -- What was placed before was placed for lower nodes.
    rw [List.append_assoc, List.pairwise_append]
    refine ⟨h.sorted, ?_, fun v hv w hw => ?_⟩
    · refine List.pairwise_of_forall_mem_list fun v hv w hw => ?_
      rw [hadded v hv, hadded w hw]
    · rw [hadded w hw]
      exact Fin.le_of_lt ((hseen _).1 (h.first_seen v hv))
  · rcases List.mem_append.1 hv with hv | hv
    · rcases List.mem_append.1 hv with hold | hv
      · rw [List.append_assoc]
        exact (h.last v hold hne).append _
      · rw [hnew v hv]
        -- What is new precedes the node, which comes last.
        exact precedes_append_singleton (List.mem_append_right _ hv) i
    · obtain rfl := List.mem_singleton.1 hv
      exact absurd hself.symm hne

/-- In an ascending list of all nodes, those before a node are the lower ones. -/
theorem mem_iff_lt_of_append {seen rest : List (Fin n)} {i : Fin n}
    (h : seen ++ i :: rest = List.finRange n) (j : Fin n) : j ∈ seen ↔ j < i := by
  have hascending : (seen ++ i :: rest).Pairwise (· < ·) := h ▸ List.pairwise_lt_finRange n
  obtain ⟨-, hrest, hseen⟩ := List.pairwise_append.1 hascending
  refine ⟨fun hj => hseen j hj i List.mem_cons_self, fun hlt => ?_⟩
  -- Every node is in the list, and one that comes later is not lower.
  have hj : j ∈ seen ++ i :: rest := h ▸ List.mem_finRange j
  rcases List.mem_append.1 hj with hj | hj
  · exact hj
  · rcases List.mem_cons.1 hj with rfl | hj
    · exact absurd hlt (Fin.lt_irrefl j)
    · exact absurd ((List.pairwise_cons.1 hrest).1 j hj) (Fin.lt_asymm hlt)

/-- The visits of all nodes in ascending order. -/
theorem stable_visitAll {g : Digraph n} {seen placed nodes inner : List (Fin n)}
    (h : visitAll g [] placed nodes = .ok inner) (hstable : Stable g seen placed)
    (hsplit : seen ++ nodes = List.finRange n) : Stable g (List.finRange n) inner := by
  -- The visits from the top are taken one by one, the nodes seen so far being those below the next one.
  induction nodes generalizing seen placed with
  | nil =>
    rw [visitAll] at h
    obtain rfl := Except.ok.inj h
    rwa [← hsplit, List.append_nil]
  | cons i rest ih =>
    have hseen := mem_iff_lt_of_append hsplit
    have hnext : seen ++ [i] ++ rest = List.finRange n := by rwa [List.append_assoc]
    rw [visitAll] at h
    by_cases hi : i ∈ placed
    · rw [if_pos hi] at h
      exact ih h (hstable.pass hi) hnext
    · rw [if_neg hi, dif_neg List.not_mem_nil] at h
      -- A successful run has been through a successful visit of the node.
      cases hvisit : visitAll g [i] placed (g.dependencies i) with
      | ok visited =>
        simp only [List.nil_append, hvisit] at h
        exact ih h (hstable.visit hseen hi hvisit) hnext
      | error cycle => simp [hvisit] at h

end Recursive

namespace DepthFirst

open BuildOrder.Digraph

/-- The order that the search with a stack gives is stable, because the recursive search has it. -/
theorem stable_of_order_eq_ok {g : Digraph n} {nodes : List (Fin n)} (h : order g = .ok nodes) :
    Recursive.Stable g (List.finRange n) nodes := by
  rw [order_eq] at h
  cases hrecursive : Recursive.order g with
  | ok placed =>
    rw [hrecursive] at h
    obtain rfl := Except.ok.inj h
    exact Recursive.stable_visitAll hrecursive (Recursive.stable_nil g) rfl
  | error cycle => simp [hrecursive] at h

/-- On a graph without cycles, the search depth first gives an order of the graph in which the nodes
    stand by the lowest node that needs them, which comes last among those that it is the lowest for.
    So a node comes before a lower one only if that one, or one lower still, needs it. -/
theorem order_stable (g : Digraph n) (hacyclic : g.Acyclic) :
    ∃ nodes, order g = .ok nodes ∧ g.IsOrder nodes ∧
      nodes.Pairwise (fun v w => g.first v ≤ g.first w) ∧
      (∀ v, g.first (g.first v) = g.first v ∧ (v ≠ g.first v → Precedes nodes v (g.first v))) ∧
      ∀ i j, i < j → Precedes nodes j i → ∃ k, k ≤ i ∧ TransGen g.Depends k j := by
  obtain ⟨nodes, horder⟩ : ∃ nodes, Strategy.depthFirst.order g = .ok nodes :=
    Strategy.exists_order_eq_ok_iff.2 hacyclic
  have hnodes : g.IsOrder nodes := Strategy.isOrder_of_order_eq_ok horder
  have hstable := stable_of_order_eq_ok horder
  refine ⟨nodes, horder, hnodes, hstable.sorted, fun v => ?_, fun i j hlt hji => ?_⟩
  · exact ⟨g.first_first v, hstable.last v (hnodes.mem v)⟩
  · -- The higher node is placed for a node that is not higher than the lower one.
    have hle : g.first j ≤ i := by
      have hsorted : g.first j ≤ g.first i := List.pairwise_iff_forall_sublist.1 hstable.sorted hji
      exact Fin.le_trans hsorted (first_le .refl)
    -- It is placed for a lower node, which is hence another one, and needs it.
    have hne : j ≠ g.first j := Fin.ne_of_gt (Fin.lt_of_le_of_lt hle hlt)
    exact ⟨g.first j, hle, transGen_of_first_ne hne⟩

/-- The last of four nodes is needed by the two in the middle, the second of which needs the first
    as well. -/
def sharedNeed : Digraph 4 := (((edgeless 4).addEdge 1 3).addEdge 2 3).addEdge 2 0

/-- The last node overtakes the one before it, for the sake of a lower one. -/
theorem order_stable_of_sharedNeed :
    sharedNeed.Acyclic ∧ order sharedNeed = .ok [0, 3, 1, 2] ∧
      [0, 3, 1, 2].Pairwise (fun v w => sharedNeed.first v ≤ sharedNeed.first w) ∧
      ∃ k, k ≤ 2 ∧ TransGen sharedNeed.Depends k 3 := by
  have hrange : List.finRange 4 = [0, 1, 2, 3] := by decide
  have hdeps : ∀ i, sharedNeed.dependencies i =
      match i with | 0 => [] | 1 => [3] | 2 => [0, 3] | 3 => [] := by decide
  have hrecursive : Recursive.order sharedNeed = .ok [0, 3, 1, 2] := by
    simp [Recursive.order, Recursive.visitAll, hrange, hdeps]
  have horder : Strategy.depthFirst.order sharedNeed = .ok [0, 3, 1, 2] := by
    rw [Strategy.order, order_eq, hrecursive]
  have hacyclic : sharedNeed.Acyclic := Strategy.exists_order_eq_ok_iff.1 ⟨_, horder⟩
  obtain ⟨nodes, hnodes, -, hsorted, -, hovertakes⟩ := order_stable sharedNeed hacyclic
  obtain rfl : [0, 3, 1, 2] = nodes := Except.ok.inj (horder.symm.trans hnodes)
  have hprecedes : Precedes [0, 3, 1, 2] (3 : Fin 4) 2 := by
    unfold Precedes
    decide
  exact ⟨hacyclic, horder, hsorted, hovertakes 2 3 (by decide) hprecedes⟩

end DepthFirst

end BuildOrder
