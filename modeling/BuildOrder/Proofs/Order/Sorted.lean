import BuildOrder.Proofs.Order.Least
import BuildOrder.Proofs.Order.Stability
import Mathlib.Data.List.Lex

/-! # Sorting a graph that is in order already

When each node depends on lower ones only, the nodes are in order as they stand.  No node has to wait
for a higher one, and both strategies leave all of them where they are.

* `greedy_finRange`       nothing lower is left over when the nodes are taken as they stand
* `IsOrder.eq_of_greedy`  so that the sort by readiness can give no other order
* `Ordered.first_eq`      and each node is placed for itself by the search depth first
* `order_eq_finRange`     both strategies give the nodes as they stand
-/

namespace BuildOrder

open Relation

variable {n : Nat}

namespace Digraph

/-- Each node depends on lower nodes only. -/
def Ordered (g : Digraph n) : Prop := ∀ i j, g.Depends i j → j < i

/-- The nodes as they stand are an order of such a graph. -/
theorem Ordered.isOrder_finRange {g : Digraph n} (h : g.Ordered) : g.IsOrder (List.finRange n) where
  perm := List.Perm.refl _
  respects i hi j hij := by
    -- Before a node stand exactly the lower ones, and so what it depends on.
    obtain ⟨lower, higher, hsplit⟩ := List.append_of_mem hi
    have hj : j ∈ lower := (Recursive.mem_iff_lt_of_append hsplit.symm j).2 (h i j hij)
    have hprecedes := (precedes_append_singleton hj i).append higher
    rwa [List.append_assoc, List.singleton_append, ← hsplit] at hprecedes

/-- Taken as they stand, each node is the lowest that is left. -/
theorem greedy_finRange (g : Digraph n) : g.Greedy (List.finRange n) := by
  rintro pre v ⟨rest, hsplit⟩ w hw -
  rw [List.append_assoc] at hsplit
  -- A lower node would have been taken before.
  exact Fin.not_lt.1 fun hlt => hw ((Recursive.mem_iff_lt_of_append hsplit w).2 hlt)

/-- There is only one order that always takes the lowest possible node. -/
theorem IsOrder.eq_of_greedy {g : Digraph n} {xs ys : List (Fin n)} (hxs : g.IsOrder xs)
    (hgreedyxs : g.Greedy xs) (hys : g.IsOrder ys) (hgreedyys : g.Greedy ys) : xs = ys := by
  -- Each of the two is the least order, so that neither comes before the other.
  rcases hxs.eq_or_lex hgreedyxs hys with heq | hlex
  · exact heq.symm
  · rcases hys.eq_or_lex hgreedyys hxs with heq | hlex'
    · exact heq
    · exact absurd hlex' (asymm hlex)

/-- Where each node depends on lower ones, it needs none that is higher. -/
theorem Ordered.le_of_reflTransGen {g : Digraph n} (h : g.Ordered) {i j : Fin n}
    (hij : ReflTransGen g.Depends i j) : j ≤ i := by
  induction hij with
  | refl => exact Fin.le_refl i
  | tail _ hjk ih => exact Fin.le_trans (Fin.le_of_lt (h _ _ hjk)) ih

/-- No lower node needs a node. -/
theorem Ordered.first_eq {g : Digraph n} (h : g.Ordered) (v : Fin n) : g.first v = v :=
  first_eq_of .refl fun _ hk => h.le_of_reflTransGen hk

end Digraph

namespace Strategy

open BuildOrder.Digraph

/-- Both strategies leave nodes that are in order where they are. -/
theorem order_eq_finRange (strategy : Strategy) {g : Digraph n} (h : g.Ordered) :
    strategy.order g = .ok (List.finRange n) := by
  obtain ⟨nodes, hnodes⟩ : ∃ nodes, strategy.order g = .ok nodes :=
    exists_order_eq_ok_iff.2 h.isOrder_finRange.acyclic
  have horder := isOrder_of_order_eq_ok hnodes
  suffices nodes = List.finRange n by rw [hnodes, this]
  cases strategy with
  -- The nodes as they stand are the greedy order, and there is no other.
  | kahn =>
    exact horder.eq_of_greedy (Kahn.greedy_of_order_eq_ok hnodes) h.isOrder_finRange (greedy_finRange g)
  | depthFirst =>
    -- The nodes stand by the nodes that they are placed for, which are themselves.
    have hsorted := (DepthFirst.stable_of_order_eq_ok hnodes).sorted
    simp only [h.first_eq] at hsorted
    exact horder.perm.eq_of_pairwise (fun _ _ _ _ => Fin.le_antisymm) hsorted (List.pairwise_le_finRange n)

end Strategy

end BuildOrder
