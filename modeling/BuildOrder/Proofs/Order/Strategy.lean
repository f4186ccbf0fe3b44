import BuildOrder.Order.Strategy
import BuildOrder.Proofs.Order.DepthFirst
import BuildOrder.Proofs.Order.Kahn

/-! # Both strategies are sound and complete

* `isOrder_of_order_eq_ok`      what a strategy gives is an order of the graph
* `isCycle_of_order_eq_error`   what it reports is a cycle of the graph
* `exists_order_eq_ok_iff`      a strategy succeeds on the graphs without cycles
-/

namespace BuildOrder.Strategy

open BuildOrder.Digraph

variable {n : Nat}

/-- What a strategy gives is an order of the graph. -/
theorem isOrder_of_order_eq_ok {strategy : Strategy} {g : Digraph n} {nodes : List (Fin n)}
    (h : strategy.order g = .ok nodes) : g.IsOrder nodes := by
  cases strategy with
  | depthFirst =>
    -- The search with a stack has the outcome of the recursive one, for which this is known.
    rw [order, DepthFirst.order_eq] at h
    split at h
    · rename_i hplaced
      obtain rfl := Except.ok.inj h
      exact Recursive.isOrder_of_order_eq_ok hplaced
    · cases h
  | kahn => exact Kahn.isOrder_of_order_eq_ok h

/-- What a strategy reports is a cycle of the graph. -/
theorem isCycle_of_order_eq_error {strategy : Strategy} {g : Digraph n} {finding : Finding n}
    (h : strategy.order g = .error finding) :
    ∃ nodes, finding = .cycle nodes ∧ IsCycle g.Depends nodes := by
  cases strategy with
  | depthFirst =>
    rw [order, DepthFirst.order_eq] at h
    split at h
    · cases h
    · rename_i cycle hcycle
      exact ⟨cycle, (Except.error.inj h).symm, Recursive.isCycle_of_order_eq_error hcycle⟩
  | kahn => exact Kahn.isCycle_of_order_eq_error h

/-- A strategy succeeds on the graphs without cycles. -/
theorem exists_order_eq_ok_iff {strategy : Strategy} {g : Digraph n} :
    (∃ nodes, strategy.order g = .ok nodes) ↔ g.Acyclic := by
  constructor
  · rintro ⟨nodes, h⟩
    exact (isOrder_of_order_eq_ok h).acyclic
  · intro hacyclic
    cases h : strategy.order g with
    | ok nodes => exact ⟨nodes, rfl⟩
    | error finding =>
      obtain ⟨nodes, -, hcycle⟩ := isCycle_of_order_eq_error h
      -- The reported cycle would make a node need itself.
      obtain ⟨i, -, hi⟩ := hcycle.transGen
      exact absurd hi (hacyclic i)

end BuildOrder.Strategy
