import BuildOrder.Order.Strategy

/-! # Policies

A policy says which units a manifest keeps and in which order it gives them.
-/

namespace BuildOrder

/-- How a manifest is computed. -/
structure Policy where
  /-- Whether all units are kept, needed or not. -/
  keepAllUnits : Bool := false
  /-- Whether units that provide nothing count as entry points. -/
  keepMoochers : Bool := false
  /-- Whether units stay in the order in which they were added. -/
  keepOriginalOrder : Bool := false
  /-- How units are sorted otherwise. -/
  strategy : Strategy := .depthFirst
deriving DecidableEq

end BuildOrder
