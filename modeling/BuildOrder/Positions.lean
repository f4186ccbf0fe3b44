import BuildOrder.SourceUnit

/-! # Positions of units

Where each unit stands in a list of units.  A unit is looked up by its identity:

* `find?_empty`    no unit has a position before one is recorded
* `find?_insert`   the recorded unit has the recorded position, all others have theirs as before
-/

namespace BuildOrder

/-- The positions recorded for units, the latest first. -/
structure Positions where
  entries : List (Identity × Nat)

namespace Positions

/-- No positions. -/
def empty : Positions := ⟨[]⟩

/-- The position of a unit. -/
def find? (p : Positions) (u : SourceUnit) : Option Nat := p.entries.lookup u.identity

/-- Records the position of a unit, in place of any that was recorded for it before. -/
def insert (p : Positions) (u : SourceUnit) (i : Nat) : Positions := ⟨(u.identity, i) :: p.entries⟩

@[simp] theorem find?_empty (u : SourceUnit) : empty.find? u = none := rfl

theorem find?_insert (p : Positions) (u v : SourceUnit) (i : Nat) :
    (p.insert u i).find? v = if v.identity = u.identity then some i else p.find? v := by
  simp only [find?, insert, List.lookup_cons]
  by_cases h : v.identity = u.identity
  · simp [h]
  · have hne : (v.identity == u.identity) = false := by simpa using h
    simp [h, hne]

end Positions

end BuildOrder
