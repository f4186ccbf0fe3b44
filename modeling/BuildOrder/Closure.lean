import BuildOrder.Counting
import BuildOrder.DependencyGraph

/-! # The closure of entry units

The closure holds the entry units and everything that they need, directly or through others.  It
is found by a breadth-first walk over required namespaces, and given in the order of a list of
known units.

The walk ends because each step takes one unit from the queue, and a unit is put there only when
it has not been visited before: see `measure_expand_le`.
-/

namespace BuildOrder

namespace Closure

/-- A walk in progress.  Of the values that describe one unit, the first that was met is kept. -/
structure Walk where
  /-- The units met so far, in the order of meeting. -/
  visited : List SourceUnit
  /-- Those of them whose requirements have not been followed. -/
  queue : List SourceUnit

namespace Walk

/-- Whether a unit has been met. -/
def meets (w : Walk) (u : SourceUnit) : Bool := w.visited.any u.same

/-- Meets a unit: it is visited and queued, unless it has been met before. -/
def visit (w : Walk) (u : SourceUnit) : Walk :=
  if w.meets u then w else ⟨w.visited ++ [u], w.queue ++ [u]⟩

/-- The walk that has met the entry units. -/
def start (entries : List SourceUnit) : Walk := entries.foldl visit ⟨[], []⟩

/-- Follows requirements of a unit. -/
def expand (registry : Registry) (policy : MissingPolicy) (current : SourceUnit) :
    List Namespace → Walk → Except Fault Walk
  | [], w => .ok w
  | ns :: rest, w =>
    match registry.resolve ns with
    | some provider =>
      expand registry policy current rest (if provider.same current then w else w.visit provider)
    | none =>
      match policy with
      | .ignore => expand registry policy current rest w
      | .fail => .error (.missingDependency ns current)

/-- How many steps are left at most: each provider that has not been met may still be queued. -/
def measure (registry : Registry) (w : Walk) : Nat :=
  registry.providers.countP (fun u => !w.meets u) + w.queue.length

theorem meets_visit_self (w : Walk) (u : SourceUnit) : (w.visit u).meets u = true := by
  rw [visit]
  split
  · assumption
  · simp [meets]

theorem meets_visit_of_meets {w : Walk} {u : SourceUnit} (v : SourceUnit) (h : w.meets u = true) :
    (w.visit v).meets u = true := by
  rw [visit]
  split
  · exact h
  · rw [meets, List.any_append]
    exact Bool.or_eq_true_iff.2 (Or.inl h)

theorem measure_visit_le {registry : Registry} (w : Walk) {u : SourceUnit} (hu : u ∈ registry.providers) :
    (w.visit u).measure registry ≤ w.measure registry := by
  by_cases h : w.meets u = true
  · simp [visit, h]
  · -- The unit leaves the providers that have not been met and joins the queue.
    have hlt : registry.providers.countP (fun v => !(w.visit u).meets v) <
        registry.providers.countP (fun v => !w.meets v) := by
      apply countP_lt_countP _ hu
      · simp [meets_visit_self]
      · simpa using h
      · intro v _ hv
        by_cases hw : w.meets v = true
        · simp [meets_visit_of_meets u hw] at hv
        · simpa using hw
    have hqueue : (w.visit u).queue.length = w.queue.length + 1 := by simp [visit, h]
    rw [measure, measure, hqueue]
    omega

/-- Following requirements does not bring the end of the walk further away. -/
theorem measure_expand_le {registry : Registry} {policy : MissingPolicy} {current : SourceUnit}
    {names : List Namespace} {w next : Walk} (h : expand registry policy current names w = .ok next) :
    next.measure registry ≤ w.measure registry := by
  induction names generalizing w with
  | nil =>
    obtain rfl : w = next := Except.ok.inj h
    exact Nat.le_refl _
  | cons ns rest ih =>
    cases hresolve : registry.resolve ns with
    | some provider =>
      simp only [expand, hresolve] at h
      refine Nat.le_trans (ih h) ?_
      split
      · exact Nat.le_refl _
      · exact measure_visit_le w (Registry.mem_providers_of_resolve hresolve)
    | none =>
      cases policy with
      | ignore =>
        simp only [expand, hresolve] at h
        exact ih h
      | fail => simp [expand, hresolve] at h

/-- Walks on until nothing is queued, and gives the units that were met. -/
def run (registry : Registry) (policy : MissingPolicy) (w : Walk) : Except Fault (List SourceUnit) :=
  match _ : w.queue with
  | [] => .ok w.visited
  | current :: rest =>
    -- The requirements followed are those of the value that was met first.
    match _ : expand registry policy current current.requires ⟨w.visited, rest⟩ with
    | .ok next => run registry policy next
    | .error fault => .error fault
termination_by w.measure registry
decreasing_by
  rename_i hqueue hexpand
  refine Nat.lt_of_le_of_lt (measure_expand_le hexpand) ?_
  simp [measure, meets, hqueue]

end Walk

/-- The units met on the way from the entry units. -/
def visited (registry : Registry) (policy : MissingPolicy) (entries : List SourceUnit) :
    Except Fault (List SourceUnit) :=
  (Walk.start entries).run registry policy

/-- The first unit that the second list does not hold. -/
def stray? (units known : List SourceUnit) : Option SourceUnit :=
  units.find? fun u => !known.any u.same

/-- The closure of the entry units, in the order of the known units.  It is a broken invariant
    that their number differs from the number of units met. -/
def units (registry : Registry) (policy : MissingPolicy) (entries known : List SourceUnit) :
    Except Fault (List SourceUnit) :=
  match visited registry policy entries with
  | .error fault => .error fault
  | .ok met =>
    let kept := known.filter fun u => met.any u.same
    -- What was met has no repetitions.  Where the known units have none either, the numbers
    -- differ only if a unit that was met is not known.
    if kept.length = met.length then .ok kept
    else .error (.invariantViolation (.strayUnit (((stray? met known).map SourceUnit.id).getD "")))

end Closure

end BuildOrder
