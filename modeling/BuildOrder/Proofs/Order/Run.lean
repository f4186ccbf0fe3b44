import BuildOrder.Proofs.Order.Kahn

/-! # The run of the sort by readiness

* `Moment.releases_eq_steps`    each moment of the run lies within one of its steps
* `Moment.exists_turns_final`   from each moment the sort goes on to its end
* `not_mem_placed_iff`          what is left over then is what needs a cycle
* `invariant_throughout`        the sort from its first moment to its last
-/

namespace BuildOrder.Kahn

open BuildOrder.Digraph Relation

variable {n : Nat}

namespace Moment

/-- The first moment. -/
def start (g : Digraph n) : Moment n := ⟨Kahn.start g, [], (Kahn.start g).ready⟩

/-- What holds at each moment holds at all moments of the run. -/
theorem invariant_of_turns {g : Digraph n} {m : Moment n} (h : ReflTransGen (Turn g) (start g) m) :
    m.Invariant g :=
  (Kahn.invariant_start g).moment.turns h

/-- Steps may be counted in two parts. -/
theorem steps_add (g : Digraph n) (a b : Nat) (s : State n) :
    s.steps g (a + b) = (s.steps g a).steps g b := by
  induction a generalizing s with
  | zero => rw [Nat.zero_add, State.steps]
  | succ a ih => rw [Nat.succ_add, State.steps, State.steps, ih]

/-- When the dependents that wait have been released, as many steps are complete as nodes are placed. -/
theorem releases_eq_steps {g : Digraph n} {m : Moment n} (h : ReflTransGen (Turn g) (start g) m) :
    m.waiting.foldl State.release m.state = (Kahn.start g).steps g m.state.placed.length := by
  induction h with
  | refl => rfl
  | @tail m _ _ hturn ih =>
    cases hturn with
    | @place i rest hwaiting hready =>
      -- The next step begins where the last one is complete.
      rw [hwaiting, List.foldl_nil] at ih
      rw [List.length_append, List.length_singleton, steps_add, ← ih, State.steps,
        State.step_of_ready_cons hready, State.steps]
    -- Within a step, a release that is done now need not be done later.
    | release hwaiting =>
      rw [hwaiting] at ih
      exact ih

/-- A node is placed once only. -/
theorem Invariant.nodup_placed {g : Digraph n} {m : Moment n} (h : m.Invariant g) :
    m.state.placed.Nodup :=
  List.Nodup.of_append_left (h.perm.nodup_iff.1 h.nodup_made)

/-- From every moment, the sort goes on to its end. -/
theorem exists_turns_final {g : Digraph n} {m : Moment n} (h : ReflTransGen (Turn g) (start g) m) :
    ∃ made, ReflTransGen (Turn g) m ⟨final g, [], made⟩ := by
  -- No more nodes are placed than there are, so that some number of steps is left, perhaps none.
  have hlength := length_le_of_nodup (invariant_of_turns h).nodup_placed
  obtain ⟨more, hreleases⟩ := exists_turns_releases g m.waiting m.state m.made
  -- First the step is completed within which the moment lies, then the steps that are left are taken.
  rw [releases_eq_steps h] at hreleases
  obtain ⟨made, hsteps⟩ := exists_turns_steps g (n - m.state.placed.length)
    ((Kahn.start g).steps g m.state.placed.length) more
  rw [← steps_add, Nat.add_sub_cancel' hlength] at hsteps
  exact ⟨made, hreleases.trans hsteps⟩

/-- At its end there is no further turn. -/
theorem not_turn_final (g : Digraph n) (made : List (Fin n)) (next : Moment n) :
    ¬ Turn g ⟨final g, [], made⟩ next := by
  intro hturn
  cases hturn with
  | place hwaiting hready =>
    dsimp only at hready
    rw [ready_final] at hready
    cases hready
  | release hwaiting => cases hwaiting

end Moment

/-! ## What is left over -/

/-- A node is left over when a cycle can be reached from it, and only then. -/
theorem not_mem_placed_iff (g : Digraph n) (v : Fin n) :
    v ∉ (final g).placed ↔ ∃ c, ReflTransGen g.Depends v c ∧ TransGen g.Depends c c := by
  have hfinal := invariant_final g
  constructor
  · intro hv
    -- A node that is left over depends on another one that is, so that this way goes on without end.
    exact exists_cycle_of_forall_exists (fun i hi => exists_depends_of_not_mem hi) hv
  · intro ⟨c, hvc, hcycle⟩ hv
    -- All that a placed node needs is placed before it, which no node is before itself.
    have hc := hfinal.respects.mem_of_reflTransGen hv hvc
    exact Precedes.irrefl hfinal.nodup (hfinal.respects.precedes_of_transGen hfinal.nodup hc hcycle)

/-- At every moment, what is pending for a node is the number of its dependencies that are not placed,
    and one more while it waits to be released, so that there is always something to take away.  No
    node is made ready twice, and none is placed twice, so that there are no more placements than
    nodes.  Each moment belongs to the step that leads to as many placed nodes as it has, and the sort
    goes on from it to its end, where those nodes are left over from which a cycle can be reached. -/
theorem invariant_throughout (g : Digraph n) :
    (∀ m, ReflTransGen (Moment.Turn g) (Moment.start g) m →
      (∀ v, m.state.pending.get v = missing g m.state.placed v + if v ∈ m.waiting then 1 else 0) ∧
      (∀ v ∈ m.waiting, 0 < m.state.pending.get v) ∧
      m.made.Nodup ∧ m.made.Perm (m.state.placed ++ m.state.ready) ∧
      m.state.placed.Nodup ∧ m.state.placed.length ≤ n ∧
      m.waiting.foldl State.release m.state = (start g).steps g m.state.placed.length ∧
      ∃ made, ReflTransGen (Moment.Turn g) m ⟨final g, [], made⟩) ∧
    (∀ made next, ¬ Moment.Turn g ⟨final g, [], made⟩ next) ∧
    ∀ v, v ∉ (final g).placed ↔ ∃ c, ReflTransGen g.Depends v c ∧ TransGen g.Depends c c := by
  refine ⟨fun m hm => ?_, Moment.not_turn_final g, not_mem_placed_iff g⟩
  have h := Moment.invariant_of_turns hm
  have hpositive : ∀ v ∈ m.waiting, 0 < m.state.pending.get v := by
    intro v hv
    have hpending := (h.of_waiting hv).1
    omega
  exact ⟨h.pending, hpositive, h.nodup_made, h.perm, h.nodup_placed, length_le_of_nodup h.nodup_placed,
    Moment.releases_eq_steps hm, Moment.exists_turns_final hm⟩

/-- Two nodes that depend on each other, one that depends on them, one on which they depend, and one
    that depends on this as well. -/
def knot : Digraph 5 :=
  (((((edgeless 5).addEdge 0 1).addEdge 1 2).addEdge 2 1).addEdge 2 3).addEdge 4 3

/-- While a node of the cycle waits to be released, its number is too high by one; and the node before
    the cycle is left over. -/
theorem invariant_throughout_of_knot :
    (∃ m, ReflTransGen (Moment.Turn knot) (Moment.start knot) m ∧ m.waiting = [2, 4] ∧
      m.state.pending.get 2 = missing knot [3] 2 + 1 ∧ m.made.Nodup) ∧
    ∃ c, ReflTransGen knot.Depends 0 c ∧ TransGen knot.Depends c c := by
  obtain ⟨hmoment, -, hleft⟩ := invariant_throughout knot
  have hturn : Moment.Turn knot (Moment.start knot) _ := .place rfl (by decide : (start knot).ready = [3])
  obtain ⟨hpending, -, hmade, -⟩ := hmoment _ (.single hturn)
  exact ⟨⟨_, .single hturn, by decide, hpending 2, hmade⟩, (hleft 0).1 (by decide)⟩

end BuildOrder.Kahn
