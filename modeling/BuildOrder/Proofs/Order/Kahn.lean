import BuildOrder.Proofs.Order.Moments
import BuildOrder.Proofs.Remainder.Ends

/-! # The sort by readiness is sound and complete

Between two steps the sort knows of each node how many of its dependencies are not placed, and
which nodes are ready.

* `Invariant.step`       a step keeps this
* `Invariant.steps`      and so does a run
* `ready_final`          the run that makes the sort ends with no node ready
* `isOrder_of_order_eq_ok`, `isCycle_of_order_eq_error`   what the outcome says about the graph
-/

namespace BuildOrder.Kahn

open BuildOrder.Digraph

variable {n : Nat}

/-- What holds between two steps. -/
structure Invariant (g : Digraph n) (s : State n) : Prop where
  nodup : s.placed.Nodup
  respects : g.Respects s.placed
  pending : ∀ v : Fin n, s.pending.get v = missing g s.placed v
  ready : ∀ v, v ∈ s.ready ↔ v ∉ s.placed ∧ missing g s.placed v = 0
  ascending : s.ready.Pairwise (· < ·)

/-! ## Releasing the dependents of a node -/

/-- Releasing nodes places none. -/
theorem placed_foldl_release (nodes : List (Fin n)) (s : State n) :
    (nodes.foldl State.release s).placed = s.placed := by
  induction nodes generalizing s with
  | nil => rfl
  | cons i rest ih => rw [List.foldl_cons, ih]; rfl

/-- Releasing nodes leaves the queue ascending. -/
theorem ascending_foldl_release (nodes : List (Fin n)) {s : State n} (h : s.ready.Pairwise (· ≤ ·)) :
    (nodes.foldl State.release s).ready.Pairwise (· ≤ ·) := by
  induction nodes generalizing s with
  | nil => exact h
  | cons i rest ih =>
    refine ih ?_
    unfold State.release
    dsimp only
    -- The queue gets an entry in its place, or none.
    split
    · exact Ascending.pairwise_enqueue h
    · exact h

/-! ## Steps -/

/-- At first, nothing is placed and everything counts as missing. -/
theorem invariant_start (g : Digraph n) : Invariant g (start g) := by
  have hmissing : ∀ v, missing g [] v = g.dependencyCount v := by
    intro v
    simp [missing, dependencyCount]
  -- What is pending at first is the number of dependencies, all of which are missing.
  refine ⟨List.nodup_nil, respects_nil g, fun v => ?_, fun v => ?_, ?_⟩
  · rw [start, hmissing]
    simp
  · rw [start, hmissing]
    simp
  · exact (List.pairwise_lt_finRange n).filter _

/-- The lowest ready node is not placed yet, but all its dependencies are, and it is lower than the
    other ready nodes. -/
theorem Invariant.of_ready_cons {g : Digraph n} {s : State n} (h : Invariant g s) {i : Fin n}
    {rest : List (Fin n)} (hready : s.ready = i :: rest) :
    i ∉ s.placed ∧ (∀ j, g.Depends i j → j ∈ s.placed) ∧ (∀ v ∈ rest, i < v) ∧
      rest.Pairwise (· < ·) := by
  obtain ⟨hi, hmissing⟩ := (h.ready i).1 (by rw [hready]; exact List.mem_cons_self)
  -- The queue is in ascending order, so that its first node is the lowest.
  obtain ⟨hlow, hascending⟩ := List.pairwise_cons.1 (hready ▸ h.ascending)
  exact ⟨hi, missing_eq_zero_iff.1 hmissing, hlow, hascending⟩

/-- Between two steps, what has been made ready is what is placed or ready. -/
theorem Invariant.moment {g : Digraph n} {s : State n} (h : Invariant g s) :
    Moment.Invariant g ⟨s, [], s.placed ++ s.ready⟩ := by
  constructor
  · exact List.nodup_nil
  · intro v
    simpa using h.pending v
  · intro v
    have hv := h.ready v
    -- Of a placed node nothing is missing, as its dependencies stand before it; of another one, the
    -- queue says so.
    by_cases hplaced : v ∈ s.placed
    · have hzero : missing g s.placed v = 0 :=
        missing_eq_zero_iff.2 fun j hj => (h.respects v hplaced j hj).mem_left
      simp [hplaced, hzero]
    · simp [hplaced, hv]
  · have hdisjoint : List.Disjoint s.placed s.ready := fun v hplaced hready =>
      ((h.ready v).1 hready).1 hplaced
    exact List.Nodup.append h.nodup (h.ascending.imp Fin.ne_of_lt) hdisjoint
  · exact .refl _

/-- A step keeps what holds between two steps. -/
theorem Invariant.step {g : Digraph n} {s : State n} (h : Invariant g s) : Invariant g (s.step g) := by
  -- The turns of the step lead to where the numbers are right again.
  obtain ⟨made, hturns⟩ := Moment.exists_turns_step g s (s.placed ++ s.ready)
  obtain ⟨hnodup, hnodupReady, hpending, hready⟩ := (h.moment.turns hturns).at_rest
  cases hs : s.ready with
  | nil => rwa [State.step_of_ready_nil hs]
  | cons i rest =>
    obtain ⟨-, hdeps, -, hascending⟩ := h.of_ready_cons hs
    constructor
    · exact hnodup
    · rw [State.step_of_ready_cons hs, placed_foldl_release]
      exact respects_append_singleton h.respects hdeps
    · exact hpending
    · exact hready
    · -- The queue holds no node twice, so that its order is strict.
      have hle : (s.step g).ready.Pairwise (· ≤ ·) := by
        rw [State.step_of_ready_cons hs]
        exact ascending_foldl_release _ (hascending.imp Fin.le_of_lt)
      exact (hle.and hnodupReady).imp fun ⟨hle, hne⟩ => lt_of_le_of_ne hle hne

/-- A step places one node, unless none is ready. -/
theorem length_placed_step (g : Digraph n) (s : State n) :
    (s.step g).placed.length = s.placed.length + 1 ∨ (s.ready = [] ∧ s.step g = s) := by
  cases hready : s.ready with
  | nil => exact .inr ⟨rfl, State.step_of_ready_nil hready⟩
  | cons i rest =>
    left
    rw [State.step_of_ready_cons hready, placed_foldl_release, List.length_append, List.length_singleton]

/-- A run of any number of steps keeps what holds between two steps. -/
theorem Invariant.steps {g : Digraph n} {s : State n} (h : Invariant g s) (k : Nat) :
    Invariant g (s.steps g k) := by
  induction k generalizing s with
  | zero => exact h
  | succ k ih => exact ih h.step

/-- Where no node is ready, further steps change nothing. -/
theorem steps_of_ready_nil {g : Digraph n} {s : State n} (h : s.ready = []) (k : Nat) :
    s.steps g k = s := by
  induction k with
  | zero => rfl
  | succ k ih => rw [State.steps, State.step_of_ready_nil h, ih]

/-- A run places one node for each step, or else comes to where none is ready. -/
theorem length_placed_steps (g : Digraph n) (s : State n) (k : Nat) :
    (s.steps g k).placed.length = s.placed.length + k ∨ (s.steps g k).ready = [] := by
  induction k generalizing s with
  | zero => exact .inl rfl
  | succ k ih =>
    rw [State.steps]
    rcases length_placed_step g s with hlength | ⟨hready, hstep⟩
    · -- The step has placed a node, and the others count from there.
      rcases ih (s.step g) with h | h
      · left
        omega
      · exact .inr h
    · right
      rw [hstep, steps_of_ready_nil hready]
      exact hready

/-- What holds between two steps holds when the sort has ended. -/
theorem invariant_final (g : Digraph n) : Invariant g (final g) := (invariant_start g).steps n

/-- The sort goes on until no node is ready. -/
theorem ready_final (g : Digraph n) : (final g).ready = [] := by
  rcases length_placed_steps g (start g) n with hlength | hready
  · -- As many different nodes as there are have been placed, and a ready node would be another one.
    have hlength : (final g).placed.length = 0 + n := hlength
    have hfinal := invariant_final g
    have horder := isOrder_of_length_le hfinal.nodup hfinal.respects (by omega)
    refine List.eq_nil_iff_forall_not_mem.2 fun i hi => ?_
    exact ((hfinal.ready i).1 hi).1 (horder.mem i)
  · exact hready

/-- When the sort has ended, each node that is not placed waits for another one. -/
theorem exists_depends_of_not_mem {g : Digraph n} {i : Fin n} (hi : i ∉ (final g).placed) :
    ∃ j, g.Depends i j ∧ j ∉ (final g).placed := by
  -- A node that is neither placed nor ready has a dependency that is not placed.
  have hnot : i ∉ (final g).ready := by simp [ready_final]
  rw [(invariant_final g).ready] at hnot
  have hmissing : missing g (final g).placed i ≠ 0 := fun hzero => hnot ⟨hi, hzero⟩
  rw [Ne, missing_eq_zero_iff] at hmissing
  push Not at hmissing
  exact hmissing

/-- The marks that the sort leaves behind are on the placed nodes. -/
theorem getElem?_marks (placed : List (Fin n)) (i : Fin n) :
    (marks placed)[i.val]? = some (placed.contains i) := by
  simp [marks]

/-- What the sort gives is an order of the graph. -/
theorem isOrder_of_order_eq_ok {g : Digraph n} {placed : List (Fin n)} (h : order g = .ok placed) :
    g.IsOrder placed := by
  rw [order] at h
  split at h
  · cases h
  · rename_i hlength
    -- As many nodes are placed as there are.
    obtain rfl := Except.ok.inj h
    have hfinal := invariant_final g
    exact isOrder_of_length_le hfinal.nodup hfinal.respects (Nat.le_of_not_lt hlength)

/-- What the sort reports is a cycle of the graph. -/
theorem isCycle_of_order_eq_error {g : Digraph n} {finding : Finding n}
    (h : order g = .error finding) : ∃ cycle, finding = .cycle cycle ∧ IsCycle g.Depends cycle := by
  rw [order] at h
  split at h
  · rename_i hlength
    obtain rfl := Except.error.inj h
    -- Fewer than all nodes are placed, so that one is left over.
    have hleft : ∃ i : Fin n, i ∉ (final g).placed := by
      by_contra hall
      push Not at hall
      have := le_length_of_forall_mem hall
      omega
    obtain ⟨i, hi⟩ := hleft
    -- The nodes that are not marked are those that are left over, and each waits for one of them.
    obtain ⟨nodes, hnodes, hcycle⟩ := Finding.ofMarks_eq_cycle (g := g)
      (Nat.le_of_eq (length_marks (final g).placed).symm)
      ⟨i, by simp [getElem?_marks, hi]⟩ fun k hk => by
        rw [getElem?_marks, Option.some.injEq, List.contains_eq_mem, decide_eq_false_iff_not] at hk
        obtain ⟨j, hj, hjleft⟩ := exists_depends_of_not_mem hk
        exact ⟨j, hj, by simp [getElem?_marks, hjleft]⟩
    exact ⟨nodes, hnodes, hcycle.imp fun _ _ _ _ hleads => hleads.1.1⟩
  · cases h

end BuildOrder.Kahn
