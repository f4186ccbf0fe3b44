import BuildOrder.Order.Kahn
import BuildOrder.Proofs.Digraph
import Mathlib.Data.Multiset.AddSub

/-! # The sort by readiness from moment to moment

A step of the sort places a node and then releases its dependents one after the other.  The numbers
of what is pending are right between two steps.  Within a step, those of the dependents that have
not been released are too high by one.

* `missing_append_singleton`   placing a node brings those that depend on it one step closer
* `Invariant.place`, `Invariant.release`   what holds at each moment, and how it is kept
* `Invariant.at_rest`          what it says between two steps
* `exists_turns_steps`         a run of whole steps is one of single turns
-/

namespace BuildOrder.Kahn

open BuildOrder.Digraph Relation

variable {n : Nat}

/-- How many dependencies of a node are not among the placed ones. -/
def missing (g : Digraph n) (placed : List (Fin n)) (v : Fin n) : Nat :=
  (g.dependencies v).countP fun j => !placed.contains j

/-- Nothing is missing for a node exactly when all that it depends on has been placed. -/
theorem missing_eq_zero_iff {g : Digraph n} {placed : List (Fin n)} {v : Fin n} :
    missing g placed v = 0 ↔ ∀ j, g.Depends v j → j ∈ placed := by
  simp [missing, List.countP_eq_zero, Depends]

/-- Placing an element of a list leaves one fewer of them missing. -/
theorem countP_append_singleton {xs placed : List (Fin n)} {i : Fin n} (hxs : xs.Nodup)
    (hi : i ∉ placed) :
    xs.countP (fun j => !(placed ++ [i]).contains j) + (if i ∈ xs then 1 else 0) =
      xs.countP fun j => !placed.contains j := by
  induction xs with
  | nil => rfl
  | cons x xs ih =>
    obtain ⟨hx, hxs⟩ := List.nodup_cons.1 hxs
    have ih := ih hxs
    simp only [List.countP_cons]
    by_cases hix : i = x
    · -- The element counts here and, without repetitions, nowhere else.
      subst hix
      rw [if_neg hx] at ih
      rw [← ih]
      simp [hi]
    · have hcons : i ∈ x :: xs ↔ i ∈ xs := by simp [hix]
      have happend : (placed ++ [i]).contains x = placed.contains x := by simp [Ne.symm hix]
      -- This element counts the same on both sides, and the rest is the induction hypothesis.
      simp only [hcons, happend]
      omega

/-- Placing a node brings those that depend on it one step closer. -/
theorem missing_append_singleton (g : Digraph n) {placed : List (Fin n)} {i : Fin n}
    (hi : i ∉ placed) (v : Fin n) :
    missing g (placed ++ [i]) v + (if g.Depends v i then 1 else 0) = missing g placed v :=
  countP_append_singleton (List.Pairwise.imp Fin.ne_of_lt (g.pairwise_dependencies v)) hi

/-! ## Turns -/

/-- A moment of the sort. -/
structure Moment (n : Nat) where
  state : State n
  /-- The dependents of the node placed last that have not been released. -/
  waiting : List (Fin n)
  /-- The nodes that have been made ready up to now, one entry for each time. -/
  made : List (Fin n)

/-- What is added to the queue by releasing a node, one entry for each time. -/
def State.makes (s : State n) (i : Fin n) : List (Fin n) := (s.release i).ready.diff s.ready

/-- What a list has in addition to another one is their difference. -/
theorem diff_perm_of_perm_append {xs ys more : List (Fin n)} (h : ys.Perm (xs ++ more)) :
    (ys.diff xs).Perm more := by
  have hsum : (more : Multiset (Fin n)) + xs = ys :=
    Multiset.coe_eq_coe.2 (List.perm_append_comm.trans h.symm)
  rw [← Multiset.coe_eq_coe, ← Multiset.coe_sub]
  exact (Multiset.eq_sub_of_add_eq hsum).symm

/-- The queue gets an entry for the released node if nothing else is pending for it, and keeps those
    that it had. -/
theorem State.ready_release_perm (s : State n) (i : Fin n) :
    (s.release i).ready.Perm (s.ready ++ if s.pending.get i - 1 = 0 then [i] else []) := by
  unfold State.release
  dsimp only
  split
  · exact (Ascending.perm_enqueue i s.ready).trans (List.perm_append_singleton i s.ready).symm
  · rw [List.append_nil]

/-- A release adds one entry to the queue if nothing else is pending for the node, and none otherwise. -/
theorem State.makes_eq (s : State n) (i : Fin n) :
    s.makes i = if s.pending.get i - 1 = 0 then [i] else [] := by
  have hmakes : (s.makes i).Perm (if s.pending.get i - 1 = 0 then [i] else []) :=
    diff_perm_of_perm_append (s.ready_release_perm i)
  -- A list with one element or none is the only one with its elements.
  by_cases hlast : s.pending.get i - 1 = 0
  · rw [if_pos hlast] at hmakes ⊢
    exact List.perm_singleton.1 hmakes
  · rw [if_neg hlast] at hmakes ⊢
    exact List.perm_nil.1 hmakes

/-- Releasing a node takes one away from what is pending for it, and leaves the other nodes alone. -/
theorem pending_release (s : State n) (i v : Fin n) :
    (s.release i).pending.get v = if i = v then s.pending.get v - 1 else s.pending.get v := by
  unfold State.release
  dsimp only
  rw [Table.get_set]
  by_cases h : i = v
  · subst h
    rfl
  · rw [if_neg h, if_neg h]

namespace Moment

/-- A turn of the sort. -/
inductive Turn (g : Digraph n) (m : Moment n) : Moment n → Prop
  /-- The lowest ready node is placed, once all dependents of the one before are released. -/
  | place {i : Fin n} {rest : List (Fin n)} (hwaiting : m.waiting = [])
      (hready : m.state.ready = i :: rest) :
      Turn g m ⟨{ m.state with ready := rest, placed := m.state.placed ++ [i] }, g.dependents i, m.made⟩
  /-- The next dependent is released. -/
  | release {i : Fin n} {rest : List (Fin n)} (hwaiting : m.waiting = i :: rest) :
      Turn g m ⟨m.state.release i, rest, m.made ++ m.state.makes i⟩

/-- What holds at each moment. -/
structure Invariant (g : Digraph n) (m : Moment n) : Prop where
  nodup : m.waiting.Nodup
  pending : ∀ v : Fin n,
    m.state.pending.get v = missing g m.state.placed v + if v ∈ m.waiting then 1 else 0
  made : ∀ v, v ∈ m.made ↔ missing g m.state.placed v = 0 ∧ v ∉ m.waiting
  nodup_made : m.made.Nodup
  /-- What has been made ready is ready still or has been placed. -/
  perm : m.made.Perm (m.state.placed ++ m.state.ready)

/-- Placing a node leaves those that depend on it waiting, and these are the nodes for which one
    dependency less is missing. -/
theorem Invariant.place {g : Digraph n} {m : Moment n} (h : m.Invariant g) {i : Fin n}
    {rest : List (Fin n)} (hwaiting : m.waiting = []) (hready : m.state.ready = i :: rest) :
    Invariant g
      ⟨{ m.state with ready := rest, placed := m.state.placed ++ [i] }, g.dependents i, m.made⟩ := by
  have hperm := h.perm
  rw [hready] at hperm
  -- The node is in the queue, and what has been made ready is there or placed, but not both.
  have hi : i ∉ m.state.placed := by
    intro hplaced
    exact List.disjoint_of_nodup_append (hperm.nodup_iff.1 h.nodup_made) hplaced List.mem_cons_self
  have hdependent : ∀ v, v ∈ g.dependents i ↔ g.Depends v i := fun v => mem_dependents
  constructor
  · exact (g.pairwise_dependents i).imp Fin.ne_of_lt
  · intro v
    have hv := missing_append_singleton g hi v
    have hpending := h.pending v
    simp only [hwaiting, List.not_mem_nil, if_false] at hpending
    simp only [hdependent]
    omega
  · intro v
    have hv := missing_append_singleton g hi v
    have hmade := h.made v
    simp only [hwaiting, List.not_mem_nil, not_false_eq_true, and_true] at hmade
    simp only [hmade, hdependent]
    -- A node that depends on the placed one is waiting now; for all others nothing has changed.
    by_cases hvi : g.Depends v i
    · simp only [hvi, if_true] at hv
      simp only [hvi, not_true, and_false, iff_false]
      omega
    · simp only [hvi, if_false] at hv
      simp only [hvi, not_false_eq_true, and_true]
      omega
  · exact h.nodup_made
  · -- The node has gone from the front of the queue to the end of what is placed.
    rwa [List.append_assoc]

/-- A node that waits to be released is pending, and has not been made ready. -/
theorem Invariant.of_waiting {g : Digraph n} {m : Moment n} (h : m.Invariant g) {i : Fin n}
    (hi : i ∈ m.waiting) :
    m.state.pending.get i = missing g m.state.placed i + 1 ∧ i ∉ m.made := by
  have hpending := h.pending i
  rw [if_pos hi] at hpending
  exact ⟨hpending, fun hmem => ((h.made i).1 hmem).2 hi⟩

/-- Releasing a node brings its number right, and makes it ready when none of its dependencies is
    missing. -/
theorem Invariant.release {g : Digraph n} {m : Moment n} (h : m.Invariant g) {i : Fin n}
    {rest : List (Fin n)} (hwaiting : m.waiting = i :: rest) :
    Invariant g ⟨m.state.release i, rest, m.made ++ m.state.makes i⟩ := by
  have hnodup := h.nodup
  rw [hwaiting] at hnodup
  obtain ⟨hi, hrest⟩ := List.nodup_cons.1 hnodup
  have hin : i ∈ m.waiting := by simp [hwaiting]
  obtain ⟨hpending, hmade⟩ := h.of_waiting hin
  -- What was pending besides the release itself is what is missing.
  have hmakes : m.state.makes i = if missing g m.state.placed i = 0 then [i] else [] := by
    simp [State.makes_eq, hpending]
  have hplaced : (m.state.release i).placed = m.state.placed := rfl
  constructor
  · exact hrest
  · intro v
    have hv := h.pending v
    simp only [hplaced, pending_release]
    by_cases hiv : i = v
    · subst hiv
      simp [hi, hpending]
    · simpa [hiv, Ne.symm hiv, hwaiting] using hv
  · intro v
    have hv := h.made v
    simp only [hplaced, hmakes, List.mem_append]
    by_cases hvi : v = i
    · subst hvi
      by_cases hzero : missing g m.state.placed v = 0 <;> simp [hzero, hmade, hi]
    · have hother : v ∉ (if missing g m.state.placed i = 0 then [i] else []) := by
        split <;> simp [hvi]
      simpa [hother, hwaiting, hvi] using hv
  · simp only [hmakes]
    split
    · -- The node has waited up to now, so that it has not been made ready before.
      exact nodup_append_singleton h.nodup_made hmade
    · simpa using h.nodup_made
  · have hmore := h.perm.append_right (m.state.makes i)
    rw [List.append_assoc] at hmore
    have hqueue := m.state.ready_release_perm i
    rw [← State.makes_eq] at hqueue
    exact hmore.trans (hqueue.symm.append_left _)

/-- A turn keeps what holds at each moment, whichever it is. -/
theorem Invariant.turn {g : Digraph n} {m next : Moment n} (h : m.Invariant g) (hturn : Turn g m next) :
    next.Invariant g := by
  cases hturn with
  | place hwaiting hready => exact h.place hwaiting hready
  | release hwaiting => exact h.release hwaiting

/-- A run keeps what holds at each moment. -/
theorem Invariant.turns {g : Digraph n} {m last : Moment n} (h : m.Invariant g)
    (hturns : ReflTransGen (Turn g) m last) : last.Invariant g := by
  induction hturns with
  | refl => exact h
  | tail _ hturn ih => exact ih.turn hturn

/-- Between two steps, no node is placed or ready twice, the numbers are right, and those nodes are
    ready that could be placed. -/
theorem Invariant.at_rest {g : Digraph n} {s : State n} {made : List (Fin n)}
    (h : Invariant g ⟨s, [], made⟩) :
    s.placed.Nodup ∧ s.ready.Nodup ∧ (∀ v, s.pending.get v = missing g s.placed v) ∧
      ∀ v, v ∈ s.ready ↔ v ∉ s.placed ∧ missing g s.placed v = 0 := by
  have hnodup : (s.placed ++ s.ready).Nodup := h.perm.nodup_iff.1 h.nodup_made
  refine ⟨List.Nodup.of_append_left hnodup, List.Nodup.of_append_right hnodup, ?_, ?_⟩
  · intro v
    simpa using h.pending v
  · intro v
    -- Nothing waits between two steps, so that only what is missing counts.
    have hmade : v ∈ made ↔ missing g s.placed v = 0 := by simpa using h.made v
    rw [← hmade, h.perm.mem_iff, List.mem_append]
    constructor
    · intro hready
      exact ⟨fun hplaced => List.disjoint_of_nodup_append hnodup hplaced hready, .inr hready⟩
    · intro ⟨hplaced, hmember⟩
      exact hmember.resolve_left hplaced

/-! ## Whole steps -/

/-- The dependents that wait are released one after the other. -/
theorem exists_turns_releases (g : Digraph n) (waiting : List (Fin n)) (s : State n) (made : List (Fin n)) :
    ∃ more, ReflTransGen (Turn g) ⟨s, waiting, made⟩ ⟨waiting.foldl State.release s, [], more⟩ := by
  induction waiting generalizing s made with
  | nil => exact ⟨made, .refl⟩
  | cons i rest ih =>
    obtain ⟨more, hturns⟩ := ih (s.release i) (made ++ s.makes i)
    exact ⟨more, .head (.release rfl) hturns⟩

/-- A whole step is a placement and the releases that follow it, or nothing where no node is ready. -/
theorem exists_turns_step (g : Digraph n) (s : State n) (made : List (Fin n)) :
    ∃ more, ReflTransGen (Turn g) ⟨s, [], made⟩ ⟨s.step g, [], more⟩ := by
  cases hready : s.ready with
  | nil =>
    rw [State.step_of_ready_nil hready]
    exact ⟨made, .refl⟩
  | cons i rest =>
    rw [State.step_of_ready_cons hready]
    obtain ⟨more, hturns⟩ := exists_turns_releases g (g.dependents i)
      { s with ready := rest, placed := s.placed ++ [i] } made
    exact ⟨more, .head (.place rfl hready) hturns⟩

/-- A run of whole steps is one of single turns. -/
theorem exists_turns_steps (g : Digraph n) (k : Nat) (s : State n) (made : List (Fin n)) :
    ∃ more, ReflTransGen (Turn g) ⟨s, [], made⟩ ⟨s.steps g k, [], more⟩ := by
  induction k generalizing s made with
  | zero => exact ⟨made, .refl⟩
  | succ k ih =>
    obtain ⟨more, hstep⟩ := exists_turns_step g s made
    obtain ⟨last, hsteps⟩ := ih (s.step g) more
    exact ⟨last, hstep.trans hsteps⟩

end Moment

end BuildOrder.Kahn
