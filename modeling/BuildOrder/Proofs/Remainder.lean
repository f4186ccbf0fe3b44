import BuildOrder.Proofs.Cycle
import BuildOrder.Proofs.Digraph

/-! # Walking through what is left over

From a node that is not marked, the walk goes on to its first dependency that is not marked.

* `exists_stops`            the walk takes one turn after the other to where it stops
* `sound_of_turns`          what holds of it wherever it comes
* `Stops.finding_cases`     it stops with a cycle of such dependencies, or at a node without one
-/

namespace BuildOrder.Finding

open Relation

variable {n : Nat}

/-- The walk goes on from a node to its first dependency that is not marked. -/
def GoesOn (g : Digraph n) (marks : List Bool) (i j : Fin n) : Prop :=
  firstUnmarked marks (g.dependencies i) = .found j

/-- The node that is found is one of the nodes, and has no mark. -/
theorem firstUnmarked_eq_found {marks : List Bool} {nodes : List (Fin n)} {i : Fin n}
    (h : firstUnmarked marks nodes = .found i) : i ∈ nodes ∧ marks[i.val]? = some false := by
  induction nodes with
  | nil => cases h
  | cons j rest ih =>
    rw [firstUnmarked] at h
    split at h
    · cases h
    · -- The first of the nodes has no mark, and so it is the one that is found.
      rename_i hj
      obtain rfl : j = i := by simpa using h
      exact ⟨List.mem_cons_self, hj⟩
    · obtain ⟨hmem, hi⟩ := ih h
      exact ⟨List.mem_cons_of_mem _ hmem, hi⟩

/-- When the search says so, all of the nodes are marked. -/
theorem firstUnmarked_eq_allMarked {marks : List Bool} {nodes : List (Fin n)}
    (h : firstUnmarked marks nodes = .allMarked) : ∀ i ∈ nodes, marks[i.val]? = some true := by
  induction nodes with
  | nil => exact fun _ hi => absurd hi List.not_mem_nil
  | cons j rest ih =>
    rw [firstUnmarked] at h
    split at h
    · cases h
    · cases h
    · rename_i hj
      intro i hi
      -- The first of the nodes is marked, or the search would have ended there.
      rcases List.mem_cons.1 hi with rfl | hi
      · exact hj
      · exact ih h i hi

/-- The walk goes on along edges of the graph only. -/
theorem GoesOn.depends {g : Digraph n} {marks : List Bool} {i j : Fin n} (h : GoesOn g marks i j) :
    g.Depends i j :=
  (firstUnmarked_eq_found h).1

/-! ## The walk from place to place -/

/-- Where a walk is: the nodes behind it and the one that it has come to. -/
structure Place (n : Nat) where
  trail : List (Fin n)
  current : Fin n

/-- The walk goes on from a node where it has not been before. -/
inductive Turn (g : Digraph n) (marks : List Bool) (p : Place n) : Place n → Prop
  | goOn {next : Fin n} (hnew : p.current ∉ p.trail) (hnext : GoesOn g marks p.current next) :
      Turn g marks p ⟨p.trail ++ [p.current], next⟩

/-- Where the walk stops, and with which finding. -/
inductive Stops (g : Digraph n) (marks : List Bool) (p : Place n) : Finding n → Prop
  /-- It has come round to a node behind it. -/
  | again (hmet : p.current ∈ p.trail) : Stops g marks p (.ofTrail p.trail p.current)
  /-- There is nowhere to go on to. -/
  | stuck (hnew : p.current ∉ p.trail)
      (hall : ∀ j, g.Depends p.current j → marks[j.val]? = some true) :
      Stops g marks p (.unsortedWithoutReason p.current)

/-- A walk that has a finding takes finitely many turns to where it stops with that finding. -/
theorem exists_stops {g : Digraph n} {marks : List Bool} {trail : List (Fin n)} {current : Fin n}
    {finding : Finding n} (h : walk g marks trail current = some finding) :
    ∃ last, ReflTransGen (Turn g marks) ⟨trail, current⟩ last ∧ Stops g marks last finding := by
  -- The induction follows the walk, each turn of which is a turn here.
  fun_induction walk g marks trail current with
  | case1 trail current hmet =>
    obtain rfl := Option.some.inj h
    exact ⟨_, .refl, .again hmet⟩
  | case2 trail current hnew next hnext ih =>
    obtain ⟨last, hturns, hstops⟩ := ih h
    exact ⟨last, .head (.goOn hnew hnext) hturns, hstops⟩
  | case3 trail current hnew hall =>
    obtain rfl := Option.some.inj h
    exact ⟨_, .refl, .stuck hnew (firstUnmarked_eq_allMarked hall)⟩
  | case4 => cases h

/-- What holds of a walk from a node wherever it comes: the nodes behind are different, each goes on to
    the next, and none is met but by going on from the first. -/
structure Place.Sound (g : Digraph n) (marks : List Bool) (start : Fin n) (p : Place n) : Prop where
  nodup : p.trail.Nodup
  chain : (p.trail ++ [p.current]).IsChain (GoesOn g marks)
  reached : ∀ i ∈ p.trail ++ [p.current], ReflTransGen (GoesOn g marks) start i

/-- At its start, the walk has met its first node and none behind it. -/
theorem sound_start (g : Digraph n) (marks : List Bool) (start : Fin n) :
    Place.Sound g marks start ⟨[], start⟩ := by
  constructor
  · exact List.nodup_nil
  · -- One node alone is a chain.
    exact List.isChain_singleton start
  · intro i hi
    obtain rfl : i = start := by simpa using hi
    exact .refl

/-- A turn keeps a walk sound, as it leaves a node behind that has not been met before. -/
theorem Place.Sound.turn {g : Digraph n} {marks : List Bool} {start : Fin n} {p q : Place n}
    (h : p.Sound g marks start) (hturn : Turn g marks p q) : q.Sound g marks start := by
  cases hturn with
  | @goOn next hnew hnext =>
    constructor
    · exact nodup_append_singleton h.nodup hnew
    · -- The trail up to the node is a chain already, and the node goes on to the next one.
      refine isChain_append_singleton h.chain fun i hi => ?_
      obtain rfl : p.current = i := by simpa using hi
      exact hnext
    · intro i hi
      cases List.mem_append.1 hi with
      | inl hi => exact h.reached i hi
      | inr hi =>
        obtain rfl := List.mem_singleton.1 hi
        exact (h.reached p.current (by simp)).tail hnext

/-- What holds of a walk at its start holds of it wherever it comes. -/
theorem sound_of_turns {g : Digraph n} {marks : List Bool} {start : Fin n} {p : Place n}
    (h : ReflTransGen (Turn g marks) ⟨[], start⟩ p) : p.Sound g marks start := by
  induction h with
  | refl => exact sound_start g marks start
  | tail _ hturn ih => exact ih.turn hturn

/-- The walk ends with a cycle, or at a node all of whose dependencies are marked. -/
theorem Stops.finding_cases {g : Digraph n} {marks : List Bool} {start : Fin n} {p : Place n}
    {finding : Finding n} (hstops : Stops g marks p finding) (h : p.Sound g marks start) :
    (∃ nodes, finding = .cycle nodes ∧ IsCycle (GoesOn g marks) nodes ∧
      ∀ i ∈ nodes, ReflTransGen (GoesOn g marks) start i) ∨
    ∃ i, finding = .unsortedWithoutReason i ∧ ReflTransGen (GoesOn g marks) start i ∧
      ∀ j, g.Depends i j → marks[j.val]? = some true := by
  cases hstops with
  | again hmet =>
    -- What lies between the two visits is a cycle.
    left
    obtain ⟨nodes, hcut, hcycle, hsuffix⟩ := isCycle_of_cut h.nodup h.chain hmet
    refine ⟨nodes, by rw [ofTrail, hcut], hcycle, fun i hi => ?_⟩
    exact h.reached i (List.mem_append_left _ (hsuffix.subset hi))
  | stuck hnew hall =>
    right
    exact ⟨p.current, rfl, h.reached p.current (by simp), hall⟩

end BuildOrder.Finding
