import BuildOrder.Proofs.Remainder
import Mathlib.Order.Bounds.Basic

/-! # Where the walk through what is left over ends

From the lowest node that is not marked, the walk goes on to the lowest dependency that is not marked.
It has no choice, so that either it comes to a node where it ends or it comes round.

* `firstUnmarked_eq_found_iff`   the first node that is not marked is the lowest
* `not_transGen_of_end`          a way without choice that ends has not come round
* `Stops.eq_of_endsAt`           the walk stops where it cannot go on, if there is such a node
* `Stops.exists_cycle`           and otherwise with a cycle
* `ofMarks_eq_cycle`             as when every node that is left over waits for another
-/

namespace BuildOrder

open Relation

/-! ## Ways without a choice -/

/-- What leads to an end, where each element leads to one at most, does not lead back to itself. -/
theorem not_transGen_of_end {R : α → α → Prop} (hunique : Relator.RightUnique R) {x last : α}
    (hend : ∀ y, ¬ R last y) (h : ReflTransGen R x last) : ¬ TransGen R x x := by
  -- By induction from the end backwards: an element that leads back to itself hands this on to the next
  -- one, as there is no choice.
  induction h using ReflTransGen.head_induction_on with
  | refl =>
    intro hcycle
    obtain ⟨y, hy, -⟩ := TransGen.head'_iff.1 hcycle
    exact hend y hy
  | head hnext _ ih =>
    intro hcycle
    obtain ⟨y, hy, hback⟩ := TransGen.head'_iff.1 hcycle
    obtain rfl := hunique hnext hy
    exact ih (TransGen.tail' hback hnext)

/-- Everything on the way to an end leads to it. -/
theorem reflTransGen_end {R : α → α → Prop} (hunique : Relator.RightUnique R) {x y last : α}
    (hend : ∀ z, ¬ R last z) (hlast : ReflTransGen R x last) (hy : ReflTransGen R x y) :
    ReflTransGen R y last := by
  -- Of two ways from one element, one is the beginning of the other.
  cases hlast.total_of_right_unique hunique hy with
  | inl hback =>
    rcases ReflTransGen.cases_head hback with rfl | ⟨z, hz, -⟩
    · exact .refl
    · exact absurd hz (hend z)
  | inr hon => exact hon

namespace Finding

variable {n : Nat}

/-! ## The lowest node without a mark -/

/-- In an ascending list, no lower node than the one that is found has no mark. -/
theorem le_of_firstUnmarked {marks : List Bool} {nodes : List (Fin n)} {i : Fin n}
    (hascending : nodes.Pairwise (· < ·)) (h : firstUnmarked marks nodes = .found i) :
    ∀ k ∈ nodes, marks[k.val]? = some false → i ≤ k := by
  induction nodes with
  | nil => cases h
  | cons j rest ih =>
    obtain ⟨hj, hrest⟩ := List.pairwise_cons.1 hascending
    rw [firstUnmarked] at h
    intro k hk hkmark
    split at h
    · cases h
    · -- The first node has no mark, and all others are higher.
      obtain rfl : j = i := by simpa using h
      cases List.mem_cons.1 hk with
      | inl heq => exact Fin.le_of_eq heq.symm
      | inr hk => exact Fin.le_of_lt (hj k hk)
    · rename_i hjmark
      cases List.mem_cons.1 hk with
      | inl heq =>
        rw [heq, hjmark] at hkmark
        cases hkmark
      | inr hk => exact ih hrest h k hk hkmark

/-- In an ascending list, the first node without a mark is the lowest. -/
theorem firstUnmarked_eq_found_iff {marks : List Bool} (hlength : n ≤ marks.length)
    {nodes : List (Fin n)} (hascending : nodes.Pairwise (· < ·)) {i : Fin n} :
    firstUnmarked marks nodes = .found i ↔ IsLeast {k | k ∈ nodes ∧ marks[k.val]? = some false} i := by
  have hleast : ∀ k, firstUnmarked marks nodes = .found k →
      IsLeast {k | k ∈ nodes ∧ marks[k.val]? = some false} k := fun k hk =>
    ⟨firstUnmarked_eq_found hk, fun j hj => le_of_firstUnmarked hascending hk j hj.1 hj.2⟩
  constructor
  · exact hleast i
  · intro hi
    -- The search finds some node, which is the lowest, or it finds none, although there is one.
    cases hfirst : firstUnmarked marks nodes with
    | found k => rw [(hleast k hfirst).unique hi]
    | allMarked =>
      have hmark := firstUnmarked_eq_allMarked hfirst i hi.1.1
      rw [hi.1.2] at hmark
      cases hmark
    | noMark => exact absurd hfirst (firstUnmarked_ne_noMark hlength nodes)

/-- A node is the lowest without a mark. -/
def LowestUnmarked (marks : List Bool) (start : Fin n) : Prop :=
  IsLeast {k : Fin n | marks[k.val]? = some false} start

/-- Where a node is the lowest without a mark, not all nodes are marked. -/
theorem LowestUnmarked.not_forall {marks : List Bool} {start : Fin n} (h : LowestUnmarked marks start) :
    ¬ ∀ i : Fin n, marks[i.val]? = some true := by
  intro hall
  have hmark : marks[start.val]? = some false := h.1
  rw [hall start] at hmark
  cases hmark

/-- The walk starts at the lowest node without a mark. -/
theorem firstUnmarked_finRange_iff {marks : List Bool} (hlength : n ≤ marks.length) {start : Fin n} :
    firstUnmarked marks (List.finRange n) = .found start ↔ LowestUnmarked marks start := by
  rw [firstUnmarked_eq_found_iff hlength (List.pairwise_lt_finRange n)]
  simp [LowestUnmarked, List.mem_finRange]

/-- A node leads to the lowest of its dependencies without a mark. -/
def LeadsTo (g : Digraph n) (marks : List Bool) (i j : Fin n) : Prop :=
  IsLeast {k | g.Depends i k ∧ marks[k.val]? = some false} j

/-- As dependencies are kept in ascending order, the walk goes on to the lowest one without a mark. -/
theorem goesOn_iff {g : Digraph n} {marks : List Bool} (hlength : n ≤ marks.length) {i j : Fin n} :
    GoesOn g marks i j ↔ LeadsTo g marks i j :=
  firstUnmarked_eq_found_iff hlength (g.pairwise_dependencies i)

/-- The two ways of going on are one relation. -/
theorem goesOn_eq {g : Digraph n} {marks : List Bool} (hlength : n ≤ marks.length) :
    GoesOn g marks = LeadsTo g marks := by
  funext i j
  exact propext (goesOn_iff hlength)

/-- From a node, the walk goes on to one node at most. -/
theorem rightUnique_goesOn (g : Digraph n) (marks : List Bool) : Relator.RightUnique (GoesOn g marks) := by
  intro i j k hj hk
  unfold GoesOn at hj hk
  simpa [hj] using hk

/-! ## Where the walk stops -/

/-- The way from the lowest node without a mark comes to a node all of whose dependencies are marked. -/
def EndsAt (g : Digraph n) (marks : List Bool) (i : Fin n) : Prop :=
  ∃ start, LowestUnmarked marks start ∧
    ReflTransGen (LeadsTo g marks) start i ∧ ∀ j, g.Depends i j → marks[j.val]? = some true

/-- The way does not go on from a node all of whose dependencies are marked. -/
theorem not_goesOn_of_forall {g : Digraph n} {marks : List Bool} {i : Fin n}
    (hall : ∀ j, g.Depends i j → marks[j.val]? = some true) (j : Fin n) : ¬ GoesOn g marks i j := by
  intro hj
  have hmark := (firstUnmarked_eq_found hj).2
  rw [hall j hj.depends] at hmark
  cases hmark

/-- If the way ends, the walk stops there. -/
theorem Stops.eq_of_stuck {g : Digraph n} {marks : List Bool} {start i : Fin n} {last : Place n}
    {finding : Finding n} (hstops : Stops g marks last finding) (h : last.Sound g marks start)
    (hi : ReflTransGen (GoesOn g marks) start i)
    (hall : ∀ j, g.Depends i j → marks[j.val]? = some true) : finding = .unsortedWithoutReason i := by
  have hunique := rightUnique_goesOn g marks
  have hend := not_goesOn_of_forall hall
  rcases hstops.finding_cases h with ⟨nodes, -, hcycle, hreached⟩ | ⟨k, rfl, hk, hkall⟩
  · -- From a cycle on the way, the end could not be reached any more.
    obtain ⟨c, hc, hback⟩ := hcycle.transGen
    exact absurd hback
      (not_transGen_of_end hunique hend (reflTransGen_end hunique hend hi (hreached c hc)))
  · -- The walk has stopped at an end as well, and there is only one.
    rcases ReflTransGen.cases_head (reflTransGen_end hunique hend hi hk) with rfl | ⟨j, hj, -⟩
    · rfl
    · exact absurd hj (not_goesOn_of_forall hkall j)

/-- From the lowest node without a mark, the walk takes finitely many turns to where it stops. -/
theorem exists_stops_of_lowest {g : Digraph n} {marks : List Bool} (hlength : n ≤ marks.length)
    {start : Fin n} (hstart : LowestUnmarked marks start) :
    ∃ finding last, ofMarks? g marks = some finding ∧
      ReflTransGen (Turn g marks) ⟨[], start⟩ last ∧ Stops g marks last finding := by
  have hfirst := (firstUnmarked_finRange_iff hlength).2 hstart
  obtain ⟨finding, hfinding⟩ := Option.isSome_iff_exists.1 (isSome_walk (g := g) hlength [] start)
  obtain ⟨last, hturns, hstops⟩ := exists_stops hfinding
  exact ⟨finding, last, by rw [ofMarks?, hfirst]; exact hfinding, hturns, hstops⟩

/-- If the way ends, the walk reports the node where it does. -/
theorem Stops.eq_of_endsAt {g : Digraph n} {marks : List Bool} (hlength : n ≤ marks.length)
    {start i : Fin n} (hstart : LowestUnmarked marks start)
    {last : Place n} {finding : Finding n} (hstops : Stops g marks last finding)
    (h : last.Sound g marks start) (hi : EndsAt g marks i) : finding = .unsortedWithoutReason i := by
  obtain ⟨first, hfirst, hreach, hall⟩ := hi
  -- The way that ends begins where the walk begins.
  obtain rfl := hfirst.unique hstart
  rw [← goesOn_eq hlength] at hreach
  exact hstops.eq_of_stuck h hreach hall

/-- If it does not end, the walk reports a cycle. -/
theorem Stops.exists_cycle {g : Digraph n} {marks : List Bool} (hlength : n ≤ marks.length)
    {start : Fin n} (hstart : LowestUnmarked marks start)
    {last : Place n} {finding : Finding n} (hstops : Stops g marks last finding)
    (h : last.Sound g marks start) (hnone : ∀ i, ¬ EndsAt g marks i) :
    ∃ nodes, finding = .cycle nodes ∧ IsCycle (LeadsTo g marks) nodes ∧
      ∀ i ∈ nodes, marks[i.val]? = some false := by
  rcases hstops.finding_cases h with ⟨nodes, hnodes, hcycle, -⟩ | ⟨i, -, hreach, hall⟩
  · rw [goesOn_eq hlength] at hcycle
    refine ⟨nodes, hnodes, hcycle, fun i hi => ?_⟩
    -- Each node of the cycle has been gone on to, and so has no mark.
    obtain ⟨k, hk⟩ := hcycle.exists_rel hi
    exact hk.1.2
  · rw [goesOn_eq hlength] at hreach
    exact absurd ⟨start, hstart, hreach, hall⟩ (hnone i)

/-- The walk has met as many different nodes as its trail is long, and the one that it is at. -/
theorem Place.Sound.length_le {g : Digraph n} {marks : List Bool} {start : Fin n} {p : Place n}
    (h : p.Sound g marks start) :
    p.trail.length ≤ n ∧ (p.current ∉ p.trail → p.trail.length < n) := by
  refine ⟨Digraph.length_le_of_nodup h.nodup, fun hnew => ?_⟩
  -- A new node could be added to the trail, which would still be no longer than there are nodes.
  have hlength := Digraph.length_le_of_nodup (nodup_append_singleton h.nodup hnew)
  rwa [List.length_append] at hlength

/-- There is a lowest node without a mark, or all are marked. -/
theorem exists_lowest_or_forall {marks : List Bool} (hlength : n ≤ marks.length) :
    (∃ start : Fin n, LowestUnmarked marks start) ∨
      ∀ i : Fin n, marks[i.val]? = some true := by
  cases hfirst : firstUnmarked marks (List.finRange n) with
  | found start => exact .inl ⟨start, (firstUnmarked_finRange_iff hlength).1 hfirst⟩
  | allMarked => exact .inr fun i => firstUnmarked_eq_allMarked hfirst i (List.mem_finRange i)
  | noMark => exact absurd hfirst (firstUnmarked_ne_noMark hlength _)

/-- When all nodes are marked, nothing is left over. -/
theorem ofMarks?_of_forall {g : Digraph n} {marks : List Bool}
    (hall : ∀ i : Fin n, marks[i.val]? = some true) : ofMarks? g marks = some .nothingUnsorted := by
  have hfirst : ∀ nodes : List (Fin n), firstUnmarked marks nodes = .allMarked := by
    intro nodes
    induction nodes with
    | nil => rfl
    | cons i rest ih => rw [firstUnmarked, hall i]; exact ih
  rw [ofMarks?, hfirst]

/-- When every node that is left over has a dependency that is left over too, a cycle is found. -/
theorem ofMarks_eq_cycle {g : Digraph n} {marks : List Bool} (hlength : n ≤ marks.length)
    (hleft : ∃ i : Fin n, marks[i.val]? = some false)
    (hwaits : ∀ i : Fin n, marks[i.val]? = some false → ∃ j, g.Depends i j ∧ marks[j.val]? = some false) :
    ∃ nodes, ofMarks g marks hlength = .cycle nodes ∧ IsCycle (LeadsTo g marks) nodes := by
  rcases exists_lowest_or_forall hlength with ⟨start, hstart⟩ | hall
  · obtain ⟨finding, last, hfinding, hturns, hstops⟩ := exists_stops_of_lowest (g := g) hlength hstart
    -- The way only leads through nodes that are left over, and so it has no end.
    have hnone : ∀ i, ¬ EndsAt g marks i := by
      intro i ⟨first, hfirst, hreach, hall⟩
      have hi : marks[i.val]? = some false := by
        rcases ReflTransGen.cases_tail hreach with rfl | ⟨k, -, hk⟩
        · exact hfirst.1
        · exact hk.1.2
      obtain ⟨j, hj, hjleft⟩ := hwaits i hi
      rw [hall j hj] at hjleft
      cases hjleft
    obtain ⟨nodes, rfl, hcycle, -⟩ := hstops.exists_cycle hlength hstart (sound_of_turns hturns) hnone
    exact ⟨nodes, by simp [ofMarks, hfinding], hcycle⟩
  · obtain ⟨i, hi⟩ := hleft
    rw [hall i] at hi
    cases hi

end Finding

end BuildOrder
