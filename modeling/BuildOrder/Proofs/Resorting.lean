import BuildOrder.Proofs.Order.Sorted
import BuildOrder.Proofs.Sorting
import BuildOrder.SourceUnit.Draft

/-! # Sorting sorted units

Distinct units that have been sorted stay as they are when they are sorted again, whichever way.  The
graph of the sorted list has the same edges between units, and in its positions they all lead back.

* `precedes_of_sort`   what a unit of the list requires comes before it in the sorted list
* `ordered_of_sort`    so that the graph of the sorted list is in order as it stands
* `sort_idempotent`    and sorting it changes nothing
-/

namespace BuildOrder.DependencyGraph

open SourceUnit

variable {units : List SourceUnit} {registry : Registry} {policy : MissingPolicy}

/-- The sorted units are those at the positions of an order. -/
theorem exists_isOrder_of_sort {d : DependencyGraph} {strategy : Strategy} {sorted : List SourceUnit}
    (h : d.sort strategy = .ok sorted) : ∃ nodes, d.graph.IsOrder nodes ∧ sorted = nodes.map d.units.get := by
  unfold sort at h
  split at h
  · rename_i nodes hnodes
    exact ⟨nodes, Strategy.isOrder_of_order_eq_ok hnodes, (Except.ok.inj h).symm⟩
  · cases h

/-- A sorted list has the units of the list from which the graph was built. -/
theorem perm_of_sort {d : DependencyGraph} (hbuild : build units registry policy = .ok d)
    {strategy : Strategy} {sorted : List SourceUnit} (hsort : d.sort strategy = .ok sorted) :
    sorted.Perm units := by
  obtain ⟨graph, rfl, -⟩ := depends_of_build hbuild
  obtain ⟨nodes, horder, rfl⟩ := exists_isOrder_of_sort hsort
  exact perm_map_get horder

/-- What a unit of the list requires from another one comes before it in the sorted list. -/
theorem precedes_of_sort (hdistinct : Distinct units) {d : DependencyGraph}
    (hbuild : build units registry policy = .ok d) {strategy : Strategy} {sorted : List SourceUnit}
    (hsort : d.sort strategy = .ok sorted) {u v : SourceUnit} (hu : u ∈ units) (hv : v ∈ units)
    (hrequires : registry.RequiresSame u v) (hne : u.identity ≠ v.identity) : Precedes sorted v u := by
  obtain ⟨graph, rfl, hlinks⟩ := depends_of_build hbuild
  obtain ⟨nodes, horder, rfl⟩ := exists_isOrder_of_sort hsort
  obtain ⟨i, rfl⟩ := List.mem_iff_get.1 hu
  obtain ⟨j, rfl⟩ := List.mem_iff_get.1 hv
  -- The requirement is an edge between the positions, which the order respects.
  have hdepends : graph.Depends i j :=
    (hlinks i j).2 ((links_iff_requiresSame hdistinct).2 ⟨hrequires, hne⟩)
  exact (horder.respects i (horder.mem i) j hdepends).map units.get

/-- In the graph of the sorted list, each unit depends only on units before it. -/
theorem ordered_of_sort (hdistinct : Distinct units) {d : DependencyGraph}
    (hbuild : build units registry policy = .ok d) {strategy : Strategy} {sorted : List SourceUnit}
    (hsort : d.sort strategy = .ok sorted) {graph : Digraph sorted.length}
    (hlinks : ∀ i j, graph.Depends i j ↔ Links sorted registry (sorted.get i).requires i j) :
    graph.Ordered := by
  have hperm : sorted.Perm units := perm_of_sort hbuild hsort
  have hsorted : Distinct sorted := hdistinct.perm hperm.symm
  -- An edge of the new graph is a requirement of another unit, whose order in the sorted list is that
  -- of the positions.
  intro i j hij
  obtain ⟨hrequires, hne⟩ := (links_iff_requiresSame hsorted).1 ((hlinks i j).1 hij)
  have hi : sorted.get i ∈ units := hperm.mem_iff.1 (List.get_mem sorted i)
  have hj : sorted.get j ∈ units := hperm.mem_iff.1 (List.get_mem sorted j)
  exact (precedes_of_sort hdistinct hbuild hsort hi hj hrequires hne).lt_of_get hsorted.nodup

/-- Distinct units that have been sorted one way are left as they are when the graph is built over them
    again and they are sorted again, the same way or the other. -/
theorem sort_idempotent (units : List SourceUnit) (registry : Registry) (policy : MissingPolicy)
    (hdistinct : Distinct units) (d : DependencyGraph) (strategy again : Strategy)
    (sorted : List SourceUnit) (hbuild : build units registry policy = .ok d)
    (hsort : d.sort strategy = .ok sorted) :
    ∃ d', build sorted registry policy = .ok d' ∧ d'.sort again = .ok sorted := by
  have hperm : sorted.Perm units := perm_of_sort hbuild hsort
  -- The sorted list lacks no provider that the list does not lack.
  have hlacks : policy = .fail → ∀ u ∈ sorted, ¬ registry.Lacks u := fun hfail u hu =>
    exists_build_iff.1 ⟨d, hbuild⟩ hfail u (hperm.mem_iff.1 hu)
  obtain ⟨d', hbuild'⟩ := exists_build_iff.2 hlacks
  obtain ⟨graph, rfl, hlinks⟩ := depends_of_build hbuild'
  refine ⟨_, hbuild', ?_⟩
  rw [sort_eq_ok _ _ (again.order_eq_finRange (ordered_of_sort hdistinct hbuild hsort hlinks))]
  exact congrArg Except.ok (List.map_get_finRange sorted)

/-- A page that requires the last of two other units. -/
def pageWithStyle : List SourceUnit :=
  [.ordinary "page" [⟨"page"⟩] [⟨"style"⟩], .ordinary "about" [⟨"about"⟩] [],
    .ordinary "style" [⟨"style"⟩] []]

/-- What the page and the other units provide. -/
def pageRegistry : Registry := (Registry.empty.registerEach pageWithStyle).1

/-- Sorted by readiness, the three units stand as they should, and the search depth first leaves them
    so. -/
theorem sort_idempotent_of_pageWithStyle :
    ∃ d sorted, Distinct pageWithStyle ∧ build pageWithStyle pageRegistry .fail = .ok d ∧
      d.sort .kahn = .ok sorted ∧
      sorted.map representative = [⟨"about"⟩, ⟨"style"⟩, ⟨"page"⟩] ∧
      ∃ d', build sorted pageRegistry .fail = .ok d' ∧ d'.sort .depthFirst = .ok sorted := by
  have hdistinct : Distinct pageWithStyle := by
    unfold Distinct
    decide +kernel
  have hsorts : ((build pageWithStyle pageRegistry .fail).bind fun d => d.sort .kahn).toOption.map
      (List.map representative) = some [⟨"about"⟩, ⟨"style"⟩, ⟨"page"⟩] := by
    decide +kernel
  cases hbuild : build pageWithStyle pageRegistry .fail with
  | error fault => simp [hbuild, Except.bind, Except.toOption] at hsorts
  | ok d =>
    cases hsort : d.sort .kahn with
    | error fault => simp [hbuild, Except.bind, hsort, Except.toOption] at hsorts
    | ok sorted =>
      simp only [hbuild, Except.bind, hsort] at hsorts
      exact ⟨d, sorted, hdistinct, rfl, hsort, Option.some.inj hsorts,
        sort_idempotent pageWithStyle pageRegistry .fail hdistinct d .kahn .depthFirst sorted hbuild hsort⟩

end BuildOrder.DependencyGraph
