import BuildOrder.Proofs.DependencyGraph
import BuildOrder.Proofs.Distinct
import BuildOrder.Proofs.Order.Strategy

/-! # Sorting distinct units

The units of a list are distinct, and for the most part the list holds all that they require.

* `links_iff_requiresSame`    the edges are the requirements of other units
* `needs_or_eq_of_transGen`   what a unit requires through others is that unit, or needed by it
* `sort_cases`                the units come after all that they need, or some are on a cycle
-/

namespace BuildOrder

open Relation SourceUnit

/-- A unit requires a namespace that a different unit provides. -/
def Registry.Needs (r : Registry) (u v : SourceUnit) : Prop :=
  r.Requires u v ∧ u.identity ≠ v.identity

namespace DependencyGraph

variable {units : List SourceUnit} {registry : Registry}

/-- Between distinct units, the edges are the requirements of other units. -/
theorem links_iff_requiresSame (hdistinct : Distinct units) {i j : Fin units.length} :
    Links units registry (units.get i).requires i j ↔
      registry.RequiresSame (units.get i) (units.get j) ∧ (units.get i).identity ≠ (units.get j).identity := by
  constructor
  · exact fun h => ⟨h.requiresSame, h.identity_ne⟩
  · rintro ⟨⟨p, ⟨ns, hns, hp⟩, hsame⟩, hne⟩
    exact ⟨ns, hns, p, hp, hsame ▸ hne.symm, hdistinct.lastPosition?_eq_some.2 hsame⟩

/-- Among distinct units that hold all that they require, the edges are the needs. -/
theorem depends_iff_needs (hdistinct : Distinct units)
    (hclosed : ∀ u ∈ units, ∀ p, registry.Requires u p → p ∈ units) (i j : Fin units.length) :
    Links units registry (units.get i).requires i j ↔ registry.Needs (units.get i) (units.get j) := by
  rw [links_iff_requiresSame hdistinct]
  constructor
  · rintro ⟨⟨p, hp, hsame⟩, hne⟩
    have hmem : p ∈ units := hclosed (units.get i) (List.get_mem units i) p hp
    obtain rfl : p = units.get j := hdistinct.eq_of_identity_eq hmem (List.get_mem units j) hsame
    exact ⟨hp, hne⟩
  · rintro ⟨hrequires, hne⟩
    exact ⟨⟨units.get j, hrequires, rfl⟩, hne⟩

/-- The units at the positions of an order are those of the list. -/
theorem perm_map_get {graph : Digraph units.length} {nodes : List (Fin units.length)}
    (h : graph.IsOrder nodes) : (nodes.map units.get).Perm units := by
  have hmap := h.perm.map units.get
  rwa [List.map_get_finRange] at hmap

/-- A unit that requires another through others needs it, unless it is that unit. -/
theorem needs_or_eq_of_transGen (hdistinct : Distinct units)
    (hclosed : ∀ u ∈ units, ∀ p, registry.Requires u p → p ∈ units) {u v : SourceUnit} (hu : u ∈ units)
    (h : TransGen registry.Requires u v) : v ∈ units ∧ (u = v ∨ TransGen registry.Needs u v) := by
  -- Among distinct units, one that requires itself by its identity requires the same value.
  have hstep : ∀ a ∈ units, ∀ b, registry.Requires a b → b ∈ units ∧ (a = b ∨ registry.Needs a b) := by
    intro a ha b hab
    have hb := hclosed a ha b hab
    refine ⟨hb, ?_⟩
    by_cases hsame : a.identity = b.identity
    · exact .inl (hdistinct.eq_of_identity_eq ha hb hsame)
    · exact .inr ⟨hab, hsame⟩
  -- Steps from a unit to itself can be left out of the way.
  induction h with
  | single hab =>
    obtain ⟨hb, heq | hneeds⟩ := hstep u hu _ hab
    · exact ⟨hb, .inl heq⟩
    · exact ⟨hb, .inr (.single hneeds)⟩
  | tail _ hbc ih =>
    obtain ⟨hb, hub⟩ := ih
    obtain ⟨hc, heq | hneeds⟩ := hstep _ hb _ hbc
    · exact ⟨hc, heq ▸ hub⟩
    · refine ⟨hc, .inr ?_⟩
      rcases hub with rfl | hub
      · exact .single hneeds
      · exact hub.tail hneeds

/-- What a unit of the list needs has a position to which edges lead. -/
theorem exists_transGen_depends {graph : Digraph units.length}
    (hclosed : ∀ u ∈ units, ∀ p, registry.Requires u p → p ∈ units)
    (hedges : ∀ i j, graph.Depends i j ↔ registry.Needs (units.get i) (units.get j)) {i : Fin units.length}
    {v : SourceUnit} (h : TransGen registry.Needs (units.get i) v) :
    ∃ j : Fin units.length, (units.get j) = v ∧ TransGen graph.Depends i j := by
  -- A single need leads to a unit of the list, which has a position.
  have hposition : ∀ k : Fin units.length, ∀ b, registry.Needs (units.get k) b →
      ∃ j : Fin units.length, (units.get j) = b ∧ graph.Depends k j := by
    intro k b hkb
    have hb := hclosed (units.get k) (List.getElem_mem _) b hkb.1
    obtain ⟨j, hj, rfl⟩ := List.getElem_of_mem hb
    exact ⟨⟨j, hj⟩, rfl, (hedges k ⟨j, hj⟩).2 hkb⟩
  induction h with
  | single hib =>
    obtain ⟨j, hj, hij⟩ := hposition i _ hib
    exact ⟨j, hj, .single hij⟩
  | tail _ hbc ih =>
    obtain ⟨k, rfl, hik⟩ := ih
    obtain ⟨j, hj, hkj⟩ := hposition k _ hbc
    exact ⟨j, hj, hik.tail hkj⟩

/-- The units are sorted, each after all that it needs, or else some of them are on a cycle. -/
theorem sort_cases {policy : MissingPolicy} {d : DependencyGraph} (hdistinct : Distinct units)
    (hclosed : ∀ u ∈ units, ∀ p, registry.Requires u p → p ∈ units)
    (h : build units registry policy = .ok d) (strategy : Strategy) :
    (∃ sorted, d.sort strategy = .ok sorted ∧ sorted.Perm units ∧
        ∀ u ∈ units, ∀ v, TransGen registry.Needs u v → Precedes sorted v u) ∨
      ∃ path round, d.sort strategy = .error (.circularDependency path round) ∧
        (∀ u ∈ round, u ∈ units) ∧ IsCycle registry.Needs round := by
  obtain ⟨graph, rfl, hlinks⟩ := depends_of_build h
  have hedges : ∀ i j, graph.Depends i j ↔ registry.Needs (units.get i) (units.get j) := fun i j =>
    (hlinks i j).trans (depends_iff_needs hdistinct hclosed i j)
  unfold sort
  dsimp only
  cases horder : strategy.order graph with
  | ok nodes =>
    -- The order of the positions is an order of the units.
    left
    have hsorted := Strategy.isOrder_of_order_eq_ok horder
    refine ⟨_, rfl, perm_map_get hsorted, fun u hu v huv => ?_⟩
    obtain ⟨k, hk, rfl⟩ := List.getElem_of_mem hu
    obtain ⟨j, rfl, hkj⟩ := exists_transGen_depends (i := ⟨k, hk⟩) hclosed hedges huv
    exact (hsorted.precedes_of_transGen hkj).map _
  | error finding =>
    -- Different positions hold different units, so that the cycle is one of units.
    right
    obtain ⟨nodes, rfl, hcycle⟩ := Strategy.isCycle_of_order_eq_error horder
    refine ⟨_, _, rfl, fun u hu => ?_, ?_⟩
    · obtain ⟨i, -, rfl⟩ := List.mem_map.1 hu
      exact List.getElem_mem i.isLt
    · refine hcycle.map _ (fun i _ j _ hij => ?_) fun i _ j _ hij => (hedges i j).1 hij
      exact Fin.ext ((List.Nodup.getElem_inj_iff hdistinct.nodup).1 hij)

end DependencyGraph

end BuildOrder
