import BuildOrder.Proofs.GraphSort
import Mathlib.Algebra.BigOperators.Fin
import Mathlib.Data.Finset.Card

/-! # Which edges a dependency graph has

* `edgeCount_eq_card`            the count of a graph is that of its different edges
* `edgeCount_eq_sum_dependents`  and as many as the nodes have dependents
* `edgeCount_addEdge`            an edge counts once, however often it is added
* `links_iff`                    which positions a required namespace links, without a search
* `build_correct`                when there is a graph, and which edges it has
-/

namespace BuildOrder

namespace Digraph

variable {n : Nat}

/-- A list in ascending order is as long as there are nodes in it. -/
theorem length_eq_sum {xs : List (Fin n)} (h : xs.Pairwise (· < ·)) :
    xs.length = ∑ i, if i ∈ xs then 1 else 0 := by
  -- What ascends has no repetitions, so that each node of the list counts once.
  have hnodup : xs.Nodup := h.imp Fin.ne_of_lt
  rw [← List.toFinset_card_of_nodup hnodup, ← Finset.card_filter]
  congr 1
  ext i
  simp

/-- The edges are as many as the nodes have dependencies. -/
theorem edgeCount_eq_sum (g : Digraph n) : g.edgeCount = ∑ i, (g.dependencies i).length := by
  rw [Fin.sum_univ_def]
  rfl

/-- The edges of a graph, each as the node that depends and the one on which it depends. -/
def edges (g : Digraph n) : Finset (Fin n × Fin n) := Finset.univ.filter fun e => g.Depends e.1 e.2

/-- An edge of a graph is a dependency of its first node. -/
theorem mem_edges {g : Digraph n} {i j : Fin n} : (i, j) ∈ g.edges ↔ g.Depends i j :=
  Finset.mem_filter_univ (i, j)

/-- The count of the edges, which sums up the lists of dependencies, is that of the different edges:
    these lists are in ascending order, and so name no dependency twice. -/
theorem edgeCount_eq_card (g : Digraph n) : g.edgeCount = g.edges.card := by
  rw [edgeCount_eq_sum, edges, Finset.card_filter, Fintype.sum_prod_type]
  exact Finset.sum_congr rfl fun i _ => length_eq_sum (g.pairwise_dependencies i)

/-- The edges are as many as the nodes have dependents. -/
theorem edgeCount_eq_sum_dependents (g : Digraph n) : g.edgeCount = ∑ j, (g.dependents j).length := by
  -- The different edges are counted node by node once more, now by the node to which they lead.
  rw [edgeCount_eq_card, edges, Finset.card_filter, Fintype.sum_prod_type_right]
  refine Finset.sum_congr rfl fun j _ => ?_
  rw [length_eq_sum (g.pairwise_dependents j)]
  exact Finset.sum_congr rfl fun i _ => if_congr mem_dependents.symm rfl rfl

/-- An edge counts once, however often it is added. -/
theorem edgeCount_addEdge (g : Digraph n) (i j : Fin n) :
    (g.addEdge i j).edgeCount = if g.Depends i j then g.edgeCount else g.edgeCount + 1 := by
  -- Among the different edges, the edge is inserted, which changes nothing when it is there.
  have hedges : (g.addEdge i j).edges = insert (i, j) g.edges := by
    ext e
    rw [Finset.mem_insert, mem_edges, mem_edges, Prod.ext_iff]
    exact mem_dependencies_addEdge
  rw [edgeCount_eq_card, edgeCount_eq_card, hedges]
  split
  · rename_i hthere
    rw [Finset.insert_eq_of_mem (mem_edges.2 hthere)]
  · rename_i hnew
    rw [Finset.card_insert_of_notMem (mt mem_edges.1 hnew)]

end Digraph

namespace DependencyGraph

open SourceUnit

variable {units : List SourceUnit} {registry : Registry}

/-- The unit at one position requires a namespace that a different unit provides, and another position
    is the last one of that different unit. -/
def RequiresAt (units : List SourceUnit) (registry : Registry) (i j : Fin units.length) : Prop :=
  ∃ p, registry.Requires (units.get i) p ∧ p.identity ≠ (units.get i).identity ∧
    p.identity = (units.get j).identity ∧ ∀ k, j < k → p.identity ≠ (units.get k).identity

/-- A name that a unit requires links two positions exactly when a different unit provides it that
    stands last at the second one. -/
theorem links_iff {i j : Fin units.length} :
    Links units registry (units.get i).requires i j ↔ RequiresAt units registry i j := by
  -- A search from the end finds the position after which there is no other of the unit.
  have hlast : ∀ p : SourceUnit, lastPosition? p.same units = some j ↔
      p.identity = (units.get j).identity ∧ ∀ k, j < k → p.identity ≠ (units.get k).identity := by
    intro p
    simp only [lastPosition?_eq_some_iff, ← Bool.not_eq_true, same_iff, ne_eq]
  simp only [Links, RequiresAt, Registry.Requires, hlast]
  constructor
  · rintro ⟨ns, hns, p, hp, hother⟩
    exact ⟨p, ⟨ns, hns, hp⟩, hother⟩
  · rintro ⟨p, ⟨ns, hns, hp⟩, hother⟩
    exact ⟨ns, hns, p, hp, hother⟩

/-- A graph has the direct requirements of units as its edges, and counts each of them once. -/
structure Represents (units : List SourceUnit) (registry : Registry) (graph : Digraph units.length) :
    Prop where
  dependencies : ∀ i, (graph.dependencies i).Pairwise (· < ·) ∧
    ∀ j, j ∈ graph.dependencies i ↔ RequiresAt units registry i j
  dependents : ∀ j, (graph.dependents j).Pairwise (· < ·) ∧
    ∀ i, i ∈ graph.dependents j ↔ RequiresAt units registry i j
  dependencyCount : ∀ i, graph.dependencyCount i = (graph.dependencies i).length
  edges : ∀ i j, (i, j) ∈ graph.edges ↔ RequiresAt units registry i j
  edgeCount_edges : graph.edgeCount = graph.edges.card
  edgeCount : graph.edgeCount = ∑ i, (graph.dependencies i).length
  edgeCount_dependents : graph.edgeCount = ∑ j, (graph.dependents j).length
  edgeCount_addEdge : ∀ i j, RequiresAt units registry i j → (graph.addEdge i j).edgeCount = graph.edgeCount
  irreflexive : ∀ i, i ∉ graph.dependencies i

/-- A graph that has been built represents the units: it is known by its edges, and the rest follows
    from how a graph keeps them. -/
theorem represents_of_build {policy : MissingPolicy} {d : DependencyGraph}
    (h : build units registry policy = .ok d) :
    ∃ graph : Digraph units.length, d = ⟨units, graph⟩ ∧ Represents units registry graph := by
  obtain ⟨graph, rfl, hlinks⟩ := depends_of_build h
  have hedges : ∀ i j, j ∈ graph.dependencies i ↔ RequiresAt units registry i j :=
    fun i j => (hlinks i j).trans links_iff
  exact ⟨graph, rfl, {
    dependencies := fun i => ⟨graph.pairwise_dependencies i, hedges i⟩
    dependents := fun j => ⟨graph.pairwise_dependents j, fun i => Digraph.mem_dependents.trans (hedges i j)⟩
    dependencyCount := fun _ => rfl
    edges := fun i j => Digraph.mem_edges.trans (hedges i j)
    edgeCount_edges := graph.edgeCount_eq_card
    edgeCount := graph.edgeCount_eq_sum
    edgeCount_dependents := graph.edgeCount_eq_sum_dependents
    -- Adding an edge that is there already, as two namespaces of one unit do, changes no count.
    edgeCount_addEdge := fun i j hij => by
      rw [Digraph.edgeCount_addEdge, if_pos (show graph.Depends i j from (hedges i j).2 hij)]
    irreflexive := fun i hi => ((hlinks i i).1 hi).identity_ne rfl }⟩

/-- The graph of a list of units fails to be there exactly when a missing provider matters and a unit
    lacks one, and then the fault names the first such unit and the first namespace that it lacks.
    The graph that is there has exactly the direct requirements of the units as its edges, each of them
    once, however many namespaces of a unit ask for it. -/
theorem build_correct (units : List SourceUnit) (registry : Registry) :
    ((∃ ns u, build units registry .fail = .error (.missingDependency ns u)) ↔
      ∃ u ∈ units, registry.Lacks u) ∧
    (∀ fault, build units registry .fail = .error fault →
      ∃ ns u, fault = .missingDependency ns u ∧ registry.FirstGap units u ns) ∧
    (∃ d, build units registry .ignore = .ok d) ∧
    ∀ policy d, build units registry policy = .ok d →
      ∃ graph : Digraph units.length, d = ⟨units, graph⟩ ∧ Represents units registry graph := by
  refine ⟨?_, ?_, exists_build_ignore units registry, fun _ _ => represents_of_build⟩
  · rcases build_fail_cases units registry with ⟨⟨d, hd⟩, hall⟩ | ⟨u, ns, hgap, herror⟩
    · -- The graph is there, and so no unit lacks a provider.
      refine iff_of_false ?_ ?_
      · rintro ⟨ns, u, herror⟩
        cases hd.symm.trans herror
      · rintro ⟨u, hu, hlacks⟩
        exact hall u hu hlacks
    · exact iff_of_true ⟨ns, u, herror⟩ ⟨u, hgap.mem, ns, hgap.mem_requires, hgap.resolve_eq_none⟩
  · intro fault hfault
    rcases build_fail_cases units registry with ⟨⟨d, hd⟩, -⟩ | ⟨u, ns, hgap, herror⟩
    · cases hd.symm.trans hfault
    · exact ⟨ns, u, Except.error.inj (hfault.symm.trans herror), hgap⟩

/-- Of the two units that require each other, the one that is listed twice is required where it stands
    last, and both its positions require the other. -/
theorem build_correct_of_pingPong :
    (∃ ns u, build pingPong .empty .fail = .error (.missingDependency ns u) ∧
      Registry.empty.FirstGap pingPong u ns) ∧
    ∃ graph : Digraph pingPong.length, build pingPong pingPongRegistry .fail = .ok ⟨pingPong, graph⟩ ∧
      Represents pingPong pingPongRegistry graph ∧
      (List.finRange _).map (fun i => (graph.dependencies i).map Fin.val) = [[1], [2], [1]] := by
  obtain ⟨hfails, hnames, -, -⟩ := build_correct pingPong .empty
  obtain ⟨-, -, -, hrepresents⟩ := build_correct pingPong pingPongRegistry
  constructor
  · obtain ⟨ns, u, herror⟩ := hfails.2 ⟨_, List.mem_cons_self, ⟨"pong"⟩, List.mem_cons_self, rfl⟩
    obtain ⟨_, _, hfault, hgap⟩ := hnames _ herror
    cases hfault
    exact ⟨ns, u, herror, hgap⟩
  · obtain ⟨d, -, hbuild, -⟩ := sort_pingPong
    obtain ⟨graph, rfl, hgraph⟩ := hrepresents .fail d hbuild
    have hrows : (build pingPong pingPongRegistry .fail).toOption.map (fun d =>
        (List.finRange _).map fun i => (d.graph.dependencies i).map Fin.val) = some [[1], [2], [1]] := by
      decide +kernel
    rw [hbuild] at hrows
    exact ⟨graph, hbuild, hgraph, Option.some.inj hrows⟩

end DependencyGraph

end BuildOrder
