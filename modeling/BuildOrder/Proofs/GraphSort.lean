import BuildOrder.Proofs.DependencyGraph
import BuildOrder.Proofs.Distinct
import BuildOrder.Proofs.Order.Strategy
import BuildOrder.Proofs.Order.Turns
import BuildOrder.SourceUnit.Draft

/-! # Sorting a dependency graph

The graph is that of any list of units, in which a unit may have several positions.

* `order_complete`          both strategies end, succeed unless there is a cycle, and give an order
* `isCycle_units`           a cycle of positions is one of different units
* `sort_error_isCycle`      what a failed sort reports is such a cycle
* `sort_depthFirst_refines` the search with a stack sorts, or fails, as the recursive one
-/

namespace BuildOrder.DependencyGraph

open Relation SourceUnit

variable {units : List SourceUnit} {registry : Registry}

/-- Both ways of sorting come to an end: the search with a stack where it has no further turn, whatever
    state it starts in, and the other one with its queue empty.  They succeed on the same graphs, which
    are those without a cycle, and give all positions, each once and after those on which it depends. -/
theorem order_complete (units : List SourceUnit) (registry : Registry) (policy : MissingPolicy)
    (d : DependencyGraph) (hbuild : build units registry policy = .ok d) :
    d.units = units ∧
    (∀ s : DepthFirst.State d.units.length, ∃ last,
      ReflTransGen (DepthFirst.Turn d.graph) s last ∧ DepthFirst.Stops last (s.run d.graph) ∧
        ∀ next, ¬ DepthFirst.Turn d.graph last next) ∧
    (Kahn.final d.graph).ready = [] ∧
    (∀ strategy : Strategy, (∃ nodes, strategy.order d.graph = .ok nodes) ↔ d.graph.Acyclic) ∧
    ((∃ nodes, Strategy.depthFirst.order d.graph = .ok nodes) ↔
      ∃ nodes, Strategy.kahn.order d.graph = .ok nodes) ∧
    ∀ (strategy : Strategy) (nodes : List (Fin d.units.length)), strategy.order d.graph = .ok nodes →
      nodes.Perm (List.finRange d.units.length) ∧ ∀ i j, d.graph.Depends i j → Precedes nodes j i := by
  -- Of the units and the registry, only the graph matters here, which may be any graph.
  obtain ⟨graph, rfl, -⟩ := depends_of_build hbuild
  have hsucceeds : ∀ strategy : Strategy, (∃ nodes, strategy.order graph = .ok nodes) ↔ graph.Acyclic :=
    fun _ => Strategy.exists_order_eq_ok_iff
  refine ⟨rfl, fun s => ?_, Kahn.ready_final graph, hsucceeds,
    (hsucceeds .depthFirst).trans (hsucceeds .kahn).symm, fun strategy nodes hnodes => ?_⟩
  · obtain ⟨last, hturns, hstops⟩ := DepthFirst.exists_stops graph s
    exact ⟨last, hturns, hstops, fun _ => hstops.not_turn⟩
  · have horder := Strategy.isOrder_of_order_eq_ok hnodes
    exact ⟨horder.perm, fun i j hij => horder.respects i (horder.mem i) j hij⟩

/-- Two units that require each other, one of them listed twice. -/
def pingPong : List SourceUnit :=
  [.ordinary "ping" [⟨"ping"⟩] [⟨"pong"⟩], .ordinary "pong" [⟨"pong"⟩] [⟨"ping"⟩],
    .ordinary "ping" [⟨"ping"⟩] [⟨"pong"⟩]]

/-- What the two units provide. -/
def pingPongRegistry : Registry := (Registry.empty.registerEach pingPong).1

/-- The graph of the two units is there, and the sort by readiness fails on it. -/
theorem sort_pingPong :
    ∃ d fault, build pingPong pingPongRegistry .fail = .ok d ∧ d.sort .kahn = .error fault := by
  have hbuilds : (build pingPong pingPongRegistry .fail).isOk := by decide +kernel
  have hfails : ((build pingPong pingPongRegistry .fail).bind fun d => d.sort .kahn).isOk = false := by
    decide +kernel
  cases hbuild : build pingPong pingPongRegistry .fail with
  | error fault => simp [hbuild, Except.isOk, Except.toBool] at hbuilds
  | ok d =>
    cases hsort : d.sort .kahn with
    | ok sorted => simp [hbuild, Except.bind, hsort, Except.isOk, Except.toBool] at hfails
    | error fault => exact ⟨d, fault, rfl, hsort⟩

/-- The sort by readiness fails on the two units, and so does the search depth first. -/
theorem order_complete_of_pingPong :
    ∃ d, build pingPong pingPongRegistry .fail = .ok d ∧ d.units = pingPong ∧ ¬ d.graph.Acyclic ∧
      ¬ ∃ nodes, Strategy.depthFirst.order d.graph = .ok nodes := by
  obtain ⟨d, fault, hbuild, hsort⟩ := sort_pingPong
  obtain ⟨hunits, -, -, hsucceeds, hboth, -⟩ := order_complete pingPong pingPongRegistry .fail d hbuild
  have hkahn : ¬ ∃ nodes, Strategy.kahn.order d.graph = .ok nodes := by
    rintro ⟨nodes, hnodes⟩
    simp [sort, hnodes] at hsort
  exact ⟨d, hbuild, hunits, fun hacyclic => hkahn ((hsucceeds .kahn).2 hacyclic),
    fun hdepth => hkahn (hboth.1 hdepth)⟩

/-- A cycle of positions is one of different units, of which there are several. -/
theorem isCycle_units {graph : Digraph units.length}
    (hlinks : ∀ i j, graph.Depends i j ↔ Links units registry (units.get i).requires i j)
    {nodes : List (Fin units.length)} (hcycle : IsCycle graph.Depends nodes) :
    2 ≤ nodes.length ∧ Distinct (nodes.map units.get) ∧
      IsCycle registry.RequiresSame (nodes.map units.get) := by
  -- An edge leads to each node of the cycle, so that no two of them are positions of one unit.
  have hinj : ∀ i ∈ nodes, ∀ j ∈ nodes, (units.get i).identity = (units.get j).identity → i = j := by
    intro i hi j hj heq
    obtain ⟨k, hk⟩ := hcycle.exists_rel hi
    obtain ⟨l, hl⟩ := hcycle.exists_rel hj
    exact ((hlinks k i).1 hk).eq_of_identity_eq ((hlinks l j).1 hl) heq
  refine ⟨?_, ?_, hcycle.map _ (fun i hi j hj hij => hinj i hi j hj (hij ▸ rfl)) fun i _ j _ hij => ?_⟩
  · obtain ⟨-, first, rest, rfl, hchain⟩ := hcycle
    cases rest with
    | nil =>
      -- A node on its own would depend on itself.
      exact absurd rfl ((hlinks first first).1 (List.isChain_pair.1 hchain)).identity_ne
    | cons second rest => simp
  · rw [Distinct, List.map_map]
    exact hcycle.1.map_on hinj
  · exact ((hlinks i j).1 hij).requiresSame

/-- What a failed sort reports is a cycle: different units of the list, at least two, each of which
    requires the next and the last the first, with their names on the way round. -/
theorem sort_error_isCycle (units : List SourceUnit) (registry : Registry) (policy : MissingPolicy)
    (d : DependencyGraph) (strategy : Strategy) (fault : Fault)
    (hbuild : build units registry policy = .ok d) (hsort : d.sort strategy = .error fault) :
    ∃ first rest, fault = .circularDependency ((first :: rest ++ [first]).map representative) (first :: rest) ∧
      2 ≤ (first :: rest).length ∧ Distinct (first :: rest) ∧ (∀ u ∈ first :: rest, u ∈ units) ∧
      (first :: rest ++ [first]).IsChain registry.RequiresSame := by
  obtain ⟨graph, rfl, hlinks⟩ := depends_of_build hbuild
  unfold sort at hsort
  split at hsort
  · cases hsort
  rename_i finding horder
  obtain ⟨nodes, rfl, hcycle⟩ := Strategy.isCycle_of_order_eq_error horder
  obtain ⟨hseveral, hdistinct, hround⟩ := isCycle_units hlinks hcycle
  obtain ⟨-, first, rest, hsplit, hchain⟩ := hround
  have hunits : nodes.map (unit ⟨units, graph⟩) = first :: rest := hsplit
  rw [hsplit] at hchain hdistinct
  refine ⟨first, rest, ?_, ?_, hdistinct, fun u hu => ?_, hchain⟩
  · -- The names go with the units, the first of which closes the path.
    rw [← Except.error.inj hsort, DependencyGraph.fault, hunits]
    simp [closedPath]
  · rwa [← hsplit, List.length_map]
  · rw [← hsplit] at hu
    obtain ⟨i, -, rfl⟩ := List.mem_map.1 hu
    exact List.get_mem units i

theorem sort_error_isCycle_of_pingPong :
    ∃ d fault, build pingPong pingPongRegistry .fail = .ok d ∧ d.sort .kahn = .error fault ∧
      ∃ first rest, fault = .circularDependency ((first :: rest ++ [first]).map representative) (first :: rest) ∧
        2 ≤ (first :: rest).length ∧ Distinct (first :: rest) ∧ (∀ u ∈ first :: rest, u ∈ pingPong) ∧
        (first :: rest ++ [first]).IsChain pingPongRegistry.RequiresSame := by
  obtain ⟨d, fault, hbuild, hsort⟩ := sort_pingPong
  exact ⟨d, fault, hbuild, hsort,
    sort_error_isCycle pingPong pingPongRegistry .fail d .kahn fault hbuild hsort⟩

/-- The search with a stack gives what the recursive search gives.  On success, the units stand in the
    order in which their visits end.  Where the recursive search comes round to a node of its path, the
    sort reports the units of the path from that node on, and their names. -/
theorem sort_depthFirst_refines (d : DependencyGraph) :
    DepthFirst.order d.graph = (Recursive.order d.graph).mapError .cycle ∧
    d.sort .depthFirst =
      match Recursive.order d.graph with
      | .ok nodes => .ok (nodes.map d.unit)
      | .error cycle =>
        .error (.circularDependency (closedPath (cycle.map d.unit)) (cycle.map d.unit)) := by
  have horder : DepthFirst.order d.graph = (Recursive.order d.graph).mapError .cycle := by
    -- The recursive search gives the cycle, which the other one reports as its finding.
    rw [DepthFirst.order_eq]
    cases Recursive.order d.graph <;> rfl
  refine ⟨horder, ?_⟩
  rw [sort, Strategy.order, horder]
  cases Recursive.order d.graph with
  | ok nodes => rfl
  | error cycle => rfl

end BuildOrder.DependencyGraph
