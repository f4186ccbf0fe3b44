import BuildOrder.Proofs.GraphSort

/-! # What marks on the nodes show

The marks need not be those that a sort leaves behind.

* `distinct_of_isCycle`   a cycle of nodes is one of different units
* `fault_of_marks`        which fault is reported for any marks
-/

namespace BuildOrder

open Relation

namespace DependencyGraph

open Finding SourceUnit

/-- In the graph of a list of units, the nodes of a cycle are different units. -/
theorem distinct_of_isCycle {d : DependencyGraph} {units : List SourceUnit} {registry : Registry}
    {policy : MissingPolicy} (hbuild : build units registry policy = .ok d)
    {nodes : List (Fin d.units.length)} (hcycle : IsCycle d.graph.Depends nodes) :
    Distinct (nodes.map d.unit) := by
  obtain ⟨graph, rfl, hlinks⟩ := depends_of_build hbuild
  exact (isCycle_units hlinks hcycle).2.1

/-- Whatever nodes are marked, if only every node has a mark, the walk meets no node twice before it
    stops.  What it reports is that nothing is left over, when all nodes are marked; the node where its
    way ends, if the way ends; and otherwise a cycle of nodes without marks, each of which leads to the
    next and the last to the first. -/
theorem fault_of_marks (d : DependencyGraph) (marks : List Bool)
    (hlength : d.units.length ≤ marks.length) :
    ∃ finding, ofMarks? d.graph marks = some finding ∧
      (∀ start, LowestUnmarked marks start →
        (∃ last, ReflTransGen (Turn d.graph marks) ⟨[], start⟩ last ∧ Stops d.graph marks last finding) ∧
        ∀ p, ReflTransGen (Turn d.graph marks) ⟨[], start⟩ p →
          p.trail.Nodup ∧ p.trail.length ≤ d.units.length ∧
          (p.current ∉ p.trail → p.trail.length < d.units.length)) ∧
      ((∀ i : Fin d.units.length, marks[i.val]? = some true) →
        d.fault finding = .invariantViolation .nothingUnsorted) ∧
      (∀ i, EndsAt d.graph marks i →
        d.fault finding = .invariantViolation (.unsortedWithoutReason (d.unit i)) ∧
        (d.fault finding).message = "internal invariant violated: " ++
          ("`" ++ (d.unit i).id ++ "` is unsorted but has no unsorted dependency")) ∧
      ((¬ ∀ i : Fin d.units.length, marks[i.val]? = some true) → (∀ i, ¬ EndsAt d.graph marks i) →
        ∃ nodes, d.fault finding =
            .circularDependency (closedPath (nodes.map d.unit)) (nodes.map d.unit) ∧
          IsCycle (LeadsTo d.graph marks) nodes ∧ (∀ i ∈ nodes, marks[i.val]? = some false) ∧
          ∀ units registry policy, build units registry policy = .ok d → Distinct (nodes.map d.unit)) := by
  -- Either some node has no mark, and then the walk begins at the lowest of these, or all nodes are
  -- marked.
  rcases exists_lowest_or_forall hlength with ⟨start, hstart⟩ | hall
  · obtain ⟨finding, last, hfinding, hturns, hstops⟩ := exists_stops_of_lowest (g := d.graph) hlength hstart
    have hlast := sound_of_turns hturns
    refine ⟨finding, hfinding, fun first hfirst => ?_, fun hall => absurd hall hstart.not_forall,
      fun i hi => ?_, fun _ hnone => ?_⟩
    · -- There is only one lowest node without a mark, so that every start is this one.
      obtain rfl := hfirst.unique hstart
      exact ⟨⟨last, hturns, hstops⟩, fun p hp => ⟨(sound_of_turns hp).nodup, (sound_of_turns hp).length_le⟩⟩
    · -- The way is determined by the marks, so that it ends nowhere else.
      obtain rfl := hstops.eq_of_endsAt hlength hstart hlast hi
      exact ⟨rfl, rfl⟩
    · obtain ⟨nodes, rfl, hcycle, hmarks⟩ := hstops.exists_cycle hlength hstart hlast hnone
      refine ⟨nodes, rfl, hcycle, hmarks, fun units registry policy hbuild => ?_⟩
      exact distinct_of_isCycle hbuild (hcycle.imp fun _ _ _ _ hleads => hleads.1.1)
  · -- There is no node to start from, nor one to end at.
    refine ⟨.nothingUnsorted, ofMarks?_of_forall hall, fun start hstart => absurd hall hstart.not_forall,
      fun _ => rfl, fun i hi => ?_, fun hsome => absurd hall hsome⟩
    obtain ⟨start, hstart, -⟩ := hi
    exact absurd hall hstart.not_forall

/-- Two units that require each other. -/
def twoWay : DependencyGraph where
  units := [.ordinary "ping.js" [⟨"ping"⟩] [⟨"pong"⟩], .ordinary "pong.js" [⟨"pong"⟩] [⟨"ping"⟩]]
  graph := ((Digraph.edgeless 2).addEdge 0 1).addEdge 1 0

/-- With no node marked the walk comes round, and with one of them marked it ends at the other. -/
theorem fault_of_marks_of_twoWay :
    twoWay.units.length ≤ [false, false, true].length ∧
    (∃ finding nodes, ofMarks? twoWay.graph [false, false, true] = some finding ∧
      twoWay.fault finding =
        .circularDependency (closedPath (nodes.map twoWay.unit)) (nodes.map twoWay.unit) ∧
      IsCycle (LeadsTo twoWay.graph [false, false, true]) nodes) ∧
    ∃ finding, ofMarks? twoWay.graph [true, false] = some finding ∧
      twoWay.fault finding = .invariantViolation (.unsortedWithoutReason (twoWay.unit ⟨1, by decide⟩)) := by
  have hends : EndsAt twoWay.graph [true, false] ⟨1, by decide⟩ :=
    ⟨_, (firstUnmarked_finRange_iff (by decide)).1 rfl, .refl, by decide⟩
  -- Each unit depends on the other, and the third mark belongs to no unit.
  have hgoesOn : ∀ i, ¬ ∀ j, twoWay.graph.Depends i j → [false, false, true][j.val]? = some true := by
    decide
  have hround : ∀ i, ¬ EndsAt twoWay.graph [false, false, true] i := fun i ⟨_, _, _, hall⟩ =>
    hgoesOn i hall
  obtain ⟨finding, hfinding, -, -, -, hcycle⟩ := fault_of_marks twoWay [false, false, true] (by decide)
  obtain ⟨nodes, hfault, hnodes, -⟩ := hcycle (by decide) hround
  obtain ⟨other, hother, -, -, hstuck, -⟩ := fault_of_marks twoWay [true, false] (by decide)
  exact ⟨by decide, ⟨finding, nodes, hfinding, hfault, hnodes⟩, other, hother, (hstuck _ hends).1⟩

end DependencyGraph

end BuildOrder
