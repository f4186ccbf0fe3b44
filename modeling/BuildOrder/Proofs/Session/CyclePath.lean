import BuildOrder.Proofs.Session.Candidates
import BuildOrder.Proofs.Session.Representation

/-! # The path of a reported cycle

A cycle among the kept units is reported with its units and the names on the way round.

* `compute_circular`       the units are kept ones, and the names are the first that they provide
* `resolve_representative` a unit that is required provides the name that stands for it
* `cyclePath_resolves`     so the names lead back to the units, each to its own
-/

namespace BuildOrder

open Relation SourceUnit

/-- A unit that provides something is called by what it provides. -/
theorem SourceUnit.representative_mem {u : SourceUnit} {ns : Namespace} (h : ns ∈ u.provides) :
    u.representative ∈ u.provides := by
  unfold representative
  cases hprovides : u.provides with
  | nil => exact absurd (hprovides ▸ h) List.not_mem_nil
  | cons first rest => exact List.mem_cons_self

/-- The path of a cycle holds one name for each unit and the first name once more. -/
theorem DependencyGraph.closedPath_cons (first : SourceUnit) (rest : List SourceUnit) :
    closedPath (first :: rest) = (first :: rest).map representative ++ [first.representative] := rfl

/-- The path that a failed sort reports is made of the units that it reports. -/
theorem DependencyGraph.eq_closedPath_of_sort {d : DependencyGraph} {strategy : Strategy}
    {path : List Namespace} {round : List SourceUnit}
    (h : d.sort strategy = .error (.circularDependency path round)) : path = closedPath round := by
  unfold sort at h
  split at h
  · cases h
  · rename_i finding _
    cases finding <;> cases h
    rfl

namespace Session

variable {s : Session}

/-- Kept units are not arranged when the sort comes upon a cycle among them. -/
theorem arranged_circular {units : List SourceUnit} {path : List Namespace} {round : List SourceUnit}
    (hdistinct : Distinct units)
    (hclosed : ∀ u ∈ units, ∀ p, s.registry.Requires u p → p ∈ units)
    (h : s.arranged units = .error (.circularDependency path round)) :
    (∀ u ∈ round, u ∈ units) ∧ path = DependencyGraph.closedPath round ∧
      IsCycle s.registry.Needs round := by
  unfold arranged at h
  split at h
  · cases h
  -- There is a graph, or the fault would be another one.
  rcases DependencyGraph.build_fail_cases units s.registry with ⟨⟨graph, hgraph⟩, -⟩ | ⟨u, ns, -, herror⟩
  case inr => simp [herror] at h
  rw [hgraph] at h
  dsimp only at h
  refine ⟨?_, DependencyGraph.eq_closedPath_of_sort h, ?_⟩ <;>
    rcases DependencyGraph.sort_cases hdistinct hclosed hgraph s.policy.strategy with
      ⟨sorted, hsort, -⟩ | ⟨path', round', hsort, hround, hcycle⟩ <;>
    cases hsort.symm.trans h
  · exact hround
  · exact hcycle

/-- A computation that ends at a cycle has found it among the kept units. -/
theorem Complete.compute_circular (hs : s.Complete) {path : List Namespace} {round : List SourceUnit}
    (h : s.compute = .error (.circularDependency path round)) :
    ∃ units, s.promoted = .ok s.destined ∧ s.kept s.destined = .ok units ∧ (∀ u ∈ units, s.Keeps u) ∧
      (∀ u ∈ round, u ∈ units) ∧ path = DependencyGraph.closedPath round ∧
      IsCycle s.registry.Needs round := by
  unfold compute at h
  -- The parts before the last one have succeeded, as they can fail in other ways only.
  rcases hs.promoted_cases with ⟨-, hpromoted⟩ | ⟨ns, -, hpromoted⟩
  case inr => simp [hpromoted] at h
  rcases hs.kept_cases with ⟨units, hunits, hsub, hmem, -⟩ | ⟨-, u, ns, -, -, -, herror⟩
  case inr => simp [hpromoted, herror] at h
  simp only [hpromoted, hunits] at h
  have hclosed : ∀ u ∈ units, ∀ p, s.registry.Requires u p → p ∈ units := fun u hu p hp =>
    (hmem p).2 (hs.keeps_of_requires ((hmem u).1 hu) hp)
  have harranged : s.arranged units = .error (.circularDependency path round) := by
    cases hresult : s.arranged units with
    | ok manifest => simp [hresult] at h
    | error fault => simpa [hresult] using h
  exact ⟨units, hpromoted, hunits, fun u hu => (hmem u).1 hu,
    arranged_circular (hs.distinct.sublist hsub) hclosed harranged⟩

/-- A unit that is required is stored, and the name that stands for it is registered for it. -/
theorem Complete.resolve_representative (hs : s.Complete) (hconsistent : s.Consistent) {u v : SourceUnit}
    (h : s.registry.Requires v u) :
    u ∈ s.units ∧ u.representative ∈ u.provides ∧ s.registry.resolve u.representative = some u := by
  obtain ⟨ns, -, hu⟩ := h
  obtain ⟨hmem, hns⟩ := (hconsistent.resolve_eq_some_iff hs).1 hu
  -- It provides the name by which it is required, and so some first name.
  have hname := representative_mem hns
  exact ⟨hmem, hname, (hconsistent.resolve_eq_some_iff hs).2 ⟨hmem, hname⟩⟩

/-- Where no unit was refused, the path of a reported cycle can be read back.  Its units are stored and
    belong to those that the manifest would keep, and each needs the next.  Each name but the repeated
    one at the end is declared by the unit at its place and registered for that very unit, so that no two
    of these names are the same. -/
theorem cyclePath_resolves (policy : Policy) (ops : List Operation) (s : Session) (path : List Namespace)
    (round : List SourceUnit) (hadds : (new policy).AddsSucceed ops) (hs : s = (new policy).after ops)
    (hfault : s.manifest.2 = .error (.circularDependency path round)) :
    (∃ roles units, s.promoted = .ok roles ∧ s.kept roles = .ok units ∧
      ∀ u ∈ round, u ∈ s.units ∧ u ∈ units ∧ (s.policy.keepAllUnits = false →
        ∃ v ∈ Role.main.select s.units roles, ReflTransGen s.registry.Requires v u)) ∧
    IsCycle s.registry.Needs round ∧
    List.Forall₂ (fun ns u => ns ∈ u.provides ∧ s.registry.resolve ns = some u) path.dropLast round ∧
    path.dropLast.Nodup ∧ path.getLast? = path.head? := by
  have hcomplete : s.Complete := hs ▸ complete_after hadds
  have hconsistent : s.Consistent := hs ▸ consistent_after policy ops
  have hcompute : s.compute = .error (.circularDependency path round) :=
    (manifest_snd_eq_error_iff (hs ▸ coherent_after policy ops)).1 hfault
  obtain ⟨units, hpromoted, hkept, hkeeps, hround, rfl, hcycle⟩ := hcomplete.compute_circular hcompute
  -- Each unit of a cycle is required by another one.
  have hresolve : ∀ u ∈ round, u ∈ s.units ∧ u.representative ∈ u.provides ∧
      s.registry.resolve u.representative = some u := fun u hu => by
    obtain ⟨v, hvu, -⟩ := hcycle.exists_rel hu
    exact hcomplete.resolve_representative hconsistent hvu
  refine ⟨⟨s.destined, units, hpromoted, hkept, fun u hu => ⟨(hresolve u hu).1, hround u hu, fun hsome => ?_⟩⟩,
    hcycle, ?_⟩
  · obtain ⟨v, hv, hvu⟩ : ∃ v, s.Seed v ∧ ReflTransGen s.registry.Requires v u := by
      simpa [Keeps, hsome] using hkeeps u (hround u hu)
    exact ⟨v, hcomplete.mem_select_destined.2 hv, hvu⟩
  · obtain ⟨first, rest, rfl⟩ : ∃ first rest, round = first :: rest := by
      obtain ⟨-, first, rest, hsplit, -⟩ := hcycle
      exact ⟨first, rest, hsplit⟩
    rw [DependencyGraph.closedPath_cons, List.dropLast_concat]
    refine ⟨?_, ?_, List.getLast?_concat⟩
    · rw [List.forall₂_map_left_iff, List.forall₂_same]
      exact fun u hu => (hresolve u hu).2
    · -- A name cannot be registered for two units.
      refine hcycle.1.map_on fun u hu v hv heq => ?_
      have hu := (hresolve u hu).2.2
      rw [heq, (hresolve v hv).2.2] at hu
      exact (Option.some.inj hu).symm

/-- The candidate is called by the first namespace that it provides, not by the one that is required. -/
theorem cyclePath_resolves_of_pingWithPong :
    (new neededReady).AddsSucceed pingWithPong ∧
    ((new neededReady).after pingWithPong).manifest.2 =
      .error (.circularDependency [⟨"ping"⟩, ⟨"tone"⟩, ⟨"ping"⟩]
        [blank "ping.js" [⟨"ping"⟩] [⟨"pong"⟩], blank "pong.js" [⟨"tone"⟩, ⟨"pong"⟩] [⟨"ping"⟩]]) ∧
    List.Forall₂ (fun ns u => ns ∈ u.provides ∧ ((new neededReady).after pingWithPong).registry.resolve ns = some u)
      [⟨"ping"⟩, ⟨"tone"⟩]
      [blank "ping.js" [⟨"ping"⟩] [⟨"pong"⟩], blank "pong.js" [⟨"tone"⟩, ⟨"pong"⟩] [⟨"ping"⟩]] := by
  have hadds := addsSucceed_pingWithPong neededReady
  have hresolve := cyclePath_resolves neededReady pingWithPong _ _ _ hadds rfl manifest_pingWithPong
  exact ⟨hadds, manifest_pingWithPong, hresolve.2.2.1⟩

end Session

end BuildOrder
