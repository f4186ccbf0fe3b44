import BuildOrder.DependencyGraph
import BuildOrder.Proofs.Digraph
import BuildOrder.Proofs.Registry

/-! # The edges of a dependency graph

* `Links.eq_of_identity_eq`  edges to one unit lead to one position
* `depends_of_build`       an edge leads to the last position of the provider of a required namespace
* `build_fail_cases`       the graph is there unless a unit lacks a provider
* `exists_build_iff`       and even then where missing providers are to be ignored
* `build_fail_of_extends`  it stays the same when more is registered
-/

namespace BuildOrder.DependencyGraph

variable {units : List SourceUnit} {registry : Registry} {policy : MissingPolicy}

/-- A required namespace makes an edge between two positions. -/
def Links (units : List SourceUnit) (registry : Registry) (names : List Namespace)
    (i j : Fin units.length) : Prop :=
  ∃ ns ∈ names, ∃ p, registry.resolve ns = some p ∧ p.identity ≠ (units.get i).identity ∧
    lastPosition? p.same units = some j

/-- The position that is found for a unit holds that unit. -/
theorem identity_eq_of_lastPosition? {p : SourceUnit} {j : Fin units.length}
    (h : lastPosition? p.same units = some j) : p.identity = (units.get j).identity :=
  SourceUnit.same_iff.1 (lastPosition?_eq_some_iff.1 h).1

namespace Links

variable {i i' j j' : Fin units.length} {names names' : List Namespace}

/-- A link goes to a position of the provider. -/
theorem requiresSame (h : Links units registry (units.get i).requires i j) :
    registry.RequiresSame (units.get i) (units.get j) := by
  obtain ⟨ns, hns, p, hp, -, hlast⟩ := h
  exact ⟨p, ⟨ns, hns, hp⟩, identity_eq_of_lastPosition? hlast⟩

/-- A link does not go from a unit to the same unit. -/
theorem identity_ne (h : Links units registry names i j) :
    (units.get i).identity ≠ (units.get j).identity := by
  obtain ⟨ns, -, p, -, hother, hlast⟩ := h
  exact fun heq => hother ((identity_eq_of_lastPosition? hlast).trans heq.symm)

/-- Links to one unit go to one position, its last. -/
theorem eq_of_identity_eq (h : Links units registry names i j) (h' : Links units registry names' i' j')
    (heq : (units.get j).identity = (units.get j').identity) : j = j' := by
  obtain ⟨-, -, p, -, -, hlast⟩ := h
  obtain ⟨-, -, p', -, -, hlast'⟩ := h'
  -- Both providers are sought by the same test.
  have htest : p.same = p'.same := by
    funext v
    simp only [SourceUnit.same, identity_eq_of_lastPosition? hlast, identity_eq_of_lastPosition? hlast', heq]
  rw [htest] at hlast
  exact Option.some.inj (hlast.symm.trans hlast')

end Links

/-- Linking a unit to a provider adds the edge to the last position of the provider, unless the provider
    is the unit itself or not in the list. -/
theorem depends_link {i : Fin units.length} {p : SourceUnit} {g : Digraph units.length}
    (k j : Fin units.length) :
    (link units i p g).Depends k j ↔
      g.Depends k j ∨ (k = i ∧ p.identity ≠ (units.get i).identity ∧ lastPosition? p.same units = some j) := by
  unfold link
  split
  · -- A unit that provides what it requires makes no edge.
    rename_i hself
    rw [SourceUnit.same_iff] at hself
    simp [hself]
  · rename_i hother
    rw [SourceUnit.same_iff] at hother
    split
    · rename_i l hl
      rw [Digraph.Depends, Digraph.mem_dependencies_addEdge]
      simp only [hother, hl, Option.some.injEq, ne_eq, not_false_eq_true, true_and, eq_comm (a := j)]
      exact Or.comm
    · -- The provider has no position in the list, so that no edge leads to it.
      rename_i hnone
      simp [hnone]

/-- Linking a unit to all that it requires adds an edge for each name that links it to a position,
    whatever edges there were. -/
theorem depends_linkAll {i : Fin units.length} {names : List Namespace} {g next : Digraph units.length}
    (h : linkAll units registry policy i names g = .ok next) (k j : Fin units.length) :
    next.Depends k j ↔ g.Depends k j ∨ (k = i ∧ Links units registry names i j) := by
  -- By induction on the names, for every graph, as each name adds its edge to what the ones before it
  -- have made.
  induction names generalizing g with
  | nil =>
    obtain rfl := Except.ok.inj h
    simp [Links]
  | cons ns rest ih =>
    cases hresolve : registry.resolve ns with
    | some p =>
      simp only [linkAll, hresolve] at h
      rw [ih h, depends_link, or_assoc]
      -- An edge comes from the first namespace or from the rest.
      simp only [Links, List.exists_mem_cons_iff, hresolve, Option.some.injEq, exists_eq_left',
        ← and_or_left]
    | none =>
      cases policy with
      | ignore =>
        simp only [linkAll, hresolve] at h
        -- A namespace that nobody provides makes no edge.
        rw [ih h]
        simp only [Links, List.exists_mem_cons_iff, hresolve, reduceCtorEq, false_and, exists_false,
          false_or]
      -- The missing provider would have been reported.
      | fail => simp [linkAll, hresolve] at h

/-- Linking the units at several positions adds the edges that start at one of these. -/
theorem depends_linkUnits {positions : List (Fin units.length)} {g next : Digraph units.length}
    (h : linkUnits units registry policy positions g = .ok next) (i j : Fin units.length) :
    next.Depends i j ↔
      g.Depends i j ∨ (i ∈ positions ∧ Links units registry (units.get i).requires i j) := by
  induction positions generalizing g with
  | nil =>
    obtain rfl := Except.ok.inj h
    simp
  | cons k rest ih =>
    rw [linkUnits] at h
    split at h
    · rename_i linked hlinked
      rw [ih h, depends_linkAll hlinked, or_assoc, List.mem_cons, or_and_right]
      -- An edge starts at the first of the positions or at a later one.
      refine or_congr_right (or_congr_left ?_)
      constructor
      · rintro ⟨rfl, hlinks⟩
        exact ⟨rfl, hlinks⟩
      · rintro ⟨rfl, hlinks⟩
        exact ⟨rfl, hlinks⟩
    · cases h

/-- An edge leads to the last position of the provider of a required namespace. -/
theorem depends_of_build {d : DependencyGraph} (h : build units registry policy = .ok d) :
    ∃ graph : Digraph units.length, d = ⟨units, graph⟩ ∧
      ∀ i j, graph.Depends i j ↔ Links units registry (units.get i).requires i j := by
  unfold build at h
  split at h
  · rename_i graph hgraph
    obtain rfl := Except.ok.inj h
    refine ⟨graph, rfl, fun i j => ?_⟩
    rw [depends_linkUnits hgraph]
    -- The links are made from a graph without edges, and from every position.
    simp [Digraph.Depends]
  · cases h

/-! ## When the graph is there -/

/-- The links of one unit can be made unless it lacks a provider, and then the first namespace that it
    lacks is reported. -/
theorem linkAll_fail_cases (i : Fin units.length) (names : List Namespace) (g : Digraph units.length) :
    (∃ next, linkAll units registry .fail i names g = .ok next) ∧
        (∀ ns ∈ names, registry.resolve ns ≠ none) ∨
      ∃ ns, names.find? (fun ns => (registry.resolve ns).isNone) = some ns ∧
        linkAll units registry .fail i names g = .error (.missingDependency ns (units.get i)) := by
  induction names generalizing g with
  | nil => exact .inl ⟨⟨g, rfl⟩, fun _ hns => absurd hns List.not_mem_nil⟩
  | cons ns rest ih =>
    cases hresolve : registry.resolve ns with
    -- The first namespace has no provider and is reported at once.
    | none => exact .inr ⟨ns, by simp [hresolve], by simp [linkAll, hresolve]⟩
    | some p =>
      simp only [linkAll, hresolve]
      -- The first namespace has a provider, so that it is up to the others.
      rcases ih (link units i p g) with ⟨hok, hall⟩ | ⟨name, hname, herror⟩
      · left
        refine ⟨hok, fun name hname => ?_⟩
        rcases List.mem_cons.1 hname with rfl | hname
        · simp [hresolve]
        · exact hall name hname
      · exact .inr ⟨name, by simp [hresolve, hname], herror⟩

/-- The links of several units can be made unless one of them lacks a provider, and then the first gap
    among them is reported. -/
theorem linkUnits_fail_cases (registry : Registry) (positions : List (Fin units.length))
    (g : Digraph units.length) :
    (∃ next, linkUnits units registry .fail positions g = .ok next) ∧
        (∀ u ∈ positions.map units.get, ¬ registry.Lacks u) ∨
      ∃ u ns, registry.FirstGap (positions.map units.get) u ns ∧
        linkUnits units registry .fail positions g = .error (.missingDependency ns u) := by
  induction positions generalizing g with
  | nil => exact .inl ⟨⟨g, rfl⟩, fun _ hu => absurd hu List.not_mem_nil⟩
  | cons i rest ih =>
    rw [List.map_cons]
    rcases linkAll_fail_cases i (units.get i).requires g with
      ⟨⟨linked, hlinked⟩, hall⟩ | ⟨ns, hns, herror⟩
    · -- The first unit lacks nothing, so that it is up to the others.
      have hi : ¬ registry.Lacks (units.get i) := by
        rintro ⟨ns, hns, hmissing⟩
        exact hall ns hns hmissing
      simp only [linkUnits, hlinked]
      rcases ih linked with ⟨hok, hrest⟩ | ⟨u, ns, ⟨⟨before, after, hsplit, hbefore⟩, hns⟩, herror⟩
      · exact .inl ⟨hok, List.forall_mem_cons.2 ⟨hi, hrest⟩⟩
      · refine .inr ⟨u, ns, ⟨⟨units.get i :: before, after, ?_, ?_⟩, hns⟩, herror⟩
        · rw [hsplit, List.cons_append]
        · exact List.forall_mem_cons.2 ⟨hi, hbefore⟩
    · -- The first unit has the first gap, with no unit before it.
      refine .inr ⟨units.get i, ns, ⟨⟨[], rest.map units.get, rfl, ?_⟩, hns⟩, by rw [linkUnits, herror]⟩
      exact fun _ hv => absurd hv List.not_mem_nil

/-- The graph is there unless a unit lacks a provider. -/
theorem build_fail_cases (units : List SourceUnit) (registry : Registry) :
    (∃ d, build units registry .fail = .ok d) ∧ (∀ u ∈ units, ¬ registry.Lacks u) ∨
      ∃ u ns, registry.FirstGap units u ns ∧
        build units registry .fail = .error (.missingDependency ns u) := by
  have hcases := linkUnits_fail_cases registry (List.finRange units.length) (Digraph.edgeless _)
  rw [List.map_get_finRange] at hcases
  rcases hcases with ⟨⟨graph, hgraph⟩, hall⟩ | ⟨u, ns, hgap, herror⟩
  · exact .inl ⟨⟨⟨units, graph⟩, by rw [build, hgraph]⟩, hall⟩
  · exact .inr ⟨u, ns, hgap, by rw [build, herror]⟩

/-- The links of one unit can always be made where missing providers are left out. -/
theorem exists_linkAll_ignore (registry : Registry) (i : Fin units.length) (names : List Namespace)
    (g : Digraph units.length) : ∃ next, linkAll units registry .ignore i names g = .ok next := by
  induction names generalizing g with
  | nil => exact ⟨g, rfl⟩
  | cons ns rest ih =>
    cases hresolve : registry.resolve ns with
    | none => simpa only [linkAll, hresolve] using ih g
    | some p => simpa only [linkAll, hresolve] using ih (link units i p g)

/-- The links of several units can always be made where missing providers are left out. -/
theorem exists_linkUnits_ignore (registry : Registry) (positions : List (Fin units.length))
    (g : Digraph units.length) : ∃ next, linkUnits units registry .ignore positions g = .ok next := by
  induction positions generalizing g with
  | nil => exact ⟨g, rfl⟩
  | cons i rest ih =>
    obtain ⟨linked, hlinked⟩ := exists_linkAll_ignore registry i (units.get i).requires g
    rw [linkUnits, hlinked]
    exact ih linked

/-- A graph from which missing providers are left out is always there. -/
theorem exists_build_ignore (units : List SourceUnit) (registry : Registry) :
    ∃ d, build units registry .ignore = .ok d := by
  obtain ⟨graph, hgraph⟩ := exists_linkUnits_ignore registry (List.finRange units.length)
    (Digraph.edgeless units.length)
  exact ⟨⟨units, graph⟩, by rw [build, hgraph]⟩

/-- The graph is there unless a unit lacks a provider and this is not to be ignored. -/
theorem exists_build_iff :
    (∃ d, build units registry policy = .ok d) ↔ (policy = .fail → ∀ u ∈ units, ¬ registry.Lacks u) := by
  cases policy with
  | ignore => simpa using exists_build_ignore units registry
  | fail =>
    rcases build_fail_cases units registry with ⟨hok, hall⟩ | ⟨u, ns, hgap, herror⟩
    · exact iff_of_true hok fun _ => hall
    · -- The first gap is reported, and it is a gap.
      refine iff_of_false ?_ fun hall => ?_
      · rintro ⟨d, hd⟩
        cases herror.symm.trans hd
      · exact hall rfl u hgap.mem ⟨ns, hgap.mem_requires, hgap.resolve_eq_none⟩

/-! ## More registrations -/

/-- Links that miss no provider are the same in a larger registry. -/
theorem linkAll_fail_of_extends {next : Registry} (hext : registry.Extends next) {i : Fin units.length}
    {names : List Namespace} {g linked : Digraph units.length}
    (h : linkAll units registry .fail i names g = .ok linked) :
    linkAll units next .fail i names g = .ok linked := by
  induction names generalizing g with
  | nil => exact h
  | cons ns rest ih =>
    cases hresolve : registry.resolve ns with
    -- A missing provider would have been reported.
    | none => simp [linkAll, hresolve] at h
    | some p =>
      simp only [linkAll, hresolve] at h
      simp only [linkAll, hext ns p hresolve]
      exact ih h

/-- The links of several units that miss no provider are the same in a larger registry. -/
theorem linkUnits_fail_of_extends {next : Registry} (hext : registry.Extends next)
    {positions : List (Fin units.length)} {g linked : Digraph units.length}
    (h : linkUnits units registry .fail positions g = .ok linked) :
    linkUnits units next .fail positions g = .ok linked := by
  induction positions generalizing g with
  | nil => exact h
  | cons i rest ih =>
    rw [linkUnits] at h
    split at h
    · rename_i inner hinner
      -- The first unit makes the same links, so that the others start from the same graph.
      rw [linkUnits, linkAll_fail_of_extends hext hinner]
      exact ih h
    · cases h

/-- A graph stays the same when more is registered. -/
theorem build_fail_of_extends {next : Registry} (hext : registry.Extends next) {d : DependencyGraph}
    (h : build units registry .fail = .ok d) : build units next .fail = .ok d := by
  unfold build at h
  split at h
  · rename_i graph hgraph
    rw [build, linkUnits_fail_of_extends hext hgraph]
    exact h
  · cases h

end BuildOrder.DependencyGraph
