import BuildOrder.Closure
import BuildOrder.Proofs.Distinct
import BuildOrder.Proofs.Registry

/-! # Walks over required namespaces

A walk has met the units that were followed and, after them, those in its queue.

* `Walk.Invariant.expand`  what a step of a walk keeps
* `visited_cases`          a walk ends with a closure, or at a unit that lacks a provider
* `units_fail_of_extends`  its closure stays the same when more is registered
-/

namespace BuildOrder.Closure

open Relation SourceUnit

variable {registry : Registry} {policy : MissingPolicy} {entries : List SourceUnit}

/-- A unit is an entry unit or required by one, directly or through others. -/
def Reached (registry : Registry) (entries : List SourceUnit) (u : SourceUnit) : Prop :=
  ∃ e ∈ entries, ReflTransGen registry.Requires e u

/-- An entry unit is reached without a step. -/
theorem Reached.entry {u : SourceUnit} (hu : u ∈ entries) : Reached registry entries u :=
  ⟨u, hu, .refl⟩

/-- What a unit that is reached requires is reached as well. -/
theorem Reached.tail {u v : SourceUnit} (h : Reached registry entries u)
    (huv : registry.Requires u v) : Reached registry entries v := by
  obtain ⟨e, he, heu⟩ := h
  exact ⟨e, he, heu.tail huv⟩

/-- One of the units is the given one. -/
def Meets (met : List SourceUnit) (u : SourceUnit) : Prop := ∃ v ∈ met, v.identity = u.identity

/-- Everything that a unit requires is met, and it may only lack what is to be ignored. -/
def Follows (registry : Registry) (policy : MissingPolicy) (met : List SourceUnit)
    (names : List Namespace) : Prop :=
  ∀ ns ∈ names, (∀ p, registry.resolve ns = some p → Meets met p) ∧
    (registry.resolve ns = none → policy = .ignore)

/-- What is met stays met when more is. -/
theorem Meets.append {met : List SourceUnit} {u : SourceUnit} (h : Meets met u)
    (more : List SourceUnit) : Meets (met ++ more) u := by
  obtain ⟨v, hv, heq⟩ := h
  exact ⟨v, List.mem_append_left _ hv, heq⟩

/-- Whether a unit is met depends on its identity only, not on the value that describes it. -/
theorem Meets.of_identity_eq {met : List SourceUnit} {u v : SourceUnit} (h : Meets met u)
    (heq : u.identity = v.identity) : Meets met v := by
  obtain ⟨w, hw, hsame⟩ := h
  exact ⟨w, hw, hsame.trans heq⟩

/-- The test by which a walk recognises a unit finds out whether the unit is met. -/
theorem any_same_iff {met : List SourceUnit} {u : SourceUnit} : met.any u.same = true ↔ Meets met u := by
  simp only [Meets, List.any_eq_true, same_iff]
  exact exists_congr fun v => and_congr_right fun _ => eq_comm

/-- Requirements that have been followed stay so when more is met. -/
theorem Follows.append {met : List SourceUnit} {names : List Namespace}
    (h : Follows registry policy met names) (more : List SourceUnit) :
    Follows registry policy (met ++ more) names := fun ns hns =>
  ⟨fun p hp => ((h ns hns).1 p hp).append more, (h ns hns).2⟩

/-! ## Steps of a walk -/

namespace Walk

/-- A walk recognises exactly the units that are among the visited ones. -/
theorem meets_iff {w : Walk} {u : SourceUnit} : w.meets u = true ↔ Meets w.visited u := any_same_iff

/-- A walk has met and queued further units. -/
def Grows (w next : Walk) (more : List SourceUnit) : Prop :=
  next.visited = w.visited ++ more ∧ next.queue = w.queue ++ more

theorem Grows.refl (w : Walk) : w.Grows w [] := ⟨by simp, by simp⟩

/-- Of two stretches of a walk, what is met on the second one comes after what is met on the first. -/
theorem Grows.trans {w next last : Walk} {more rest : List SourceUnit} (h : w.Grows next more)
    (hlast : next.Grows last rest) : w.Grows last (more ++ rest) := by
  refine ⟨?_, ?_⟩
  · rw [hlast.1, h.1, List.append_assoc]
  · rw [hlast.2, h.2, List.append_assoc]

/-- A unit is visited at its first meeting. -/
theorem visit_cases (w : Walk) (u : SourceUnit) :
    (Meets w.visited u ∧ w.visit u = w) ∨
      (¬ Meets w.visited u ∧ w.Grows (w.visit u) [u]) := by
  -- The test of the walk decides; both cases say in the terms of `Meets` what it found.
  by_cases h : w.meets u = true
  · exact .inl ⟨meets_iff.1 h, by simp [visit, h]⟩
  · exact .inr ⟨fun hmeets => h (meets_iff.2 hmeets), by simp [Grows, visit, h]⟩

/-- Visiting a unit brings in no second value of a unit that has been met. -/
theorem distinct_visit {w : Walk} (hdistinct : Distinct w.visited) (u : SourceUnit) :
    Distinct (w.visit u).visited := by
  rcases w.visit_cases u with ⟨-, hsame⟩ | ⟨hnew, hgrows⟩
  · rwa [hsame]
  · rw [hgrows.1]
    -- A unit of the same identity would have been met.
    exact hdistinct.append_singleton fun v hv heq => hnew ⟨v, hv, heq⟩

/-- The units met by following requirements are new providers. -/
theorem expand_ok {current : SourceUnit} {names : List Namespace} {w next : Walk}
    (h : expand registry policy current names w = .ok next) (hdistinct : Distinct w.visited)
    (hcurrent : Meets w.visited current) :
    ∃ more, w.Grows next more ∧ Distinct next.visited ∧
      (∀ u ∈ more, ∃ ns ∈ names, registry.resolve ns = some u) ∧
      Follows registry policy next.visited names := by
  -- By induction on the names, for every walk: what is met for the first name is a part of the walk
  -- that goes on to the others.
  induction names generalizing w with
  | nil =>
    obtain rfl := Except.ok.inj h
    exact ⟨[], Grows.refl w, hdistinct, by simp, fun ns hns => absurd hns List.not_mem_nil⟩
  | cons ns rest ih =>
    cases hresolve : registry.resolve ns with
    | some provider =>
      simp only [expand, hresolve] at h
      -- After the first namespace, its provider is met; it may be the only one that is new.
      obtain ⟨first, hfirst, hdistinct', hnew, hmeets⟩ : ∃ first,
          w.Grows (if provider.same current then w else w.visit provider) first ∧
          Distinct (if provider.same current then w else w.visit provider).visited ∧
          (∀ u ∈ first, u = provider) ∧
          Meets (if provider.same current then w else w.visit provider).visited provider := by
        -- A unit that provides what it requires itself is met already, as it is in the queue or was
        -- there.
        by_cases hself : provider.same current = true
        · rw [if_pos hself]
          exact ⟨[], Grows.refl w, hdistinct, by simp, hcurrent.of_identity_eq (same_iff.1 hself).symm⟩
        · rw [if_neg hself]
          rcases w.visit_cases provider with ⟨hmet, hsame⟩ | ⟨-, hgrows⟩
          · exact ⟨[], by rw [hsame]; exact Grows.refl w, distinct_visit hdistinct _, by simp,
              by rwa [hsame]⟩
          · exact ⟨[provider], hgrows, distinct_visit hdistinct _, by simp,
              meets_iff.1 (meets_visit_self w provider)⟩
      obtain ⟨more, hmore, hdistinct'', hproviders, hfollows⟩ :=
        ih h hdistinct' (by rw [hfirst.1]; exact hcurrent.append first)
      -- The provider comes first, then what the other namespaces add.
      refine ⟨first ++ more, hfirst.trans hmore, hdistinct'', fun u hu => ?_, fun name hname => ?_⟩
      · rcases List.mem_append.1 hu with hu | hu
        · exact ⟨ns, List.mem_cons_self, by rw [hnew u hu, hresolve]⟩
        · obtain ⟨name, hname, hu⟩ := hproviders u hu
          exact ⟨name, List.mem_cons_of_mem _ hname, hu⟩
      · rcases List.mem_cons.1 hname with rfl | hname
        · refine ⟨fun p hp => ?_, fun hnone => by simp [hresolve] at hnone⟩
          obtain rfl : provider = p := Option.some.inj (hresolve.symm.trans hp)
          rw [hmore.1]
          exact hmeets.append more
        · exact hfollows name hname
    | none =>
      cases policy with
      | fail => simp [expand, hresolve] at h
      | ignore =>
        simp only [expand, hresolve] at h
        -- A namespace that nobody provides is passed over.
        obtain ⟨more, hmore, hdistinct', hproviders, hfollows⟩ := ih h hdistinct hcurrent
        refine ⟨more, hmore, hdistinct', fun u hu => ?_, fun name hname => ?_⟩
        · obtain ⟨name, hname, hu⟩ := hproviders u hu
          exact ⟨name, List.mem_cons_of_mem _ hname, hu⟩
        · rcases List.mem_cons.1 hname with rfl | hname
          · exact ⟨fun p hp => by simp [hresolve] at hp, fun _ => rfl⟩
          · exact hfollows name hname

/-- Requirements cannot be followed beyond the first namespace that nobody provides. -/
theorem expand_error {current : SourceUnit} {names : List Namespace} {w : Walk} {fault : Fault}
    (h : expand registry policy current names w = .error fault) :
    policy = .fail ∧ ∃ ns, names.find? (fun ns => (registry.resolve ns).isNone) = some ns ∧
      fault = .missingDependency ns current := by
  induction names generalizing w with
  | nil => cases h
  | cons ns rest ih =>
    cases hresolve : registry.resolve ns with
    | some provider =>
      simp only [expand, hresolve] at h
      -- The first namespace has a provider, so that the fault is with a later one.
      obtain ⟨hpolicy, name, hname, hfault⟩ := ih h
      exact ⟨hpolicy, name, by simp [hresolve, hname], hfault⟩
    | none =>
      cases policy with
      | fail =>
        simp only [expand, hresolve] at h
        exact ⟨rfl, ns, by simp [hresolve], (Except.error.inj h).symm⟩
      | ignore =>
        simp only [expand, hresolve] at h
        -- Where missing providers are ignored, no later name makes a step fail either.
        exact absurd (ih h).1 (by simp)

/-- What holds of a walk when the requirements of some units have been followed. -/
structure Invariant (registry : Registry) (policy : MissingPolicy) (entries done : List SourceUnit)
    (w : Walk) : Prop where
  /-- The units met are those followed, then those in the queue. -/
  visited_eq : w.visited = done ++ w.queue
  distinct : Distinct w.visited
  reached : ∀ u ∈ w.visited, Reached registry entries u
  entries_met : ∀ u ∈ entries, Meets w.visited u
  followed : ∀ u ∈ done, Follows registry policy w.visited u.requires

/-- When units are visited one after the other, all of them are met, nothing but them is new, and no
    unit is new twice. -/
theorem foldl_visit {w : Walk} (hdistinct : Distinct w.visited) (units : List SourceUnit) :
    ∃ more, w.Grows (units.foldl visit w) more ∧ Distinct (units.foldl visit w).visited ∧
      (∀ u ∈ more, u ∈ units) ∧ ∀ u ∈ units, Meets (units.foldl visit w).visited u := by
  induction units generalizing w with
  | nil => exact ⟨[], Grows.refl w, hdistinct, by simp, by simp⟩
  | cons u rest ih =>
    obtain ⟨more, hgrows, hdistinct', hmem, hmet⟩ := ih (distinct_visit hdistinct u)
    rw [List.foldl_cons]
    -- The first unit is met at once, and what has been met stays so.
    have hu : Meets (rest.foldl visit (w.visit u)).visited u := by
      rw [hgrows.1]
      exact (meets_iff.1 (meets_visit_self w u)).append more
    have hall : ∀ v ∈ u :: rest, Meets (rest.foldl visit (w.visit u)).visited v := fun v hv =>
      (List.mem_cons.1 hv).elim (fun h => h ▸ hu) (hmet v)
    -- Whether the first unit is new decides only with which unit the new ones begin.
    rcases w.visit_cases u with ⟨-, hsame⟩ | ⟨-, hone⟩
    · rw [hsame] at hgrows hdistinct' hall ⊢
      refine ⟨more, hgrows, hdistinct', fun v hv => ?_, hall⟩
      exact List.mem_cons_of_mem _ (hmem v hv)
    · refine ⟨[u] ++ more, hone.trans hgrows, hdistinct', fun v hv => ?_, hall⟩
      rcases List.mem_append.1 hv with hv | hv
      · exact List.mem_singleton.1 hv ▸ List.mem_cons_self
      · exact List.mem_cons_of_mem _ (hmem v hv)

/-- Before the first step, the entry units have been met and none has been followed. -/
theorem invariant_start (registry : Registry) (policy : MissingPolicy) (entries : List SourceUnit) :
    Invariant registry policy entries [] (start entries) := by
  obtain ⟨more, ⟨hvisited, hqueue⟩, hdistinct, hmem, hmet⟩ :=
    foldl_visit (w := ⟨[], []⟩) List.nodup_nil entries
  refine ⟨hvisited.trans hqueue.symm, hdistinct, fun u hu => ?_, hmet, by simp⟩
  -- The walk starts empty, so that only entry units have been met.
  have hu : u ∈ more := by
    rw [start, hvisited] at hu
    simpa using hu
  exact Reached.entry (hmem u hu)

/-- Following the first unit of the queue keeps the invariant, with that unit among those followed. -/
theorem Invariant.expand {current : SourceUnit} {rest done : List SourceUnit} {w next : Walk}
    (hw : Invariant registry policy entries done w) (hqueue : w.queue = current :: rest)
    (h : expand registry policy current current.requires ⟨w.visited, rest⟩ = .ok next) :
    Invariant registry policy entries (done ++ [current]) next := by
  have hmem : current ∈ w.visited := by simp [hw.visited_eq, hqueue]
  obtain ⟨more, ⟨hvisited, hrest⟩, hdistinct, hproviders, hfollows⟩ :=
    expand_ok h hw.distinct ⟨current, hmem, rfl⟩
  dsimp only at hvisited hrest
  refine ⟨?_, hdistinct, fun u hu => ?_, fun u hu => ?_, fun u hu => ?_⟩
  · -- The unit that was followed stands between those followed before and the rest of the queue.
    rw [hvisited, hrest, hw.visited_eq, hqueue]
    simp
  · -- What is new is a provider that the current unit requires.
    rw [hvisited] at hu
    rcases List.mem_append.1 hu with hu | hu
    · exact hw.reached u hu
    · exact (hw.reached current hmem).tail (hproviders u hu)
  · rw [hvisited]
    exact (hw.entries_met u hu).append more
  · rcases List.mem_append.1 hu with hu | hu
    · rw [hvisited]
      -- What was followed before does not mind that more is met.
      exact (hw.followed u hu).append more
    · rwa [List.mem_singleton.1 hu]

end Walk

/-! ## Whole walks -/

/-- What a walk ends with: different units that are reached, with all that the entry units and
    they themselves ask for. -/
structure IsClosure (registry : Registry) (policy : MissingPolicy) (entries met : List SourceUnit) :
    Prop where
  distinct : Distinct met
  reached : ∀ u ∈ met, Reached registry entries u
  entries_met : ∀ u ∈ entries, Meets met u
  followed : ∀ u ∈ met, Follows registry policy met u.requires

/-- Where nothing is queued, a walk ends with what it has visited. -/
theorem Walk.run_nil {w : Walk} (hqueue : w.queue = []) : w.run registry policy = .ok w.visited := by
  rw [run]
  split
  · rfl
  · rename_i h
    exact absurd (hqueue.symm.trans h) (by simp)

/-- Where a unit is queued, a walk goes on from the requirements of the first one, or fails there. -/
theorem Walk.run_cons {w : Walk} {current : SourceUnit} {rest : List SourceUnit}
    (hqueue : w.queue = current :: rest) :
    w.run registry policy =
      match expand registry policy current current.requires ⟨w.visited, rest⟩ with
      | .ok next => next.run registry policy
      | .error fault => .error fault := by
  rw [run]
  split
  · rename_i h
    exact absurd (hqueue.symm.trans h) (by simp)
  · rename_i h
    -- The unit that the walk takes is the given one.
    obtain ⟨rfl, rfl⟩ := List.cons.inj (hqueue.symm.trans h)
    split <;> rename_i hexpand <;> simp only [hexpand]

/-- From any state that satisfies the invariant, a walk ends with a closure or at a reached unit that
    lacks a provider. -/
theorem run_cases {w : Walk} {done : List SourceUnit}
    (hw : Walk.Invariant registry policy entries done w) :
    (∃ met, w.run registry policy = .ok met ∧ IsClosure registry policy entries met) ∨
      policy = .fail ∧ ∃ u ns, Reached registry entries u ∧
        u.requires.find? (fun ns => (registry.resolve ns).isNone) = some ns ∧
        w.run registry policy = .error (.missingDependency ns u) := by
  -- The induction is on the walk itself, and each step hands the invariant on with one more unit
  -- followed.
  induction w using Walk.run.induct registry policy generalizing done with
  | case1 w hqueue =>
    left
    refine ⟨w.visited, Walk.run_nil hqueue, hw.distinct, hw.reached, hw.entries_met, ?_⟩
    -- Nothing is queued, so that all units that were met have been followed.
    have hdone : w.visited = done := by rw [hw.visited_eq, hqueue, List.append_nil]
    intro u hu
    exact hw.followed u (hdone ▸ hu)
  | case2 w current rest hqueue next hexpand ih =>
    have hrun : w.run registry policy = next.run registry policy := by
      rw [Walk.run_cons hqueue, hexpand]
    rw [hrun]
    exact ih (hw.expand hqueue hexpand)
  | case3 w current rest hqueue fault hexpand =>
    right
    -- The walk stops at the first unit of the queue that lacks a provider.
    obtain ⟨hpolicy, ns, hns, rfl⟩ := Walk.expand_error hexpand
    have hmem : current ∈ w.visited := by simp [hw.visited_eq, hqueue]
    refine ⟨hpolicy, current, ns, hw.reached current hmem, hns, ?_⟩
    rw [Walk.run_cons hqueue, hexpand]

/-- A walk ends with a closure, or at a reached unit that lacks a provider. -/
theorem visited_cases (registry : Registry) (policy : MissingPolicy) (entries : List SourceUnit) :
    (∃ met, visited registry policy entries = .ok met ∧ IsClosure registry policy entries met) ∨
      policy = .fail ∧ ∃ u ns, Reached registry entries u ∧
        u.requires.find? (fun ns => (registry.resolve ns).isNone) = some ns ∧
        visited registry policy entries = .error (.missingDependency ns u) :=
  run_cases (Walk.invariant_start registry policy entries)

/-! ## Closures in a larger registry -/

section Extends

variable {next : Registry}

/-- A step that misses no provider is the same step in a larger registry. -/
theorem expand_fail_of_extends (hext : registry.Extends next) {current : SourceUnit}
    {names : List Namespace} {w w' : Walk}
    (h : Walk.expand registry .fail current names w = .ok w') :
    Walk.expand next .fail current names w = .ok w' := by
  induction names generalizing w with
  | nil => exact h
  | cons ns rest ih =>
    cases hresolve : registry.resolve ns with
    | some provider =>
      simp only [Walk.expand, hresolve] at h
      simp only [Walk.expand, hext ns provider hresolve]
      exact ih h
    -- A missing provider would have stopped the first walk.
    | none => simp [Walk.expand, hresolve] at h

/-- A walk that misses no provider is the same walk in a larger registry. -/
theorem run_fail_of_extends (hext : registry.Extends next) {w : Walk} {met : List SourceUnit}
    (h : w.run registry .fail = .ok met) : w.run next .fail = .ok met := by
  induction w using Walk.run.induct registry .fail with
  | case1 w hqueue => rwa [Walk.run_nil hqueue] at h ⊢
  | case2 w current rest hqueue w' hexpand ih =>
    rw [Walk.run_cons hqueue, hexpand] at h
    -- Both walks take the same step.
    rw [Walk.run_cons hqueue, expand_fail_of_extends hext hexpand]
    exact ih h
  | case3 w current rest hqueue fault hexpand =>
    rw [Walk.run_cons hqueue, hexpand] at h
    cases h

/-- A closure without missing providers stays the same when more is registered. -/
theorem units_fail_of_extends (hext : registry.Extends next) {kept : List SourceUnit}
    (h : units registry .fail entries known = .ok kept) :
    units next .fail entries known = .ok kept := by
  cases hvisited : visited registry .fail entries with
  | error fault =>
    rw [units, hvisited] at h
    cases h
  | ok met =>
    rw [units, hvisited] at h
    -- What is kept of the known units depends on the registry only through the walk.
    rwa [units, visited, run_fail_of_extends hext hvisited]

end Extends

end BuildOrder.Closure
