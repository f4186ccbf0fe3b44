import BuildOrder.Proofs.Closure.Outcome

/-! # A closure fails at a nearest unit

A walk follows units in the order of their distance from the entry units.  Its queue holds what is
left of one distance, and then what has been met of the next.

* `Layered.expand`      following the first unit of the queue keeps this
* `Layered.descend`     when nothing is left of one distance, the queue holds all of the next
* `run_error_nearest`   a walk that fails has followed every unit that is nearer
* `missing_nearest`     so the unit that a failed closure reports is a nearest one
-/

namespace BuildOrder.Closure

open SourceUnit

variable {registry : Registry} {policy : MissingPolicy} {entries : List SourceUnit}

/-- A unit is reached from the entry units in a number of steps, each of which leads from a unit to
    the provider of a namespace that it requires. -/
inductive ReachedIn (registry : Registry) (entries : List SourceUnit) : Nat → SourceUnit → Prop
  | entry {u : SourceUnit} (hu : u ∈ entries) : ReachedIn registry entries 0 u
  | step {k : Nat} {u v : SourceUnit} (h : ReachedIn registry entries k u) (huv : registry.Requires u v) :
      ReachedIn registry entries (k + 1) v

/-- A unit that is reached in some number of steps is reached. -/
theorem ReachedIn.reached {k : Nat} {u : SourceUnit} (h : ReachedIn registry entries k u) :
    Reached registry entries u := by
  induction h with
  | entry hu => exact .entry hu
  | step _ huv ih => exact ih.tail huv

/-- A unit is reached when it is reached in some number of steps. -/
theorem reached_iff_exists {u : SourceUnit} :
    Reached registry entries u ↔ ∃ k, ReachedIn registry entries k u := by
  constructor
  · rintro ⟨e, he, heu⟩
    -- The steps are counted along the way.
    induction heu with
    | refl => exact ⟨0, .entry he⟩
    | tail _ huv ih =>
      obtain ⟨k, hk⟩ := ih
      exact ⟨k + 1, hk.step huv⟩
  · rintro ⟨k, hk⟩
    exact hk.reached

namespace Walk

/-- What holds of a walk whose queue is sorted by distance.  It has followed every unit that is nearer
    than the first part of its queue, and it has met every unit that is as far. -/
structure Layered (registry : Registry) (policy : MissingPolicy)
    (entries done front back : List SourceUnit) (d : Nat) (w : Walk) : Prop
    extends Invariant registry policy entries done w where
  queue_eq : w.queue = front ++ back
  front_reached : ∀ u ∈ front, ReachedIn registry entries d u
  back_reached : ∀ u ∈ back, ReachedIn registry entries (d + 1) u
  nearer_done : ∀ k u, k < d → ReachedIn registry entries k u → Meets done u
  level_met : ∀ u, ReachedIn registry entries d u → Meets (done ++ front) u

variable {done front back : List SourceUnit} {d : Nat} {w next : Walk}

/-- Before the first step, the queue holds the entry units. -/
theorem layered_start (registry : Registry) (policy : MissingPolicy) (entries : List SourceUnit) :
    Layered registry policy entries [] (start entries).queue [] 0 (start entries) := by
  have hstart := invariant_start registry policy entries
  obtain ⟨more, ⟨-, hqueue⟩, -, hmem, -⟩ := foldl_visit (w := ⟨[], []⟩) List.nodup_nil entries
  refine ⟨hstart, (List.append_nil _).symm, fun u hu => ?_, fun u hu => ?_, fun k u hk => ?_, fun u hu => ?_⟩
  · have hu : u ∈ more := by
      rw [start, hqueue] at hu
      simpa using hu
    -- The first part of the queue is all of it: the entry units, at no distance.
    exact .entry (hmem u hu)
  · -- Nothing has been met of the next distance, and there is no nearer one.
    exact absurd hu List.not_mem_nil
  · exact absurd hk (Nat.not_lt_zero k)
  · cases hu with
    | entry hu =>
      rw [← hstart.visited_eq]
      exact hstart.entries_met u hu

/-- The providers that the first unit of the queue requires are one step further than that unit. -/
theorem Layered.expand {current : SourceUnit}
    (hw : Layered registry policy entries done (current :: front) back d w)
    (h : expand registry policy current current.requires ⟨w.visited, front ++ back⟩ = .ok next) :
    ∃ more, Layered registry policy entries (done ++ [current]) front (back ++ more) d next := by
  have hqueue : w.queue = current :: (front ++ back) := by rw [hw.queue_eq, List.cons_append]
  have hmem : current ∈ w.visited := by simp [hw.visited_eq, hqueue]
  obtain ⟨more, ⟨-, hnext⟩, -, hproviders, -⟩ := expand_ok h hw.distinct ⟨current, hmem, rfl⟩
  have hcurrent : ReachedIn registry entries d current := hw.front_reached current List.mem_cons_self
  refine ⟨more, hw.toInvariant.expand hqueue h, ?_, fun u hu => ?_, fun u hu => ?_, fun k u hk hu => ?_,
    fun u hu => ?_⟩
  · rw [hnext, List.append_assoc]
  · exact hw.front_reached u (List.mem_cons_of_mem _ hu)
  · rcases List.mem_append.1 hu with hu | hu
    · exact hw.back_reached u hu
    · -- The second part of the queue grows at its end by providers of the unit that is followed.
      exact hcurrent.step (hproviders u hu)
  · exact (hw.nearer_done k u hk hu).append [current]
  · -- The unit moves from the queue to those followed, so that the distance has the same units.
    rw [List.append_assoc]
    exact hw.level_met u hu

/-- When all units of one distance have been followed, those of the next one have all been met. -/
theorem Layered.descend (huniform : Uniform registry entries)
    (hw : Layered registry policy entries done [] back d w) :
    Layered registry policy entries done back [] (d + 1) w := by
  -- Nothing is left in the queue of this distance, and so all its units have been followed.
  have hlevel : ∀ u, ReachedIn registry entries d u → Meets done u := fun u hu => by
    have hmet := hw.level_met u hu
    rwa [List.append_nil] at hmet
  refine ⟨hw.toInvariant, ?_, hw.back_reached, ?_, fun k u hk hu => ?_, fun v hv => ?_⟩
  · rw [hw.queue_eq, List.append_nil, List.nil_append]
  · exact fun u hu => absurd hu List.not_mem_nil
  · rcases Nat.lt_or_eq_of_le (Nat.le_of_lt_succ hk) with hlt | rfl
    · exact hw.nearer_done k u hlt hu
    · exact hlevel u hu
  · cases hv with
    | step hu huv =>
      -- The unit before the last step has been followed, if not as the same value.
      obtain ⟨ns, hns, hv⟩ := huv
      obtain ⟨t, ht, heq⟩ := hlevel _ hu
      have hmem : t ∈ w.visited := hw.visited_eq ▸ List.mem_append_left _ ht
      rw [← huniform t _ (hw.reached t hmem).source hu.reached.source heq] at hns
      have hmet := (hw.followed t ht ns hns).1 v hv
      rwa [hw.visited_eq, hw.queue_eq, List.nil_append] at hmet

/-- The first unit of the queue stands in its first part, for some distance. -/
theorem Layered.exists_cons (huniform : Uniform registry entries)
    (hw : Layered registry policy entries done front back d w) {current : SourceUnit}
    {rest : List SourceUnit} (hqueue : w.queue = current :: rest) :
    ∃ d front back, rest = front ++ back ∧
      Layered registry policy entries done (current :: front) back d w := by
  have hsplit : front ++ back = current :: rest := hw.queue_eq.symm.trans hqueue
  -- When its first part is used up, the second one takes its place.
  cases front with
  | nil =>
    obtain rfl : back = current :: rest := hsplit
    exact ⟨d + 1, rest, [], (List.append_nil rest).symm, hw.descend huniform⟩
  | cons first front =>
    obtain ⟨rfl, rfl⟩ := List.cons.inj hsplit
    exact ⟨d, front, back, rfl, hw⟩

/-- A unit that lacks a provider is no nearer than what is left of the first part of the queue. -/
theorem Layered.le_of_lacks (huniform : Uniform registry entries)
    (hw : Layered registry .fail entries done front back d w) {k : Nat} {u : SourceUnit}
    (hu : ReachedIn registry entries k u) (hlacks : registry.Lacks u) : d ≤ k := by
  refine Nat.le_of_not_lt fun hk => ?_
  -- A nearer unit has been followed, and nothing that it requires was missing.
  obtain ⟨ns, hns, hmissing⟩ := hlacks
  obtain ⟨t, ht, heq⟩ := hw.nearer_done k u hk hu
  have hmem : t ∈ w.visited := hw.visited_eq ▸ List.mem_append_left _ ht
  rw [← huniform t u (hw.reached t hmem).source hu.reached.source heq] at hns
  exact absurd ((hw.followed t ht ns hns).2 hmissing) (by decide)

end Walk

/-- A walk fails at a unit that lacks a provider, when it has followed every unit that is nearer. -/
theorem run_error_nearest (huniform : Uniform registry entries) {done front back : List SourceUnit}
    {d : Nat} {w : Walk} {fault : Fault} (hw : Walk.Layered registry .fail entries done front back d w)
    (h : w.run registry .fail = .error fault) :
    ∃ u ns d, fault = .missingDependency ns u ∧
      u.requires.find? (fun ns => (registry.resolve ns).isNone) = some ns ∧
      ReachedIn registry entries d u ∧
      ∀ k v, ReachedIn registry entries k v → registry.Lacks v → d ≤ k := by
  -- By induction on the walk, with the distance and both parts of the queue changing from step to step.
  induction w using Walk.run.induct registry .fail generalizing done front back d with
  | case1 w hqueue =>
    rw [Walk.run_nil hqueue] at h
    cases h
  | case2 w current rest hqueue next hexpand ih =>
    rw [Walk.run_cons hqueue, hexpand] at h
    obtain ⟨d, front, back, rfl, hw⟩ := hw.exists_cons huniform hqueue
    obtain ⟨more, hnext⟩ := hw.expand hexpand
    exact ih hnext h
  | case3 w current rest hqueue found hexpand =>
    rw [Walk.run_cons hqueue, hexpand] at h
    obtain rfl := Except.error.inj h
    obtain ⟨d, front, back, rfl, hw⟩ := hw.exists_cons huniform hqueue
    obtain ⟨-, ns, hns, hfault⟩ := Walk.expand_error hexpand
    -- The unit in front is in the first part of the queue, and no nearer unit lacks a provider.
    exact ⟨current, ns, d, hfault, hns, hw.front_reached current List.mem_cons_self,
      fun k v hv hlacks => hw.le_of_lacks huniform hv hlacks⟩

/-- A closure that fails for a missing provider does so in its walk. -/
theorem visited_eq_of_missing {known : List SourceUnit} {ns : Namespace} {u : SourceUnit}
    (h : units registry policy entries known = .error (.missingDependency ns u)) :
    visited registry policy entries = .error (.missingDependency ns u) := by
  cases hvisited : visited registry policy entries with
  | error fault =>
    rw [units, hvisited] at h
    exact h
  | ok met =>
    simp only [units, hvisited] at h
    -- After the walk, there is a closure or another fault.
    split at h <;> simp at h

/-- A closure that fails for a missing provider reports a unit that is reached, with the first
    namespace among its requirements that nobody provides.  No unit that lacks a provider is reached
    in fewer steps. -/
theorem missing_nearest (registry : Registry) (entries known : List SourceUnit)
    (huniform : Uniform registry entries) (ns : Namespace) (u : SourceUnit)
    (h : units registry .fail entries known = .error (.missingDependency ns u)) :
    Reached registry entries u ∧
    u.requires.find? (fun ns => (registry.resolve ns).isNone) = some ns ∧
    ∃ d, ReachedIn registry entries d u ∧
      ∀ k v, ReachedIn registry entries k v → registry.Lacks v → d ≤ k := by
  obtain ⟨v, name, d, hfault, hname, hv, hnearest⟩ :=
    run_error_nearest huniform (Walk.layered_start registry .fail entries) (visited_eq_of_missing h)
  obtain ⟨rfl, rfl⟩ := Fault.missingDependency.inj hfault
  exact ⟨reached_iff_exists.2 ⟨d, hv⟩, hname, d, hv, hnearest⟩

/-- The second of the units that the first one requires. -/
def page : SourceUnit := .ordinary "page" [⟨"page"⟩] [⟨"lib"⟩, ⟨"fonts"⟩]

/-- Units of which the third and the last lack a provider. -/
def twoGaps : List SourceUnit :=
  [.ordinary "main" [⟨"main"⟩] [⟨"lib"⟩, ⟨"page"⟩], .ordinary "lib" [⟨"lib"⟩] [⟨"core"⟩], page,
    .ordinary "core" [⟨"core"⟩] [⟨"clock"⟩]]

/-- What the units provide. -/
def gapRegistry : Registry := (Registry.empty.registerEach twoGaps).1

/-- The unit one step away is reported, although the way that the first requirement leads on ends at
    a unit that lacks a provider, too. -/
theorem missing_nearest_of_twoGaps :
    Uniform gapRegistry (twoGaps.take 1) ∧
      units gapRegistry .fail (twoGaps.take 1) twoGaps = .error (.missingDependency ⟨"fonts"⟩ page) ∧
      ∃ d, ReachedIn gapRegistry (twoGaps.take 1) d page ∧
        ∀ k v, ReachedIn gapRegistry (twoGaps.take 1) k v → gapRegistry.Lacks v → d ≤ k := by
  have huniform : Uniform gapRegistry (twoGaps.take 1) := Uniform.of_forall (by decide +kernel)
  have hfails : units gapRegistry .fail (twoGaps.take 1) twoGaps =
      .error (.missingDependency ⟨"fonts"⟩ page) := by decide +kernel
  obtain ⟨-, -, hnearest⟩ :=
    missing_nearest gapRegistry (twoGaps.take 1) twoGaps huniform ⟨"fonts"⟩ page hfails
  exact ⟨huniform, hfails, hnearest⟩

end BuildOrder.Closure
