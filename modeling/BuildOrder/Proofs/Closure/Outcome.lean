import BuildOrder.Proofs.Closure.Strays

/-! # The closure is what the entry units reach

A walk may meet several values that describe one unit, and it follows the one that it meets first.
Where all of them require the same, its outcome is told by the units that can be reached.

* `outcome_units`          what a closure comes to
* `units_fail_cases`       among known units, a closure holds the units that are reached
* `units_append`           it stays the same when further units are known
* `units_eq_reached`       when a closure fails, and of which units it consists otherwise
-/

namespace BuildOrder.Closure

open Relation SourceUnit

variable {registry : Registry} {policy : MissingPolicy} {entries : List SourceUnit}

/-- The units that a walk may meet: the entry units, and those that a namespace resolves to. -/
def Source (registry : Registry) (entries : List SourceUnit) (u : SourceUnit) : Prop :=
  u ∈ entries ∨ ∃ ns, registry.resolve ns = some u

/-- Of one unit, a walk may meet several values, but they require the same. -/
def Uniform (registry : Registry) (entries : List SourceUnit) : Prop :=
  ∀ u v, Source registry entries u → Source registry entries v → u.identity = v.identity →
    u.requires = v.requires

/-- Some unit that is reached is the given one. -/
def Belongs (registry : Registry) (entries : List SourceUnit) (u : SourceUnit) : Prop :=
  ∃ v, Reached registry entries v ∧ v.identity = u.identity

/-- A unit that is reached requires what nobody provides, and this is not to be ignored. -/
def Lacking (registry : Registry) (policy : MissingPolicy) (entries : List SourceUnit) : Prop :=
  policy = .fail ∧ ∃ u, Reached registry entries u ∧ registry.Lacks u

/-- Units are uniform if the entry units and the providers of the registry are. -/
theorem Uniform.of_forall (h : ∀ u ∈ entries ++ registry.providers, ∀ v ∈ entries ++ registry.providers,
    u.identity = v.identity → u.requires = v.requires) : Uniform registry entries := by
  have hmem : ∀ u, Source registry entries u → u ∈ entries ++ registry.providers := by
    rintro u (hu | ⟨ns, hu⟩)
    · exact List.mem_append_left _ hu
    · exact List.mem_append_right _ (Registry.mem_providers_of_resolve hu)
  exact fun u v hu hv => h u (hmem u hu) v (hmem v hv)

/-- What is reached is an entry unit, or a namespace resolves to it at the last step. -/
theorem Reached.source {u : SourceUnit} (h : Reached registry entries u) : Source registry entries u := by
  obtain ⟨e, he, heu⟩ := h
  cases heu with
  | refl => exact .inl he
  | tail _ hlast =>
    obtain ⟨ns, -, hresolve⟩ := hlast
    exact .inr ⟨ns, hresolve⟩

section IsClosure

variable {met : List SourceUnit}

/-- What a unit that was met stands for is followed, whichever value of it was met. -/
theorem IsClosure.follows (hmet : IsClosure registry policy entries met)
    (huniform : Uniform registry entries) {u : SourceUnit} (hu : Reached registry entries u)
    (hmeets : Meets met u) : Follows registry policy met u.requires := by
  obtain ⟨v, hv, heq⟩ := hmeets
  rw [← huniform v u (hmet.reached v hv).source hu.source heq]
  exact hmet.followed v hv

/-- Going on from a unit that was met leads to units that were met, too. -/
theorem IsClosure.meets_of_reached (hmet : IsClosure registry policy entries met)
    (huniform : Uniform registry entries) {u : SourceUnit} (hu : Reached registry entries u) :
    Meets met u := by
  obtain ⟨e, he, heu⟩ := hu
  -- Along the way: a unit that was met has been followed, and so the next one was met.
  induction heu with
  | refl => exact hmet.entries_met e he
  | tail hev hvw ih =>
    obtain ⟨ns, hns, hw⟩ := hvw
    exact (hmet.follows huniform ⟨e, he, hev⟩ ih ns hns).1 _ hw

/-- The units that were met are, by their identity, those that are reached. -/
theorem IsClosure.meets_iff (hmet : IsClosure registry policy entries met)
    (huniform : Uniform registry entries) {u : SourceUnit} : Meets met u ↔ Belongs registry entries u := by
  constructor
  · rintro ⟨v, hv, heq⟩
    exact ⟨v, hmet.reached v hv, heq⟩
  · rintro ⟨v, hv, heq⟩
    exact (hmet.meets_of_reached huniform hv).of_identity_eq heq

/-- Where a walk has ended with a closure, no unit that is reached lacks a provider that matters. -/
theorem IsClosure.not_lacking (hmet : IsClosure registry policy entries met)
    (huniform : Uniform registry entries) : ¬ Lacking registry policy entries := by
  rintro ⟨rfl, u, hu, ns, hns, hmissing⟩
  have hfollows := hmet.follows huniform hu (hmet.meets_of_reached huniform hu)
  exact absurd ((hfollows ns hns).2 hmissing) (by decide)

end IsClosure

variable {known : List SourceUnit}

/-- What the closure of entry units among known units comes to. -/
inductive Outcome (registry : Registry) (policy : MissingPolicy) (entries known : List SourceUnit) :
    Except Fault (List SourceUnit) → Prop
  | lacking (hlacking : Lacking registry policy entries) {u : SourceUnit} {ns : Namespace}
      (hu : Reached registry entries u)
      (hns : u.requires.find? (fun ns => (registry.resolve ns).isNone) = some ns) :
      Outcome registry policy entries known (.error (.missingDependency ns u))
  | stray (hprovided : ¬ Lacking registry policy entries) {u : SourceUnit}
      (hu : Reached registry entries u) (hunknown : ¬ Meets known u) :
      Outcome registry policy entries known (.error (.invariantViolation (.strayUnit u.id)))
  | kept (hprovided : ¬ Lacking registry policy entries)
      (hall : ∀ u, Reached registry entries u → Meets known u) {p : SourceUnit → Bool}
      (hp : ∀ u, p u = true ↔ Belongs registry entries u) :
      Outcome registry policy entries known (.ok (known.filter p))

/-- Among different known units, the closure is what the units that are reached make of it, whatever
    values of them the walk has met. -/
theorem outcome_units (hknown : Distinct known) (huniform : Uniform registry entries) :
    Outcome registry policy entries known (units registry policy entries known) := by
  rcases visited_cases registry policy entries with
    ⟨met, hvisited, hmet⟩ | ⟨hpolicy, u, ns, hu, hns, hvisited⟩
  · have hprovided := hmet.not_lacking huniform
    have hcount : (listed met known).length = met.length ↔ ∀ u ∈ met, Meets known u :=
      length_listed_eq_iff_forall hmet.distinct (hknown.sublist List.filter_sublist)
    rw [units_of_visited hvisited]
    by_cases hall : ∀ u ∈ met, Meets known u
    · rw [if_pos (hcount.2 hall)]
      refine .kept hprovided (fun u hu => ?_) fun u => any_same_iff.trans (hmet.meets_iff huniform)
      -- A unit that is reached is met, and so it is known.
      obtain ⟨v, hv, heq⟩ := hmet.meets_of_reached huniform hu
      exact (hall v hv).of_identity_eq heq
    · obtain ⟨u, hu, hunknown, hstray⟩ := exists_stray hall
      -- The numbers differ because a unit that was met is not known, and the first such unit is
      -- reported.
      rw [if_neg (mt hcount.1 hall), hstray]
      exact .stray hprovided (hmet.reached u hu) hunknown
  · have hmissing : registry.resolve ns = none := by simpa using List.find?_some hns
    rw [units, hvisited]
    exact .lacking ⟨hpolicy, u, hu, ns, List.mem_of_find?_eq_some hns, hmissing⟩ hu hns

/-! ## Closures among known units -/

/-- Different units that include everything a registry resolves to. -/
structure Knows (known : List SourceUnit) (registry : Registry) : Prop where
  distinct : Distinct known
  resolved : ∀ ns u, registry.resolve ns = some u → u ∈ known

/-- Where the known units include all providers, what is required is known. -/
theorem Knows.mem_of_requires (hknown : Knows known registry) {u v : SourceUnit}
    (h : registry.Requires u v) : v ∈ known := by
  obtain ⟨ns, -, hv⟩ := h
  exact hknown.resolved ns v hv

/-- Everything is known that is reached from known entry units. -/
theorem Knows.mem_of_reached (hknown : Knows known registry) (hentries : entries ⊆ known)
    {u : SourceUnit} (h : Reached registry entries u) : u ∈ known := by
  -- A unit is either an entry unit or required by the last one on the way.
  obtain ⟨e, he, heu⟩ := h
  cases heu with
  | refl => exact hentries he
  | tail _ hlast => exact hknown.mem_of_requires hlast

/-- Among known units, every unit has one value. -/
theorem Knows.uniform (hknown : Knows known registry) (hentries : entries ⊆ known) :
    Uniform registry entries := by
  have hmem : ∀ u, Source registry entries u → u ∈ known := by
    rintro u (hu | ⟨ns, hu⟩)
    · exact hentries hu
    · exact hknown.resolved ns u hu
  -- Two values of one unit would both be known, which only one of them is.
  intro u v hu hv heq
  rw [hknown.distinct.eq_of_identity_eq (hmem u hu) (hmem v hv) heq]

/-- A known unit that belongs to the closure is reached as itself. -/
theorem Knows.belongs_iff (hknown : Knows known registry) (hentries : entries ⊆ known) {u : SourceUnit} :
    u ∈ known ∧ Belongs registry entries u ↔ Reached registry entries u := by
  constructor
  · rintro ⟨hu, v, hv, heq⟩
    exact hknown.distinct.eq_of_identity_eq (hknown.mem_of_reached hentries hv) hu heq ▸ hv
  · exact fun hu => ⟨hknown.mem_of_reached hentries hu, u, hu, rfl⟩

/-- Among known units, the closure of some of them is given in their order, unless a unit that is
    reached lacks a provider. -/
theorem units_fail_cases (hknown : Knows known registry) (hentries : entries ⊆ known) :
    (∃ kept, units registry .fail entries known = .ok kept ∧ kept.Sublist known ∧
        (∀ u, u ∈ kept ↔ Reached registry entries u) ∧ ∀ u ∈ kept, ¬ registry.Lacks u) ∨
      ∃ u ns, Reached registry entries u ∧ ns ∈ u.requires ∧ registry.resolve ns = none ∧
        units registry .fail entries known = .error (.missingDependency ns u) := by
  have houtcome : Outcome registry .fail entries known (units registry .fail entries known) :=
    outcome_units hknown.distinct (hknown.uniform hentries)
  -- The outcome is taken apart without looking into the walk.
  generalize units registry .fail entries known = result at houtcome ⊢
  cases houtcome with
  | lacking hlacking hu hns =>
    have hmissing := List.find?_some hns
    exact .inr ⟨_, _, hu, List.mem_of_find?_eq_some hns, by simpa using hmissing, rfl⟩
  | stray hprovided hu hunknown =>
    -- All units that are reached are known.
    exact absurd ⟨_, hknown.mem_of_reached hentries hu, rfl⟩ hunknown
  | kept hprovided hall hp =>
    have hmem : ∀ u, u ∈ known.filter _ ↔ Reached registry entries u := fun u => by
      rw [List.mem_filter, hp, hknown.belongs_iff hentries]
    exact .inl ⟨_, rfl, List.filter_sublist, hmem, fun u hu hlacks =>
      hprovided ⟨rfl, u, (hmem u).1 hu, hlacks⟩⟩

/-- A closure stays the same when further units are known. -/
theorem units_append (hknown : Distinct known) {u : SourceUnit} (hnew : ∀ v ∈ known, v.identity ≠ u.identity)
    {kept : List SourceUnit} (h : units registry policy entries known = .ok kept) :
    units registry policy entries (known ++ [u]) = .ok kept := by
  rcases visited_cases registry policy entries with ⟨met, hvisited, hmet⟩ | ⟨-, _, _, -, -, hvisited⟩
  · rw [units_of_visited hvisited] at h ⊢
    split at h
    · rename_i hlength
      -- The further unit has not been met, since every unit that was met is known already.
      have hall := (length_listed_eq_iff_forall hmet.distinct (hknown.sublist List.filter_sublist)).1 hlength
      have hunmet : ¬ Meets met u := by
        rintro ⟨v, hv, hsame⟩
        obtain ⟨w, hw, heq⟩ := hall v hv
        exact hnew w hw (heq.trans hsame)
      rw [listed_append_singleton hunmet, if_pos hlength]
      exact h
    · cases h
  · rw [units, hvisited] at h
    cases h

/-! ## The closure is what is reached -/

section Others

variable {others : List SourceUnit}

/-- From fewer entry units, a walk may meet no other values. -/
theorem Uniform.mono (huniform : Uniform registry entries) (hothers : others ⊆ entries) :
    Uniform registry others := by
  have hsource : ∀ u, Source registry others u → Source registry entries u := fun u hu =>
    hu.imp_left fun hmem => hothers hmem
  exact fun u v hu hv => huniform u v (hsource u hu) (hsource v hv)

/-- From more entry units, at least as much is reached. -/
theorem Reached.mono {u : SourceUnit} (hu : Reached registry others u) (hothers : others ⊆ entries) :
    Reached registry entries u := by
  obtain ⟨e, he, heu⟩ := hu
  exact ⟨e, hothers he, heu⟩

/-- From some of the entry units, which stand for all of them, each unit is reached as a value that
    requires the same. -/
theorem exists_reached (huniform : Uniform registry entries) (hothers : others ⊆ entries)
    (hall : ∀ u ∈ entries, Meets others u) {u : SourceUnit} (hu : Reached registry entries u) :
    ∃ v, Reached registry others v ∧ v.identity = u.identity ∧ v.requires = u.requires := by
  obtain ⟨e, he, heu⟩ := hu
  induction heu with
  | refl =>
    obtain ⟨o, ho, heq⟩ := hall e he
    exact ⟨o, .entry ho, heq, huniform o e (.inl (hothers ho)) (.inl he) heq⟩
  | tail _ hvw ih =>
    obtain ⟨v, hv, -, hrequires⟩ := ih
    obtain ⟨ns, hns, hw⟩ := hvw
    -- What one value requires is required by the other.
    exact ⟨_, hv.tail ⟨ns, hrequires ▸ hns, hw⟩, rfl, rfl⟩

/-- Entry units that stand for all of them tell whether a unit that is reached lacks a provider. -/
theorem lacking_iff (huniform : Uniform registry entries) (hothers : others ⊆ entries)
    (hall : ∀ u ∈ entries, Meets others u) :
    Lacking registry policy others ↔ Lacking registry policy entries := by
  refine and_congr_right fun _ => ⟨?_, ?_⟩
  · rintro ⟨u, hu, hlacks⟩
    exact ⟨u, hu.mono hothers, hlacks⟩
  · rintro ⟨u, hu, ns, hns, hmissing⟩
    -- The unit is reached from the others as a value that lacks the same provider.
    obtain ⟨v, hv, -, hrequires⟩ := exists_reached huniform hothers hall hu
    exact ⟨v, hv, ns, hrequires ▸ hns, hmissing⟩

/-- Entry units that stand for all of them tell which units belong to the closure. -/
theorem belongs_iff (huniform : Uniform registry entries) (hothers : others ⊆ entries)
    (hall : ∀ u ∈ entries, Meets others u) (u : SourceUnit) :
    Belongs registry others u ↔ Belongs registry entries u := by
  constructor
  · rintro ⟨v, hv, heq⟩
    exact ⟨v, hv.mono hothers, heq⟩
  · rintro ⟨v, hv, heq⟩
    obtain ⟨w, hw, hsame, -⟩ := exists_reached huniform hothers hall hv
    exact ⟨w, hw, hsame.trans heq⟩

end Others

/-- All units that are reached are known when a known unit stands for each that belongs. -/
theorem forall_reached_iff :
    (∀ u, Reached registry entries u → Meets known u) ↔
      ∀ u, Belongs registry entries u → Meets known u := by
  constructor
  · rintro hall u ⟨v, hv, heq⟩
    exact (hall v hv).of_identity_eq heq
  · exact fun hall u hu => hall u ⟨u, hu, rfl⟩

namespace Outcome

variable {result : Except Fault (List SourceUnit)}

/-- The closure fails for a missing provider exactly when a reached unit lacks one that matters. -/
theorem missing_iff (h : Outcome registry policy entries known result) :
    (∃ ns u, result = .error (.missingDependency ns u)) ↔ Lacking registry policy entries := by
  cases h with
  | lacking hlacking hu hns => simp [hlacking]
  | stray hprovided hu hunknown => simp [hprovided]
  | kept hprovided hall hp => simp [hprovided]

/-- The closure is a broken invariant exactly when nothing that matters is lacking and a unit that is
    reached is not known. -/
theorem violation_iff (h : Outcome registry policy entries known result) :
    (∃ cause, result = .error (.invariantViolation cause)) ↔
      ¬ Lacking registry policy entries ∧ ∃ u, Reached registry entries u ∧ ¬ Meets known u := by
  cases h with
  | lacking hlacking hu hns => simp [hlacking]
  | stray hprovided hu hunknown =>
    have hstray : ∃ u, Reached registry entries u ∧ ¬ Meets known u := ⟨_, hu, hunknown⟩
    simp [hprovided, hstray]
  | kept hprovided hall hp =>
    have hnone : ¬ ∃ u, Reached registry entries u ∧ ¬ Meets known u := by
      rintro ⟨u, hu, hunknown⟩
      exact hunknown (hall u hu)
    simp [hnone]

open Classical in
/-- The closure succeeds exactly when neither happens, and then it holds the known units that belong to
    it, in their order.  The test by which these are found is not computed. -/
theorem ok_iff (h : Outcome registry policy entries known result) {kept : List SourceUnit} :
    result = .ok kept ↔
      ¬ Lacking registry policy entries ∧ (∀ u, Belongs registry entries u → Meets known u) ∧
        kept = known.filter fun u => decide (Belongs registry entries u) := by
  rw [← forall_reached_iff]
  cases h with
  | lacking hlacking hu hns => simp [hlacking]
  | stray hprovided hu hunknown =>
    have hnot : ¬ ∀ u, Reached registry entries u → Meets known u := fun hall => hunknown (hall _ hu)
    simp [hnot]
  | @kept hprovided hall p hp =>
    -- The outcome has some test for the known units that belong; all such tests give the same list.
    have hfilter : known.filter p = known.filter fun u => decide (Belongs registry entries u) :=
      List.filter_congr fun u _ => by rw [Bool.eq_iff_iff, hp, decide_eq_true_iff]
    rw [hfilter]
    constructor
    · exact fun heq => ⟨hprovided, hall, (Except.ok.inj heq).symm⟩
    · rintro ⟨-, -, rfl⟩
      rfl

end Outcome

open Classical in
/-- A closure fails for a missing provider exactly when a unit that is reached lacks one, and this is
    not to be ignored.  Otherwise it is a broken invariant exactly when a unit that is reached is not
    known, and without either the closure is the list of those known units that belong to it.  The
    order of the entry units and their repetition do not matter. -/
theorem units_eq_reached (registry : Registry) (policy : MissingPolicy) (entries known : List SourceUnit)
    (hknown : Distinct known) (huniform : Uniform registry entries) :
    ((∃ ns u, units registry policy entries known = .error (.missingDependency ns u)) ↔
      Lacking registry policy entries) ∧
    ((∃ cause, units registry policy entries known = .error (.invariantViolation cause)) ↔
      ¬ Lacking registry policy entries ∧ ∃ u, Reached registry entries u ∧ ¬ Meets known u) ∧
    (¬ Lacking registry policy entries → (∀ u, Reached registry entries u → Meets known u) →
      units registry policy entries known =
        .ok (known.filter fun u => decide (Belongs registry entries u))) ∧
    ∀ others kept, others ⊆ entries → (∀ u ∈ entries, Meets others u) →
      (units registry policy others known = .ok kept ↔ units registry policy entries known = .ok kept) := by
  have houtcome : Outcome registry policy entries known (units registry policy entries known) :=
    outcome_units hknown huniform
  refine ⟨houtcome.missing_iff, houtcome.violation_iff, fun hprovided hall => ?_,
    fun others kept hothers hmeets => ?_⟩
  · exact houtcome.ok_iff.2 ⟨hprovided, forall_reached_iff.1 hall, rfl⟩
  · -- The same units belong to both closures, and they lack the same.
    have hothers' : Outcome registry policy others known (units registry policy others known) :=
      outcome_units hknown (huniform.mono hothers)
    rw [hothers'.ok_iff, houtcome.ok_iff]
    simp only [lacking_iff huniform hothers hmeets, belongs_iff huniform hothers hmeets]

/-- A unit that requires itself and another one, which requires it in turn. -/
def app : SourceUnit := .ordinary "app" [⟨"app"⟩] [⟨"app"⟩, ⟨"util"⟩]

/-- The unit and the other one, after one that neither of them needs. -/
def mutualNeeds : List SourceUnit :=
  [.ordinary "spare" [⟨"spare"⟩] [], app, .ordinary "util" [⟨"util"⟩] [⟨"app"⟩]]

/-- What the three units provide. -/
def mutualRegistry : Registry := (Registry.empty.registerEach mutualNeeds).1

/-- An entry unit that is given twice has the closure that it has when it is given once. -/
theorem units_eq_reached_of_mutualNeeds :
    Distinct mutualNeeds ∧ Uniform mutualRegistry [app, app] ∧
      ¬ Lacking mutualRegistry .fail [app, app] ∧
      (¬ ∃ u, Reached mutualRegistry [app, app] u ∧ ¬ Meets mutualNeeds u) ∧
      units mutualRegistry .fail [app] mutualNeeds = .ok mutualNeeds.tail := by
  have hdistinct : Distinct mutualNeeds := by
    unfold Distinct
    decide +kernel
  have huniform : Uniform mutualRegistry [app, app] := Uniform.of_forall (by decide +kernel)
  have hclosure : units mutualRegistry .fail [app, app] mutualNeeds = .ok mutualNeeds.tail := by
    decide +kernel
  obtain ⟨hmissing, hviolation, -, hothers⟩ :=
    units_eq_reached mutualRegistry .fail [app, app] mutualNeeds hdistinct huniform
  have hprovided : ¬ Lacking mutualRegistry .fail [app, app] := fun hlacking => by
    obtain ⟨ns, u, hfault⟩ := hmissing.2 hlacking
    simp [hclosure] at hfault
  refine ⟨hdistinct, huniform, hprovided, fun hstray => ?_, (hothers _ _ ?_ ?_).2 hclosure⟩
  · obtain ⟨cause, hfault⟩ := hviolation.2 ⟨hprovided, hstray⟩
    simp [hclosure] at hfault
  · simp
  · simp [Meets]

end BuildOrder.Closure
