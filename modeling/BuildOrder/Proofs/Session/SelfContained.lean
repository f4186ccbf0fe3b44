import BuildOrder.Proofs.Session.Manifest

/-! # A manifest holds what its units require

* `manifest_selfContained`       the providers of what a manifest requires are in it
* `manifest_not_selfContained`   but nobody looks for them when everything is kept as it was added
-/

namespace BuildOrder.Session

/-- Where no unit was refused, a manifest holds every provider of what its units require.  Unless all
    units are kept in their original order, everything that they require has a provider; and a
    manifest fails when it would keep a unit for which there is none. -/
theorem manifest_selfContained (policy : Policy) (ops : List Operation) (s : Session)
    (hadds : (new policy).AddsSucceed ops) (hs : s = (new policy).after ops) :
    (∀ t manifest, s.manifest = (t, .ok manifest) → ∀ u ∈ manifest, ∀ ns ∈ u.requires,
      (∀ p, t.registry.resolve ns = some p → p ∈ manifest) ∧
      (t.policy.keepAllUnits = false ∨ t.policy.keepOriginalOrder = false →
        ∃ p, t.registry.resolve ns = some p ∧ p ∈ manifest)) ∧
    (s.policy.keepAllUnits = false ∨ s.policy.keepOriginalOrder = false → s.unmet? = none →
      ∀ u, s.Keeps u → s.registry.Lacks u → ∃ ns v, s.manifest.2 = .error (.missingDependency ns v) ∧
        s.Keeps v ∧ ns ∈ v.requires ∧ s.registry.resolve ns = none) := by
  have hcomplete : s.Complete := hs ▸ complete_after hadds
  have hcoherent : s.Coherent := hs ▸ coherent_after policy ops
  refine ⟨fun t manifest hmanifest u hu ns hns => ?_, fun hlooked hmet u hu hlacks => ?_⟩
  · obtain ⟨houtcome, -, hregistry, hpolicy⟩ := outcome_manifest hcomplete hcoherent hmanifest
    rw [hregistry, hpolicy]
    generalize t.roles = roles at houtcome
    cases houtcome with
    | done hmet hprovided hdistinct hmem horiginal hsorted =>
      -- A provider is kept together with the unit that requires it.
      have hkept : ∀ p, s.registry.resolve ns = some p → p ∈ manifest := fun p hp =>
        (hmem p).2 (hcomplete.keeps_of_requires ((hmem u).1 hu) ⟨ns, hns, hp⟩)
      refine ⟨hkept, fun hlooked => ?_⟩
      cases hresolve : s.registry.resolve ns with
      | none => exact absurd ⟨hlooked, u, (hmem u).1 hu, ns, hns, hresolve⟩ hprovided
      | some p => exact ⟨p, rfl, hkept p hresolve⟩
  · have hlacking : s.Lacking := ⟨hlooked, u, hu, hlacks⟩
    have houtcome := hcomplete.outcome_compute
    rw [manifest_snd hcoherent]
    generalize s.compute = result at houtcome
    -- Of the four outcomes, only the missing provider allows for a unit that lacks one.
    cases houtcome with
    | missingEntryPoint hunmet => cases hmet.symm.trans hunmet
    | missingDependency _ _ hv hns hmissing => exact ⟨_, _, rfl, hv, hns, hmissing⟩
    | circularDependency _ hprovided => exact absurd hlacking hprovided
    | done _ hprovided => exact absurd hlacking hprovided

/-- A candidate that requires what nobody provides. -/
def lonelyCandidate : List Operation := [.addCandidates [blank "lonely.js" [] [⟨"nowhere"⟩]]]

/-- The only unit is not refused, whatever the policy is. -/
theorem addsSucceed_lonelyCandidate (policy : Policy) : (new policy).AddsSucceed lonelyCandidate := by
  have hanswers : ((new policy).runAll lonelyCandidate).2 = [.done] := rfl
  exact addsSucceed_of_answers (by simp [hanswers])

/-- The manifest of two units holds what one of them requires; that of a lonely one fails. -/
theorem manifest_selfContained_of_appWithUtil :
    (new allReady).AddsSucceed appWithUtil ∧
    ((new allReady).after appWithUtil).manifest.2 =
      .ok [blank "util" [⟨"util"⟩] [], blank "app" [] [⟨"util"⟩]] ∧
    (∃ p, ((new allReady).after appWithUtil).manifest.1.registry.resolve ⟨"util"⟩ = some p ∧
      p ∈ [blank "util" [⟨"util"⟩] [], blank "app" [] [⟨"util"⟩]]) ∧
    ∃ ns v, ((new allReady).after lonelyCandidate).manifest.2 = .error (.missingDependency ns v) := by
  refine ⟨addsSucceed_appWithUtil, manifest_appWithUtil, ?_, ?_⟩
  · have happ : blank "app" [] [⟨"util"⟩] ∈ [blank "util" [⟨"util"⟩] [], blank "app" [] [⟨"util"⟩]] :=
      List.mem_cons_of_mem _ List.mem_cons_self
    exact ((manifest_selfContained allReady appWithUtil _ addsSucceed_appWithUtil rfl).1 _ _
      (Prod.ext rfl manifest_appWithUtil) _ happ _ List.mem_cons_self).2 (.inr rfl)
  · have hall : ((new allReady).after lonelyCandidate).policy.keepAllUnits = true := rfl
    -- All units are kept, and so is the lonely one.
    have hkeeps : ((new allReady).after lonelyCandidate).Keeps (blank "lonely.js" [] [⟨"nowhere"⟩]) := by
      rw [Keeps, if_pos hall]
      exact List.mem_cons_self
    obtain ⟨ns, v, hmanifest, -⟩ :=
      (manifest_selfContained allReady lonelyCandidate _ (addsSucceed_lonelyCandidate allReady) rfl).2
        (.inr rfl) rfl _ hkeeps ⟨⟨"nowhere"⟩, List.mem_cons_self, rfl⟩
    exact ⟨ns, v, hmanifest⟩

/-- All units, as they were added. -/
def asAdded : Policy := { keepAllUnits := true, keepOriginalOrder := true }

/-- When all units are kept in their original order, a manifest may require what nobody provides. -/
theorem manifest_not_selfContained :
    ¬ ∀ (policy : Policy) (ops : List Operation) (s t : Session) (manifest : List SourceUnit),
      (new policy).AddsSucceed ops → s = (new policy).after ops → s.manifest = (t, .ok manifest) →
        ∀ u ∈ manifest, ∀ ns ∈ u.requires, ∃ p, t.registry.resolve ns = some p ∧ p ∈ manifest := by
  intro hall
  obtain ⟨p, hp, -⟩ := hall asAdded lonelyCandidate _ _ [blank "lonely.js" [] [⟨"nowhere"⟩]]
    (addsSucceed_lonelyCandidate asAdded) rfl rfl _ List.mem_cons_self ⟨"nowhere"⟩ List.mem_cons_self
  -- Nothing is registered at all.
  cases hp

end BuildOrder.Session
