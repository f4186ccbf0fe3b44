import BuildOrder.Proofs.Session.Agreement

/-! # Candidates that nothing needs do not change a manifest

A manifest that leaves units out sees no more of the units than its main units require.  Units
that are added once it can be computed are not among these, whatever they require themselves.

* `destined_insert`            a new candidate is not destined to be main
* `compute_insert`             so that storing or refusing it does not change the manifest
* `Settled.addCandidates`      and neither do any number of candidates
* `manifest_eq_of_candidates`  the next manifest is the one that there was
-/

namespace BuildOrder

/-- A policy does not make a unit an entry point by itself. -/
def Policy.LeavesInLimbo (policy : Policy) (u : SourceUnit) : Prop :=
  u.runtimeBase = false ∧ (policy.keepMoochers = true → u.isMoocher = false)

instance (policy : Policy) (u : SourceUnit) : Decidable (policy.LeavesInLimbo u) :=
  inferInstanceAs (Decidable (_ ∧ _))

namespace Session

variable {s : Session} {u : SourceUnit} {registry : Registry} {manifest : List SourceUnit}

/-! ## One candidate -/

/-- Where a new unit is stored as a candidate, no unit is main that was not before. -/
theorem grows_candidate (hs : s.WellFormed) (hnew : s.positions.find? u = none)
    (hregister : s.registry.register u = (registry, none)) (hu : s.policy.LeavesInLimbo u) :
    Grows s (s.insert u .limbo).1 fun _ => False := by
  obtain ⟨hbase, hmoocher⟩ := hu
  have hlimbo : u.runtimeBase = true → Role.limbo = .main := fun h => by cases hbase.symm.trans h
  have hgrows := grows_store hs hnew hregister hlimbo
  -- The new unit is neither main nor a moocher that is kept.
  refine ⟨hgrows.before, hgrows.after, hgrows.entryPoints, hgrows.target, fun i => ?_⟩
  rw [hgrows.ownRoles]
  refine or_congr_right (iff_false_intro ?_)
  rintro ⟨-, hrole | ⟨hkeep, hprovides⟩⟩
  · cases hrole
  · cases (hmoocher hkeep).symm.trans hprovides

/-- A new candidate is not destined to be main when every entry point has a provider already. -/
theorem destined_insert (hs : s.WellFormed) (hopen : s.openNames = []) (hnew : s.positions.find? u = none)
    (hregister : s.registry.register u = (registry, none)) (hu : s.policy.LeavesInLimbo u) :
    (s.insert u .limbo).1.destined = s.destined ++ [.limbo] := by
  have hgrows := grows_candidate hs hnew hregister hu
  have hunits : (s.insert u .limbo).1.units = s.units ++ [u] := by rw [insert, hregister]
  refine Role.list_ext ?_ fun i => ?_
  · rw [hgrows.after.length_destined, hunits]
    simp [hs.length_destined]
  · rw [hgrows.getElem?_destined, hopen, getElem?_concat_eq_some]
    simp

/-- Storing or refusing a candidate does not change a manifest that leaves units out. -/
theorem compute_insert (hs : s.WellFormed) (hprune : s.policy.keepAllUnits = false)
    (hnew : s.positions.find? u = none) (hu : s.policy.LeavesInLimbo u) {roles : List Role}
    (h : s.compute = .ok (roles, manifest)) :
    ∃ roles, (s.insert u .limbo).1.compute = .ok (roles, manifest) := by
  cases hregister : s.registry.register u with
  | mk registry conflict =>
    have hext : s.registry.Extends registry := Registry.extends_register hregister
    cases conflict with
    | some conflict =>
      -- A refused unit leaves no more than registrations.
      rw [insert, hregister]
      exact ⟨roles, compute_of_extends hext h⟩
    | none =>
      obtain ⟨hfine, rfl⟩ := eq_destined_of_compute h
      obtain ⟨-, units, hkept, harranged⟩ := compute_eq_ok_iff.1 h
      have hopen : s.openNames = [] := openNames_eq_nil_iff.2 hfine
      have hgrows := grows_candidate hs hnew hregister hu
      have hdestined := destined_insert hs hopen hnew hregister hu
      refine ⟨s.destined ++ [.limbo], compute_eq_ok_iff.2 ⟨?_, units, ?_, ?_⟩⟩
      · -- Every entry point keeps the provider that it has.
        have hfine' := openNames_eq_nil_iff.1 (hgrows.openNames_eq.trans (by rw [hopen]; rfl))
        rw [promoted_eq, hfine', hdestined]
      · -- The new unit is known as well, but not met from the main units.
        have hclosure : Closure.units s.registry .fail (Role.main.select s.units s.destined) s.units =
            .ok units := by
          rwa [kept, hprune, if_neg Bool.false_ne_true] at hkept
        rw [insert, hregister, kept, hprune, if_neg Bool.false_ne_true,
          Role.select_main_concat hs.length_destined]
        exact Closure.units_fail_of_extends hext
          (Closure.units_append hs.distinct (hs.find?_eq_none_iff.1 hnew) hclosure)
      · rw [insert, hregister]
        exact arranged_of_extends hext harranged

/-! ## Any number of candidates -/

/-- The session has the manifest under the policy. -/
structure Settled (policy : Policy) (manifest : List SourceUnit) (s : Session) : Prop where
  wellFormed : s.WellFormed
  policy_eq : s.policy = policy
  computes : ∃ roles, s.compute = .ok (roles, manifest)

namespace Settled

variable {policy : Policy}

/-- Adding a candidate that the policy leaves in limbo does not unsettle the manifest. -/
theorem addCandidate (hprune : policy.keepAllUnits = false) (hu : policy.LeavesInLimbo u)
    (hs : s.Settled policy manifest) : (s.addCandidate u).1.Settled policy manifest := by
  obtain ⟨hwf, rfl, roles, hcompute⟩ := hs
  refine ⟨hwf.steps (follows_addCandidate s u).1, (sameSettings_addCandidate s u).policy, ?_⟩
  unfold Session.addCandidate
  split
  · exact ⟨roles, hcompute⟩
  · rename_i hnew
    rw [if_neg (by simp [hu.1])]
    exact compute_insert hwf hprune (by simpa [contains] using hnew) hu hcompute

/-- Candidates do not change a manifest that leaves units out, up to the first one that is
    refused and after it. -/
theorem addCandidates (hprune : policy.keepAllUnits = false) {additions : List (List SourceUnit)}
    (hadditions : ∀ units ∈ additions, ∀ u ∈ units, policy.LeavesInLimbo u)
    (hs : s.Settled policy manifest) : (s.after (additions.map .addCandidates)).Settled policy manifest := by
  induction additions generalizing s with
  | nil => exact hs
  | cons units rest ih =>
    rw [List.map_cons, after_cons]
    -- The lists are added one by one, each to a session in which the manifest is settled.
    refine ih (fun more hmore => hadditions more (List.mem_cons_of_mem _ hmore)) ?_
    rw [apply, Result.answer_fst]
    exact addEach_invariant (P := Settled policy manifest)
      (fun s u hu hs => hs.addCandidate hprune (hadditions units List.mem_cons_self u hu)) hs

/-- Asking for the manifest does not unsettle it. -/
theorem manifest_fst (hsound : s.Sound) (hs : s.Settled policy manifest) :
    s.manifest.1.Settled policy manifest := by
  -- Asking for the manifest does not change the next one.
  have hagrees : Agrees s s.manifest.1 := agrees_manifest hsound
  refine ⟨?_, hagrees.policy.symm.trans hs.policy_eq, hagrees.compute_eq ▸ hs.computes⟩
  rw [← apply_manifest_fst]
  exact hs.wellFormed.apply .manifest

end Settled

/-- When a session has a manifest and its policy leaves units out, candidates that the policy does
    not make entry points do not change the manifest, whether they are stored or refused, and
    whether or not the manifest was asked for before they were added. -/
theorem manifest_eq_of_candidates (policy : Policy) (ops : List Operation) (s t : Session)
    (manifest : List SourceUnit) (additions : List (List SourceUnit))
    (hs : s = (new policy).after ops) (hprune : s.policy.keepAllUnits = false)
    (hmanifest : s.manifest = (t, .ok manifest))
    (hadditions : ∀ units ∈ additions, ∀ u ∈ units, s.policy.LeavesInLimbo u) :
    (s.after (additions.map .addCandidates)).manifest.2 = .ok manifest ∧
      (t.after (additions.map .addCandidates)).manifest.2 = .ok manifest := by
  have hsound : s.Sound := ⟨hs ▸ wellFormed_after policy ops, hs ▸ coherent_after policy ops⟩
  have hsettled : s.Settled s.policy manifest :=
    ⟨hsound.wellFormed, rfl, (manifest_snd_eq_ok_iff hsound.coherent).1 (by rw [hmanifest])⟩
  have hall : ∀ r : Session, r.Sound → r.Settled s.policy manifest →
      (r.after (additions.map .addCandidates)).manifest.2 = .ok manifest := by
    intro r hr hsettled
    have hafter := hsettled.addCandidates hprune hadditions
    exact (manifest_snd_eq_ok_iff (hr.after _).coherent).2 hafter.computes
  obtain rfl : s.manifest.1 = t := by rw [hmanifest]
  -- What was asked for the manifest has been reached by a history as well.
  have hasked : s.manifest.1.Sound := apply_manifest_fst s ▸ hsound.steps (steps_apply s .manifest)
  exact ⟨hall s hsound hsettled, hall _ hasked (hsettled.manifest_fst hsound)⟩

/-- Candidates that nothing needs: a moocher, one whose requirement nobody provides, two that
    require each other, and one that is refused once its first namespace is registered. -/
def spares : List (List SourceUnit) :=
  [[blank "idle" [] [], blank "lost" [⟨"lost"⟩] [⟨"nowhere"⟩]],
    [blank "ping" [⟨"ping"⟩] [⟨"pong"⟩], blank "pong" [⟨"pong"⟩] [⟨"ping"⟩]],
    [blank "other" [⟨"more"⟩, ⟨"util"⟩] []]]

/-- None of these candidates changes the manifest of the two units. -/
theorem manifest_eq_of_spares :
    ((new neededReady).after appWithRival).manifest.2 =
        .ok [blank "util" [⟨"util"⟩] [], blank "app" [] [⟨"util"⟩]] ∧
      (∀ units ∈ spares, ∀ u ∈ units, neededReady.LeavesInLimbo u) ∧
      (((new neededReady).after appWithRival).after (spares.map .addCandidates)).manifest.2 =
        .ok [blank "util" [⟨"util"⟩] [], blank "app" [] [⟨"util"⟩]] := by
  have hmanifest : ((new neededReady).after appWithRival).manifest.2 =
      .ok [blank "util" [⟨"util"⟩] [], blank "app" [] [⟨"util"⟩]] := by decide +kernel
  have hpolicy : ((new neededReady).after appWithRival).policy = neededReady := by decide +kernel
  have hspares : ∀ units ∈ spares, ∀ u ∈ units, neededReady.LeavesInLimbo u := by decide +kernel
  exact ⟨hmanifest, hspares, (manifest_eq_of_candidates neededReady appWithRival _ _ _ spares rfl
    (by rw [hpolicy]; rfl) (Prod.ext rfl hmanifest) (by rw [hpolicy]; exact hspares)).1⟩

end Session

end BuildOrder
