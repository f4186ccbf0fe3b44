import BuildOrder.Proofs.Session.Outcome

/-! # What a manifest holds

* `outcome_manifest`   a manifest, kept or computed, is a computed one for the session it leaves
* `manifest_correct`   it holds the units that the policy keeps, each after all that it requires
-/

namespace BuildOrder.Session

open Relation SourceUnit

/-- The roles that a manifest leaves are the destined ones. -/
theorem outcome_manifest {s t : Session} (hcomplete : s.Complete) (hcoherent : s.Coherent)
    {manifest : List SourceUnit} (h : s.manifest = (t, .ok manifest)) :
    s.Outcome (.ok (t.roles, manifest)) ∧ t.units = s.units ∧ t.registry = s.registry ∧
      t.policy = s.policy := by
  rcases manifest_cases hcoherent with
    ⟨t', manifest', hmanifest, hcompute, hframe⟩ | ⟨fault, hmanifest, -⟩
  · -- The manifest was given, and the computation that gives it leaves the same roles.
    obtain ⟨rfl, hanswer⟩ := Prod.mk.inj (hmanifest.symm.trans h)
    obtain rfl := Except.ok.inj hanswer
    exact ⟨hcompute ▸ hcomplete.outcome_compute, hframe⟩
  · obtain ⟨-, hanswer⟩ := Prod.mk.inj (hmanifest.symm.trans h)
    cases hanswer

/-- Where no unit was refused, the units are those that the operations have added, each where it was
    added first, and a manifest has no repetitions.  It holds all units, or else the main units and what
    they require, directly or through others.  It is in the original order, or else each unit comes
    after all other units that it requires, directly or through others. -/
theorem manifest_correct (policy : Policy) (ops : List Operation) (s t : Session)
    (manifest : List SourceUnit) (hadds : (new policy).AddsSucceed ops)
    (hs : s = (new policy).after ops) (hmanifest : s.manifest = (t, .ok manifest)) :
    t.units = firsts (ops.flatMap Operation.units) ∧ Distinct manifest ∧
    (t.policy.keepAllUnits = true → ∀ u, u ∈ manifest ↔ u ∈ t.units) ∧
    (t.policy.keepAllUnits = false → ∀ u, u ∈ manifest ↔
      u ∈ t.units ∧ ∃ v ∈ t.mainUnits, ReflTransGen t.registry.Requires v u) ∧
    (t.policy.keepOriginalOrder = true → manifest.Sublist t.units) ∧
    (t.policy.keepOriginalOrder = false → ∀ a ∈ manifest, ∀ b ∈ manifest, a ≠ b →
      TransGen t.registry.Requires a b → Precedes manifest b a) := by
  have hcomplete : s.Complete := hs ▸ complete_after hadds
  obtain ⟨houtcome, hunits, hregistry, hpolicy⟩ :=
    outcome_manifest hcomplete (hs ▸ coherent_after policy ops) hmanifest
  have hadded : s.units = firsts (ops.flatMap Operation.units) := by
    rw [hs, units_after, added_eq hadds]
  -- The manifest changes no more than the roles, which are the destined ones afterwards.
  rw [mainUnits, hunits, hregistry, hpolicy]
  generalize hroles : t.roles = roles at houtcome
  cases houtcome with
  | done hmet hprovided hdistinct hmem horiginal hsorted =>
    refine ⟨hadded, hdistinct, fun hall u => ?_, fun hsome u => ?_, horiginal,
      fun hsort a ha b hb hne hab => ?_⟩
    · rw [hmem, Keeps, if_pos hall]
    · -- The units that are kept are reached from the seeds, which are the main units of the session
      -- that is left.
      have hkeeps : s.Keeps u ↔ ∃ v, s.Seed v ∧ ReflTransGen s.registry.Requires v u := by
        rw [Keeps, if_neg (by simp [hsome])]
      rw [hmem, hkeeps]
      constructor
      · rintro ⟨v, hv, hvu⟩
        have hseed := hcomplete.mem_select_destined.2 hv
        have hu := hcomplete.knows.mem_of_reached hcomplete.select_destined_subset ⟨v, hseed, hvu⟩
        exact ⟨hu, v, hseed, hvu⟩
      · rintro ⟨-, v, hv, hvu⟩
        exact ⟨v, hcomplete.mem_select_destined.1 hv, hvu⟩
    · -- What one kept unit requires through others is another only if it needs it.
      have hclosed : ∀ u ∈ manifest, ∀ p, s.registry.Requires u p → p ∈ manifest := fun u hu p hp =>
        (hmem p).2 (hcomplete.keeps_of_requires ((hmem u).1 hu) hp)
      obtain ⟨-, hsame | hneeds⟩ := DependencyGraph.needs_or_eq_of_transGen hdistinct hclosed ha hab
      · exact absurd hsame hne
      · exact hsorted hsort a ha b hneeds

/-- All units sorted by readiness; what is needed sorted depth first, without the candidate that nothing
    needs; and what is needed in the original order. -/
theorem manifest_correct_of_appOverBase :
    (∀ policy, (new policy).AddsSucceed appOverBase) ∧
    (∃ t, ((new allReady).after appOverBase).manifest =
        (t, .ok (blank "spare" [⟨"spare"⟩] [] :: stack.reverse)) ∧
      ∀ u, u ∈ blank "spare" [⟨"spare"⟩] [] :: stack.reverse ↔ u ∈ t.units) ∧
    (∃ t, ((new {}).after appOverBase).manifest = (t, .ok stack.reverse) ∧
      blank "spare" [⟨"spare"⟩] [] ∈ t.units ∧
      (¬ ∃ v ∈ t.mainUnits, ReflTransGen t.registry.Requires v (blank "spare" [⟨"spare"⟩] [])) ∧
      Precedes stack.reverse (blank "base" [⟨"base"⟩] []) (blank "app" [] [⟨"util"⟩])) ∧
    ∃ t, ((new neededAsAdded).after appOverBase).manifest = (t, .ok stack) ∧ stack.Sublist t.units := by
  -- A manifest leaves the registry and the policy as they are.
  have hframe : ∀ policy manifest, ((new policy).after appOverBase).manifest.2 = .ok manifest →
      ∃ t, ((new policy).after appOverBase).manifest = (t, .ok manifest) ∧
        t.registry = ((new policy).after appOverBase).registry ∧ t.policy = policy :=
    fun policy manifest h => ⟨_, Prod.ext rfl h, (outcome_manifest
      (complete_after (addsSucceed_appOverBase policy)) (coherent_after policy appOverBase)
      (Prod.ext rfl h)).2.2⟩
  refine ⟨addsSucceed_appOverBase, ?_, ?_, ?_⟩
  · obtain ⟨t, hmanifest, -, hpolicy⟩ := hframe allReady (blank "spare" [⟨"spare"⟩] [] :: stack.reverse)
      (by decide +kernel)
    obtain ⟨-, -, hall, -⟩ := manifest_correct allReady appOverBase _ _ _ (addsSucceed_appOverBase allReady)
      rfl hmanifest
    exact ⟨t, hmanifest, hall (by rw [hpolicy]; rfl)⟩
  · obtain ⟨t, hmanifest, hregistry, hpolicy⟩ := hframe {} _ manifest_appOverBase
    obtain ⟨hunits, -, -, hneeded, -, hsorted⟩ := manifest_correct {} appOverBase _ _ _
      (addsSucceed_appOverBase {}) rfl hmanifest
    have hstored : blank "spare" [⟨"spare"⟩] [] ∈ t.units := by
      rw [hunits]
      decide +kernel
    have hleft : blank "spare" [⟨"spare"⟩] [] ∉ stack.reverse := by decide +kernel
    refine ⟨t, hmanifest, hstored, fun hreached => hleft ?_, ?_⟩
    · exact (hneeded (by rw [hpolicy]) _).2 ⟨hstored, hreached⟩
    · -- The main unit requires the last one through the second.
      have hutil : t.registry.Requires (blank "app" [] [⟨"util"⟩]) (blank "util" [⟨"util"⟩] [⟨"base"⟩]) :=
        ⟨⟨"util"⟩, List.mem_cons_self, by rw [hregistry]; decide +kernel⟩
      have hbase : t.registry.Requires (blank "util" [⟨"util"⟩] [⟨"base"⟩]) (blank "base" [⟨"base"⟩] []) :=
        ⟨⟨"base"⟩, List.mem_cons_self, by rw [hregistry]; decide +kernel⟩
      exact hsorted (by rw [hpolicy]) _ (by decide +kernel) _ (by decide +kernel) (by decide +kernel)
        (.tail (.single hutil) hbase)
  · obtain ⟨t, hmanifest, -, hpolicy⟩ := hframe neededAsAdded stack (by decide +kernel)
    obtain ⟨-, -, -, -, horiginal, -⟩ := manifest_correct neededAsAdded appOverBase _ _ _
      (addsSucceed_appOverBase neededAsAdded) rfl hmanifest
    exact ⟨t, hmanifest, horiginal (by rw [hpolicy]; rfl)⟩

end BuildOrder.Session
