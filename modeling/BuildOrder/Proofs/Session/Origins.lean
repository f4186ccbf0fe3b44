import BuildOrder.Proofs.Session.Manifest

/-! # Where the units of a manifest come from

A unit is main because it was added as an entry point, because it is a runtime base, or because a
manifest has made it main: as the provider of a named entry point, or as a moocher while those are
kept.

* `cause_apply`              an operation makes a unit main for one of these causes
* `accounted_after`          so after every history, each main unit is accounted for
* `manifest_accounted`       and each unit of a manifest is required by one that is
* `moocher_outlives_policy`  a moocher that was kept once is kept for good
-/

namespace BuildOrder.Session

open Relation SourceUnit

variable {s : Session}

/-- Why an operation makes a unit main. -/
inductive Cause (s : Session) (u : SourceUnit) : Operation → Prop
  /-- The unit is added as an entry point. -/
  | asked {units : List SourceUnit} {v : SourceUnit} (hv : v ∈ units) (hsame : v.identity = u.identity) :
      Cause s u (.addMains units)
  /-- A runtime base is always an entry point. -/
  | base {units : List SourceUnit} (hbase : u.runtimeBase = true) : Cause s u (.addCandidates units)
  /-- The manifest starts from the unit, and it succeeds. -/
  | seed {manifest : List SourceUnit} (hmanifest : s.manifest.2 = .ok manifest) (hseed : s.Seed u) :
      Cause s u .manifest

/-! ## One operation -/

/-- When a new unit is stored, no other one becomes main, and it does so only if it is given as main. -/
theorem mem_mainUnits_insert (hs : s.WellFormed) {u v : SourceUnit} {role : Role}
    (hv : v ∈ (s.insert u role).1.mainUnits) : v ∈ s.mainUnits ∨ (v = u ∧ role = .main) := by
  unfold insert at hv
  split at hv
  · obtain ⟨i, hi, hmain⟩ := Role.mem_select.1 hv
    -- The new unit is the last one, and so is its role.
    rcases getElem?_concat_eq_some.1 hi with hi | ⟨hlast, rfl⟩
    · rcases getElem?_concat_eq_some.1 hmain with hmain | ⟨rfl, -⟩
      · exact .inl (Role.mem_select.2 ⟨i, hi, hmain⟩)
      · simp [hs.roles_length] at hi
    · rcases getElem?_concat_eq_some.1 hmain with hmain | ⟨-, hrole⟩
      · simp [hlast, ← hs.roles_length] at hmain
      · exact .inr ⟨rfl, hrole⟩
  · exact .inl hv

/-- Adding a main unit makes no other unit main than the same one. -/
theorem mem_mainUnits_addMain (hs : s.WellFormed) {u v : SourceUnit}
    (hv : v ∈ (s.addMain u).1.mainUnits) : v ∈ s.mainUnits ∨ u.identity = v.identity := by
  unfold addMain at hv
  split at hv
  · rcases mem_mainUnits_insert hs hv with hv | ⟨rfl, -⟩
    · exact .inl hv
    · exact .inr rfl
  · rename_i i hfind
    split at hv
    · obtain ⟨k, hk, hmain⟩ := Role.mem_select.1 hv
      dsimp only at hk hmain
      rw [List.getElem?_set] at hmain
      split at hmain
      · -- The role that has changed is that of the unit found.
        rename_i hik
        obtain ⟨w, hw, heq⟩ := (hs.position u i).1 hfind
        obtain rfl : v = w := Option.some.inj (hk.symm.trans (hik ▸ hw))
        exact .inr heq.symm
      · exact .inl (Role.mem_select.2 ⟨k, hk, hmain⟩)
    · exact .inl hv

/-- Adding a candidate makes no unit main but a runtime base. -/
theorem mem_mainUnits_addCandidate (hs : s.WellFormed) {u v : SourceUnit}
    (hv : v ∈ (s.addCandidate u).1.mainUnits) : v ∈ s.mainUnits ∨ v.runtimeBase = true := by
  unfold addCandidate at hv
  split at hv
  · -- The unit is there already, and nothing changes.
    exact .inl hv
  · rcases mem_mainUnits_insert hs hv with hv | ⟨rfl, hrole⟩
    · exact .inl hv
    · right
      -- Only a runtime base is given the role of main.
      by_contra hbase
      simp [hbase] at hrole

/-- What several additions make main, one of them does. -/
theorem mem_mainUnits_addEach {add : Session → SourceUnit → Result} {Makes : SourceUnit → SourceUnit → Prop}
    (hfollows : ∀ s u, (add s u).Follows s)
    (hadd : ∀ s : Session, s.WellFormed → ∀ u v, v ∈ (add s u).1.mainUnits → v ∈ s.mainUnits ∨ Makes u v)
    (hs : s.WellFormed) {units : List SourceUnit} {v : SourceUnit}
    (hv : v ∈ (addEach add s units).1.mainUnits) : v ∈ s.mainUnits ∨ ∃ u ∈ units, Makes u v := by
  induction units generalizing s with
  | nil => exact .inl hv
  | cons u rest ih =>
    have hnext : (add s u).1.WellFormed := hs.steps (hfollows s u).1
    have hfirst := hadd s hs u v
    rw [addEach] at hv
    split at hv
    · rename_i next hnextEq
      rw [hnextEq] at hnext hfirst
      rcases ih hnext hv with hv | ⟨w, hw, hmakes⟩
      · exact (hfirst hv).imp_right fun hmakes => ⟨u, List.mem_cons_self, hmakes⟩
      · exact .inr ⟨w, List.mem_cons_of_mem _ hw, hmakes⟩
    · -- The additions end with one that has failed.
      rename_i next fault hnextEq
      rw [hnextEq] at hfirst
      exact (hfirst hv).imp_right fun hmakes => ⟨u, List.mem_cons_self, hmakes⟩

/-- Naming entry points makes no unit main yet. -/
theorem mainUnits_addEntryPoints (s : Session) (names : List Namespace) :
    (names.foldl addEntryPoint s).mainUnits = s.mainUnits := by
  obtain ⟨_, _, heq⟩ := exists_addEntryPoints_eq s names
  rw [heq]
  rfl

/-- Setting a policy makes no unit main. -/
theorem mainUnits_setPolicy (s : Session) (policy : Policy) :
    (s.setPolicy policy).mainUnits = s.mainUnits := by
  unfold setPolicy
  split <;> rfl

/-- A manifest makes the units main that it starts from. -/
theorem mem_mainUnits_manifest (hs : s.Complete) (hcoherent : s.Coherent) {v : SourceUnit}
    (hv : v ∈ s.manifest.1.mainUnits) :
    v ∈ s.mainUnits ∨ ((∃ manifest, s.manifest.2 = .ok manifest) ∧ s.Seed v) := by
  rcases manifest_cases hcoherent with ⟨t, manifest, hmanifest, hcompute, hunits, -⟩ | ⟨fault, hmanifest, -⟩
  · -- The roles that are left are the destined ones.
    rw [hmanifest, mainUnits, hunits, (eq_destined_of_compute hcompute).2] at hv
    exact .inr ⟨⟨manifest, by rw [hmanifest]⟩, hs.mem_select_destined.1 hv⟩
  · rw [hmanifest] at hv
    exact .inl hv

/-- An operation makes a unit main for a cause. -/
theorem cause_apply (hs : s.Complete) (hcoherent : s.Coherent) {op : Operation} {v : SourceUnit}
    (hv : v ∈ (s.apply op).1.mainUnits) : v ∈ s.mainUnits ∨ Cause s v op := by
  -- The operations that set a policy are alike, and none makes a unit main.
  have hpolicy : ∀ policy, v ∈ (s.setPolicy policy).mainUnits → v ∈ s.mainUnits ∨ Cause s v op :=
    fun policy hv => .inl (mainUnits_setPolicy s policy ▸ hv)
  cases op with
  | addMains units =>
    rw [apply, Result.answer_fst] at hv
    rcases mem_mainUnits_addEach follows_addMain (fun _ hs _ _ => mem_mainUnits_addMain hs)
      hs.toWellFormed hv with hv | ⟨u, hu, hsame⟩
    · exact .inl hv
    · exact .inr (.asked hu hsame)
  | addCandidates units =>
    rw [apply, Result.answer_fst] at hv
    rcases mem_mainUnits_addEach follows_addCandidate (fun _ hs _ _ => mem_mainUnits_addCandidate hs)
      hs.toWellFormed hv with hv | ⟨u, -, hbase⟩
    · exact .inl hv
    · exact .inr (.base hbase)
  | addEntryPoints names => exact .inl (mainUnits_addEntryPoints s names ▸ hv)
  | setKeepAllUnits keep => exact hpolicy _ hv
  | setKeepMoochers keep => exact hpolicy _ hv
  | setKeepOriginalOrder keep => exact hpolicy _ hv
  | setStrategy strategy => exact hpolicy _ hv
  | setPolicy policy => exact hpolicy _ hv
  | manifest =>
    rw [apply_manifest_fst] at hv
    rcases mem_mainUnits_manifest hs hcoherent hv with hv | ⟨⟨manifest, hmanifest⟩, hseed⟩
    · exact .inl hv
    · exact .inr (.seed hmanifest hseed)

/-! ## Whole histories -/

/-- In a history, a unit was added as an entry point, it is a runtime base, or it provides a namespace
    that was named as an entry point. -/
def Wanted (ops : List Operation) (registry : Registry) (u : SourceUnit) : Prop :=
  (∃ units, .addMains units ∈ ops ∧ ∃ v ∈ units, v.identity = u.identity) ∨ u.runtimeBase = true ∨
    ∃ names, .addEntryPoints names ∈ ops ∧ ∃ ns ∈ names, registry.resolve ns = some u

/-- A unit that provides nothing was there when, in a history, a manifest succeeded under a policy that
    keeps such units. -/
def KeptMoocher (policy : Policy) (ops : List Operation) (u : SourceUnit) : Prop :=
  u.isMoocher = true ∧ ∃ earlier, earlier ++ [.manifest] <+: ops ∧ u ∈ ((new policy).after earlier).units ∧
    ((new policy).after earlier).policy.keepMoochers = true ∧
    ∃ manifest, ((new policy).after earlier).manifest.2 = .ok manifest

/-- What was wanted in a history was wanted in a longer one. -/
theorem Wanted.append {ops : List Operation} {registry next : Registry} {u : SourceUnit}
    (h : Wanted ops registry u) (hext : registry.Extends next) (more : List Operation) :
    Wanted (ops ++ more) next u := by
  rcases h with ⟨units, hop, hasked⟩ | hbase | ⟨names, hop, ns, hns, hu⟩
  · exact .inl ⟨units, List.mem_append_left _ hop, hasked⟩
  · exact .inr (.inl hbase)
  · exact .inr (.inr ⟨names, List.mem_append_left _ hop, ns, hns, hext ns u hu⟩)

/-- A moocher that was kept in a history was kept in a longer one. -/
theorem KeptMoocher.append {policy : Policy} {ops : List Operation} {u : SourceUnit}
    (h : KeptMoocher policy ops u) (more : List Operation) : KeptMoocher policy (ops ++ more) u := by
  obtain ⟨hmoocher, earlier, hearlier, hkept⟩ := h
  exact ⟨hmoocher, earlier, hearlier.trans (List.prefix_append _ _), hkept⟩

/-- After a history, it is known of each main unit where it comes from. -/
def Accounted (policy : Policy) (ops : List Operation) : Prop :=
  ∀ u ∈ ((new policy).after ops).mainUnits,
    Wanted ops ((new policy).after ops).registry u ∨ KeptMoocher policy ops u

/-- Where main units are accounted for, so are the other units that a manifest starts from. -/
theorem Accounted.seed {policy : Policy} {ops : List Operation} (h : Accounted policy ops)
    {manifest : List SourceUnit} (hmanifest : ((new policy).after ops).manifest.2 = .ok manifest)
    {u : SourceUnit} (hu : ((new policy).after ops).Seed u) :
    Wanted ops ((new policy).after ops).registry u ∨ KeptMoocher policy (ops ++ [.manifest]) u := by
  -- What a manifest starts from is main already, or this manifest is the one that makes it main.
  rcases hu with hmain | ⟨hkeep, hu, hmoocher⟩ | ⟨ns, hns, hu⟩
  · exact (h u hmain).imp_right fun hkept => hkept.append _
  · exact .inr ⟨hmoocher, ops, List.prefix_refl _, hu, hkeep, manifest, hmanifest⟩
  · obtain ⟨names, hop, hmem⟩ := exists_names_of_mem_entryPoints hns
    exact .inl (.inr (.inr ⟨names, hop, ns, hmem, hu⟩))

/-- Where no unit was refused, every main unit is accounted for after every history. -/
theorem accounted_after {policy : Policy} {ops : List Operation} (hadds : (new policy).AddsSucceed ops) :
    Accounted policy ops := by
  induction ops using List.reverseRecOn with
  | nil => exact fun _ hu => absurd hu List.not_mem_nil
  | append_singleton ops op ih =>
    obtain ⟨hadds, -⟩ := addsSucceed_append.1 hadds
    have h := ih hadds
    have hlast : (new policy).after (ops ++ [op]) = (((new policy).after ops).apply op).1 :=
      after_append (new policy) ops [op]
    -- What resolves before the last operation resolves alike after it.
    have hext : ((new policy).after ops).registry.Extends ((new policy).after (ops ++ [op])).registry :=
      hlast ▸ extends_steps (steps_apply _ op)
    intro u hu
    rw [hlast] at hu
    -- A unit was main before, or the last operation has made it so.
    rcases cause_apply (complete_after hadds) (coherent_after policy ops) hu with hu | hcause
    · exact (h u hu).imp (fun hwanted => hwanted.append hext _) fun hkept => hkept.append _
    · cases hcause with
      | asked hv hsame => exact .inl (.inl ⟨_, by simp, _, hv, hsame⟩)
      | base hbase => exact .inl (.inr (.inl hbase))
      | seed hmanifest hseed =>
        exact (h.seed hmanifest hseed).imp_left fun hwanted => hwanted.append hext _

/-- Where no unit was refused and not all units are kept, each unit of a manifest is required, directly
    or through others, by one that was wanted in the history, or by a moocher that was there when this
    manifest or an earlier one succeeded while moochers were kept. -/
theorem manifest_accounted (policy : Policy) (ops : List Operation) (s t : Session)
    (manifest : List SourceUnit) (hadds : (new policy).AddsSucceed ops) (hs : s = (new policy).after ops)
    (hmanifest : s.manifest = (t, .ok manifest)) (hprune : s.policy.keepAllUnits = false) :
    ∀ u ∈ manifest, ∃ e ∈ s.units, ReflTransGen s.registry.Requires e u ∧
      (Wanted ops s.registry e ∨ KeptMoocher policy (ops ++ [.manifest]) e) := by
  subst hs
  have hcomplete := complete_after hadds
  intro u hu
  have houtcome := (outcome_manifest hcomplete (coherent_after policy ops) hmanifest).1
  generalize t.roles = roles at houtcome
  cases houtcome with
  | done hmet hprovided hdistinct hmem horiginal hsorted =>
    have hkeeps := (hmem u).1 hu
    rw [Keeps, hprune, if_neg Bool.false_ne_true] at hkeeps
    -- The unit is reached from one that the manifest starts from, which is accounted for.
    obtain ⟨e, he, heu⟩ := hkeeps
    exact ⟨e, hcomplete.mem_units_of_seed he, heu, (accounted_after hadds).seed (by rw [hmanifest]) he⟩

/-- Units that provide nothing are kept. -/
def keepingMoochers : Policy := { keepMoochers := true, strategy := .kahn }

/-- A unit that provides nothing is kept by a manifest, and the next one is to drop such units. -/
def keptOnce : List Operation :=
  [.addCandidates [blank "moocher.js" [] []], .manifest, .setKeepMoochers false]

/-- The only unit is not refused. -/
theorem addsSucceed_keptOnce : (new keepingMoochers).AddsSucceed keptOnce := by
  have hanswers : ((new keepingMoochers).runAll keptOnce).2 =
      [.done, .manifest [blank "moocher.js" [] []], .done] := by decide +kernel
  exact addsSucceed_of_answers (by simp [hanswers])

/-- The manifest still holds the moocher when moochers are no longer kept. -/
theorem manifest_keptOnce :
    ((new keepingMoochers).after keptOnce).manifest.2 = .ok [blank "moocher.js" [] []] := by
  decide +kernel

/-- The moocher is accounted for by the first of the two manifests. -/
theorem manifest_accounted_of_keptOnce :
    (new keepingMoochers).AddsSucceed keptOnce ∧
    ((new keepingMoochers).after keptOnce).manifest.2 = .ok [blank "moocher.js" [] []] ∧
    ((new keepingMoochers).after keptOnce).policy.keepAllUnits = false ∧
    ∃ e ∈ ((new keepingMoochers).after keptOnce).units,
      ReflTransGen ((new keepingMoochers).after keptOnce).registry.Requires e (blank "moocher.js" [] []) ∧
      (Wanted keptOnce ((new keepingMoochers).after keptOnce).registry e ∨
        KeptMoocher keepingMoochers (keptOnce ++ [.manifest]) e) := by
  have hprune : ((new keepingMoochers).after keptOnce).policy.keepAllUnits = false := by decide +kernel
  exact ⟨addsSucceed_keptOnce, manifest_keptOnce, hprune, manifest_accounted keepingMoochers keptOnce _ _ _
    addsSucceed_keptOnce rfl (Prod.ext rfl manifest_keptOnce) hprune _ List.mem_cons_self⟩

/-- A moocher is not only there while moochers are kept: a manifest that keeps it makes it main for
    good. -/
theorem moocher_outlives_policy :
    ¬ ∀ (policy : Policy) (ops : List Operation) (s t : Session) (manifest : List SourceUnit),
      (new policy).AddsSucceed ops → s = (new policy).after ops → s.manifest = (t, .ok manifest) →
        s.policy.keepAllUnits = false → ∀ u ∈ manifest, ∃ e ∈ s.units,
          ReflTransGen s.registry.Requires e u ∧
          (Wanted ops s.registry e ∨ (s.policy.keepMoochers = true ∧ e.isMoocher = true)) := by
  intro hall
  have hunits : ((new keepingMoochers).after keptOnce).units = [blank "moocher.js" [] []] := by
    decide +kernel
  have hpolicy : ((new keepingMoochers).after keptOnce).policy =
      { keepMoochers := false, strategy := .kahn } := by decide +kernel
  obtain ⟨e, he, -, hwanted | ⟨hkeep, -⟩⟩ := hall keepingMoochers keptOnce _ _ _ addsSucceed_keptOnce rfl
    (Prod.ext rfl manifest_keptOnce) (by rw [hpolicy]) _ List.mem_cons_self
  · -- Nobody asked for the only unit, it is no runtime base, and no namespace was named.
    rw [hunits, List.mem_singleton] at he
    subst he
    simp [Wanted, keptOnce, blank] at hwanted
  · simp [hpolicy] at hkeep

end BuildOrder.Session
