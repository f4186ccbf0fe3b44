import BuildOrder.Proofs.Session.Origins
import BuildOrder.Proofs.Session.Representation

/-! # What makes a unit main

Unlike what a manifest is accounted for by, this is exact, and it holds where units are refused.

* `mem_mainUnits_manifest_iff`   a manifest makes providers and kept moochers main
* `isMain_of_makes`              what makes a unit main does so
* `makes_of_mem_mainUnits`       and nothing else makes a unit main
* `isMain_iff_made`              so a stored unit is main for what has happened in the history
-/

namespace BuildOrder.Session

open Relation SourceUnit

variable {s t : Session}

/-- How an operation makes a unit main. -/
inductive Makes (s : Session) (u : SourceUnit) : Operation → Prop
  /-- The unit is added as an entry point; neither it nor a unit before it is refused. -/
  | added {units before : List SourceUnit} {v : SourceUnit} (hv : before ++ [v] <+: units)
      (hsame : v.identity = u.identity) (hok : (addEach addMain s (before ++ [v])).2 = none) :
      Makes s u (.addMains units)
  /-- A manifest succeeds while a namespace is named that the unit provides. -/
  | provider {manifest : List SourceUnit} {ns : Namespace} {p : SourceUnit}
      (hmanifest : s.manifest.2 = .ok manifest) (hns : ns ∈ s.entryPoints)
      (hp : s.registry.resolve ns = some p) (hsame : p.identity = u.identity) : Makes s u .manifest
  /-- A manifest succeeds while the unit is stored, provides nothing, and such units are kept. -/
  | moocher {manifest : List SourceUnit} (hmanifest : s.manifest.2 = .ok manifest)
      (hkeep : s.policy.keepMoochers = true) (hu : u ∈ s.units) (hmoocher : u.isMoocher = true) :
      Makes s u .manifest

/-! ## Additions -/

/-- Whether a unit is main depends on its identity only, not on the value that describes it. -/
theorem isMain_congr {u v : SourceUnit} (h : v.identity = u.identity) : s.isMain v = s.isMain u := by
  simp only [isMain, role?, Positions.find?, h]

/-- A unit that is added as an entry point and not refused is main. -/
theorem isMain_addMain (hs : s.WellFormed) {u : SourceUnit} (h : s.addMain u = (t, none)) :
    t.isMain u = true := by
  rw [isMain_iff]
  unfold addMain at h
  split at h
  · unfold insert at h
    split at h
    · -- The unit is stored at the end, and so is its role.
      obtain ⟨rfl, -⟩ := Prod.mk.inj h
      refine ⟨s.units.length, by simp [Positions.find?_insert], ?_⟩
      exact getElem?_concat_eq_some.2 (.inr ⟨hs.roles_length.symm, rfl⟩)
    · cases (Prod.mk.inj h).2
  · rename_i i hfind
    have hi : i < s.roles.length := hs.roles_length ▸ hs.lt_of_find? hfind
    split at h
    · obtain ⟨rfl, -⟩ := Prod.mk.inj h
      exact ⟨i, hfind, List.getElem?_set_self hi⟩
    · -- A stored unit that is not in limbo is main already.
      rename_i hlimbo
      obtain ⟨rfl, -⟩ := Prod.mk.inj h
      refine ⟨i, hfind, ?_⟩
      rw [List.getElem?_eq_getElem hi] at hlimbo ⊢
      cases hrole : s.roles[i] with
      | main => rfl
      | limbo => exact absurd (congrArg some hrole) hlimbo

/-- What is true of a unit once it is added, and stays true, is true of all units that are added. -/
theorem forall_mem_addEach {add : Session → SourceUnit → Result} {P : Session → SourceUnit → Prop}
    (hfollows : ∀ s u, (add s u).Follows s)
    (hadd : ∀ s t : Session, s.WellFormed → ∀ u, add s u = (t, none) → P t u)
    (hkeep : ∀ s t : Session, s.WellFormed → t.WellFormed → s.Retains t → ∀ u, P s u → P t u)
    (hs : s.WellFormed) {units : List SourceUnit} (h : addEach add s units = (t, none)) :
    ∀ u ∈ units, P t u := by
  induction units generalizing s with
  | nil => exact fun _ hu => absurd hu List.not_mem_nil
  | cons w rest ih =>
    obtain ⟨next, hfirst, hrest⟩ := addEach_cons_eq_ok h
    have hnext : next.WellFormed := hs.steps ((hfollows s w).steps hfirst)
    have hlater := (follows_addEach hfollows next rest).steps hrest
    -- The first unit is added at once, and the others leave it as it is.
    have hw : P t w := hkeep next t hnext (hnext.steps hlater) (retains_steps hlater hnext) w
      (hadd s next hs w hfirst)
    exact List.forall_mem_cons.2 ⟨hw, ih hnext hrest⟩

/-- Units that are added as entry points and not refused are main. -/
theorem isMain_of_mem (hs : s.WellFormed) {units : List SourceUnit}
    (h : addEach addMain s units = (t, none)) {u : SourceUnit} (hu : u ∈ units) : t.isMain u = true :=
  forall_mem_addEach (P := fun t u => t.isMain u = true) follows_addMain
    (fun _ _ hs _ => isMain_addMain hs) (fun _ _ hs ht hst _ => hst.isMain hs ht) hs h u hu

/-- Refusing a unit makes none main. -/
theorem mainUnits_of_refused {u : SourceUnit} {fault : Fault} (h : s.addMain u = (t, some fault)) :
    t.mainUnits = s.mainUnits := by
  unfold addMain at h
  split at h
  · unfold insert at h
    split at h
    · cases (Prod.mk.inj h).2
    · -- The unit was in conflict, and only the registry has changed.
      obtain ⟨rfl, -⟩ := Prod.mk.inj h
      rfl
  · split at h <;> cases (Prod.mk.inj h).2

/-- What becomes main while units are added as entry points is one of them, up to the first that is
    refused. -/
theorem added_of_mem_mainUnits (hs : s.WellFormed) {units : List SourceUnit} {u : SourceUnit}
    (hu : u ∈ (addEach addMain s units).1.mainUnits) :
    u ∈ s.mainUnits ∨ ∃ before v, before ++ [v] <+: units ∧ v.identity = u.identity ∧
      (addEach addMain s (before ++ [v])).2 = none := by
  induction units generalizing s with
  | nil => exact .inl hu
  | cons w rest ih =>
    rw [addEach] at hu
    split at hu
    · rename_i next hnext
      have hwf : next.WellFormed := hs.steps ((follows_addMain s w).steps hnext)
      rcases ih hwf hu with hu | ⟨before, v, hv, hsame, hok⟩
      · -- The first unit is the one, unless it was main before.
        have hfirst : u ∈ (s.addMain w).1.mainUnits := by rwa [hnext]
        refine (mem_mainUnits_addMain hs hfirst).imp_right fun hsame => ⟨[], w, ?_, hsame, ?_⟩
        · exact ⟨rest, rfl⟩
        · rw [List.nil_append, addEach_cons hnext]
          rfl
      · refine .inr ⟨w :: before, v, ?_, hsame, ?_⟩
        · -- A later unit is the one, and the first was not refused either.
          exact (List.prefix_cons_inj w).2 hv
        · rwa [List.cons_append, addEach_cons hnext]
    · rename_i next fault hnext
      exact .inl (mainUnits_of_refused hnext ▸ hu)

/-! ## Manifests -/

/-- The units that the next manifest makes main or leaves so, whatever was refused. -/
theorem WellFormed.mem_select_destined_iff (hs : s.WellFormed) {u : SourceUnit} :
    u ∈ Role.main.select s.units s.destined ↔ u ∈ s.units ∧
      (u ∈ s.mainUnits ∨ (s.policy.keepMoochers = true ∧ u.isMoocher = true) ∨
        ∃ ns ∈ s.entryPoints, ∃ p, s.registry.resolve ns = some p ∧ p.identity = u.identity) := by
  rw [Role.mem_select]
  constructor
  · rintro ⟨i, hu, hi⟩
    refine ⟨List.mem_of_getElem? hu, ?_⟩
    rcases (hs.getElem?_destined i).1 hi with (hmain | ⟨hkeep, v, hv, hmoocher⟩) | ⟨ns, hns, htarget⟩
    · exact .inl (Role.mem_select.2 ⟨i, hu, hmain⟩)
    · obtain rfl : u = v := Option.some.inj (hu.symm.trans hv)
      exact .inr (.inl ⟨hkeep, hmoocher⟩)
    · -- The unit at the position of the provider is the same unit.
      obtain ⟨p, hp, hfind⟩ := Option.bind_eq_some_iff.1 htarget
      obtain ⟨v, hv, heq⟩ := (hs.position p i).1 hfind
      obtain rfl : u = v := Option.some.inj (hu.symm.trans hv)
      exact .inr (.inr ⟨ns, hns, p, hp, heq.symm⟩)
  · rintro ⟨hu, hcause⟩
    obtain ⟨i, hi⟩ := List.mem_iff_getElem?.1 hu
    refine ⟨i, hi, (hs.getElem?_destined i).2 ?_⟩
    rcases hcause with hmain | ⟨hkeep, hmoocher⟩ | ⟨ns, hns, p, hp, hsame⟩
    · -- The unit has one position, at which it is main.
      obtain ⟨k, hk, hmain⟩ := Role.mem_select.1 hmain
      obtain rfl : i = k := Option.some.inj
        ((hs.find?_eq_some_of_getElem? hi).symm.trans (hs.find?_eq_some_of_getElem? hk))
      exact .inl (.inl hmain)
    · exact .inl (.inr ⟨hkeep, u, hi, hmoocher⟩)
    · exact .inr ⟨ns, hns, Option.bind_eq_some_iff.2 ⟨p, hp, (hs.position p i).2 ⟨u, hi, hsame.symm⟩⟩⟩

/-- A manifest makes providers of named entry points and kept moochers main. -/
theorem mem_mainUnits_manifest_iff (hs : s.WellFormed) (hcoherent : s.Coherent)
    {manifest : List SourceUnit} (h : s.manifest = (t, .ok manifest)) {u : SourceUnit} :
    u ∈ t.mainUnits ↔ u ∈ s.units ∧
      (u ∈ s.mainUnits ∨ (s.policy.keepMoochers = true ∧ u.isMoocher = true) ∨
        ∃ ns ∈ s.entryPoints, ∃ p, s.registry.resolve ns = some p ∧ p.identity = u.identity) := by
  rcases manifest_cases hcoherent with ⟨t', manifest', hmanifest, hcompute, hunits, -⟩ | ⟨fault, hmanifest, -⟩
  · obtain ⟨rfl, -⟩ := Prod.mk.inj (hmanifest.symm.trans h)
    rw [mainUnits, hunits, (eq_destined_of_compute hcompute).2, hs.mem_select_destined_iff]
  · cases (Prod.mk.inj (hmanifest.symm.trans h)).2

/-- The provider of an entry point is stored when a manifest succeeds. -/
theorem exists_mem_of_entryPoint (hs : s.WellFormed) (hcoherent : s.Coherent)
    {manifest : List SourceUnit} (h : s.manifest.2 = .ok manifest) {ns : Namespace}
    (hns : ns ∈ s.entryPoints) {p : SourceUnit} (hp : s.registry.resolve ns = some p) :
    ∃ v ∈ s.units, v.identity = p.identity := by
  -- No entry point is at fault.
  obtain ⟨roles, hcompute⟩ := (manifest_snd_eq_ok_iff hcoherent).1 h
  have hfine := List.findSome?_eq_none_iff.1 (eq_destined_of_compute hcompute).1 ns hns
  obtain ⟨i, hi⟩ := Role.entryFault?_eq_none_iff.1 hfine
  obtain ⟨p', hp', hfind⟩ := Option.bind_eq_some_iff.1 hi
  obtain rfl : p = p' := Option.some.inj (hp.symm.trans hp')
  obtain ⟨v, hv, heq⟩ := (hs.position p i).1 hfind
  exact ⟨v, List.mem_of_getElem? hv, heq⟩

/-! ## One operation -/

/-- What makes a unit main does so, whatever else the operation adds or refuses. -/
theorem isMain_of_makes (hs : s.WellFormed) (hcoherent : s.Coherent) {u : SourceUnit} {op : Operation}
    (h : Makes s u op) : (s.apply op).1.isMain u = true := by
  have hafter : (s.apply op).1.WellFormed := hs.apply op
  cases h with
  | @added units before v hv hsame hok =>
    obtain ⟨rest, rfl⟩ := hv
    obtain ⟨last, hlast⟩ : ∃ last, addEach addMain s (before ++ [v]) = (last, none) := ⟨_, Prod.ext rfl hok⟩
    have hlastwf : last.WellFormed := hs.steps ((follows_addEach follows_addMain s _).steps hlast)
    have hmain : last.isMain u = true := by
      rw [← isMain_congr hsame]
      exact isMain_of_mem hs hlast (List.mem_append_right before List.mem_cons_self)
    -- The units after it leave it main.
    rw [apply, Result.answer_fst, addEach_append hlast rest] at hafter ⊢
    exact (retains_steps (follows_addEach follows_addMain last rest).1 hlastwf).isMain hlastwf hafter hmain
  -- The provider may be registered as another value than the one that is stored.
  | @provider manifest ns p hmanifest hns hp hsame =>
    obtain ⟨v, hv, heq⟩ := exists_mem_of_entryPoint hs hcoherent hmanifest hns hp
    have hmain : v ∈ s.manifest.1.mainUnits :=
      (mem_mainUnits_manifest_iff hs hcoherent (Prod.ext rfl hmanifest)).2
        ⟨hv, .inr (.inr ⟨ns, hns, p, hp, heq.symm⟩)⟩
    rw [apply_manifest_fst] at hafter ⊢
    rw [isMain, beq_iff_eq, hafter.role?_eq_some_iff_select]
    exact ⟨v, hmain, heq.trans hsame⟩
  | moocher hmanifest hkeep hu hmoocher =>
    have hmain : u ∈ s.manifest.1.mainUnits :=
      (mem_mainUnits_manifest_iff hs hcoherent (Prod.ext rfl hmanifest)).2
        ⟨hu, .inr (.inl ⟨hkeep, hmoocher⟩)⟩
    rw [apply_manifest_fst] at hafter ⊢
    rw [isMain, beq_iff_eq, hafter.role?_eq_some_iff_select]
    exact ⟨u, hmain, rfl⟩

/-- Nothing else makes a unit main, apart from storing it as a runtime base. -/
theorem makes_of_mem_mainUnits (hs : s.WellFormed) (hcoherent : s.Coherent) {u : SourceUnit}
    {op : Operation} (hu : u ∈ (s.apply op).1.mainUnits) :
    u ∈ s.mainUnits ∨ u.runtimeBase = true ∨ Makes s u op := by
  have hpolicy : ∀ policy, u ∈ (s.setPolicy policy).mainUnits →
      u ∈ s.mainUnits ∨ u.runtimeBase = true ∨ Makes s u op :=
    fun policy hu => .inl (mainUnits_setPolicy s policy ▸ hu)
  cases op with
  | addMains units =>
    rw [apply, Result.answer_fst] at hu
    rcases added_of_mem_mainUnits hs hu with hu | ⟨before, v, hv, hsame, hok⟩
    · exact .inl hu
    · exact .inr (.inr (.added hv hsame hok))
  | addCandidates units =>
    rw [apply, Result.answer_fst] at hu
    rcases mem_mainUnits_addEach follows_addCandidate (fun _ hs _ _ => mem_mainUnits_addCandidate hs)
      hs hu with hu | ⟨-, -, hbase⟩
    · exact .inl hu
    · exact .inr (.inl hbase)
  | addEntryPoints names => exact .inl (mainUnits_addEntryPoints s names ▸ hu)
  | setKeepAllUnits keep => exact hpolicy _ hu
  | setKeepMoochers keep => exact hpolicy _ hu
  | setKeepOriginalOrder keep => exact hpolicy _ hu
  | setStrategy strategy => exact hpolicy _ hu
  | setPolicy policy => exact hpolicy _ hu
  | manifest =>
    rw [apply_manifest_fst] at hu
    cases hmanifest : s.manifest with
    | mk t answer =>
      cases answer with
      | error fault =>
        -- A manifest that fails leaves the session as it was.
        rcases manifest_cases hcoherent with ⟨_, _, hok, -⟩ | ⟨_, herror, -⟩
        · cases (Prod.mk.inj (hmanifest.symm.trans hok)).2
        · rw [herror] at hu
          exact .inl hu
      | ok manifest =>
        rw [hmanifest] at hu
        obtain ⟨hstored, hcause⟩ := (mem_mainUnits_manifest_iff hs hcoherent hmanifest).1 hu
        have hanswer : s.manifest.2 = .ok manifest := by rw [hmanifest]
        rcases hcause with hmain | ⟨hkeep, hmoocher⟩ | ⟨ns, hns, p, hp, hsame⟩
        · exact .inl hmain
        · exact .inr (.inr (.moocher hanswer hkeep hstored hmoocher))
        · exact .inr (.inr (.provider hanswer hns hp hsame))

/-! ## Whole histories -/

/-- In a history, one of the operations has made a unit main. -/
def Made (policy : Policy) (ops : List Operation) (u : SourceUnit) : Prop :=
  ∃ earlier op, earlier ++ [op] <+: ops ∧ Makes ((new policy).after earlier) u op

theorem Made.append {policy : Policy} {ops : List Operation} {u : SourceUnit} (h : Made policy ops u)
    (more : List Operation) : Made policy (ops ++ more) u := by
  obtain ⟨earlier, op, hearlier, hmakes⟩ := h
  exact ⟨earlier, op, hearlier.trans (List.prefix_append _ _), hmakes⟩

/-- A main unit is a runtime base, or an operation of the history has made it main. -/
theorem made_of_mem_mainUnits {policy : Policy} {ops : List Operation} {u : SourceUnit}
    (hu : u ∈ ((new policy).after ops).mainUnits) : u.runtimeBase = true ∨ Made policy ops u := by
  -- The last operation is split off: it has made the unit main, or the unit was main before.
  induction ops using List.reverseRecOn with
  | nil => exact absurd hu List.not_mem_nil
  | append_singleton ops op ih =>
    have hlast : (new policy).after (ops ++ [op]) = (((new policy).after ops).apply op).1 :=
      after_append (new policy) ops [op]
    rw [hlast] at hu
    rcases makes_of_mem_mainUnits (wellFormed_after policy ops) (coherent_after policy ops) hu with
      hu | hbase | hmakes
    · exact (ih hu).imp_right fun hmade => hmade.append _
    · exact .inl hbase
    · exact .inr ⟨ops, op, List.prefix_refl _, hmakes⟩

/-- What an operation of the history has made main is main in the end. -/
theorem isMain_of_made {policy : Policy} {ops : List Operation} {u : SourceUnit}
    (h : Made policy ops u) : ((new policy).after ops).isMain u = true := by
  obtain ⟨earlier, op, ⟨rest, rfl⟩, hmakes⟩ := h
  have hwf := wellFormed_after policy (earlier ++ [op])
  have hmain : ((new policy).after (earlier ++ [op])).isMain u = true := by
    rw [after_append]
    exact isMain_of_makes (wellFormed_after policy earlier) (coherent_after policy earlier) hmakes
  -- What comes later leaves the unit main.
  have hend := wellFormed_after policy (earlier ++ [op] ++ rest)
  rw [after_append] at hend ⊢
  exact (retains_after hwf rest).isMain hwf hend hmain

/-- A stored unit is main when it is a runtime base, when a unit that is the same was added as an
    entry point and not refused, when a manifest succeeded while a namespace was named that it provides,
    or when one succeeded that kept it although it provides nothing.  A manifest that fails makes no
    unit main. -/
theorem isMain_iff_made (policy : Policy) (ops : List Operation) (s : Session)
    (hs : s = (new policy).after ops) :
    (∀ u ∈ s.units, s.isMain u = true ↔ u.runtimeBase = true ∨ Made policy ops u) ∧
    ∀ t fault, s.manifest = (t, .error fault) → ∀ u, t.isMain u = s.isMain u := by
  have hconsistent : s.Consistent := hs ▸ consistent_after policy ops
  refine ⟨fun u hu => ⟨fun hmain => ?_, ?_⟩, fun t fault hmanifest u => ?_⟩
  · have hmem := (hconsistent.toWellFormed.isMain_iff_mem hu).1 hmain
    exact made_of_mem_mainUnits (hs ▸ hmem)
  · rintro (hbase | hmade)
    · -- A runtime base has been main from when it was stored.
      obtain ⟨i, hi⟩ := List.mem_iff_getElem?.1 hu
      exact isMain_iff.2 ⟨i, hconsistent.find?_eq_some_of_getElem? hi, hconsistent.bases i u hi hbase⟩
    · exact hs ▸ isMain_of_made hmade
  · rcases manifest_cases (hs ▸ coherent_after policy ops : s.Coherent) with ⟨_, _, hok, -⟩ | ⟨_, herror, -⟩
    · cases (Prod.mk.inj (hmanifest.symm.trans hok)).2
    · obtain ⟨rfl, -⟩ := Prod.mk.inj (hmanifest.symm.trans herror)
      rfl

/-- One of two candidates provides a named entry point when a manifest succeeds; a rival is refused. -/
def utilNamed : List Operation :=
  [.addCandidates [blank "util" [⟨"util"⟩] [], blank "spare" [⟨"spare"⟩] []], .addEntryPoints [⟨"util"⟩],
    .manifest, .addMains [blank "rival" [⟨"extra"⟩, ⟨"util"⟩] []]]

theorem isMain_iff_made_of_utilNamed :
    Made keepingMoochers utilNamed (blank "util" [⟨"util"⟩] []) ∧
    ((new keepingMoochers).after utilNamed).isMain (blank "spare" [⟨"spare"⟩] []) = false ∧
    ¬ Made keepingMoochers utilNamed (blank "spare" [⟨"spare"⟩] []) := by
  have hutil : blank "util" [⟨"util"⟩] [] ∈ ((new keepingMoochers).after utilNamed).units := by
    decide +kernel
  have hspare : blank "spare" [⟨"spare"⟩] [] ∈ ((new keepingMoochers).after utilNamed).units := by
    decide +kernel
  have hlimbo : ((new keepingMoochers).after utilNamed).isMain (blank "spare" [⟨"spare"⟩] []) = false := by
    decide +kernel
  have hiff := (isMain_iff_made keepingMoochers utilNamed _ rfl).1
  refine ⟨?_, hlimbo, fun hmade => ?_⟩
  · exact ((hiff _ hutil).1 (by decide +kernel)).resolve_left Bool.false_ne_true
  · simp [(hiff _ hspare).2 (.inr hmade)] at hlimbo

end BuildOrder.Session
