import BuildOrder.Proofs.Session.Outcome

/-! # How the parts of a session represent it

Units, positions, roles and registrations are kept side by side, and a refused unit changes only
the last of them.

* `retains_apply`         stored units keep their places, and main units stay main
* `consistent_after`      what is stored is registered, and runtime bases are main
* `perm_append_units`     the main units and those in limbo are all the units
* `representation_after`  all this holds in every session, whatever was refused on the way
-/

namespace BuildOrder.Session

open Relation SourceUnit

variable {s t : Session}

/-! ## What is kept -/

/-- Stored units keep their places, and main units stay main. -/
structure Retains (s t : Session) : Prop where
  units : s.units <+: t.units
  main : ∀ i : Nat, s.roles[i]? = some .main → t.roles[i]? = some .main

theorem Retains.refl (s : Session) : s.Retains s := ⟨List.prefix_refl _, fun _ h => h⟩

theorem Retains.trans {u : Session} (hst : s.Retains t) (htu : t.Retains u) : s.Retains u :=
  ⟨hst.units.trans htu.units, fun i h => htu.main i (hst.main i h)⟩

/-- No step moves a stored unit, and none takes a main unit back to limbo. -/
theorem retains_step (hstep : Step s t) (hs : s.WellFormed) : s.Retains t := by
  cases hstep with
  | change hchange =>
    cases hchange with
    | store hnew hregister hbase =>
      exact ⟨List.prefix_append _ _, fun i h => getElem?_concat_eq_some.2 (.inl h)⟩
    | @promote u i hfind hlimbo =>
      refine ⟨List.prefix_refl _, fun k hk => ?_⟩
      have hi : i < s.roles.length := hs.roles_length ▸ hs.lt_of_find? hfind
      -- The only role that changes becomes main.
      by_cases hik : i = k
      · subst hik
        exact List.getElem?_set_self hi
      · exact (List.getElem?_set_ne hik).trans hk
    | name hnew => exact ⟨List.prefix_refl _, fun _ h => h⟩
    | configure hnew => exact ⟨List.prefix_refl _, fun _ h => h⟩
    | commit hstale hcompute =>
      obtain ⟨-, rfl⟩ := eq_destined_of_compute hcompute
      -- The destined roles leave main units main.
      exact ⟨List.prefix_refl _, fun i h => (hs.getElem?_destined i).2 (.inl (.inl h))⟩
  | refuse hnew hregister => exact ⟨List.prefix_refl _, fun _ h => h⟩

/-- Any number of steps retains what is stored and main. -/
theorem retains_steps (hsteps : ReflTransGen Step s t) (hs : s.WellFormed) : s.Retains t := by
  induction hsteps with
  | refl => exact Retains.refl s
  | tail hfirst hlast ih => exact ih.trans (retains_step hlast (hs.steps hfirst))

/-- An operation retains what is stored and main. -/
theorem retains_apply (hs : s.WellFormed) (op : Operation) : s.Retains (s.apply op).1 :=
  retains_steps (steps_apply s op) hs

/-- Any number of operations retains what is stored and main. -/
theorem retains_after (hs : s.WellFormed) (ops : List Operation) : s.Retains (s.after ops) := by
  induction ops generalizing s with
  | nil => exact Retains.refl s
  | cons op rest ih =>
    exact (retains_apply hs op).trans (ih (hs.apply op))

/-! ## Roles -/

/-- The role of a unit is the one at its position. -/
theorem role?_eq_some_iff {u : SourceUnit} {role : Role} :
    s.role? u = some role ↔ ∃ i, s.positions.find? u = some i ∧ s.roles[i]? = some role :=
  Option.bind_eq_some_iff

/-- A unit is main when the role at its position says so. -/
theorem isMain_iff {u : SourceUnit} :
    s.isMain u = true ↔ ∃ i, s.positions.find? u = some i ∧ s.roles[i]? = some .main := by
  rw [isMain, beq_iff_eq, role?_eq_some_iff]

/-- A unit has a role when it is one of those with this role. -/
theorem WellFormed.role?_eq_some_iff_select (hs : s.WellFormed) {u : SourceUnit} {role : Role} :
    s.role? u = some role ↔ ∃ v ∈ role.select s.units s.roles, v.identity = u.identity := by
  rw [role?_eq_some_iff]
  constructor
  · rintro ⟨i, hfind, hrole⟩
    obtain ⟨v, hv, heq⟩ := (hs.position u i).1 hfind
    exact ⟨v, Role.mem_select.2 ⟨i, hv, hrole⟩, heq⟩
  · rintro ⟨v, hv, heq⟩
    obtain ⟨i, hi, hrole⟩ := Role.mem_select.1 hv
    exact ⟨i, (hs.position u i).2 ⟨v, hi, heq⟩, hrole⟩

/-- A stored unit has a role when it is itself among those of this role. -/
theorem WellFormed.role?_eq_some_iff_mem (hs : s.WellFormed) {u : SourceUnit} (hu : u ∈ s.units)
    {role : Role} : s.role? u = some role ↔ u ∈ role.select s.units s.roles := by
  rw [hs.role?_eq_some_iff_select]
  constructor
  · rintro ⟨v, hv, heq⟩
    obtain ⟨i, hi, -⟩ := Role.mem_select.1 hv
    exact hs.distinct.eq_of_identity_eq (List.mem_of_getElem? hi) hu heq ▸ hv
  · exact fun hmem => ⟨u, hmem, rfl⟩

/-- A stored unit is main when it is among the main units. -/
theorem WellFormed.isMain_iff_mem (hs : s.WellFormed) {u : SourceUnit} (hu : u ∈ s.units) :
    s.isMain u = true ↔ u ∈ s.mainUnits := by
  rw [isMain, beq_iff_eq, hs.role?_eq_some_iff_mem hu, mainUnits]

/-- A stored unit has one role. -/
theorem WellFormed.existsUnique_role (hs : s.WellFormed) {u : SourceUnit} (hu : u ∈ s.units) :
    ∃! role : Role, u ∈ role.select s.units s.roles := by
  obtain ⟨i, hi⟩ := List.mem_iff_getElem?.1 hu
  have hlt : i < s.roles.length := hs.roles_length ▸ (List.getElem?_eq_some_iff.1 hi).1
  refine ⟨s.roles[i], Role.mem_select.2 ⟨i, hi, List.getElem?_eq_getElem hlt⟩, fun role hrole => ?_⟩
  -- Its role is looked up at its only position.
  have hfound : s.role? u = some s.roles[i] := role?_eq_some_iff.2
    ⟨i, hs.find?_eq_some_of_getElem? hi, List.getElem?_eq_getElem hlt⟩
  exact Option.some.inj (((hs.role?_eq_some_iff_mem hu).2 hrole).symm.trans hfound)

/-- A unit that is main stays so where everything is retained. -/
theorem Retains.isMain (h : s.Retains t) (hs : s.WellFormed) (ht : t.WellFormed) {u : SourceUnit}
    (hu : s.isMain u = true) : t.isMain u = true := by
  obtain ⟨i, hfind, hmain⟩ := isMain_iff.1 hu
  obtain ⟨v, hv, heq⟩ := (hs.position u i).1 hfind
  obtain ⟨hi, rfl⟩ := List.getElem?_eq_some_iff.1 hv
  -- The unit is found where it was, since its place is the same.
  have hplace : t.units[i]? = some s.units[i] := List.prefix_iff_getElem?.1 h.units i hi
  exact isMain_iff.2 ⟨i, (ht.position u i).2 ⟨_, hplace, heq⟩, h.main i hmain⟩

/-- The main units and those in limbo are all the units. -/
theorem WellFormed.perm_append_units (hs : s.WellFormed) :
    (s.mainUnits ++ s.limboUnits).Perm s.units := by
  -- A role that is not main is limbo, so that one half of the units is what the other leaves.
  have hlimbo : (fun p : SourceUnit × Role => p.2 == .limbo) = fun p => !(p.2 == .main) := by
    funext p
    cases p.2 <;> rfl
  -- The units with their roles are split by whether the role is main.
  have hsplit := List.filter_append_perm (fun p : SourceUnit × Role => p.2 == .main) (s.units.zip s.roles)
  have hmap := hsplit.map Prod.fst
  rw [List.map_append, List.map_fst_zip (Nat.le_of_eq hs.roles_length.symm)] at hmap
  rwa [mainUnits, limboUnits, Role.select, Role.select, hlimbo]

/-! ## What is registered -/

/-- A session whose parts fit together, in which everything that is stored is registered and the
    runtime bases are main. -/
structure Consistent (s : Session) : Prop extends s.WellFormed where
  /-- A namespace is registered for a unit that declares it. -/
  declared : ∀ ns u, s.registry.resolve ns = some u → ns ∈ u.provides
  /-- What a stored unit declares is registered for that unit. -/
  registered : ∀ u ∈ s.units, ∀ ns ∈ u.provides,
    ∃ p, s.registry.resolve ns = some p ∧ p.identity = u.identity
  bases : ∀ (i : Nat) u, s.units[i]? = some u → u.runtimeBase = true → s.roles[i]? = some .main

/-- In a new session, nothing is stored that could be without registration. -/
theorem consistent_new (policy : Policy) : (new policy).Consistent :=
  ⟨wellFormed_new policy, fun _ _ h => (nomatch h), fun _ hu => absurd hu List.not_mem_nil,
    fun _ _ hu => absurd (List.mem_of_getElem? hu) List.not_mem_nil⟩

/-- Every step keeps what is stored registered, and runtime bases main, even the refusal of a unit. -/
theorem Consistent.step (hstep : Step s t) (hs : s.Consistent) : t.Consistent := by
  have ht : t.WellFormed := hs.toWellFormed.step hstep
  have hmain := (retains_step hstep hs.toWellFormed).main
  have hext : s.registry.Extends t.registry := extends_step hstep
  -- Larger registries still provide what the units that were there declare.
  have hkept : ∀ u ∈ s.units, ∀ ns ∈ u.provides,
      ∃ p, t.registry.resolve ns = some p ∧ p.identity = u.identity := fun u hu ns hns => by
    obtain ⟨p, hp, hsame⟩ := hs.registered u hu ns hns
    exact ⟨p, hext ns p hp, hsame⟩
  have hbases := fun i u hu hbase => hmain i (hs.bases i u hu hbase)
  cases hstep with
  | change hchange =>
    cases hchange with
    | @store u role registry hnew hregister hbase =>
      refine ⟨ht, fun ns v hv => ?_, fun v hv => ?_, fun i v hv hvbase => ?_⟩
      · have hv : (s.registry.register u).1.resolve ns = some v := by rwa [hregister]
        rcases Registry.resolve_register_cases s.registry u hv with hv | ⟨rfl, hns⟩
        · exact hs.declared ns v hv
        · exact hns
      · rcases List.mem_append.1 hv with hv | hv
        · exact hkept v hv
        · obtain rfl := List.mem_singleton.1 hv
          -- The unit was registered without conflict, and so for all that it declares.
          exact fun ns hns => Registry.exists_resolve_register hregister hns
      · rcases getElem?_concat_eq_some.1 hv with hv | ⟨hlast, rfl⟩
        · exact hbases i v hv hvbase
        · -- The new unit stands at the end, and so does its role.
          exact getElem?_concat_eq_some.2 (.inr ⟨hlast.trans hs.roles_length.symm, hbase hvbase⟩)
    | promote hfind hlimbo => exact ⟨ht, hs.declared, hkept, hbases⟩
    | name hnew => exact ⟨ht, hs.declared, hkept, hbases⟩
    | configure hnew => exact ⟨ht, hs.declared, hkept, hbases⟩
    | commit hstale hcompute => exact ⟨ht, hs.declared, hkept, hbases⟩
  | @refuse u registry conflict hnew hregister =>
    refine ⟨ht, fun ns v hv => ?_, hkept, hbases⟩
    -- What stays registered for a refused unit is declared by it.
    have hv : (s.registry.register u).1.resolve ns = some v := by rwa [hregister]
    rcases Registry.resolve_register_cases s.registry u hv with hv | ⟨rfl, hns⟩
    · exact hs.declared ns v hv
    · exact hns

/-- What is stored is registered, and runtime bases are main, after every history. -/
theorem consistent_after (policy : Policy) (ops : List Operation) :
    ((new policy).after ops).Consistent :=
  invariant_after (consistent_new policy) (fun _ _ => Consistent.step) ops

/-- Where everything that is registered is stored, a stored unit provides what it declares. -/
theorem Consistent.resolve_eq_some_iff (hs : s.Consistent) (hcomplete : s.Complete) {ns : Namespace}
    {u : SourceUnit} : s.registry.resolve ns = some u ↔ u ∈ s.units ∧ ns ∈ u.provides := by
  constructor
  · exact fun hu => ⟨hcomplete.resolved ns u hu, hs.declared ns u hu⟩
  · rintro ⟨hu, hns⟩
    -- The provider is the same unit, and it is stored, so that it is this one.
    obtain ⟨p, hp, hsame⟩ := hs.registered u hu ns hns
    exact hs.distinct.eq_of_identity_eq (hcomplete.resolved ns p hp) hu hsame ▸ hp

/-- Whatever was refused on the way, no two stored units are the same; each is found where it is
    stored and has one role, so that the main units and those in limbo are all of them; what they
    provide is registered for them, and the runtime bases are main.  An operation takes no unit away
    from its place, and none that is main back to limbo.  Where no unit was refused, the registry holds
    exactly what the stored units provide. -/
theorem representation_after (policy : Policy) (ops : List Operation) (s : Session)
    (hs : s = (new policy).after ops) :
    Distinct s.units ∧
    (∀ u i, s.positions.find? u = some i ↔ ∃ v, s.units[i]? = some v ∧ v.identity = u.identity) ∧
    s.roles.length = s.units.length ∧
    (∀ u role, s.role? u = some role ↔ ∃ v ∈ role.select s.units s.roles, v.identity = u.identity) ∧
    (∀ u ∈ s.units, ∃! role : Role, u ∈ role.select s.units s.roles) ∧
    (s.mainUnits ++ s.limboUnits).Perm s.units ∧
    (∀ u ∈ s.units, ∀ ns ∈ u.provides, ∃ p, s.registry.resolve ns = some p ∧ p.identity = u.identity) ∧
    (∀ u ∈ s.units, u.runtimeBase = true → u ∈ s.mainUnits) ∧
    (∀ op, s.units <+: (s.apply op).1.units ∧
      ∀ u ∈ s.units, s.isMain u = true → (s.apply op).1.isMain u = true) ∧
    ((new policy).AddsSucceed ops → ∀ ns u,
      s.registry.resolve ns = some u ↔ u ∈ s.units ∧ ns ∈ u.provides) := by
  have hconsistent : s.Consistent := hs ▸ consistent_after policy ops
  have hwf := hconsistent.toWellFormed
  refine ⟨hwf.distinct, hwf.position, hwf.roles_length, fun u role => hwf.role?_eq_some_iff_select,
    fun u => hwf.existsUnique_role, hwf.perm_append_units, hconsistent.registered,
    fun u hu hbase => ?_, fun op => ?_, fun hadds ns u => ?_⟩
  · obtain ⟨i, hi⟩ := List.mem_iff_getElem?.1 hu
    exact Role.mem_select.2 ⟨i, hi, hconsistent.bases i u hi hbase⟩
  · have hretains := retains_apply hwf op
    exact ⟨hretains.units, fun u _ hu => hretains.isMain hwf (hwf.apply op) hu⟩
  · exact hconsistent.resolve_eq_some_iff (hs ▸ complete_after hadds)

/-- A refused unit is not stored although one of its namespaces is registered; without it, the
    registry would hold what the stored units provide. -/
theorem representation_after_of_rival :
    ((new allReady).after appWithRival).registry.resolve ⟨"extra"⟩ =
      some (blank "rival" [⟨"extra"⟩, ⟨"util"⟩] []) ∧
    ((new allReady).after appWithRival).units = [blank "app" [] [⟨"util"⟩], blank "util" [⟨"util"⟩] []] ∧
    (((new allReady).after appWithRival).mainUnits ++ ((new allReady).after appWithRival).limboUnits).Perm
      [blank "app" [] [⟨"util"⟩], blank "util" [⟨"util"⟩] []] ∧
    (new allReady).AddsSucceed appWithUtil ∧
    ∀ ns u, ((new allReady).after appWithUtil).registry.resolve ns = some u ↔
      u ∈ ((new allReady).after appWithUtil).units ∧ ns ∈ u.provides := by
  have hunits : ((new allReady).after appWithRival).units =
      [blank "app" [] [⟨"util"⟩], blank "util" [⟨"util"⟩] []] := by decide +kernel
  obtain ⟨-, -, -, -, -, hperm, -⟩ := representation_after allReady appWithRival _ rfl
  obtain ⟨-, -, -, -, -, -, -, -, -, hregistry⟩ := representation_after allReady appWithUtil _ rfl
  refine ⟨by decide +kernel, hunits, ?_, addsSucceed_appWithUtil, hregistry addsSucceed_appWithUtil⟩
  rwa [hunits] at hperm

end BuildOrder.Session
