import BuildOrder.Proofs.Closure.Outcome
import BuildOrder.Proofs.Distinct
import BuildOrder.Proofs.Session.Roles
import BuildOrder.Proofs.Session.Steps

/-! # The parts of a session fit together

* `extends_steps`        what is registered stays registered
* `wellFormed_after`     units, positions and roles fit together after every history
* `complete_after`       where no unit is refused, all that is registered is stored as well
* `promoted_eq`          promotion gives the destined roles, unless an entry point is at fault
* `getElem?_destined`    and says who they make main
-/

namespace BuildOrder.Session

open Relation SourceUnit

/-- The units of a session, their positions and their roles fit together. -/
structure WellFormed (s : Session) : Prop where
  distinct : Distinct s.units
  roles_length : s.roles.length = s.units.length
  /-- A unit is found where it is stored. -/
  position : ∀ u i, s.positions.find? u = some i ↔
    ∃ v, s.units[i]? = some v ∧ v.identity = u.identity

namespace WellFormed

variable {s : Session}

/-- A unit has no position exactly when no unit of its identity is stored. -/
theorem find?_eq_none_iff (hs : s.WellFormed) {u : SourceUnit} :
    s.positions.find? u = none ↔ ∀ v ∈ s.units, v.identity ≠ u.identity := by
  constructor
  · intro hnone v hv heq
    obtain ⟨i, hi⟩ := List.mem_iff_getElem?.1 hv
    have hfound := (hs.position u i).2 ⟨v, hi, heq⟩
    cases hnone.symm.trans hfound
  · intro hall
    cases hfind : s.positions.find? u with
    | none => rfl
    | some i =>
      -- Where a position is found, a unit of the identity is stored.
      obtain ⟨v, hv, heq⟩ := (hs.position u i).1 hfind
      exact absurd heq (hall v (List.mem_of_getElem? hv))

/-- A unit that is stored at a position is found there. -/
theorem find?_eq_some_of_getElem? (hs : s.WellFormed) {u : SourceUnit} {i : Nat}
    (hu : s.units[i]? = some u) : s.positions.find? u = some i :=
  (hs.position u i).2 ⟨u, hu, rfl⟩

/-- A position that is found is one of a stored unit. -/
theorem lt_of_find? (hs : s.WellFormed) {u : SourceUnit} {i : Nat}
    (h : s.positions.find? u = some i) : i < s.units.length := by
  obtain ⟨v, hv, -⟩ := (hs.position u i).1 h
  exact (List.getElem?_eq_some_iff.1 hv).1

end WellFormed

/-! ## Promotion -/

/-- The roles before the providers of entry points are promoted. -/
def ownRoles (s : Session) : List Role :=
  if s.policy.keepMoochers then Role.promoteMoochers s.units s.roles else s.roles

/-- The roles that the next manifest gives to the units, when it succeeds. -/
def destined (s : Session) : List Role :=
  s.entryPoints.foldl (Role.promote s.registry s.positions) s.ownRoles

/-- The position of the unit that a namespace makes main. -/
def target (s : Session) (ns : Namespace) : Option Nat := Role.target s.registry s.positions ns

/-- What is wrong with a namespace as an entry point. -/
def entryFault? (s : Session) (ns : Namespace) : Option Fault := Role.entryFault? s.registry s.positions ns

/-- Promotion gives the destined roles, unless an entry point is at fault. -/
theorem promoted_eq (s : Session) :
    s.promoted =
      match s.entryPoints.findSome? s.entryFault? with
      | some fault => .error fault
      | none => .ok s.destined :=
  Role.promoteProviders_eq s.entryPoints s.ownRoles

/-- Where promotion succeeds, no entry point is at fault, and the roles are the destined ones. -/
theorem eq_destined_of_promoted {s : Session} {roles : List Role} (h : s.promoted = .ok roles) :
    s.entryPoints.findSome? s.entryFault? = none ∧ roles = s.destined := by
  rw [promoted_eq] at h
  split at h
  · cases h
  · rename_i hnone
    exact ⟨hnone, (Except.ok.inj h).symm⟩

/-- A manifest is computed in three parts. -/
theorem compute_eq_ok_iff {s : Session} {roles : List Role} {manifest : List SourceUnit} :
    s.compute = .ok (roles, manifest) ↔
      s.promoted = .ok roles ∧ ∃ units, s.kept roles = .ok units ∧ s.arranged units = .ok manifest := by
  constructor
  · intro h
    unfold compute at h
    split at h
    · cases h
    rename_i promoted hpromoted
    split at h
    · cases h
    rename_i units hkept
    split at h
    · cases h
    rename_i sorted harranged
    -- Each part has succeeded, and the result is that of the last two.
    obtain ⟨rfl, rfl⟩ := Prod.mk.inj (Except.ok.inj h)
    exact ⟨hpromoted, units, hkept, harranged⟩
  · rintro ⟨hpromoted, units, hkept, harranged⟩
    simp only [compute, hpromoted, hkept, harranged]

/-- Where a manifest is computed, no entry point is at fault, and the roles are the destined ones. -/
theorem eq_destined_of_compute {s : Session} {roles : List Role} {manifest : List SourceUnit}
    (h : s.compute = .ok (roles, manifest)) :
    s.entryPoints.findSome? s.entryFault? = none ∧ roles = s.destined :=
  eq_destined_of_promoted (compute_eq_ok_iff.1 h).1

namespace WellFormed

variable {s : Session}

/-- There is one role for each unit before the providers are promoted. -/
theorem length_ownRoles (hs : s.WellFormed) : s.ownRoles.length = s.units.length := by
  unfold ownRoles
  split
  · rw [Role.length_promoteMoochers hs.roles_length, hs.roles_length]
  · exact hs.roles_length

/-- There is one destined role for each unit. -/
theorem length_destined (hs : s.WellFormed) : s.destined.length = s.units.length := by
  rw [destined, Role.length_foldl_promote, hs.length_ownRoles]

/-- Before the providers are promoted, a unit is main that is so already or is a kept moocher. -/
theorem getElem?_ownRoles (hs : s.WellFormed) (i : Nat) :
    s.ownRoles[i]? = some .main ↔
      s.roles[i]? = some .main ∨
        (s.policy.keepMoochers = true ∧ ∃ u, s.units[i]? = some u ∧ u.isMoocher = true) := by
  unfold ownRoles
  split
  · rename_i hkeep
    rw [Role.getElem?_promoteMoochers hs.roles_length]
    simp [hkeep]
  · -- Moochers are dropped, so that providing nothing makes no difference.
    rename_i hdrop
    simp [hdrop]

/-- A unit is destined to be main when it is main, a kept moocher or the provider of an entry
    point. -/
theorem getElem?_destined (hs : s.WellFormed) (i : Nat) :
    s.destined[i]? = some .main ↔
      (s.roles[i]? = some .main ∨
        (s.policy.keepMoochers = true ∧ ∃ u, s.units[i]? = some u ∧ u.isMoocher = true)) ∨
      ∃ ns ∈ s.entryPoints, s.target ns = some i := by
  rw [destined, Role.getElem?_foldl_promote, hs.getElem?_ownRoles, hs.length_ownRoles]
  -- The provider of an entry point is stored, so that its position has a role.
  refine or_congr_right (and_iff_right_of_imp ?_)
  rintro ⟨ns, -, hns⟩
  obtain ⟨provider, -, hfind⟩ := Option.bind_eq_some_iff.1 hns
  exact hs.lt_of_find? hfind

end WellFormed

/-! ## Invariants -/

/-- In a new session there is nothing that could not fit together. -/
theorem wellFormed_new (policy : Policy) : (new policy).WellFormed :=
  ⟨List.nodup_nil, rfl, fun u i => by simp [new]⟩

/-- Every change keeps units, positions and roles together. -/
theorem WellFormed.change {s t : Session} (hchange : Change s t) (hs : s.WellFormed) : t.WellFormed := by
  cases hchange with
  | @store u role registry hnew hregister hbase =>
    refine ⟨hs.distinct.append_singleton (hs.find?_eq_none_iff.1 hnew), by simp [hs.roles_length], ?_⟩
    intro v i
    dsimp only
    rw [Positions.find?_insert]
    simp only [getElem?_concat_eq_some]
    split
    · -- The new unit is found at the end and nowhere else.
      rename_i heq
      constructor
      · intro hi
        exact ⟨u, .inr ⟨(Option.some.inj hi).symm, rfl⟩, heq.symm⟩
      · rintro ⟨w, hw | ⟨rfl, rfl⟩, hwv⟩
        · have hother := hs.find?_eq_none_iff.1 hnew w (List.mem_of_getElem? hw)
          exact absurd (hwv.trans heq) hother
        · rfl
    · -- Any other unit is found where it was.
      rename_i hne
      rw [hs.position v i]
      refine exists_congr fun w => and_congr_left fun hwv => (or_iff_left ?_).symm
      rintro ⟨-, rfl⟩
      exact hne hwv.symm
  | promote hfind hlimbo => exact ⟨hs.distinct, by simp [hs.roles_length], hs.position⟩
  | name hnew => exact ⟨hs.distinct, hs.roles_length, hs.position⟩
  | configure hnew => exact ⟨hs.distinct, hs.roles_length, hs.position⟩
  | commit hstale hcompute =>
    -- The roles that are kept are the destined ones, one for each unit.
    obtain ⟨-, rfl⟩ := eq_destined_of_compute hcompute
    exact ⟨hs.distinct, hs.length_destined, hs.position⟩

/-- A step keeps units, positions and roles together, be it a change or the refusal of a unit. -/
theorem WellFormed.step {s t : Session} (hstep : Step s t) (hs : s.WellFormed) : t.WellFormed := by
  cases hstep with
  | change hchange => exact hs.change hchange
  | refuse hnew hregister => exact ⟨hs.distinct, hs.roles_length, hs.position⟩

theorem WellFormed.steps {s t : Session} (hsteps : ReflTransGen Step s t) (hs : s.WellFormed) :
    t.WellFormed :=
  invariant_of_reflTransGen (P := WellFormed) (fun _ _ => WellFormed.step) hsteps hs

/-- No change takes a registration back. -/
theorem extends_step {s t : Session} (hstep : Step s t) : s.registry.Extends t.registry := by
  cases hstep with
  | change hchange =>
    cases hchange with
    -- Only the registration of a new unit touches the registry.
    | store hnew hregister hbase => exact Registry.extends_register hregister
    | _ => exact Registry.Extends.refl _
  | refuse hnew hregister => exact Registry.extends_register hregister

theorem extends_steps {s t : Session} (hsteps : ReflTransGen Step s t) : s.registry.Extends t.registry := by
  induction hsteps with
  | refl => exact Registry.Extends.refl _
  | tail _ hlast ih => exact ih.trans (extends_step hlast)

theorem WellFormed.apply {s : Session} (hs : s.WellFormed) (op : Operation) : (s.apply op).1.WellFormed :=
  hs.steps (steps_apply s op)

theorem WellFormed.after {s : Session} (hs : s.WellFormed) (ops : List Operation) :
    (s.after ops).WellFormed :=
  invariant_after hs (fun _ _ => WellFormed.step) ops

/-- Units, positions and roles fit together after every history. -/
theorem wellFormed_after (policy : Policy) (ops : List Operation) :
    ((new policy).after ops).WellFormed :=
  (wellFormed_new policy).after ops

/-- A well-formed session that has stored everything that is registered. -/
structure Complete (s : Session) : Prop extends s.WellFormed where
  resolved : ∀ ns u, s.registry.resolve ns = some u → u ∈ s.units

/-- To a session that has stored everything that is registered, all providers are known. -/
theorem Complete.knows {s : Session} (hs : s.Complete) : Closure.Knows s.units s.registry :=
  ⟨hs.distinct, hs.resolved⟩

/-- No change registers a provider that is not stored. -/
theorem Complete.change {s t : Session} (hchange : Change s t) (hs : s.Complete) : t.Complete := by
  refine ⟨hs.toWellFormed.change hchange, ?_⟩
  -- A new unit is the only change to what is registered, and it is stored at once.
  cases hchange with
  | @store u role registry hnew hregister hbase =>
    intro ns v hv
    have hv : (s.registry.register u).1.resolve ns = some v := by rwa [hregister]
    -- A registration adds no other provider than the stored unit.
    rcases Registry.resolve_register_cases s.registry u hv with hv | ⟨rfl, -⟩
    · exact List.mem_append_left _ (hs.resolved ns v hv)
    · exact List.mem_append_right _ List.mem_cons_self
  | promote hfind hlimbo => exact hs.resolved
  | name hnew => exact hs.resolved
  | configure hnew => exact hs.resolved
  | commit hstale hcompute => exact hs.resolved

/-- Where no unit is refused, all that is registered is stored as well. -/
theorem complete_after {policy : Policy} {ops : List Operation} (hadds : (new policy).AddsSucceed ops) :
    ((new policy).after ops).Complete :=
  invariant_after_adds ⟨wellFormed_new policy, fun _ _ h => by cases h⟩ (fun _ _ => Complete.change) hadds

end BuildOrder.Session
