import BuildOrder.Proofs.Registry
import BuildOrder.SourceUnit.Draft

/-! # Registering several units

Units can be registered up to the first conflict, or all of them, with the conflicts collected.  Both
ways go through the same claims: the namespaces of one unit after the other.

* `registerEach_stopsAtFirst`    stopping gives the first of the conflicts that are collected
* `mem_claimEach_snd`            a claim is a conflict when its namespace belongs to another unit
* `registerAll_snd_eq_nil_iff`   which lists of units can be registered without a conflict
* `ofUnits_eq_ok_iff`            the registry of a list of units is what that gives from nothing
* `registration_agrees`          both ways succeed on the same lists, in any order
-/

namespace BuildOrder

/-- Units that provide a namespace in common are the same unit. -/
def SourceUnit.Compatible (units : List SourceUnit) : Prop :=
  ∀ u ∈ units, ∀ v ∈ units, ∀ ns ∈ u.provides, ns ∈ v.provides → u.identity = v.identity

theorem SourceUnit.Compatible.perm {units other : List SourceUnit} (h : Compatible units)
    (hperm : units.Perm other) : Compatible other :=
  fun u hu v hv => h u (hperm.mem_iff.2 hu) v (hperm.mem_iff.2 hv)

namespace Registry

open SourceUnit

/-- No namespace of the units belongs to another unit already. -/
def Accepts (r : Registry) (units : List SourceUnit) : Prop :=
  ∀ u ∈ units, ∀ ns ∈ u.provides, ∀ v, r.resolve ns = some v → v.identity = u.identity

theorem Accepts.perm {r : Registry} {units other : List SourceUnit} (h : r.Accepts units)
    (hperm : units.Perm other) : r.Accepts other :=
  fun u hu => h u (hperm.mem_iff.2 hu)

/-! ## Stopping and going on -/

/-- A run that stops gives the first conflict that the whole run collects, and the same registry if
    there is none. -/
def StopsAtFirst (one : Registry × Option Conflict) (all : Registry × List Conflict) : Prop :=
  one.2 = all.2.head? ∧ (all.2 = [] → one.1 = all.1)

/-- A run that stops comes to its end exactly when the whole run collects no conflict, and both give one
    registry then. -/
theorem StopsAtFirst.eq_none_iff {one : Registry × Option Conflict} {all : Registry × List Conflict}
    (h : StopsAtFirst one all) {r : Registry} : one = (r, none) ↔ all = (r, []) := by
  obtain ⟨hfirst, hsame⟩ := h
  constructor
  · rintro rfl
    -- What stops without a conflict has met none, so that there is no first one.
    have hnil : all.2 = [] := List.head?_eq_none_iff.1 hfirst.symm
    exact Prod.ext (hsame hnil).symm hnil
  · rintro rfl
    exact Prod.ext (hsame rfl) hfirst

/-- Claiming the namespaces of one unit up to a conflict gives the first of the conflicts that are
    collected past them. -/
theorem claimAll_stopsAtFirst (r : Registry) (u : SourceUnit) (names : List Namespace) :
    StopsAtFirst (r.claimAll u names) (r.claimFree u names) := by
  induction names generalizing r with
  | nil => exact ⟨rfl, fun _ => rfl⟩
  | cons ns rest ih =>
    rw [claimAll, claimFree]
    split
    · rename_i next _
      exact ih next
    · -- Here the run that stops has stopped, and the other one goes on with this conflict as its first.
      exact ⟨rfl, fun hnil => absurd hnil (List.cons_ne_nil _ _)⟩

/-- Of several units the first one is registered first, and its conflicts come before those of the
    others. -/
theorem registerAll_cons (r : Registry) (u : SourceUnit) (rest : List SourceUnit) :
    r.registerAll (u :: rest) =
      (((r.claimFree u u.provides).1.registerAll rest).1,
        (r.claimFree u u.provides).2 ++ ((r.claimFree u u.provides).1.registerAll rest).2) :=
  rfl

/-- Registering units one by one stops at the first of the conflicts that can be collected. -/
theorem registerEach_stopsAtFirst (r : Registry) (units : List SourceUnit) :
    StopsAtFirst (r.registerEach units) (r.registerAll units) := by
  induction units generalizing r with
  | nil => exact ⟨rfl, fun _ => rfl⟩
  | cons u rest ih =>
    have hunit : StopsAtFirst (r.register u) (r.claimFree u u.provides) :=
      claimAll_stopsAtFirst r u u.provides
    rw [registerAll_cons]
    cases hconflicts : (r.claimFree u u.provides).2 with
    | nil =>
      rw [registerEach, hunit.eq_none_iff.2 (Prod.ext rfl hconflicts)]
      exact ih _
    | cons conflict more =>
      -- The first conflict of the unit is the first of all.
      have hregister : r.register u = ((r.register u).1, some conflict) :=
        Prod.ext rfl (by rw [hunit.1, hconflicts, List.head?_cons])
      rw [registerEach, hregister]
      exact ⟨rfl, fun hnil => absurd hnil (List.cons_ne_nil _ _)⟩

/-! ## Claims one by one -/

/-- The claims of several units, in the order in which they are made. -/
def claims (units : List SourceUnit) : List (SourceUnit × Namespace) :=
  units.flatMap fun u => u.provides.map fun ns => (u, ns)

theorem mem_claims {units : List SourceUnit} {u : SourceUnit} {ns : Namespace} :
    (u, ns) ∈ claims units ↔ u ∈ units ∧ ns ∈ u.provides := by
  simp [claims]

/-- Makes claims one by one, and passes over those to what another unit provides. -/
def claimEach (r : Registry) : List (SourceUnit × Namespace) → Registry × List Conflict
  | [] => (r, [])
  | (u, ns) :: rest =>
    match r.claim u ns with
    | .ok next => next.claimEach rest
    | .error conflict => ((r.claimEach rest).1, conflict :: (r.claimEach rest).2)

/-- Claims are made one after the other, and their conflicts collected in this order. -/
theorem claimEach_append (r : Registry) (xs ys : List (SourceUnit × Namespace)) :
    r.claimEach (xs ++ ys) =
      (((r.claimEach xs).1.claimEach ys).1, (r.claimEach xs).2 ++ ((r.claimEach xs).1.claimEach ys).2) := by
  induction xs generalizing r with
  | nil => rfl
  | cons claim rest ih =>
    rw [List.cons_append, claimEach, claimEach]
    split
    · rename_i next _
      exact ih next
    · -- A claim that fails leaves the registry as it was.
      rw [ih r]
      rfl

/-- Registering a unit past all conflicts makes its claims one by one. -/
theorem claimFree_eq (r : Registry) (u : SourceUnit) (names : List Namespace) :
    r.claimFree u names = r.claimEach (names.map fun ns => (u, ns)) := by
  induction names generalizing r with
  | nil => rfl
  | cons ns rest ih =>
    cases hclaim : r.claim u ns with
    | ok next =>
      simp only [claimFree, List.map_cons, claimEach, hclaim]
      exact ih next
    | error conflict =>
      simp only [claimFree, List.map_cons, claimEach, hclaim]
      rw [ih r]

/-- Registering units comes down to making their claims. -/
theorem registerAll_eq (r : Registry) (units : List SourceUnit) :
    r.registerAll units = r.claimEach (claims units) := by
  induction units generalizing r with
  | nil => rfl
  | cons u rest ih =>
    rw [registerAll_cons, claimFree_eq, ih]
    -- The claims of the first unit are followed by those of the others.
    exact (claimEach_append _ _ _).symm

/-- A claim fails only at a namespace of another unit, and names that unit as the first. -/
theorem claim_eq_error {r : Registry} {u : SourceUnit} {ns : Namespace} {conflict : Conflict}
    (h : r.claim u ns = .error conflict) :
    ∃ first, r.resolve ns = some first ∧ first.identity ≠ u.identity ∧ conflict = ⟨ns, first, u⟩ := by
  unfold claim at h
  split at h
  · rename_i first hfirst
    split at h
    · cases h
    · rename_i hother
      exact ⟨first, hfirst, mt same_iff.2 hother, (Except.error.inj h).symm⟩
  · cases h

/-- Claims change no provider. -/
theorem extends_claimEach (r : Registry) (claims : List (SourceUnit × Namespace)) :
    r.Extends (r.claimEach claims).1 := by
  induction claims generalizing r with
  | nil => exact Extends.refl r
  | cons claim rest ih =>
    rw [claimEach]
    split
    · rename_i next hnext
      exact (extends_claim hnext).trans (ih next)
    · exact ih r

/-- Claims add no other providers than those that claim. -/
theorem resolve_claimEach_cases (r : Registry) (claims : List (SourceUnit × Namespace))
    {ns : Namespace} {v : SourceUnit} (h : (r.claimEach claims).1.resolve ns = some v) :
    r.resolve ns = some v ∨ (v, ns) ∈ claims := by
  induction claims generalizing r with
  | nil => exact .inl h
  | cons claim rest ih =>
    obtain ⟨u, name⟩ := claim
    rw [claimEach] at h
    split at h
    · rename_i next hnext
      rcases ih next h with hv | hmem
      · refine (resolve_claim_cases hnext hv).imp_right ?_
        rintro ⟨rfl, rfl⟩
        exact List.mem_cons_self
      · exact .inr (List.mem_cons_of_mem _ hmem)
    · -- A claim that failed gave its unit nothing.
      exact (ih r h).imp_right (List.mem_cons_of_mem _)

/-- What is claimed has a provider in the end. -/
theorem exists_resolve_claimEach {r : Registry} {claims : List (SourceUnit × Namespace)} {u : SourceUnit}
    {ns : Namespace} (hmem : (u, ns) ∈ claims) : ∃ v, (r.claimEach claims).1.resolve ns = some v := by
  induction claims generalizing r with
  | nil => exact absurd hmem List.not_mem_nil
  | cons claim rest ih =>
    obtain ⟨owner, name⟩ := claim
    rw [claimEach]
    rcases List.mem_cons.1 hmem with heq | hmem
    · -- The namespace has a provider from its claim on, whoever that is.
      obtain ⟨rfl, rfl⟩ := Prod.mk.inj heq
      split
      · rename_i next hnext
        obtain ⟨v, hv, -⟩ := exists_resolve_claim hnext
        exact ⟨v, extends_claimEach next rest ns v hv⟩
      · rename_i conflict hconflict
        obtain ⟨first, hfirst, -⟩ := claim_eq_error hconflict
        exact ⟨first, extends_claimEach r rest ns first hfirst⟩
    · split
      · exact ih hmem
      · exact ih hmem

/-- A claim is a conflict when its namespace belongs to another unit. -/
theorem mem_claimEach_snd {r final : Registry} {claims : List (SourceUnit × Namespace)}
    (hfinal : (r.claimEach claims).1.Extends final) (c : Conflict) :
    c ∈ (r.claimEach claims).2 ↔
      (c.second, c.ns) ∈ claims ∧ final.resolve c.ns = some c.first ∧ c.first.identity ≠ c.second.identity := by
  -- The registry changes from claim to claim, and all that matters of the last one is that it extends
  -- each of them.
  induction claims generalizing r with
  | nil => simp [claimEach]
  | cons claim rest ih =>
    obtain ⟨u, ns⟩ := claim
    rw [claimEach] at hfinal ⊢
    rw [List.mem_cons, Prod.mk.injEq, or_and_right]
    split at hfinal
    · rename_i next hnext
      -- A claim that is granted is no conflict.
      have hgranted : ¬ ((c.second = u ∧ c.ns = ns) ∧ final.resolve c.ns = some c.first ∧
          c.first.identity ≠ c.second.identity) := by
        rintro ⟨⟨rfl, rfl⟩, hfirst, hother⟩
        obtain ⟨v, hv, hsame⟩ := exists_resolve_claim hnext
        have hlast := hfinal _ _ (extends_claimEach next rest _ _ hv)
        exact hother (Option.some.inj (hfirst.symm.trans hlast) ▸ hsame)
      simp only [ih hfinal, hgranted, false_or]
    · rename_i conflict hconflict
      obtain ⟨first, hfirst, hother, rfl⟩ := claim_eq_error hconflict
      have hlast := hfinal ns first (extends_claimEach r rest ns first hfirst)
      rw [List.mem_cons, ih hfinal]
      refine or_congr_left ⟨?_, ?_⟩
      · rintro rfl
        exact ⟨⟨rfl, rfl⟩, hlast, hother⟩
      · rintro ⟨⟨rfl, rfl⟩, hholder, -⟩
        -- The namespace has one provider.
        obtain rfl : c.first = first := Option.some.inj (hholder.symm.trans hlast)
        rfl

/-! ## Both ways -/

/-- Units can be registered without a conflict when no namespace of theirs belongs to another unit, be
    it registered already or among them. -/
theorem registerAll_snd_eq_nil_iff {r : Registry} {units : List SourceUnit} :
    (r.registerAll units).2 = [] ↔ r.Accepts units ∧ Compatible units := by
  rw [registerAll_eq]
  have hconflicts := mem_claimEach_snd (Extends.refl (r.claimEach (claims units)).1)
  constructor
  · intro hnil
    -- Without conflicts, every claimed namespace belongs in the end to each unit that claims it.
    have hsame : ∀ u ∈ units, ∀ ns ∈ u.provides, ∀ v,
        (r.claimEach (claims units)).1.resolve ns = some v → v.identity = u.identity := by
      intro u hu ns hns v hv
      refine Decidable.not_not.1 fun hne => ?_
      have hmem := (hconflicts ⟨ns, v, u⟩).2 ⟨mem_claims.2 ⟨hu, hns⟩, hv, hne⟩
      rw [hnil] at hmem
      cases hmem
    refine ⟨fun u hu ns hns v hv => ?_, fun u hu v hv ns hns hns' => ?_⟩
    · exact hsame u hu ns hns v (extends_claimEach r _ ns v hv)
    · -- Both units are the one to which the namespace belongs in the end.
      obtain ⟨w, hw⟩ := exists_resolve_claimEach (r := r) (mem_claims.2 ⟨hu, hns⟩)
      exact (hsame u hu ns hns w hw).symm.trans (hsame v hv ns hns' w hw)
  · rintro ⟨haccepts, hcompatible⟩
    refine List.eq_nil_iff_forall_not_mem.2 fun c hc => ?_
    obtain ⟨hmem, hfirst, hother⟩ := (hconflicts c).1 hc
    obtain ⟨hsecond, hns⟩ := mem_claims.1 hmem
    -- The unit of the other claim was registered before, or it is one of the units.
    rcases resolve_claimEach_cases r _ hfirst with hfirst | hmem
    · exact hother (haccepts c.second hsecond c.ns hns c.first hfirst)
    · obtain ⟨hfirst, hns'⟩ := mem_claims.1 hmem
      exact hother (hcompatible c.first hfirst c.second hsecond c.ns hns' hns)

/-- The registry of a list of units is what registering all of them from nothing gives. -/
theorem ofUnits_eq_ok_iff {units : List SourceUnit} {registry : Registry} :
    ofUnits units = .ok registry ↔ empty.registerAll units = (registry, []) := by
  rw [← (registerEach_stopsAtFirst empty units).eq_none_iff]
  unfold ofUnits
  split
  · rename_i heq
    simp [heq]
  · rename_i heq
    simp [heq]

/-- A list of units has no registry where there are conflicts, and the first of these is reported. -/
theorem ofUnits_eq_error_iff {units : List SourceUnit} {conflict : Conflict} :
    ofUnits units = .error conflict ↔ (empty.registerAll units).2.head? = some conflict := by
  rw [← (registerEach_stopsAtFirst empty units).1]
  unfold ofUnits
  split
  · rename_i heq
    simp [heq]
  · rename_i heq
    simp [heq]

/-- Registering units up to the first conflict and registering all of them succeed on the same lists of
    units and give the same registry then.  Otherwise the one conflict is the first of all, and all
    conflicts are the namespaces of units that belong to another unit in the end.  There are none unless
    a namespace of the units was registered for another unit or is common to different units. -/
theorem registration_agrees (r : Registry) (units : List SourceUnit) :
    ((r.registerEach units).2 = none ↔ (r.registerAll units).2 = []) ∧
    ((r.registerAll units).2 = [] → (r.registerEach units).1 = (r.registerAll units).1) ∧
    (r.registerEach units).2 = (r.registerAll units).2.head? ∧
    ((r.registerAll units).2 = [] ↔ r.Accepts units ∧ Compatible units) ∧
    (∀ c, c ∈ (r.registerAll units).2 ↔
      c.second ∈ units ∧ c.ns ∈ c.second.provides ∧
        (r.registerAll units).1.resolve c.ns = some c.first ∧ c.first.identity ≠ c.second.identity) ∧
    (∀ other, other.Perm units → ((r.registerAll other).2 = [] ↔ (r.registerAll units).2 = [])) ∧
    (∀ registry, ofUnits units = .ok registry ↔ empty.registerAll units = (registry, [])) ∧
    (∀ c, ofUnits units = .error c ↔ (empty.registerAll units).2.head? = some c) ∧
    ((∃ registry, ofUnits units = .ok registry) ↔ Compatible units) := by
  obtain ⟨hfirst, hsame⟩ := registerEach_stopsAtFirst r units
  refine ⟨?_, hsame, hfirst, registerAll_snd_eq_nil_iff, fun c => ?_, fun other hperm => ?_,
    fun _ => ofUnits_eq_ok_iff, fun _ => ofUnits_eq_error_iff, ?_⟩
  · rw [hfirst, List.head?_eq_none_iff]
  · rw [registerAll_eq, mem_claimEach_snd (Extends.refl _), mem_claims, and_assoc]
  · rw [registerAll_snd_eq_nil_iff, registerAll_snd_eq_nil_iff]
    exact ⟨fun h => ⟨h.1.perm hperm, h.2.perm hperm⟩, fun h => ⟨h.1.perm hperm.symm, h.2.perm hperm.symm⟩⟩
  · -- Nothing is registered before the first of the units.
    have haccepts : empty.Accepts units := fun _ _ ns _ v hv => nomatch (resolve_empty ns).symm.trans hv
    have hsucceeds : (empty.registerAll units).2 = [] ↔ Compatible units := by
      rw [registerAll_snd_eq_nil_iff, and_iff_right haccepts]
    rw [← hsucceeds]
    simp only [ofUnits_eq_ok_iff]
    constructor
    · rintro ⟨registry, heq⟩
      rw [heq]
    · exact fun hnil => ⟨_, Prod.ext rfl hnil⟩

/-- Three units, the first of which has a namespace in common with each of the others. -/
def rivals : List SourceUnit :=
  [.ordinary "a.js" [⟨"x"⟩, ⟨"y"⟩] [], .ordinary "b.js" [⟨"x"⟩] [], .ordinary "c.js" [⟨"y"⟩, ⟨"z"⟩] []]

/-- Both common namespaces are conflicts.  The registration that stops reports the first of them. -/
theorem registration_agrees_of_rivals :
    (empty.registerAll rivals).2.map Conflict.ns = [⟨"x"⟩, ⟨"y"⟩] ∧
      (empty.registerEach rivals).2 = (empty.registerAll rivals).2.head? ∧ ¬ Compatible rivals ∧
      ∃ c, ofUnits rivals = .error c ∧ c.ns = ⟨"x"⟩ := by
  have hconflicts : (empty.registerAll rivals).2.map Conflict.ns = [⟨"x"⟩, ⟨"y"⟩] := by decide +kernel
  obtain ⟨-, -, hfirst, -, -, -, -, herror, hok⟩ := registration_agrees empty rivals
  obtain ⟨c, more, hmore, hns, -⟩ := List.map_eq_cons_iff.1 hconflicts
  have hfault : ofUnits rivals = .error c := (herror c).2 (by rw [hmore, List.head?_cons])
  refine ⟨hconflicts, hfirst, fun hcompatible => ?_, c, hfault, hns⟩
  obtain ⟨registry, hregistry⟩ := hok.2 hcompatible
  cases hfault.symm.trans hregistry

end Registry

end BuildOrder
