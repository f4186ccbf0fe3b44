import BuildOrder.Session
import BuildOrder.Proofs.Registry
import Mathlib.Data.List.Basic

/-! # Which units become main

* `mem_select`                  the units of a role
* `getElem?_promoteMoochers`    the units that provide nothing become main
* `promoteProviders_eq`         providers become main, unless a namespace has none that is stored
* `getElem?_foldl_promote`      these are the units at the positions of the providers
-/

namespace BuildOrder

/-- Of a list with one more element, a position holds what it held before, or it is the last one and
    holds that element. -/
theorem getElem?_concat_eq_some {xs : List α} {x y : α} {i : Nat} :
    (xs ++ [x])[i]? = some y ↔ xs[i]? = some y ∨ (i = xs.length ∧ x = y) := by
  rw [List.getElem?_append]
  split
  · rename_i hi
    exact (or_iff_left fun h => absurd h.1 (Nat.ne_of_lt hi)).symm
  · rename_i hi
    rw [List.getElem?_eq_none (Nat.le_of_not_lt hi), List.getElem?_singleton]
    -- Beyond the list there is one more element.
    by_cases heq : i = xs.length
    · simp [heq]
    · have hpos : i - xs.length ≠ 0 := by omega
      simp [heq, hpos]

namespace Role

/-- Roles are told apart by who is main. -/
theorem list_ext {a b : List Role} (hlength : a.length = b.length)
    (h : ∀ i : Nat, a[i]? = some main ↔ b[i]? = some main) : a = b := by
  refine List.ext_getElem hlength fun i hi hi' => ?_
  have hiff := h i
  rw [List.getElem?_eq_getElem hi, List.getElem?_eq_getElem hi', Option.some.injEq,
    Option.some.injEq] at hiff
  -- A role that is not main is limbo, in both lists.
  cases ha : a[i] with
  | main => exact (hiff.1 ha).symm
  | limbo =>
    cases hb : b[i] with
    | main => rw [hiff.2 hb] at ha; cases ha
    | limbo => rfl

/-- A unit of a role is one at a position where the role is. -/
theorem mem_select {role : Role} {units : List SourceUnit} {roles : List Role} {u : SourceUnit} :
    u ∈ role.select units roles ↔ ∃ i : Nat, units[i]? = some u ∧ roles[i]? = some role := by
  have hpair : u ∈ role.select units roles ↔ (u, role) ∈ units.zip roles := by
    simp [select]
  rw [hpair, List.mem_iff_getElem?]
  simp only [List.getElem?_zip_eq_some]

/-- One more candidate does not change which units are main. -/
theorem select_main_concat {units : List SourceUnit} {roles : List Role}
    (hlength : roles.length = units.length) (u : SourceUnit) :
    main.select (units ++ [u]) (roles ++ [limbo]) = main.select units roles := by
  rw [select, List.zip_append hlength.symm, List.filter_append]
  simp [select]

/-- The units that provide nothing become main. -/
theorem getElem?_promoteMoochers {units : List SourceUnit} {roles : List Role}
    (hlength : roles.length = units.length) (i : Nat) :
    (promoteMoochers units roles)[i]? = some main ↔
      roles[i]? = some main ∨ ∃ u, units[i]? = some u ∧ u.isMoocher = true := by
  rw [promoteMoochers, List.getElem?_zipWith]
  -- Beyond the end there is neither a unit nor a role.
  by_cases hi : i < units.length
  · have hi' : i < roles.length := hlength ▸ hi
    rw [List.getElem?_eq_getElem hi, List.getElem?_eq_getElem hi']
    -- The unit at the position decides, whatever role it had.
    cases hmoocher : units[i].isMoocher with
    | true => simp [hmoocher]
    | false => simp [hmoocher]
  · have hi' : ¬ i < roles.length := hlength ▸ hi
    rw [List.getElem?_eq_none (by omega), List.getElem?_eq_none (by omega)]
    simp

theorem length_promoteMoochers {units : List SourceUnit} {roles : List Role}
    (hlength : roles.length = units.length) : (promoteMoochers units roles).length = roles.length := by
  simp [promoteMoochers, hlength]

/-! ## Providers of entry points -/

/-- The position of the unit that a namespace makes main. -/
def target (registry : Registry) (positions : Positions) (ns : Namespace) : Option Nat :=
  (registry.resolve ns).bind positions.find?

/-- What is wrong with a namespace as an entry point. -/
def entryFault? (registry : Registry) (positions : Positions) (ns : Namespace) : Option Fault :=
  match registry.resolve ns with
  | none => some (.missingEntryPoint ns)
  | some provider =>
    match positions.find? provider with
    | none => some (.invariantViolation (.strangeProvider provider ns))
    | some _ => none

/-- Makes the provider of a namespace main. -/
def promote (registry : Registry) (positions : Positions) (roles : List Role) (ns : Namespace) :
    List Role :=
  match target registry positions ns with
  | some i => roles.set i main
  | none => roles

variable {registry : Registry} {positions : Positions}

/-- Nothing is wrong with an entry point exactly when its provider is stored somewhere. -/
theorem entryFault?_eq_none_iff {ns : Namespace} :
    entryFault? registry positions ns = none ↔ ∃ i, target registry positions ns = some i := by
  rw [entryFault?, target]
  cases hresolve : registry.resolve ns with
  | none => simp
  | some provider => cases hfind : positions.find? provider <;> simp [hfind]

/-- Providers become main, unless a namespace has none that is stored. -/
theorem promoteProviders_eq (names : List Namespace) (roles : List Role) :
    promoteProviders registry positions names roles =
      match names.findSome? (entryFault? registry positions) with
      | some fault => .error fault
      | none => .ok (names.foldl (promote registry positions) roles) := by
  induction names generalizing roles with
  | nil => rfl
  | cons ns rest ih =>
    rw [promoteProviders]
    cases hresolve : registry.resolve ns with
    -- Nobody provides the first namespace, which is the first fault.
    | none => simp [entryFault?, hresolve]
    | some provider =>
      cases hfind : positions.find? provider with
      -- Its provider was refused, so that it is registered but not stored.
      | none => simp [entryFault?, hresolve, hfind]
      | some i =>
        -- The first namespace is fine, and its provider is promoted before the rest.
        have hfault : entryFault? registry positions ns = none := by simp [entryFault?, hresolve, hfind]
        have hpromote : promote registry positions roles ns = roles.set i main := by
          simp [promote, target, hresolve, hfind]
        simp only [List.findSome?_cons, hfault, List.foldl_cons, hpromote, hfind]
        exact ih _

/-- Promoting a provider adds no role and takes none away. -/
@[simp] theorem length_promote (roles : List Role) (ns : Namespace) :
    (promote registry positions roles ns).length = roles.length := by
  unfold promote
  split
  · exact List.length_set
  · rfl

/-- Promoting several providers adds no role and takes none away. -/
theorem length_foldl_promote (names : List Namespace) (roles : List Role) :
    (names.foldl (promote registry positions) roles).length = roles.length := by
  induction names generalizing roles with
  | nil => rfl
  | cons ns rest ih => rw [List.foldl_cons, ih, length_promote]

/-- When a provider is promoted, its unit becomes main and every other one keeps its role. -/
theorem getElem?_promote (roles : List Role) (ns : Namespace) (i : Nat) :
    (promote registry positions roles ns)[i]? = some main ↔
      roles[i]? = some main ∨ (i < roles.length ∧ target registry positions ns = some i) := by
  unfold promote
  cases htarget : target registry positions ns with
  | none => simp
  | some k =>
    dsimp only
    rw [List.getElem?_set]
    -- Only the role at the position of the provider changes.
    by_cases hk : k = i
    · subst hk
      -- A position beyond the roles is no position of a unit.
      by_cases hlt : k < roles.length
      · simp [hlt]
      · simp [hlt]
    · have hne : ¬ some k = some i := fun h => hk (Option.some.inj h)
      simp [hk]

/-- The units at the positions of the providers become main. -/
theorem getElem?_foldl_promote (names : List Namespace) (roles : List Role) (i : Nat) :
    (names.foldl (promote registry positions) roles)[i]? = some main ↔
      roles[i]? = some main ∨
        (i < roles.length ∧ ∃ ns ∈ names, target registry positions ns = some i) := by
  induction names generalizing roles with
  | nil => simp
  | cons ns rest ih =>
    -- What one promotion makes main, no later one takes back, so that the positions add up.
    rw [List.foldl_cons, ih, getElem?_promote, length_promote, or_assoc, ← and_or_left]
    simp only [List.exists_mem_cons_iff]

/-- Where every entry point has a provider that is stored, further registrations change no promotion. -/
theorem promoteProviders_of_extends {next : Registry} (hext : registry.Extends next)
    {names : List Namespace} {roles promoted : List Role}
    (h : promoteProviders registry positions names roles = .ok promoted) :
    promoteProviders next positions names roles = .ok promoted := by
  induction names generalizing roles with
  | nil => exact h
  | cons ns rest ih =>
    rw [promoteProviders] at h
    cases hresolve : registry.resolve ns with
    -- A namespace without a provider would have been reported.
    | none => simp [hresolve] at h
    | some provider =>
      simp only [hresolve] at h
      simp only [promoteProviders, hext ns provider hresolve]
      cases hfind : positions.find? provider with
      | none => simp [hfind] at h
      | some i =>
        simp only [hfind] at h
        exact ih h

end Role

end BuildOrder
