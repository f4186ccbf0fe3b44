import BuildOrder.Registry
import Mathlib.Logic.Relation

/-! # What a registration leaves in the registry

* `resolve_claim`            a claimed namespace keeps its provider, or else gets the unit
* `extends_register`         a registration changes no provider, even when it fails
* `resolve_register_cases`   and it adds no other provider than the registered unit
* `register_snd_eq_none_iff` it fails only where another unit provides one of the namespaces
* `exists_resolve_register`  and otherwise the unit provides all of them afterwards
-/

namespace BuildOrder.Registry

/-- A unit requires a namespace that another unit provides. -/
def Requires (r : Registry) (u v : SourceUnit) : Prop := ∃ ns ∈ u.requires, r.resolve ns = some v

/-- A unit requires a namespace, and its provider is the same unit as another one. -/
def RequiresSame (r : Registry) (u v : SourceUnit) : Prop := ∃ p, r.Requires u p ∧ p.identity = v.identity

/-- A unit requires a namespace that nobody provides. -/
def Lacks (r : Registry) (u : SourceUnit) : Prop := ∃ ns ∈ u.requires, r.resolve ns = none

/-- The first of several units that requires what nobody provides, with the first such requirement. -/
def FirstGap (r : Registry) (units : List SourceUnit) (u : SourceUnit) (ns : Namespace) : Prop :=
  (∃ before after, units = before ++ u :: after ∧ ∀ v ∈ before, ¬ r.Lacks v) ∧
    u.requires.find? (fun ns => (r.resolve ns).isNone) = some ns

theorem FirstGap.mem {r : Registry} {units : List SourceUnit} {u : SourceUnit} {ns : Namespace}
    (h : r.FirstGap units u ns) : u ∈ units := by
  obtain ⟨⟨before, after, rfl, -⟩, -⟩ := h
  simp

theorem FirstGap.mem_requires {r : Registry} {units : List SourceUnit} {u : SourceUnit} {ns : Namespace}
    (h : r.FirstGap units u ns) : ns ∈ u.requires :=
  List.mem_of_find?_eq_some h.2

/-- Nobody provides the namespace of the first gap. -/
theorem FirstGap.resolve_eq_none {r : Registry} {units : List SourceUnit} {u : SourceUnit} {ns : Namespace}
    (h : r.FirstGap units u ns) : r.resolve ns = none := by
  simpa using List.find?_some h.2

/-- What resolves in one registry resolves alike in another. -/
def Extends (r next : Registry) : Prop := ∀ ns u, r.resolve ns = some u → next.resolve ns = some u

theorem Extends.refl (r : Registry) : r.Extends r := fun _ _ h => h

theorem Extends.trans {r s t : Registry} (hrs : r.Extends s) (hst : s.Extends t) : r.Extends t :=
  fun ns u h => hst ns u (hrs ns u h)

/-- After a claim, a namespace has the provider that it had; the claimed one has the unit if it had
    none. -/
theorem resolve_claim {r next : Registry} {u : SourceUnit} {ns : Namespace} (h : r.claim u ns = .ok next)
    (other : Namespace) :
    next.resolve other = (r.resolve other).or (if other = ns then some u else none) := by
  unfold claim at h
  split at h
  · -- The namespace has a provider already, which is the unit itself.
    rename_i first hfirst
    split at h
    · obtain rfl := Except.ok.inj h
      by_cases hother : other = ns
      · subst hother
        simp [hfirst]
      · simp [hother]
    · cases h
  · -- Nobody provides the namespace yet, so that the unit is added for it.
    rename_i hfree
    obtain rfl := Except.ok.inj h
    rw [resolve_add]
    by_cases hother : other = ns
    · subst hother
      simp [hfree]
    · simp [hother]

/-- A claim adds no other provider than the unit that claims. -/
theorem resolve_claim_cases {r next : Registry} {u v : SourceUnit} {ns other : Namespace}
    (h : r.claim u ns = .ok next) (hv : next.resolve other = some v) :
    r.resolve other = some v ∨ (v = u ∧ other = ns) := by
  rw [resolve_claim h, Option.or_eq_some_iff] at hv
  rcases hv with hv | ⟨-, hv⟩
  · exact .inl hv
  · obtain ⟨hns, hv⟩ := Option.ite_none_right_eq_some.1 hv
    exact .inr ⟨(Option.some.inj hv).symm, hns⟩

/-- A claim changes no provider. -/
theorem extends_claim {r next : Registry} {u : SourceUnit} {ns : Namespace}
    (h : r.claim u ns = .ok next) : r.Extends next := by
  intro other v hv
  simp [resolve_claim h, hv]

/-- Claims up to the first conflict change no provider, whether or not there is a conflict. -/
theorem extends_claimAll (r : Registry) (u : SourceUnit) (names : List Namespace) :
    r.Extends (r.claimAll u names).1 := by
  induction names generalizing r with
  -- There are no more claims, or the first one failed and left the registry as it was.
  | nil => exact Extends.refl r
  | cons ns rest ih =>
    rw [claimAll]
    split
    · rename_i next hnext
      exact (extends_claim hnext).trans (ih next)
    · exact Extends.refl r

/-- A registration changes no provider, even when it fails. -/
theorem extends_register {r next : Registry} {u : SourceUnit} {conflict : Option Conflict}
    (hregister : r.register u = (next, conflict)) : r.Extends next := by
  have hext : r.Extends (r.register u).1 := extends_claimAll r u u.provides
  rwa [hregister] at hext

/-- Claims up to the first conflict add no other provider than the unit that claims, and it only for
    what is claimed. -/
theorem resolve_claimAll_cases (r : Registry) (u : SourceUnit) (names : List Namespace)
    {ns : Namespace} {v : SourceUnit} (h : (r.claimAll u names).1.resolve ns = some v) :
    r.resolve ns = some v ∨ (v = u ∧ ns ∈ names) := by
  induction names generalizing r with
  | nil => exact .inl h
  | cons name rest ih =>
    rw [claimAll] at h
    split at h
    · rename_i next hnext
      -- Either the first namespace was claimed or one of the others.
      rcases ih next h with hv | ⟨hv, hns⟩
      · refine (resolve_claim_cases hnext hv).imp_right fun ⟨hsame, hns⟩ => ⟨hsame, ?_⟩
        exact hns ▸ List.mem_cons_self
      · exact .inr ⟨hv, List.mem_cons_of_mem _ hns⟩
    · -- The registry stays as it is at a conflict.
      exact .inl h

/-- A registration adds no other provider than the registered unit. -/
theorem resolve_register_cases (r : Registry) (u : SourceUnit) {ns : Namespace} {v : SourceUnit}
    (h : (r.register u).1.resolve ns = some v) : r.resolve ns = some v ∨ (v = u ∧ ns ∈ u.provides) :=
  resolve_claimAll_cases r u u.provides h

/-! ## Registrations without conflict -/

/-- A namespace can be claimed unless another unit provides it. -/
theorem exists_claim_iff {r : Registry} {u : SourceUnit} {ns : Namespace} :
    (∃ next, r.claim u ns = .ok next) ↔ ∀ v, r.resolve ns = some v → v.identity = u.identity := by
  unfold claim
  split
  · rename_i first hfirst
    split
    · rename_i hsame
      simpa [hfirst] using hsame
    · rename_i hother
      simpa [hfirst] using hother
  · rename_i hfree
    simp [hfree]

/-- After a claim the namespace belongs to the unit that made it, if not as the same value. -/
theorem exists_resolve_claim {r next : Registry} {u : SourceUnit} {ns : Namespace}
    (h : r.claim u ns = .ok next) : ∃ v, next.resolve ns = some v ∧ v.identity = u.identity := by
  cases hresolve : r.resolve ns with
  | none => exact ⟨u, by simp [resolve_claim h, hresolve], rfl⟩
  -- The provider that was there is the same unit, or the claim would have failed.
  | some v => exact ⟨v, extends_claim h ns v hresolve, exists_claim_iff.1 ⟨next, h⟩ v hresolve⟩

/-- Several claims go through when none of the namespaces belongs to another unit beforehand. -/
theorem claimAll_snd_eq_none_iff {r : Registry} {u : SourceUnit} {names : List Namespace} :
    (r.claimAll u names).2 = none ↔
      ∀ ns ∈ names, ∀ v, r.resolve ns = some v → v.identity = u.identity := by
  -- The claims that follow are made in a registry that has grown, so that the registry is general here.
  induction names generalizing r with
  | nil => simp [claimAll]
  | cons name rest ih =>
    rw [claimAll, List.forall_mem_cons, ← exists_claim_iff]
    split
    · rename_i next hnext
      rw [ih]
      constructor
      · intro h
        -- What the registry resolved before the first claim it resolves alike after it.
        exact ⟨⟨next, hnext⟩, fun ns hns v hv => h ns hns v (extends_claim hnext ns v hv)⟩
      · rintro ⟨-, h⟩ ns hns v hv
        -- What the first claim adds belongs to the unit itself.
        rcases resolve_claim_cases hnext hv with hv | ⟨rfl, -⟩
        · exact h ns hns v hv
        · rfl
    · rename_i conflict hconflict
      simp [hconflict]

/-- A registration fails only where another unit provides one of the namespaces. -/
theorem register_snd_eq_none_iff {r : Registry} {u : SourceUnit} :
    (r.register u).2 = none ↔ ∀ ns ∈ u.provides, ∀ v, r.resolve ns = some v → v.identity = u.identity :=
  claimAll_snd_eq_none_iff

/-- After several claims without conflict, all the namespaces belong to the unit. -/
theorem exists_resolve_claimAll {r next : Registry} {u : SourceUnit} {names : List Namespace}
    (h : r.claimAll u names = (next, none)) {ns : Namespace} (hns : ns ∈ names) :
    ∃ v, next.resolve ns = some v ∧ v.identity = u.identity := by
  induction names generalizing r with
  | nil => exact absurd hns List.not_mem_nil
  | cons name rest ih =>
    rw [claimAll] at h
    split at h
    · rename_i claimed hclaimed
      rcases List.mem_cons.1 hns with rfl | hns
      · -- The first namespace is claimed at once, and what follows does not take it away.
        obtain ⟨v, hv, hsame⟩ := exists_resolve_claim hclaimed
        have hext : claimed.Extends (claimed.claimAll u rest).1 := extends_claimAll claimed u rest
        rw [h] at hext
        exact ⟨v, hext ns v hv, hsame⟩
      · exact ih h hns
    · cases (Prod.mk.inj h).2

/-- After a registration without conflict, the unit provides all its namespaces. -/
theorem exists_resolve_register {r next : Registry} {u : SourceUnit}
    (hregister : r.register u = (next, none)) {ns : Namespace} (hns : ns ∈ u.provides) :
    ∃ v, next.resolve ns = some v ∧ v.identity = u.identity :=
  exists_resolve_claimAll hregister hns

end BuildOrder.Registry
