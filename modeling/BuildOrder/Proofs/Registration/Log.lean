import BuildOrder.Proofs.Registration
import Mathlib.Data.List.Infix

/-! # The log of claims

Units are registered one at a time, up to a conflict, or many at once, past all conflicts.  The log
lists the claims to namespaces that such calls reach, conflicts or not, and says without a registry
which unit is the first to claim a namespace.

* `Represents.performAll`     a registry resolves what the log of its calls has an owner for
* `register_conflict`         what a registration adds that ends at a conflict
* `Represents.conflicts_eq`   which conflicts a registration of many units collects
* `performAll_firstWins`      the first claim to a namespace decides, whatever failed on the way
-/

namespace BuildOrder.Registry

open SourceUnit

/-- A registration of one unit, up to its first conflict, or of many, past all their conflicts. -/
inductive Call
  | register (u : SourceUnit)
  | registerAll (units : List SourceUnit)

/-- What a registry is after a call, be there conflicts or not. -/
def perform (r : Registry) : Call → Registry
  | .register u => (r.register u).1
  | .registerAll units => (r.registerAll units).1

/-- What a registry is after several calls. -/
def performAll (r : Registry) (calls : List Call) : Registry := calls.foldl perform r

/-! ## Logs -/

/-- The unit of the earliest claim to a namespace. -/
def owner (log : List (SourceUnit × Namespace)) (ns : Namespace) : Option SourceUnit :=
  (log.find? fun claim => claim.2 == ns).map Prod.fst

/-- The conflict of a claim with the log before it, where another unit owns the namespace. -/
def clash? (log : List (SourceUnit × Namespace)) (claim : SourceUnit × Namespace) : Option Conflict :=
  match owner log claim.2 with
  | some first => if first.same claim.1 then none else some ⟨claim.2, first, claim.1⟩
  | none => none

/-- The claims that a call reaches after others: those of one unit before its first conflict, or else
    all claims of many units. -/
def reaches (log : List (SourceUnit × Namespace)) : Call → List (SourceUnit × Namespace)
  | .register u => (u.provides.takeWhile fun ns => (clash? log (u, ns)).isNone).map fun ns => (u, ns)
  | .registerAll units => claims units

/-- The log after several calls. -/
def logAfter (log : List (SourceUnit × Namespace)) (calls : List Call) : List (SourceUnit × Namespace) :=
  calls.foldl (fun log call => log ++ reaches log call) log

variable {log : List (SourceUnit × Namespace)}

/-- A namespace that has an owner keeps it when more is logged. -/
theorem owner_append (log more : List (SourceUnit × Namespace)) (ns : Namespace) :
    owner (log ++ more) ns = (owner log ns).or (owner more ns) := by
  rw [owner, List.find?_append, Option.map_or]
  rfl

/-- One claim makes its unit the owner of its namespace and of no other. -/
theorem owner_singleton (u : SourceUnit) (ns other : Namespace) :
    owner [(u, ns)] other = if other = ns then some u else none := by
  by_cases h : other = ns
  · simp [owner, h]
  · simp [owner, h, Ne.symm h]

/-- The owner of a namespace has claimed it. -/
theorem mem_of_owner {ns : Namespace} {u : SourceUnit} (h : owner log ns = some u) : (u, ns) ∈ log := by
  obtain ⟨claim, hfind, rfl⟩ := Option.map_eq_some_iff.1 h
  obtain rfl : claim.2 = ns := by simpa using List.find?_some hfind
  exact List.mem_of_find?_eq_some hfind

/-- Its own claims are no obstacle to a unit. -/
theorem clash?_append_self (log : List (SourceUnit × Namespace)) (u : SourceUnit) (ns other : Namespace) :
    clash? (log ++ [(u, ns)]) (u, other) = clash? log (u, other) := by
  unfold clash?
  dsimp only
  rw [owner_append, owner_singleton]
  cases owner log other with
  | some first => rfl
  | none => by_cases h : other = ns <;> simp [h]

/-- A unit claims only what it declares. -/
theorem mem_provides_of_mem_logAfter {calls : List Call} {claim : SourceUnit × Namespace}
    (hlog : ∀ claim ∈ log, claim.2 ∈ claim.1.provides) (h : claim ∈ logAfter log calls) :
    claim.2 ∈ claim.1.provides := by
  induction calls generalizing log with
  | nil => exact hlog claim h
  | cons call rest ih =>
    refine ih (fun claim hclaim => ?_) h
    rcases List.mem_append.1 hclaim with hclaim | hclaim
    · exact hlog claim hclaim
    · cases call with
      | register u =>
        obtain ⟨ns, hns, rfl⟩ := List.mem_map.1 hclaim
        -- A unit that is registered alone reaches some of its own names, from the first on.
        exact (List.takeWhile_sublist _).subset hns
      | registerAll units => exact (mem_claims.1 hclaim).2

/-! ## A registry and its log -/

/-- A registry resolves each namespace to its owner by a log. -/
def Represents (r : Registry) (log : List (SourceUnit × Namespace)) : Prop :=
  ∀ ns, r.resolve ns = owner log ns

variable {r next : Registry}

theorem represents_empty : empty.Represents [] := fun _ => rfl

/-- A claim is a conflict in the registry when it clashes with the log. -/
theorem Represents.clash?_eq (h : r.Represents log) (u : SourceUnit) (ns : Namespace) :
    clash? log (u, ns) =
      match r.claim u ns with
      | .ok _ => none
      | .error conflict => some conflict := by
  rw [clash?, ← h ns]
  cases hclaim : r.claim u ns with
  -- A claim is granted where its namespace is free or belongs to the unit, and then the log shows no
  -- other owner.
  | ok next =>
    have hown := exists_claim_iff.1 ⟨next, hclaim⟩
    cases hresolve : r.resolve ns with
    | none => rfl
    | some first => simp [hown first hresolve]
  | error conflict =>
    obtain ⟨first, hfirst, hother, rfl⟩ := claim_eq_error hclaim
    simp [hfirst, hother]

/-- A claim that is granted may be logged. -/
theorem Represents.claim_ok {u : SourceUnit} {ns : Namespace} (h : r.Represents log)
    (hclaim : r.claim u ns = .ok next) : next.Represents (log ++ [(u, ns)]) := by
  intro other
  rw [resolve_claim hclaim, h other, owner_append, owner_singleton]

/-- A conflict may be logged as well, since its namespace has an owner. -/
theorem Represents.claim_error {u : SourceUnit} {ns : Namespace} {conflict : Conflict}
    (h : r.Represents log) (hclaim : r.claim u ns = .error conflict) : r.Represents (log ++ [(u, ns)]) := by
  intro other
  obtain ⟨first, hfirst, -⟩ := claim_eq_error hclaim
  rw [owner_append, owner_singleton, ← h other]
  -- Only the claimed namespace is affected, and the owner that it has comes first.
  by_cases hother : other = ns
  · rw [hother, hfirst, Option.some_or]
  · simp [hother]

/-- The claims of one unit up to its first conflict may be logged, as far as the log itself lets them
    go. -/
theorem Represents.claimAll (h : r.Represents log) (u : SourceUnit) (names : List Namespace) :
    (r.claimAll u names).1.Represents
      (log ++ (names.takeWhile fun ns => (clash? log (u, ns)).isNone).map fun ns => (u, ns)) := by
  -- The registry and the log grow together, claim by claim.
  induction names generalizing r log with
  | nil => simpa [Registry.claimAll] using h
  | cons ns rest ih =>
    have hclash := h.clash?_eq u ns
    rw [Registry.claimAll]
    split <;> rename_i hclaim <;> simp only [hclaim] at hclash
    · -- What clashes later clashes with the log before this call.
      have hrest := ih (h.claim_ok hclaim)
      simp only [clash?_append_self] at hrest
      simpa [List.takeWhile_cons, hclash] using hrest
    · simpa [List.takeWhile_cons, hclash] using h

/-- Claims are conflicts when they clash with the claims made before them. -/
theorem Represents.claimEach (h : r.Represents log) (pairs : List (SourceUnit × Namespace)) :
    (r.claimEach pairs).1.Represents (log ++ pairs) ∧
      (r.claimEach pairs).2 = (pairs.inits.zip pairs).filterMap fun p => clash? (log ++ p.1) p.2 := by
  -- Each claim is compared with the log so far, which is the given log and the claims before it.
  induction pairs generalizing r log with
  | nil => simpa [Registry.claimEach] using h
  | cons pair rest ih =>
    obtain ⟨u, ns⟩ := pair
    have hclash := h.clash?_eq u ns
    rw [Registry.claimEach]
    split <;> rename_i hclaim <;> simp only [hclaim] at hclash
    · obtain ⟨hrest, hconflicts⟩ := ih (h.claim_ok hclaim)
      refine ⟨by simpa using hrest, ?_⟩
      rw [hconflicts]
      simp [List.zip_map_left, List.filterMap_map, hclash]
    · obtain ⟨hrest, hconflicts⟩ := ih (h.claim_error hclaim)
      refine ⟨by simpa using hrest, ?_⟩
      rw [hconflicts]
      simp [List.zip_map_left, List.filterMap_map, hclash]

/-- What a call leaves in a registry is what the claims that it reaches leave in the log. -/
theorem Represents.perform (h : r.Represents log) (call : Call) :
    (r.perform call).Represents (log ++ reaches log call) := by
  cases call with
  | register u => exact h.claimAll u u.provides
  | registerAll units =>
    rw [Registry.perform, registerAll_eq]
    exact (h.claimEach (claims units)).1

/-- A registry resolves what the log of its calls has an owner for. -/
theorem Represents.performAll (h : r.Represents log) (calls : List Call) :
    (r.performAll calls).Represents (logAfter log calls) := by
  induction calls generalizing r log with
  | nil => exact h
  | cons call rest ih => exact ih (h.perform call)

/-- The conflicts of many units are the clashes of their claims with those made before. -/
theorem Represents.conflicts_eq (h : r.Represents log) (units : List SourceUnit) :
    (r.registerAll units).2 =
      ((claims units).inits.zip (claims units)).filterMap fun p => clash? (log ++ p.1) p.2 := by
  rw [registerAll_eq]
  exact (h.claimEach (claims units)).2

/-- No call changes a provider. -/
theorem extends_perform (r : Registry) (call : Call) : r.Extends (r.perform call) := by
  cases call with
  -- Past a conflict or up to it, claims change no provider.
  | register u => exact extends_claimAll r u u.provides
  | registerAll units =>
    rw [Registry.perform, registerAll_eq]
    exact extends_claimEach r (claims units)

/-- No number of calls changes a provider. -/
theorem extends_performAll (r : Registry) (calls : List Call) : r.Extends (r.performAll calls) := by
  induction calls generalizing r with
  | nil => exact Extends.refl r
  | cons call rest ih => exact (extends_perform r call).trans (ih _)

/-! ## Conflicts -/

/-- Claims that end at a conflict have been granted up to there, and have added what was free. -/
theorem claimAll_conflict {u : SourceUnit} {names : List Namespace} {c : Conflict}
    (h : (r.claimAll u names).2 = some c) :
    ∃ before after, names = before ++ c.ns :: after ∧
      (∀ ns ∈ before, ∀ v, r.resolve ns = some v → v.identity = u.identity) ∧
      r.resolve c.ns = some c.first ∧ c.first.identity ≠ u.identity ∧ c.second = u ∧
      ∀ ns, (r.claimAll u names).1.resolve ns = (r.resolve ns).or (if ns ∈ before then some u else none) := by
  induction names generalizing r with
  | nil => cases h
  | cons name rest ih =>
    rw [Registry.claimAll] at h ⊢
    split at h
    · rename_i next hnext
      obtain ⟨before, after, rfl, hbefore, hfirst, hother, hsecond, hresolve⟩ := ih h
      refine ⟨name :: before, after, rfl, fun ns hns v hv => ?_, ?_, hother, hsecond, fun ns => ?_⟩
      · rcases List.mem_cons.1 hns with rfl | hns
        · exact exists_claim_iff.1 ⟨next, hnext⟩ v hv
        · exact hbefore ns hns v (extends_claim hnext ns v hv)
      · -- The other unit was there before the first claim.
        rcases resolve_claim_cases hnext hfirst with hfirst | ⟨hsame, -⟩
        · exact hfirst
        · exact absurd (congrArg identity hsame) hother
      · rw [hresolve ns, resolve_claim hnext, Option.or_assoc]
        by_cases hns : ns = name <;> simp [hns]
    · rename_i conflict hconflict
      obtain rfl := Option.some.inj h
      obtain ⟨first, hfirst, hother, rfl⟩ := claim_eq_error hconflict
      -- The first claim is the conflict, and nothing has been added.
      exact ⟨[], rest, rfl, by simp, hfirst, hother, rfl, by simp⟩

/-- A registration that fails does so at the first namespace of another unit.  It adds the namespaces
    before that one which had no provider, and nothing else. -/
theorem register_conflict {u : SourceUnit} {c : Conflict} (h : (r.register u).2 = some c) :
    ∃ before after, u.provides = before ++ c.ns :: after ∧
      (∀ ns ∈ before, ∀ v, r.resolve ns = some v → v.identity = u.identity) ∧
      r.resolve c.ns = some c.first ∧ c.first.identity ≠ u.identity ∧ c.second = u ∧
      ∀ ns, (r.register u).1.resolve ns = (r.resolve ns).or (if ns ∈ before then some u else none) :=
  claimAll_conflict h

/-- Whatever calls were made and failed, a namespace resolves to the unit whose claim reached it first.
    That unit declares it, and no later call changes this.  A registration fails exactly where a
    namespace of the unit belongs to another unit, and then adds what was free before it.  The conflicts
    that are collected are, in their order, the claims to what belonged to another unit by then. -/
theorem performAll_firstWins (calls : List Call) (r : Registry) (log : List (SourceUnit × Namespace))
    (hr : r = empty.performAll calls) (hlog : log = logAfter [] calls) :
    (∀ ns, r.resolve ns = owner log ns) ∧
    (∀ ns u, r.resolve ns = some u → ns ∈ u.provides) ∧
    (∀ later, r.Extends (r.performAll later)) ∧
    (∀ u, (∃ c, (r.register u).2 = some c) ↔
      ∃ ns ∈ u.provides, ∃ v, r.resolve ns = some v ∧ v.identity ≠ u.identity) ∧
    (∀ u c, (r.register u).2 = some c → ∃ before after, u.provides = before ++ c.ns :: after ∧
      (∀ ns ∈ before, ∀ v, r.resolve ns = some v → v.identity = u.identity) ∧
      r.resolve c.ns = some c.first ∧ c.first.identity ≠ u.identity ∧ c.second = u ∧
      ∀ ns, (r.register u).1.resolve ns = (r.resolve ns).or (if ns ∈ before then some u else none)) ∧
    ∀ units, (r.registerAll units).2 =
      ((claims units).inits.zip (claims units)).filterMap fun p => clash? (log ++ p.1) p.2 := by
  -- Everything about what resolves can be read off the log.
  have hrepresents : r.Represents log := by
    rw [hr, hlog]
    exact represents_empty.performAll calls
  refine ⟨hrepresents, fun ns u hu => ?_, extends_performAll r, fun u => ?_, fun u c => register_conflict,
    hrepresents.conflicts_eq⟩
  · -- The owner has made a claim to the namespace, and the log has only claims to what units declare.
    have hmem : (u, ns) ∈ logAfter [] calls := hlog ▸ mem_of_owner ((hrepresents ns).symm.trans hu)
    exact mem_provides_of_mem_logAfter (fun _ h => absurd h List.not_mem_nil) hmem
  · -- That there is a conflict says that the condition for none of them fails.
    rw [← Option.ne_none_iff_exists', ne_eq, register_snd_eq_none_iff]
    simp

/-- A unit with a namespace that is free, one of another unit, and one more that is free. -/
def latecomer : SourceUnit := .ordinary "late.js" [⟨"w"⟩, ⟨"z"⟩, ⟨"q"⟩] []

/-- The rivals with all their conflicts, then the unit up to its own. -/
def rivalsThenLatecomer : List Call := [.registerAll rivals, .register latecomer]

/-- The unit has the namespace before its conflict and not the one after it.  Registered again, it fails
    at the same namespace. -/
theorem performAll_firstWins_of_rivals :
    ∃ r log, r = empty.performAll rivalsThenLatecomer ∧ log = logAfter [] rivalsThenLatecomer ∧
      log.map (fun claim => (claim.1.id, claim.2.name)) =
        [("a.js", "x"), ("a.js", "y"), ("b.js", "x"), ("c.js", "y"), ("c.js", "z"), ("late.js", "w")] ∧
      r.resolve ⟨"w"⟩ = some latecomer ∧ r.resolve ⟨"q"⟩ = none ∧ ⟨"w"⟩ ∈ latecomer.provides ∧
      ∃ c, (r.register latecomer).2 = some c ∧ c.ns = ⟨"z"⟩ ∧ r.resolve c.ns = some c.first ∧
        c.first.identity ≠ latecomer.identity := by
  obtain ⟨howner, hdeclared, -, -, hconflict, -⟩ := performAll_firstWins rivalsThenLatecomer _ _ rfl rfl
  have hw : (empty.performAll rivalsThenLatecomer).resolve ⟨"w"⟩ = some latecomer := by
    rw [howner]
    decide +kernel
  have hq : (empty.performAll rivalsThenLatecomer).resolve ⟨"q"⟩ = none := by
    rw [howner]
    decide +kernel
  have hns : ((empty.performAll rivalsThenLatecomer).register latecomer).2.map Conflict.ns = some ⟨"z"⟩ := by
    decide +kernel
  obtain ⟨c, hc, hz⟩ := Option.map_eq_some_iff.1 hns
  obtain ⟨-, -, -, -, hfirst, hother, -⟩ := hconflict latecomer c hc
  exact ⟨_, _, rfl, rfl, by decide +kernel, hw, hq, hdeclared _ _ hw, c, hc, hz, hfirst, hother⟩

end BuildOrder.Registry
