import BuildOrder.Session.History
import Mathlib.Logic.Relation

/-! # The changes that operations make

Each operation is a sequence of a few kinds of change.  What every change preserves holds after
every history.

* `steps_apply`             an operation makes changes, and refused units may leave registrations
* `changes_apply`           only an operation that fails to add a unit leaves such registrations
* `addEach_invariant`       what one addition preserves is preserved by several
* `sameSettings_insert`     additions leave the policy and the entry points alone
* `invariant_after`         an invariant holds after every history
* `invariant_after_adds`    it need not allow for refused units where no unit is refused
-/

namespace BuildOrder

open Relation

/-- Whether an operation adds units. -/
def Operation.addsUnits : Operation → Bool
  | .addMains _ | .addCandidates _ => true
  | _ => false

namespace Session

/-- A change of a session that belongs to an operation which succeeds. -/
inductive Change (s : Session) : Session → Prop
  /-- A new unit is registered and stored. -/
  | store {u : SourceUnit} {role : Role} {registry : Registry} (hnew : s.positions.find? u = none)
      (hregister : s.registry.register u = (registry, none)) (hbase : u.runtimeBase = true → role = .main) :
      Change s
        { s with
          registry
          positions := s.positions.insert u s.units.length
          units := s.units ++ [u]
          roles := s.roles ++ [role]
          stale := true }
  /-- A candidate becomes main. -/
  | promote {u : SourceUnit} {i : Nat} (hfind : s.positions.find? u = some i)
      (hlimbo : s.roles[i]? = some .limbo) :
      Change s { s with roles := s.roles.set i .main, stale := true }
  /-- A namespace is named as an entry point. -/
  | name {ns : Namespace} (hnew : ns ∉ s.entryPoints) :
      Change s { s with entryPoints := s.entryPoints ++ [ns], stale := true }
  /-- The policy becomes another. -/
  | configure {policy : Policy} (hnew : s.policy ≠ policy) : Change s { s with policy, stale := true }
  /-- A manifest is computed and kept. -/
  | commit {roles : List Role} {units : List SourceUnit} (hstale : s.stale = true)
      (hcompute : s.compute = .ok (roles, units)) :
      Change s { s with roles, entryPoints := [], cached := some units, stale := false }

/-- A change of a session that belongs to any operation. -/
inductive Step (s : Session) : Session → Prop
  | change {t : Session} (h : Change s t) : Step s t
  /-- A new unit is refused; what was registered before the conflict stays. -/
  | refuse {u : SourceUnit} {registry : Registry} {conflict : Conflict}
      (hnew : s.positions.find? u = none) (hregister : s.registry.register u = (registry, some conflict)) :
      Step s { s with registry }

/-- The session after a list of operations. -/
def after (s : Session) (ops : List Operation) : Session := (s.runAll ops).1

/-- No operation adds a unit that is refused. -/
def AddsSucceed (s : Session) (ops : List Operation) : Prop :=
  ∀ op answer, (op, answer) ∈ ops.zip (s.runAll ops).2 → op.addsUnits = true →
    ∀ fault, answer ≠ .failed fault

theorem after_cons (s : Session) (op : Operation) (ops : List Operation) :
    s.after (op :: ops) = (s.apply op).1.after ops := rfl

/-- A list of operations refuses no unit when the first one refuses none, nor the others after it. -/
theorem addsSucceed_cons {s : Session} {op : Operation} {ops : List Operation} :
    s.AddsSucceed (op :: ops) ↔
      (op.addsUnits = true → ∀ fault, (s.apply op).2 ≠ .failed fault) ∧
        (s.apply op).1.AddsSucceed ops := by
  simp only [AddsSucceed, runAll, List.zip_cons_cons, List.mem_cons, Prod.mk.injEq]
  constructor
  · intro h
    exact ⟨h op _ (.inl ⟨rfl, rfl⟩), fun op' answer hmem => h op' answer (.inr hmem)⟩
  · -- An operation of the list with its answer is the first one or a later one.
    rintro ⟨hop, hops⟩ op' answer (⟨rfl, rfl⟩ | hmem)
    · exact hop
    · exact hops op' answer hmem

theorem after_append (s : Session) (xs ys : List Operation) :
    s.after (xs ++ ys) = (s.after xs).after ys := by
  induction xs generalizing s with
  | nil => rfl
  | cons op xs ih => exact ih (s.apply op).1

/-- No unit is refused by both when none is by either in its turn. -/
theorem addsSucceed_append {s : Session} {xs ys : List Operation} :
    s.AddsSucceed (xs ++ ys) ↔ s.AddsSucceed xs ∧ (s.after xs).AddsSucceed ys := by
  induction xs generalizing s with
  | nil =>
    have hnil : s.AddsSucceed [] := fun _ _ hmem => absurd hmem List.not_mem_nil
    exact (and_iff_right hnil).symm
  | cons op xs ih => rw [List.cons_append, addsSucceed_cons, addsSucceed_cons, ih, after_cons, and_assoc]

/-- No unit is refused when no operation fails at all. -/
theorem addsSucceed_of_answers {s : Session} {ops : List Operation}
    (h : ∀ answer ∈ (s.runAll ops).2, ∀ fault, answer ≠ .failed fault) : s.AddsSucceed ops :=
  fun _ answer hmem _ => h answer (List.of_mem_zip hmem).2

/-! ## Operations as sequences of changes -/

/-- What an addition does is a sequence of changes, unless a unit is refused. -/
def Result.Follows (s : Session) (r : Result) : Prop :=
  ReflTransGen Step s r.1 ∧ (r.2 = none → ReflTransGen Change s r.1)

/-- The session that an addition leaves is reached by changes, be its unit refused or not. -/
theorem Result.Follows.steps {s next : Session} {r : Result} {fault : Option Fault} (h : r.Follows s)
    (hr : r = (next, fault)) : ReflTransGen Step s next := by
  rw [hr] at h
  exact h.1

/-- A single change is what an addition may do. -/
theorem follows_of_change {s t : Session} (h : Change s t) : Result.Follows s (t, none) :=
  ⟨.single (.change h), fun _ => .single h⟩

theorem follows_refl (s : Session) : Result.Follows s (s, none) := ⟨.refl, fun _ => .refl⟩

/-- Storing a new unit is one change, unless the unit is refused. -/
theorem follows_insert {s : Session} {u : SourceUnit} {role : Role} (hnew : s.positions.find? u = none)
    (hbase : u.runtimeBase = true → role = .main) : (s.insert u role).Follows s := by
  unfold insert
  split
  · rename_i registry hregister
    exact follows_of_change (.store hnew hregister hbase)
  · rename_i registry conflict hregister
    -- The unit is refused, and the addition has a fault to answer.
    exact ⟨.single (.refuse hnew hregister), fun h => by cases h⟩

/-- Adding a main unit stores it, promotes it, or does nothing. -/
theorem follows_addMain (s : Session) (u : SourceUnit) : (s.addMain u).Follows s := by
  unfold addMain
  split
  · rename_i hnew
    exact follows_insert hnew fun _ => rfl
  · rename_i i hfind
    split
    · rename_i hlimbo
      -- A candidate becomes main where it stands.
      exact follows_of_change (.promote hfind hlimbo)
    · exact follows_refl s

/-- Adding a candidate stores it or does nothing. -/
theorem follows_addCandidate (s : Session) (u : SourceUnit) : (s.addCandidate u).Follows s := by
  unfold addCandidate
  split
  · exact follows_refl s
  · rename_i hnew
    -- A runtime base gets no other role than main.
    refine follows_insert (by simpa [contains] using hnew) fun hbase => ?_
    rw [if_pos hbase]

/-- Adding several units makes the changes of each, up to a unit that is refused. -/
theorem follows_addEach {add : Session → SourceUnit → Result}
    (hadd : ∀ s u, (add s u).Follows s) (s : Session) (units : List SourceUnit) :
    (addEach add s units).Follows s := by
  induction units generalizing s with
  | nil => exact follows_refl s
  | cons u rest ih =>
    -- What the first unit changes comes before what the others change.
    have hfirst := hadd s u
    rw [addEach]
    split
    · rename_i next hnext
      rw [hnext] at hfirst
      obtain ⟨hsteps, hchanges⟩ := ih next
      exact ⟨hfirst.1.trans hsteps, fun h => (hfirst.2 rfl).trans (hchanges h)⟩
    · rename_i next fault hnext
      rw [hnext] at hfirst
      -- The others are not added any more.
      exact ⟨hfirst.1, fun h => by cases h⟩

section AddEach

variable {add : Session → SourceUnit → Result} {s next last : Session}

theorem addEach_cons {u : SourceUnit} (h : add s u = (next, none)) (rest : List SourceUnit) :
    addEach add s (u :: rest) = addEach add next rest := by
  rw [addEach, h]

/-- No unit is refused when the first is not and none of the others after it. -/
theorem addEach_cons_eq_ok {u : SourceUnit} {rest : List SourceUnit}
    (h : addEach add s (u :: rest) = (last, none)) :
    ∃ next, add s u = (next, none) ∧ addEach add next rest = (last, none) := by
  rw [addEach] at h
  split at h
  · rename_i next hnext
    exact ⟨next, hnext, h⟩
  · cases (Prod.mk.inj h).2

/-- Units are added after others that were not refused. -/
theorem addEach_append {xs : List SourceUnit} (h : addEach add s xs = (next, none))
    (ys : List SourceUnit) : addEach add s (xs ++ ys) = addEach add next ys := by
  induction xs generalizing s with
  | nil =>
    obtain ⟨rfl, -⟩ := Prod.mk.inj h
    rfl
  | cons u rest ih =>
    -- Since no unit of the first list was refused, the first one was not.
    obtain ⟨first, hfirst, hrest⟩ := addEach_cons_eq_ok h
    rw [List.cons_append, addEach_cons hfirst, ih hrest]

/-- What the addition of each unit preserves is preserved by all of them. -/
theorem addEach_invariant {P : Session → Prop} {units : List SourceUnit}
    (hadd : ∀ s, ∀ u ∈ units, P s → P (add s u).1) (hs : P s) : P (addEach add s units).1 := by
  induction units generalizing s with
  | nil => exact hs
  | cons u rest ih =>
    have hfirst := hadd s u List.mem_cons_self hs
    rw [addEach]
    split
    · rename_i next hnext
      rw [hnext] at hfirst
      exact ih (fun s v hv => hadd s v (List.mem_cons_of_mem _ hv)) hfirst
    · rename_i next fault hnext
      rwa [hnext] at hfirst

/-- No unit is refused when none is while what its addition preserves holds. -/
theorem addEach_snd_eq_none {P : Session → Prop} {units : List SourceUnit}
    (hadd : ∀ s, ∀ u ∈ units, P s → (add s u).2 = none ∧ P (add s u).1) (hs : P s) :
    (addEach add s units).2 = none := by
  induction units generalizing s with
  | nil => rfl
  | cons u rest ih =>
    obtain ⟨hok, hnext⟩ := hadd s u List.mem_cons_self hs
    rw [addEach_cons (Prod.ext rfl hok)]
    exact ih (fun s v hv => hadd s v (List.mem_cons_of_mem _ hv)) hnext

end AddEach

/-- Naming entry points changes only those and whether the manifest is stale. -/
theorem exists_addEntryPoints_eq (s : Session) (names : List Namespace) :
    ∃ entryPoints stale, names.foldl addEntryPoint s = { s with entryPoints, stale } := by
  induction names generalizing s with
  | nil => exact ⟨s.entryPoints, s.stale, rfl⟩
  | cons ns rest ih =>
    obtain ⟨_, _, hfirst⟩ : ∃ entryPoints stale, s.addEntryPoint ns = { s with entryPoints, stale } := by
      unfold addEntryPoint
      split <;> exact ⟨_, _, rfl⟩
    obtain ⟨_, _, hrest⟩ := ih (s.addEntryPoint ns)
    rw [List.foldl_cons, hrest, hfirst]
    exact ⟨_, _, rfl⟩

/-- Naming entry points makes one change for each name that is new. -/
theorem changes_addEntryPoints (s : Session) (names : List Namespace) :
    ReflTransGen Change s (names.foldl addEntryPoint s) := by
  induction names generalizing s with
  | nil => exact .refl
  | cons ns rest ih =>
    have hfirst : ReflTransGen Change s (s.addEntryPoint ns) := by
      unfold addEntryPoint
      split
      · exact .refl
      · rename_i hnew
        exact .single (.name hnew)
    exact hfirst.trans (ih _)

/-- Setting the policy is one change, or none where it stays what it was. -/
theorem changes_setPolicy (s : Session) (policy : Policy) :
    ReflTransGen Change s (s.setPolicy policy) := by
  unfold setPolicy
  split
  · exact .refl
  · rename_i hnew
    exact .single (.configure hnew)

/-- A manifest that is computed is one change; one that is kept, or fails, is none. -/
theorem changes_manifest (s : Session) : ReflTransGen Change s s.manifest.1 := by
  unfold manifest
  split
  · rename_i hstale
    split
    · rename_i roles units hcompute
      -- Only a manifest that has been computed is kept.
      exact .single (.commit hstale hcompute)
    · exact .refl
  · split
    · exact .refl
    · exact .refl

/-- Asking for the manifest leaves the session that computing it leaves. -/
theorem apply_manifest_fst (s : Session) : (s.apply .manifest).1 = s.manifest.1 := by
  rw [apply]
  split <;> rename_i hmanifest <;> rw [hmanifest]

theorem Result.answer_fst (r : Result) : r.answer.1 = r.1 := by
  obtain ⟨t, fault⟩ := r
  cases fault <;> rfl

/-- An addition answers with a fault unless no unit is refused. -/
theorem Result.answer_ne_failed_iff {r : Result} :
    (∀ fault, r.answer.2 ≠ .failed fault) ↔ r.2 = none := by
  obtain ⟨t, fault⟩ := r
  cases fault <;> simp [answer]

/-- An operation that adds units makes the changes of the addition, and its answer shows whether a unit
    was refused. -/
theorem follows_apply {s : Session} {op : Operation} {r : Result} (h : r.Follows s)
    (hop : s.apply op = r.answer) :
    ReflTransGen Step s (s.apply op).1 ∧
      ((∀ fault, (s.apply op).2 ≠ .failed fault) → ReflTransGen Change s (s.apply op).1) := by
  -- The answer of an addition shows whether a unit was refused.
  obtain ⟨t, fault⟩ := r
  cases fault with
  | none => rw [hop]; exact ⟨h.1, fun _ => h.2 rfl⟩
  | some fault => rw [hop]; exact ⟨h.1, fun hanswer => absurd rfl (hanswer fault)⟩

/-- Only an operation that fails to add a unit leaves registrations of refused units. -/
theorem changes_apply {s : Session} {op : Operation}
    (hadds : op.addsUnits = true → ∀ fault, (s.apply op).2 ≠ .failed fault) :
    ReflTransGen Change s (s.apply op).1 := by
  cases op with
  -- The answer of an addition tells whether it was of changes only.
  | addMains units => exact (follows_apply (follows_addEach follows_addMain s units) rfl).2 (hadds rfl)
  | addCandidates units =>
    exact (follows_apply (follows_addEach follows_addCandidate s units) rfl).2 (hadds rfl)
  | addEntryPoints names => exact changes_addEntryPoints s names
  | setKeepAllUnits keep => exact changes_setPolicy s _
  | setKeepMoochers keep => exact changes_setPolicy s _
  | setKeepOriginalOrder keep => exact changes_setPolicy s _
  | setStrategy strategy => exact changes_setPolicy s _
  | setPolicy policy => exact changes_setPolicy s policy
  | manifest => rw [apply_manifest_fst]; exact changes_manifest s

/-- An operation makes changes, and refused units may leave registrations. -/
theorem steps_apply (s : Session) (op : Operation) : ReflTransGen Step s (s.apply op).1 := by
  -- Only an operation that adds units can leave registrations behind.
  by_cases hadds : op.addsUnits = true
  · cases op with
    | addMains units => exact (follows_apply (follows_addEach follows_addMain s units) rfl).1
    | addCandidates units => exact (follows_apply (follows_addEach follows_addCandidate s units) rfl).1
    | _ => cases hadds
  · have hchanges : ReflTransGen Change s (s.apply op).1 := changes_apply fun h => absurd h hadds
    exact hchanges.lift id fun _ _ => .change

/-! ## What additions leave alone -/

/-- Two sessions have the same policy and the same named entry points. -/
structure SameSettings (s t : Session) : Prop where
  policy : t.policy = s.policy
  entryPoints : t.entryPoints = s.entryPoints

theorem SameSettings.trans {s t r : Session} (h : SameSettings s t) (htr : SameSettings t r) :
    SameSettings s r :=
  ⟨htr.policy.trans h.policy, htr.entryPoints.trans h.entryPoints⟩

/-- Storing or refusing a unit leaves the settings alone. -/
theorem sameSettings_insert (s : Session) (u : SourceUnit) (role : Role) :
    SameSettings s (s.insert u role).1 := by
  unfold insert
  split <;> exact ⟨rfl, rfl⟩

theorem sameSettings_addMain (s : Session) (u : SourceUnit) : SameSettings s (s.addMain u).1 := by
  unfold addMain
  split
  · exact sameSettings_insert s u .main
  · split <;> exact ⟨rfl, rfl⟩

theorem sameSettings_addCandidate (s : Session) (u : SourceUnit) :
    SameSettings s (s.addCandidate u).1 := by
  unfold addCandidate
  split
  · exact ⟨rfl, rfl⟩
  · exact sameSettings_insert s u _

theorem sameSettings_addMains (s : Session) (units : List SourceUnit) :
    SameSettings s (addEach addMain s units).1 :=
  addEach_invariant (P := SameSettings s) (fun t u _ h => h.trans (sameSettings_addMain t u)) ⟨rfl, rfl⟩

theorem sameSettings_addCandidates (s : Session) (units : List SourceUnit) :
    SameSettings s (addEach addCandidate s units).1 :=
  addEach_invariant (P := SameSettings s) (fun t u _ h => h.trans (sameSettings_addCandidate t u))
    ⟨rfl, rfl⟩

/-! ## Invariants of histories -/

variable {P : Session → Prop}

/-- What every step preserves is preserved by any number of them. -/
theorem invariant_of_reflTransGen {R : Session → Session → Prop}
    (hstep : ∀ s t, R s t → P s → P t) {s t : Session} (h : ReflTransGen R s t) (hs : P s) : P t := by
  induction h with
  | refl => exact hs
  | tail _ hlast ih => exact hstep _ _ hlast ih

/-- What every change preserves holds after every history. -/
theorem invariant_after {s : Session} (hs : P s) (hstep : ∀ s t, Step s t → P s → P t)
    (ops : List Operation) : P (s.after ops) := by
  induction ops generalizing s with
  | nil => exact hs
  | cons op rest ih =>
    rw [after_cons]
    exact ih (invariant_of_reflTransGen hstep (steps_apply s op) hs)

/-- Where no unit is refused, an invariant need not allow for refused units. -/
theorem invariant_after_adds {s : Session} (hs : P s) (hchange : ∀ s t, Change s t → P s → P t)
    {ops : List Operation} (hadds : s.AddsSucceed ops) : P (s.after ops) := by
  induction ops generalizing s with
  | nil => exact hs
  | cons op rest ih =>
    -- Each operation makes changes only, as it refuses no unit when its turn comes.
    obtain ⟨hop, hrest⟩ := addsSucceed_cons.1 hadds
    rw [after_cons]
    exact ih (invariant_of_reflTransGen hchange (changes_apply hop) hs) hrest

end Session

end BuildOrder
