import BuildOrder.Proofs.Session.WellFormed
import BuildOrder.SourceUnit.Draft
import Mathlib.Data.List.DropRight

/-! # What a session holds after a history

The operations of a history decide which units are stored and which namespaces are named as entry
points, and in which order.

* `units_after`         the units that were added and not refused, each where it came first
* `added_eq`            where no unit is refused, these are all that the operations give
* `entryPoints_after`   the names given since the last manifest, each where it was named first
-/

namespace BuildOrder

namespace Operation

/-- The units that an operation gives. -/
def units : Operation → List SourceUnit
  | addMains units | addCandidates units => units
  | _ => []

/-- The namespaces that an operation names as entry points. -/
def names : Operation → List Namespace
  | addEntryPoints names => names
  | _ => []

end Operation

/-- Whether an answer is a manifest. -/
def Answer.isManifest : Answer → Bool
  | manifest _ => true
  | _ => false

/-! ## First occurrences of units -/

namespace SourceUnit

/-- The units of a list, each where it comes first. -/
def firsts (units : List SourceUnit) : List SourceUnit := units.eraseDupsBy same

/-- One more unit at the end counts unless it came before. -/
theorem firsts_append_singleton (units : List SourceUnit) (u : SourceUnit) :
    firsts (units ++ [u]) = if (firsts units).any u.same then firsts units else firsts units ++ [u] := by
  -- The walk through the list keeps what it has found in reverse.
  have hwalk : ∀ found, List.eraseDupsBy.loop same (units ++ [u]) found =
      if (List.eraseDupsBy.loop same units found).any u.same then List.eraseDupsBy.loop same units found
      else List.eraseDupsBy.loop same units found ++ [u] := by
    induction units with
    | nil =>
      intro found
      rw [List.nil_append, List.eraseDupsBy.loop, List.eraseDupsBy.loop, List.any_reverse]
      cases hfound : found.any u.same <;> simp [List.eraseDupsBy.loop]
    | cons v rest ih =>
      intro found
      rw [List.cons_append, List.eraseDupsBy.loop, List.eraseDupsBy.loop]
      cases found.any v.same with
      | true => exact ih found
      | false => exact ih (v :: found)
  exact hwalk []

/-- Nothing is met first that is not in the list. -/
theorem mem_of_mem_firsts {units : List SourceUnit} {u : SourceUnit} (hu : u ∈ firsts units) :
    u ∈ units := by
  induction units using List.reverseRecOn with
  | nil => exact hu
  | append_singleton units v ih =>
    rw [firsts_append_singleton] at hu
    split at hu
    · exact List.mem_append_left _ (ih hu)
    · exact List.mem_append.2 ((List.mem_append.1 hu).imp_left ih)

/-- For each unit of a list, the same unit is met first somewhere. -/
theorem exists_mem_firsts {units : List SourceUnit} {u : SourceUnit} (hu : u ∈ units) :
    ∃ v ∈ firsts units, v.identity = u.identity := by
  induction units using List.reverseRecOn with
  | nil => exact absurd hu List.not_mem_nil
  | append_singleton units w ih =>
    rw [firsts_append_singleton]
    rcases List.mem_append.1 hu with hu | hu
    · -- What was met before is not met again.
      obtain ⟨v, hv, heq⟩ := ih hu
      split
      · exact ⟨v, hv, heq⟩
      · exact ⟨v, List.mem_append_left _ hv, heq⟩
    · obtain rfl := List.mem_singleton.1 hu
      split
      · rename_i hthere
        -- The unit was there before, perhaps as another value.
        obtain ⟨v, hv, hsame⟩ := List.any_eq_true.1 hthere
        exact ⟨v, hv, (same_iff.1 hsame).symm⟩
      · exact ⟨u, List.mem_append_right _ List.mem_cons_self, rfl⟩

end SourceUnit

namespace Session

open SourceUnit

variable {s t : Session}

/-! ## Which units are stored -/

/-- A unit has been added when one that is the same is stored. -/
theorem WellFormed.contains_eq (hs : s.WellFormed) (u : SourceUnit) :
    s.contains u = s.units.any u.same := by
  rw [Bool.eq_iff_iff, contains, Option.isSome_iff_ne_none, ne_eq, hs.find?_eq_none_iff, List.any_eq_true]
  -- A unit is found by its position, and has one exactly when it is stored.
  simp only [not_forall, not_not, exists_prop, same_iff]
  exact exists_congr fun v => and_congr_right fun _ => eq_comm

/-- An addition stores its unit at the end, unless the unit is there already or is refused. -/
structure Stores (s : Session) (u : SourceUnit) (r : Result) : Prop where
  added : r.2 = none → r.1.units = if s.contains u then s.units else s.units ++ [u]
  refused : r.2 ≠ none → r.1.units = s.units

/-- A new unit is stored at the end, unless another unit provides one of its namespaces. -/
theorem stores_insert {u : SourceUnit} (hnew : s.contains u = false) (role : Role) :
    Stores s u (s.insert u role) := by
  unfold insert
  split
  · exact ⟨fun _ => by rw [hnew]; rfl, fun h => absurd rfl h⟩
  · -- A refused unit changes the registry only.
    exact ⟨fun h => (by cases h), fun _ => rfl⟩

/-- Adding a main unit stores it unless it is there, as a candidate or as a main unit. -/
theorem stores_addMain (s : Session) (u : SourceUnit) : Stores s u (s.addMain u) := by
  unfold addMain
  split
  · rename_i hnone
    exact stores_insert (by rw [contains, hnone]; rfl) .main
  · rename_i i hfind
    have hthere : s.contains u = true := by rw [contains, hfind]; rfl
    split <;> exact ⟨fun _ => by rw [if_pos hthere], fun h => absurd rfl h⟩

/-- Adding a candidate stores it unless it is there. -/
theorem stores_addCandidate (s : Session) (u : SourceUnit) : Stores s u (s.addCandidate u) := by
  unfold addCandidate
  split
  · rename_i hthere
    exact ⟨fun _ => by rw [if_pos hthere], fun h => absurd rfl h⟩
  · rename_i hnew
    exact stores_insert (Bool.eq_false_iff.2 hnew) _

/-- The units of a list that are added one by one: those before the first that is refused. -/
def taken (add : Session → SourceUnit → Result) (s : Session) : List SourceUnit → List SourceUnit
  | [] => []
  | u :: rest =>
    match add s u with
    | (next, none) => u :: taken add next rest
    | (_, some _) => []

/-- The units that an operation adds. -/
def accepted (s : Session) : Operation → List SourceUnit
  | .addMains units => taken addMain s units
  | .addCandidates units => taken addCandidate s units
  | _ => []

/-- The units that the operations of a history add, one operation after the other. -/
def added (s : Session) : List Operation → List SourceUnit
  | [] => []
  | op :: rest => s.accepted op ++ (s.apply op).1.added rest

/-- All units of a list are added when none is refused. -/
theorem taken_eq {add : Session → SourceUnit → Result} {units : List SourceUnit}
    (h : (addEach add s units).2 = none) : taken add s units = units := by
  induction units generalizing s with
  | nil => rfl
  | cons u rest ih =>
    obtain ⟨next, hfirst, hrest⟩ := addEach_cons_eq_ok (Prod.ext rfl h)
    rw [taken, hfirst]
    dsimp only
    rw [ih (by rw [hrest])]

/-- Where no unit is refused, the operations add all that they give. -/
theorem added_eq {ops : List Operation} (hadds : s.AddsSucceed ops) :
    s.added ops = ops.flatMap Operation.units := by
  induction ops generalizing s with
  | nil => rfl
  | cons op rest ih =>
    obtain ⟨hop, hrest⟩ := addsSucceed_cons.1 hadds
    rw [added, ih hrest, List.flatMap_cons]
    congr 1
    -- The answer of an operation that adds units shows that it refused none.
    cases op with
    | addMains units => exact taken_eq (Result.answer_ne_failed_iff.1 (hop rfl))
    | addCandidates units => exact taken_eq (Result.answer_ne_failed_iff.1 (hop rfl))
    | _ => rfl

/-- Additions store what is added and new. -/
theorem units_addEach {add : Session → SourceUnit → Result} (hfollows : ∀ s u, (add s u).Follows s)
    (hstores : ∀ s u, Stores s u (add s u)) (hs : s.WellFormed) {before : List SourceUnit}
    (h : s.units = firsts before) (units : List SourceUnit) :
    (addEach add s units).1.units = firsts (before ++ taken add s units) := by
  -- By induction on the units that are added, with the units before them as the invariant: what is
  -- stored is their first occurrences.
  induction units generalizing s before with
  | nil => rw [addEach, taken, List.append_nil, h]
  | cons u rest ih =>
    have hfirst := hstores s u
    have hnext : (add s u).1.WellFormed := hs.steps (hfollows s u).1
    rw [addEach, taken]
    cases hadd : add s u with
    | mk next fault =>
      rw [hadd] at hfirst hnext
      cases fault with
      | none =>
        have hunits : next.units = firsts (before ++ [u]) := by
          rw [firsts_append_singleton, ← h, ← hs.contains_eq]
          exact hfirst.added rfl
        rw [ih hnext hunits, List.append_assoc, List.singleton_append]
      | some fault =>
        rw [List.append_nil, ← h]
        -- The unit is refused, and neither it nor the ones after it are added.
        exact hfirst.refused (by simp)

/-- A policy stores nothing and removes nothing. -/
theorem units_setPolicy (s : Session) (policy : Policy) : (s.setPolicy policy).units = s.units := by
  unfold setPolicy
  split <;> rfl

/-- A manifest stores nothing and removes nothing, whether it is kept, computed or fails. -/
theorem units_manifest (s : Session) : s.manifest.1.units = s.units := by
  unfold manifest
  split
  · split <;> rfl
  · split <;> rfl

/-- An operation stores what it adds, as far as that is new. -/
theorem units_apply (hs : s.WellFormed) {before : List SourceUnit} (h : s.units = firsts before)
    (op : Operation) : (s.apply op).1.units = firsts (before ++ s.accepted op) := by
  -- The operations that set a policy are alike.
  have hpolicy : ∀ policy, (s.setPolicy policy).units = firsts (before ++ []) := fun policy => by
    rw [units_setPolicy, h, List.append_nil]
  cases op with
  | addMains units =>
    rw [apply, Result.answer_fst]
    exact units_addEach follows_addMain stores_addMain hs h units
  | addCandidates units =>
    rw [apply, Result.answer_fst]
    exact units_addEach follows_addCandidate stores_addCandidate hs h units
  | addEntryPoints names =>
    obtain ⟨_, _, heq⟩ := exists_addEntryPoints_eq s names
    have hnone : before ++ s.accepted (.addEntryPoints names) = before := List.append_nil before
    rw [apply, heq, hnone]
    exact h
  | setKeepAllUnits keep => exact hpolicy _
  | setKeepMoochers keep => exact hpolicy _
  | setKeepOriginalOrder keep => exact hpolicy _
  | setStrategy strategy => exact hpolicy _
  | setPolicy policy => exact hpolicy policy
  | manifest =>
    have hnone : before ++ s.accepted .manifest = before := List.append_nil before
    rw [apply_manifest_fst, units_manifest, hnone, h]

/-- After every history, the stored units are those that were added and not refused, each where it
    came first. -/
theorem units_after (policy : Policy) (ops : List Operation) :
    ((new policy).after ops).units = firsts ((new policy).added ops) := by
  -- The history is general in where it starts, so that its first operation can be split off.
  have hrun : ∀ (s : Session) (before : List SourceUnit), s.WellFormed → s.units = firsts before →
      (s.after ops).units = firsts (before ++ s.added ops) := by
    induction ops with
    | nil =>
      intro s before _ h
      rw [added, List.append_nil]
      exact h
    | cons op rest ih =>
      intro s before hs h
      rw [after_cons, ih _ _ (hs.apply op) (units_apply hs h op), added, List.append_assoc]
  exact hrun (new policy) [] (wellFormed_new policy) rfl

/-! ## Which entry points are named -/

/-- A policy names no entry point and takes none back. -/
theorem entryPoints_setPolicy (s : Session) (policy : Policy) :
    (s.setPolicy policy).entryPoints = s.entryPoints := by
  unfold setPolicy
  split <;> rfl

/-- Names are added to the entry points like those that are declared for a unit. -/
theorem entryPoints_addEntryPoints (s : Session) (names : List Namespace) :
    (names.foldl addEntryPoint s).entryPoints = names.foldl addOnce s.entryPoints := by
  induction names generalizing s with
  | nil => rfl
  | cons ns rest ih =>
    have hfirst : (s.addEntryPoint ns).entryPoints = addOnce s.entryPoints ns := by
      unfold addEntryPoint addOnce
      split <;> rfl
    rw [List.foldl_cons, List.foldl_cons, ih, hfirst]

/-- While a manifest is kept, no entry point is named. -/
theorem entryPoints_eq_nil_after (policy : Policy) (ops : List Operation) :
    ((new policy).after ops).stale = false → ((new policy).after ops).entryPoints = [] := by
  refine invariant_after (P := fun s => s.stale = false → s.entryPoints = []) (fun _ => rfl) ?_ ops
  intro s t hstep hs hfresh
  cases hstep with
  | change hchange =>
    -- Naming one makes the manifest stale, and a new manifest uses them up.
    cases hchange with
    | commit => rfl
    | _ => cases hfresh
  | refuse => exact hs hfresh

/-- Only a request for the manifest is answered with one. -/
theorem isManifest_apply {op : Operation} (hop : op ≠ .manifest) :
    (s.apply op).2.isManifest = false := by
  have hadds : ∀ r : Result, r.answer.2.isManifest = false := fun ⟨_, fault⟩ => by
    cases fault <;> rfl
  cases op with
  | addMains units => exact hadds _
  | addCandidates units => exact hadds _
  | manifest => exact absurd rfl hop
  | _ => rfl

/-- An operation that is no request for the manifest adds the names that it gives. -/
theorem entryPoints_apply_of_ne {op : Operation} (hop : op ≠ .manifest) :
    (s.apply op).1.entryPoints = op.names.foldl addOnce s.entryPoints := by
  cases op with
  | addMains units =>
    rw [apply, Result.answer_fst]
    exact (sameSettings_addMains s units).entryPoints
  | addCandidates units =>
    rw [apply, Result.answer_fst]
    exact (sameSettings_addCandidates s units).entryPoints
  | addEntryPoints names => exact entryPoints_addEntryPoints s names
  | manifest => exact absurd rfl hop
  | _ => exact entryPoints_setPolicy s _

/-- A manifest uses the entry points up, and a request that fails leaves them as they are. -/
theorem entryPoints_manifest (hfresh : s.stale = false → s.entryPoints = []) :
    (s.apply .manifest).1.entryPoints =
      if (s.apply .manifest).2.isManifest then [] else s.entryPoints := by
  unfold apply manifest
  cases hstale : s.stale with
  | true => cases s.compute <;> rfl
  | false =>
    -- A manifest that is kept was computed after the last one was named.
    cases s.cached with
    | some units => exact hfresh hstale
    | none => rfl

/-- An operation adds the names that it gives, and a manifest uses up all that were given. -/
theorem entryPoints_apply (hfresh : s.stale = false → s.entryPoints = []) {names : List Namespace}
    (h : s.entryPoints = names.eraseDups) (op : Operation) :
    (s.apply op).1.entryPoints =
      (if (s.apply op).2.isManifest then [] else names ++ op.names).eraseDups := by
  by_cases hop : op = .manifest
  · subst hop
    rw [entryPoints_manifest hfresh]
    split
    · rfl
    · have hnone : names ++ Operation.names .manifest = names := List.append_nil names
      rw [hnone, h]
  · rw [entryPoints_apply_of_ne hop, isManifest_apply hop, if_neg Bool.false_ne_true, h, foldl_addOnce]

/-- The names that the operations of a history give after the last one that is answered with a
    manifest. -/
def namesSince (s : Session) (ops : List Operation) : List Namespace :=
  ((ops.zip (s.runAll ops).2).rtakeWhile fun p => !p.2.isManifest).flatMap fun p => p.1.names

/-- The last operation of a history is answered in the session that those before it have left. -/
theorem zip_runAll_append_singleton (s : Session) (ops : List Operation) (op : Operation) :
    (ops ++ [op]).zip (s.runAll (ops ++ [op])).2 =
      ops.zip (s.runAll ops).2 ++ [(op, ((s.after ops).apply op).2)] := by
  induction ops generalizing s with
  | nil => rfl
  | cons first rest ih => exact congrArg _ (ih (s.apply first).1)

/-- One more operation adds the names that it gives, unless it is answered with a manifest, after which
    none counts any more. -/
theorem namesSince_append_singleton (s : Session) (ops : List Operation) (op : Operation) :
    s.namesSince (ops ++ [op]) =
      if ((s.after ops).apply op).2.isManifest then [] else s.namesSince ops ++ op.names := by
  -- The names are read from the end back to a manifest, so that the last operation comes first.
  rw [namesSince, zip_runAll_append_singleton, List.rtakeWhile_concat]
  cases ((s.after ops).apply op).2.isManifest with
  | true => rfl
  | false => simp [namesSince]

/-- After every history, the entry points are the names given since the last manifest, each where it
    was named first. -/
theorem entryPoints_after (policy : Policy) (ops : List Operation) :
    ((new policy).after ops).entryPoints = ((new policy).namesSince ops).eraseDups := by
  induction ops using List.reverseRecOn with
  | nil => rfl
  | append_singleton ops op ih =>
    -- The last operation is split off, since it decides whether the names before it still count.
    have hlast : (new policy).after (ops ++ [op]) = (((new policy).after ops).apply op).1 :=
      after_append (new policy) ops [op]
    rw [hlast, entryPoints_apply (entryPoints_eq_nil_after policy ops) ih, namesSince_append_singleton]

/-- Each entry point has been named by an operation of the history. -/
theorem exists_names_of_mem_entryPoints {policy : Policy} {ops : List Operation} {ns : Namespace}
    (hns : ns ∈ ((new policy).after ops).entryPoints) : ∃ names, .addEntryPoints names ∈ ops ∧ ns ∈ names := by
  rw [entryPoints_after, List.mem_eraseDups, namesSince, List.mem_flatMap] at hns
  obtain ⟨⟨op, answer⟩, hp, hns⟩ := hns
  have hop : op ∈ ops := (List.of_mem_zip ((List.rtakeWhile_suffix _ _).subset hp)).1
  cases op with
  | addEntryPoints names => exact ⟨names, hop, hns⟩
  | _ => exact absurd hns List.not_mem_nil

end Session

end BuildOrder
