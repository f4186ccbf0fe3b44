import BuildOrder.Proofs.Session.Provenance

/-! # What a session holds that was only given units and entry points

* `isMain_after`           what was given as an entry point is main, unless a unit was refused
* `namesSince_of_inputs`   all that was named is an entry point still
* `holds_after`            so the session holds just that, in whatever order it was given
-/

namespace BuildOrder

namespace Operation

/-- Whether an operation gives a session units or entry points. -/
def isInput : Operation → Bool
  | addMains _ | addCandidates _ | addEntryPoints _ => true
  | _ => false

/-- The units that an operation gives as entry points. -/
def mains : Operation → List SourceUnit
  | addMains units => units
  | _ => []

end Operation

/-- Units that are the same are alike in every field. -/
def SourceUnit.Alike (units : List SourceUnit) : Prop :=
  ∀ u ∈ units, ∀ v ∈ units, u.identity = v.identity → u = v

instance (units : List SourceUnit) : Decidable (SourceUnit.Alike units) :=
  inferInstanceAs (Decidable (∀ u ∈ units, ∀ v ∈ units, u.identity = v.identity → u = v))

namespace Session

open Relation SourceUnit

variable {s t : Session} {u v : SourceUnit}

/-! ## What was given as an entry point is main -/

/-- At some moment of a history, one of its operations was carried out; what comes later leaves
    stored units in place. -/
theorem exists_apply_of_mem (hs : s.WellFormed) {ops : List Operation} (hadds : s.AddsSucceed ops)
    {op : Operation} (hop : op ∈ ops) :
    ∃ r : Session, r.WellFormed ∧ (op.addsUnits = true → ∀ fault, (r.apply op).2 ≠ .failed fault) ∧
      (r.apply op).1.Retains (s.after ops) := by
  induction ops generalizing s with
  | nil => exact absurd hop List.not_mem_nil
  | cons first rest ih =>
    obtain ⟨hfirst, hrest⟩ := addsSucceed_cons.1 hadds
    have hnext := hs.apply first
    -- It is the first operation, in the session as it is, or a later one.
    rcases List.mem_cons.1 hop with rfl | hop
    · exact ⟨s, hs, hfirst, retains_after hnext rest⟩
    · exact ih hnext hrest hop

/-- An addition that does not answer with a fault has none. -/
theorem addEach_eq_of_answer {add : Session → SourceUnit → Result} {units : List SourceUnit}
    (h : ∀ fault, (addEach add s units).answer.2 ≠ .failed fault) :
    addEach add s units = ((addEach add s units).answer.1, none) :=
  Prod.ext (Result.answer_fst _).symm (Result.answer_ne_failed_iff.1 h)

/-- What is given as an entry point and not refused is main. -/
theorem isMain_apply {op : Operation} (hs : s.WellFormed)
    (hop : op.addsUnits = true → ∀ fault, (s.apply op).2 ≠ .failed fault) (hu : u ∈ op.mains) :
    (s.apply op).1.isMain u = true := by
  cases op with
  | addMains units => exact isMain_of_mem hs (addEach_eq_of_answer (hop rfl)) hu
  | _ => cases hu

/-- What any operation of a history gives as an entry point is main in the end, where no unit is
    refused. -/
theorem isMain_after (hs : s.WellFormed) {ops : List Operation} (hadds : s.AddsSucceed ops)
    (hu : u ∈ ops.flatMap Operation.mains) : (s.after ops).isMain u = true := by
  obtain ⟨op, hop, hu⟩ := List.mem_flatMap.1 hu
  -- The unit is main right after the operation that gives it, and what is main stays so.
  obtain ⟨r, hr, hok, hretains⟩ := exists_apply_of_mem hs hadds hop
  exact hretains.isMain (hr.apply op) (hs.after ops) (isMain_apply hr hok hu)

/-! ## Entry points and policy -/

/-- Giving a session units or entry points leaves its policy alone. -/
theorem policy_apply {op : Operation} (hop : op.isInput = true) : (s.apply op).1.policy = s.policy := by
  cases op with
  | addMains units =>
    rw [apply, Result.answer_fst]
    exact (sameSettings_addMains s units).policy
  | addCandidates units =>
    rw [apply, Result.answer_fst]
    exact (sameSettings_addCandidates s units).policy
  | addEntryPoints names =>
    obtain ⟨_, _, heq⟩ := exists_addEntryPoints_eq s names
    rw [apply, heq]
  | _ => cases hop

/-- A session that is only given units and entry points keeps its policy. -/
theorem policy_after {ops : List Operation} (hinputs : ∀ op ∈ ops, op.isInput = true) :
    (s.after ops).policy = s.policy := by
  induction ops generalizing s with
  | nil => rfl
  | cons op rest ih =>
    obtain ⟨hop, hrest⟩ := List.forall_mem_cons.1 hinputs
    rw [after_cons, ih hrest, policy_apply hop]

/-- Without a manifest, no name that was given is used up. -/
theorem namesSince_of_inputs {ops : List Operation} (hinputs : ∀ op ∈ ops, op.isInput = true) :
    s.namesSince ops = ops.flatMap Operation.names := by
  induction ops using List.reverseRecOn with
  | nil => rfl
  | append_singleton ops op ih =>
    obtain ⟨hops, hop⟩ := List.forall_mem_append.1 hinputs
    have hno : op ≠ .manifest := by
      rintro rfl
      cases hop _ List.mem_cons_self
    rw [namesSince_append_singleton, isManifest_apply hno, if_neg Bool.false_ne_true, ih hops]
    simp

/-! ## Just that -/

/-- A session holds the units and the entry points that operations give, and nothing else. -/
structure Holds (s : Session) (policy : Policy) (ops : List Operation) : Prop where
  policy_eq : s.policy = policy
  mem_units : ∀ u, u ∈ s.units ↔ u ∈ ops.flatMap Operation.units
  mem_mainUnits : ∀ u, u ∈ s.mainUnits ↔
    u ∈ ops.flatMap Operation.units ∧ (u.runtimeBase = true ∨ u ∈ ops.flatMap Operation.mains)
  mem_entryPoints : ∀ ns, ns ∈ s.entryPoints ↔ ns ∈ ops.flatMap Operation.names
  resolve : ∀ ns u, s.registry.resolve ns = some u ↔ u ∈ ops.flatMap Operation.units ∧ ns ∈ u.provides

/-- What operations give as entry points is among the units that they give. -/
theorem mem_units_of_mem_mains {ops : List Operation} (hu : u ∈ ops.flatMap Operation.mains) :
    u ∈ ops.flatMap Operation.units := by
  obtain ⟨op, hop, hu⟩ := List.mem_flatMap.1 hu
  refine List.mem_flatMap.2 ⟨op, hop, ?_⟩
  cases op with
  | addMains units => exact hu
  | _ => cases hu

/-- Without a manifest, only what is given as an entry point becomes main. -/
theorem exists_mem_mains_of_made {policy : Policy} {ops : List Operation}
    (hinputs : ∀ op ∈ ops, op.isInput = true) (h : Made policy ops u) :
    ∃ v ∈ ops.flatMap Operation.mains, v.identity = u.identity := by
  obtain ⟨earlier, op, hearlier, hmakes⟩ := h
  have hop : op ∈ ops := hearlier.subset (by simp)
  cases hmakes with
  | added hv hsame hok => exact ⟨_, List.mem_flatMap.2 ⟨_, hop, hv.subset (by simp)⟩, hsame⟩
  -- A provider or a moocher becomes main by a manifest only.
  | provider => cases hinputs _ hop
  | moocher => cases hinputs _ hop

/-- Where no unit is refused, a session holds what it was given, in whatever order. -/
theorem holds_after {policy : Policy} {ops : List Operation} (hinputs : ∀ op ∈ ops, op.isInput = true)
    (halike : Alike (ops.flatMap Operation.units)) (hadds : (new policy).AddsSucceed ops) :
    ((new policy).after ops).Holds policy ops := by
  have hconsistent := consistent_after policy ops
  have hwf := hconsistent.toWellFormed
  have hstored : ((new policy).after ops).units = firsts (ops.flatMap Operation.units) := by
    rw [units_after, added_eq hadds]
  -- Only what was given is stored.
  have hgiven : ∀ u ∈ ((new policy).after ops).units, u ∈ ops.flatMap Operation.units := fun u hu =>
    mem_of_mem_firsts (hstored ▸ hu)
  -- What is stored for a unit that was given is that unit itself.
  have hunits : ∀ u, u ∈ ((new policy).after ops).units ↔ u ∈ ops.flatMap Operation.units := fun u => by
    refine ⟨hgiven u, fun hu => ?_⟩
    obtain ⟨v, hv, heq⟩ := exists_mem_firsts hu
    rw [← hstored] at hv
    exact halike v (hgiven v hv) u hu heq ▸ hv
  refine ⟨policy_after hinputs, hunits, fun u => ⟨fun hu => ?_, ?_⟩, fun ns => ?_, fun ns u => ?_⟩
  · obtain ⟨i, hi, -⟩ := Role.mem_select.1 hu
    have hu' := hgiven u (List.mem_of_getElem? hi)
    refine ⟨hu', (made_of_mem_mainUnits hu).imp_right fun hmade => ?_⟩
    -- It was made main for a unit of the same identity, which is alike in every field.
    obtain ⟨v, hv, heq⟩ := exists_mem_mains_of_made hinputs hmade
    exact halike v (mem_units_of_mem_mains hv) u hu' heq ▸ hv
  · rintro ⟨hu, hbase | hmain⟩
    · obtain ⟨i, hi⟩ := List.mem_iff_getElem?.1 ((hunits u).2 hu)
      exact Role.mem_select.2 ⟨i, hi, hconsistent.bases i u hi hbase⟩
    · exact (hwf.isMain_iff_mem ((hunits u).2 hu)).1 (isMain_after (wellFormed_new policy) hadds hmain)
  · rw [entryPoints_after, namesSince_of_inputs hinputs, List.mem_eraseDups]
  · rw [hconsistent.resolve_eq_some_iff (complete_after hadds), hunits]

/-- What operations give does not depend on their order. -/
theorem Holds.perm {policy : Policy} {ops ops' : List Operation} (h : s.Holds policy ops)
    (hperm : ops.Perm ops') : s.Holds policy ops' := by
  have hunits := fun u => (hperm.flatMap_right Operation.units).mem_iff (a := u)
  have hmains := fun u => (hperm.flatMap_right Operation.mains).mem_iff (a := u)
  have hnames := fun ns => (hperm.flatMap_right Operation.names).mem_iff (a := ns)
  refine ⟨h.policy_eq, fun u => ?_, fun u => ?_, fun ns => ?_, fun ns u => ?_⟩
  · rw [← hunits, h.mem_units]
  · rw [← hunits, ← hmains, h.mem_mainUnits]
  · rw [← hnames, h.mem_entryPoints]
  · rw [← hunits, h.resolve]

end Session

end BuildOrder
