import BuildOrder.Proofs.Registration
import BuildOrder.Proofs.Session.Candidates
import BuildOrder.Proofs.Session.Inputs

/-! # The order of additions

Sessions that were given the same units and entry points differ in the order of their units only.

* `addsSucceed_of_compatible`  no unit is refused where no two of them provide one namespace
* `Holds.verdict`              sessions that hold the same succeed or fail alike
* `sameManifest_of_perm`       so the order of additions decides no more than that of the manifest
-/

namespace BuildOrder

open SourceUnit

variable {units : List SourceUnit} {u : SourceUnit}

/-! ## Additions that succeed -/

/-- A registry holds no more than what the units provide. -/
def Registry.Within (r : Registry) (units : List SourceUnit) : Prop :=
  ∀ ns v, r.resolve ns = some v → v ∈ units ∧ ns ∈ v.provides

/-- Registering one of the units, with or without conflict, leaves nothing in the registry but what they
    provide. -/
theorem Registry.Within.register {r : Registry} (h : r.Within units) (hu : u ∈ units) :
    (r.register u).1.Within units := by
  intro ns v hv
  rcases resolve_register_cases r u hv with hv | ⟨rfl, hns⟩
  · exact h ns v hv
  · exact ⟨hu, hns⟩

/-- None of compatible units is in conflict with others of them. -/
theorem Registry.Within.register_snd {r : Registry} (h : r.Within units) (hcompatible : Compatible units)
    (hu : u ∈ units) : (r.register u).2 = none := by
  refine register_snd_eq_none_iff.2 fun ns hns v hv => ?_
  obtain ⟨hmem, hprovides⟩ := h ns v hv
  exact hcompatible v hmem u hu ns hprovides hns

namespace Session

open Relation

variable {s t : Session}

/-- A new unit is not refused where units with a namespace in common are the same. -/
theorem insert_ok (hcompatible : Compatible units) (hs : s.registry.Within units) (hu : u ∈ units)
    (role : Role) : (s.insert u role).2 = none ∧ (s.insert u role).1.registry.Within units := by
  have hok := hs.register_snd hcompatible hu
  have hwithin := hs.register hu
  unfold insert
  split
  · rename_i registry hregister
    rw [hregister] at hwithin
    exact ⟨rfl, hwithin⟩
  · rename_i registry conflict hregister
    -- A conflict has been excluded.
    rw [hregister] at hok
    cases hok

/-- A unit that is added as main is not refused there, whether it is new or not. -/
theorem addMain_ok (hcompatible : Compatible units) (hs : s.registry.Within units) (hu : u ∈ units) :
    (s.addMain u).2 = none ∧ (s.addMain u).1.registry.Within units := by
  unfold addMain
  split
  · exact insert_ok hcompatible hs hu .main
  · split <;> exact ⟨rfl, hs⟩

/-- A unit that is added as a candidate is not refused there. -/
theorem addCandidate_ok (hcompatible : Compatible units) (hs : s.registry.Within units) (hu : u ∈ units) :
    (s.addCandidate u).2 = none ∧ (s.addCandidate u).1.registry.Within units := by
  unfold addCandidate
  split
  · exact ⟨rfl, hs⟩
  · exact insert_ok hcompatible hs hu _

/-- None of several units is refused where no single one is. -/
theorem addEach_ok {add : Session → SourceUnit → Result}
    (hadd : ∀ s : Session, s.registry.Within units → ∀ u ∈ units,
      (add s u).2 = none ∧ (add s u).1.registry.Within units)
    (hs : s.registry.Within units) {given : List SourceUnit} (hgiven : given ⊆ units) :
    (∀ fault, (addEach add s given).answer.2 ≠ .failed fault) ∧
      (addEach add s given).answer.1.registry.Within units := by
  rw [Result.answer_ne_failed_iff, Result.answer_fst]
  refine ⟨?_, ?_⟩
  · exact addEach_snd_eq_none (P := fun s => s.registry.Within units)
      (fun s u hu hs => hadd s hs u (hgiven hu)) hs
  · exact addEach_invariant (P := fun s => s.registry.Within units)
      (fun s u hu hs => (hadd s hs u (hgiven hu)).2) hs

/-- No operation that gives a session such units has one refused. -/
theorem apply_ok (hcompatible : Compatible units) (hs : s.registry.Within units) {op : Operation}
    (hop : op.isInput = true) (hgiven : op.units ⊆ units) :
    (op.addsUnits = true → ∀ fault, (s.apply op).2 ≠ .failed fault) ∧
      (s.apply op).1.registry.Within units := by
  cases op with
  | addMains given =>
    have hok := addEach_ok (fun _ hs _ hu => addMain_ok hcompatible hs hu) hs hgiven
    exact ⟨fun _ => hok.1, hok.2⟩
  | addCandidates given =>
    have hok := addEach_ok (fun _ hs _ hu => addCandidate_ok hcompatible hs hu) hs hgiven
    exact ⟨fun _ => hok.1, hok.2⟩
  | addEntryPoints names =>
    obtain ⟨_, _, heq⟩ := exists_addEntryPoints_eq s names
    refine ⟨fun h => absurd h Bool.false_ne_true, ?_⟩
    rw [apply, heq]
    exact hs
  | _ => cases hop

/-- No unit is refused where units with a namespace in common are the same. -/
theorem addsSucceed_of_compatible (hcompatible : Compatible units) (hs : s.registry.Within units)
    {ops : List Operation} (hinputs : ∀ op ∈ ops, op.isInput = true)
    (hgiven : ops.flatMap Operation.units ⊆ units) : s.AddsSucceed ops := by
  -- By induction on the operations: each leaves in the registry only what the units provide.
  induction ops generalizing s with
  | nil => exact fun _ _ hmem => absurd hmem List.not_mem_nil
  | cons op rest ih =>
    obtain ⟨hop, hrest⟩ := List.forall_mem_cons.1 hinputs
    rw [List.flatMap_cons, List.append_subset] at hgiven
    obtain ⟨hok, hnext⟩ := apply_ok hcompatible hs hop hgiven.1
    exact addsSucceed_cons.2 ⟨hok, ih hnext hrest hgiven.2⟩

/-- Units that a session holds all together are compatible. -/
theorem Holds.compatible {policy : Policy} {ops : List Operation} (h : s.Holds policy ops) :
    Compatible (ops.flatMap Operation.units) := by
  intro u hu v hv ns hns hns'
  -- The namespace resolves to both units, and so they are one.
  have hu := (h.resolve ns u).2 ⟨hu, hns⟩
  have hv := (h.resolve ns v).2 ⟨hv, hns'⟩
  rw [Option.some.inj (hu.symm.trans hv)]

/-! ## Manifests that succeed -/

/-- How the next manifest fails, if it does. -/
inductive Verdict (s : Session) : Option Fault.Kind → Prop
  | missingEntryPoint (hunmet : s.unmet? ≠ none) : Verdict s (some .missingEntryPoint)
  | missingDependency (hmet : s.unmet? = none) (hlacking : s.Lacking) :
      Verdict s (some .missingDependency)
  | circularDependency (hmet : s.unmet? = none) (hprovided : ¬ s.Lacking) (hcircular : s.Circular) :
      Verdict s (some .circularDependency)
  | none (hmet : s.unmet? = none) (hprovided : ¬ s.Lacking) (hsortable : ¬ s.Circular) :
      Verdict s none

/-- There is one verdict on each session. -/
theorem Verdict.unique {a b : Option Fault.Kind} (ha : s.Verdict a) (hb : s.Verdict b) : a = b := by
  -- Each verdict denies the condition of those before it.
  cases ha with
  | missingEntryPoint hunmet =>
    cases hb with
    | missingEntryPoint => rfl
    | _ => contradiction
  | missingDependency hmet hlacking =>
    cases hb with
    | missingDependency => rfl
    | _ => contradiction
  | circularDependency hmet hprovided hcircular =>
    cases hb with
    | circularDependency => rfl
    | _ => contradiction
  | none hmet hprovided hsortable =>
    cases hb with
    | none => rfl
    | _ => contradiction

/-- The manifest ends as the verdict says, and it consists of the units that are kept. -/
theorem Complete.verdict_manifest (hs : s.Complete) (hcoherent : s.Coherent) :
    (∃ manifest, s.manifest.2 = .ok manifest ∧ s.Verdict none ∧ Distinct manifest ∧
        ∀ u, u ∈ manifest ↔ s.Keeps u) ∨
      ∃ fault, s.manifest.2 = .error fault ∧ s.Verdict (some fault.kind) := by
  have houtcome := hs.outcome_compute
  rw [manifest_snd hcoherent]
  generalize s.compute = result at houtcome
  -- Each outcome but success is one kind of fault, for the same reason.
  cases houtcome with
  | missingEntryPoint hunmet =>
    exact .inr ⟨_, rfl, .missingEntryPoint (Option.ne_none_iff_exists'.2 ⟨_, hunmet⟩)⟩
  | missingDependency hmet hlacking => exact .inr ⟨_, rfl, .missingDependency hmet hlacking⟩
  | circularDependency hmet hprovided hsort hround hcycle =>
    have hcircular := circular_of_isCycle hsort hround hcycle
    exact .inr ⟨_, rfl, .circularDependency hmet hprovided hcircular⟩
  | done hmet hprovided hdistinct hmem horiginal hsorted =>
    have hsortable := not_circular_of_sorted hdistinct hmem hsorted
    exact .inl ⟨_, rfl, .none hmet hprovided hsortable, hdistinct, hmem⟩

/-! ## Sessions that hold the same -/

namespace Holds

variable {policy : Policy} {ops : List Operation}

/-- Sessions that hold the same resolve every namespace alike. -/
theorem resolve_eq (hs : s.Holds policy ops) (ht : t.Holds policy ops) :
    s.registry.resolve = t.registry.resolve := by
  funext ns
  exact Option.ext fun u => (hs.resolve ns u).trans (ht.resolve ns u).symm

/-- Sessions that hold the same have unmet entry points or not, although the first of these may be
    another one. -/
theorem unmet?_eq_none_iff (hs : s.Holds policy ops) (ht : t.Holds policy ops) :
    s.unmet? = none ↔ t.unmet? = none := by
  simp only [unmet?, List.find?_eq_none, hs.mem_entryPoints, ht.mem_entryPoints, hs.resolve_eq ht]

/-- Sessions that hold the same keep the same units. -/
theorem keeps_eq (hs : s.Holds policy ops) (ht : t.Holds policy ops) : s.Keeps = t.Keeps := by
  -- What a manifest starts from is told by what the sessions hold.
  have hseed : s.Seed = t.Seed := by
    funext u
    simp only [Seed, hs.policy_eq, ht.policy_eq, hs.mem_units, ht.mem_units, hs.mem_mainUnits,
      ht.mem_mainUnits, hs.mem_entryPoints, ht.mem_entryPoints, hs.resolve_eq ht]
  have hrequires : s.registry.Requires = t.registry.Requires := by
    funext u v
    rw [Registry.Requires, Registry.Requires, hs.resolve_eq ht]
  funext u
  simp only [Keeps, hs.policy_eq, ht.policy_eq, hs.mem_units, ht.mem_units, hseed, hrequires]

/-- Sessions that hold the same lack a provider or not. -/
theorem lacking_iff (hs : s.Holds policy ops) (ht : t.Holds policy ops) : s.Lacking ↔ t.Lacking := by
  simp only [Lacking, Registry.Lacks, hs.policy_eq, ht.policy_eq, hs.keeps_eq ht, hs.resolve_eq ht]

/-- Sessions that hold the same need units in a circle or not. -/
theorem circular_iff (hs : s.Holds policy ops) (ht : t.Holds policy ops) : s.Circular ↔ t.Circular := by
  have hneeds : s.registry.Needs = t.registry.Needs := by
    funext u v
    simp only [Registry.Needs, Registry.Requires, hs.resolve_eq ht]
  simp only [Circular, hs.policy_eq, ht.policy_eq, hs.keeps_eq ht, hneeds]

/-- Sessions that hold the same succeed or fail alike. -/
theorem verdict (hs : s.Holds policy ops) (ht : t.Holds policy ops) {kind : Option Fault.Kind}
    (h : s.Verdict kind) : t.Verdict kind := by
  have hunmet := hs.unmet?_eq_none_iff ht
  have hlacking := hs.lacking_iff ht
  have hcircular := hs.circular_iff ht
  cases h with
  | missingEntryPoint h => exact .missingEntryPoint fun hmet => h (hunmet.2 hmet)
  | missingDependency hmet h => exact .missingDependency (hunmet.1 hmet) (hlacking.1 h)
  | circularDependency hmet hprovided h =>
    exact .circularDependency (hunmet.1 hmet) (fun h => hprovided (hlacking.2 h)) (hcircular.1 h)
  | none hmet hprovided hsortable =>
    exact .none (hunmet.1 hmet) (fun h => hprovided (hlacking.2 h)) fun h => hsortable (hcircular.2 h)

end Holds

/-- Where the same operations give a new session units and entry points in another order, no unit is
    refused either, and the manifest has the same units or fails with the same kind of fault. -/
theorem sameManifest_of_perm (policy : Policy) (ops ops' : List Operation) (hperm : ops.Perm ops')
    (hinputs : ∀ op ∈ ops, op.isInput = true) (halike : Alike (ops.flatMap Operation.units))
    (hadds : (new policy).AddsSucceed ops) :
    (new policy).AddsSucceed ops' ∧
      ((∃ manifest manifest', ((new policy).after ops).manifest.2 = .ok manifest ∧
          ((new policy).after ops').manifest.2 = .ok manifest' ∧ manifest.Perm manifest') ∨
        ∃ fault fault', ((new policy).after ops).manifest.2 = .error fault ∧
          ((new policy).after ops').manifest.2 = .error fault' ∧ fault.kind = fault'.kind) := by
  have hgiven := hperm.flatMap_right Operation.units
  have hinputs' : ∀ op ∈ ops', op.isInput = true := fun op hop => hinputs op (hperm.mem_iff.2 hop)
  have hs : ((new policy).after ops).Holds policy ops := holds_after hinputs halike hadds
  have hadds' : (new policy).AddsSucceed ops' :=
    addsSucceed_of_compatible hs.compatible (fun _ _ h => by cases h) hinputs' hgiven.symm.subset
  -- The other session holds what it was given as well, and that is the same.
  have halike' : Alike (ops'.flatMap Operation.units) := fun u hu v hv =>
    halike u (hgiven.mem_iff.2 hu) v (hgiven.mem_iff.2 hv)
  have ht : ((new policy).after ops').Holds policy ops := (holds_after hinputs' halike' hadds').perm hperm.symm
  refine ⟨hadds', ?_⟩
  rcases (complete_after hadds).verdict_manifest (coherent_after policy ops) with
    ⟨manifest, hok, hnone, hdistinct, hmem⟩ | ⟨fault, herror, hkind⟩
  · rcases (complete_after hadds').verdict_manifest (coherent_after policy ops') with
      ⟨manifest', hok', -, hdistinct', hmem'⟩ | ⟨fault', -, hkind'⟩
    · refine .inl ⟨manifest, manifest', hok, hok', ?_⟩
      refine (List.perm_ext_iff_of_nodup hdistinct.nodup hdistinct'.nodup).2 fun u => ?_
      -- Both manifests have just the units that are kept, each once.
      rw [hmem, hmem', hs.keeps_eq ht]
    · cases (hs.verdict ht hnone).unique hkind'
  · rcases (complete_after hadds').verdict_manifest (coherent_after policy ops') with
      ⟨manifest', -, hnone', -⟩ | ⟨fault', herror', hkind'⟩
    · cases (hs.verdict ht hkind).unique hnone'
    · exact .inr ⟨fault, fault', herror, herror', Option.some.inj ((hs.verdict ht hkind).unique hkind')⟩

/-- A main unit, what it requires, and the provider of an entry point that is named before. -/
def appWithSpare : List Operation :=
  [.addMains [blank "app" [] [⟨"util"⟩]], .addEntryPoints [⟨"spare"⟩],
    .addCandidates [blank "spare" [⟨"spare"⟩] [], blank "idle" [⟨"idle"⟩] []],
    .addCandidates [blank "util" [⟨"util"⟩] []]]

/-- The operations give the same units in reverse order, the main unit last. -/
theorem sameManifest_of_reversed :
    (new neededReady).AddsSucceed appWithSpare ∧ (new neededReady).AddsSucceed appWithSpare.reverse ∧
      ∃ manifest manifest', ((new neededReady).after appWithSpare).manifest.2 = .ok manifest ∧
        ((new neededReady).after appWithSpare.reverse).manifest.2 = .ok manifest' ∧
        manifest.Perm manifest' := by
  have hanswers : ((new neededReady).runAll appWithSpare).2 = [.done, .done, .done, .done] := by
    decide +kernel
  have hadds : (new neededReady).AddsSucceed appWithSpare :=
    addsSucceed_of_answers (by simp [hanswers])
  have hmanifest : ((new neededReady).after appWithSpare).manifest.2 =
      .ok [blank "spare" [⟨"spare"⟩] [], blank "util" [⟨"util"⟩] [], blank "app" [] [⟨"util"⟩]] := by
    decide +kernel
  have hsame := sameManifest_of_perm neededReady appWithSpare appWithSpare.reverse
    (List.reverse_perm _).symm (by decide +kernel) (by decide +kernel) hadds
  refine ⟨hadds, hsame.1, hsame.2.resolve_right ?_⟩
  rintro ⟨fault, -, herror, -⟩
  cases hmanifest.symm.trans herror

end Session

end BuildOrder
