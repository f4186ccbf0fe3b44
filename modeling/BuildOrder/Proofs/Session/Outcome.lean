import BuildOrder.Proofs.Session.Coherence
import BuildOrder.Proofs.Session.Contents
import BuildOrder.Proofs.Sorting

/-! # How a manifest ends

Where no unit is refused, what is asked of the manifest decides how it ends.

* `mem_select_destined`   the destined main units are the seeds
* `outcome_compute`       a computation ends as one of the four outcomes says
* `manifest_outcome`      each of them happens exactly under its condition
-/

namespace BuildOrder.Session

open Relation SourceUnit

/-- A unit that the next manifest starts from: a main unit, a moocher that is kept, or the provider
    of a named entry point. -/
def Seed (s : Session) (u : SourceUnit) : Prop :=
  u ∈ s.mainUnits ∨ (s.policy.keepMoochers = true ∧ u ∈ s.units ∧ u.isMoocher = true) ∨
    ∃ ns ∈ s.entryPoints, s.registry.resolve ns = some u

/-- A unit that the next manifest keeps. -/
def Keeps (s : Session) (u : SourceUnit) : Prop :=
  if s.policy.keepAllUnits = true then u ∈ s.units
  else ∃ v, s.Seed v ∧ ReflTransGen s.registry.Requires v u

/-- The first named entry point that nobody provides. -/
def unmet? (s : Session) : Option Namespace := s.entryPoints.find? fun ns => (s.registry.resolve ns).isNone

/-- A kept unit requires a namespace that nobody provides.  Nobody looks at what is required when
    all units are kept in their original order. -/
def Lacking (s : Session) : Prop :=
  (s.policy.keepAllUnits = false ∨ s.policy.keepOriginalOrder = false) ∧
    ∃ u, s.Keeps u ∧ s.registry.Lacks u

/-- The kept units are to be sorted, and some need each other in a circle. -/
def Circular (s : Session) : Prop :=
  s.policy.keepOriginalOrder = false ∧
    ∃ u, TransGen (fun a b => s.Keeps a ∧ s.Keeps b ∧ s.registry.Needs a b) u u

/-- How the computation of a manifest can end. -/
inductive Outcome (s : Session) : Except Fault (List Role × List SourceUnit) → Prop
  | missingEntryPoint {ns : Namespace} (hunmet : s.unmet? = some ns) :
      Outcome s (.error (.missingEntryPoint ns))
  | missingDependency {ns : Namespace} {u : SourceUnit} (hmet : s.unmet? = none) (hlacking : s.Lacking)
      (hu : s.Keeps u) (hns : ns ∈ u.requires) (hmissing : s.registry.resolve ns = none) :
      Outcome s (.error (.missingDependency ns u))
  | circularDependency {path : List Namespace} {round : List SourceUnit} (hmet : s.unmet? = none)
      (hprovided : ¬ s.Lacking) (hsort : s.policy.keepOriginalOrder = false)
      (hround : ∀ u ∈ round, s.Keeps u) (hcycle : IsCycle s.registry.Needs round) :
      Outcome s (.error (.circularDependency path round))
  | done {manifest : List SourceUnit} (hmet : s.unmet? = none) (hprovided : ¬ s.Lacking)
      (hdistinct : Distinct manifest) (hmem : ∀ u, u ∈ manifest ↔ s.Keeps u)
      (horiginal : s.policy.keepOriginalOrder = true → manifest.Sublist s.units)
      (hsorted : s.policy.keepOriginalOrder = false →
        ∀ u ∈ manifest, ∀ v, TransGen s.registry.Needs u v → Precedes manifest v u) :
      Outcome s (.ok (s.destined, manifest))

namespace Complete

variable {s : Session}

/-- The destined main units are the seeds. -/
theorem mem_select_destined (hs : s.Complete) {u : SourceUnit} :
    u ∈ Role.main.select s.units s.destined ↔ s.Seed u := by
  have hwf := hs.toWellFormed
  rw [Role.mem_select]
  constructor
  · rintro ⟨i, hu, hi⟩
    rcases (hwf.getElem?_destined i).1 hi with (hmain | ⟨hkeep, v, hv, hmoocher⟩) | ⟨ns, hns, htarget⟩
    · exact .inl (Role.mem_select.2 ⟨i, hu, hmain⟩)
    · obtain rfl : u = v := Option.some.inj (hu.symm.trans hv)
      exact .inr (.inl ⟨hkeep, List.mem_of_getElem? hu, hmoocher⟩)
    · -- The provider is stored, and the unit at its position is the provider itself.
      obtain ⟨p, hp, hfind⟩ := Option.bind_eq_some_iff.1 htarget
      obtain ⟨v, hv, heq⟩ := (hs.position p i).1 hfind
      obtain rfl : u = v := Option.some.inj (hu.symm.trans hv)
      obtain rfl : u = p :=
        hs.distinct.eq_of_identity_eq (List.mem_of_getElem? hu) (hs.resolved ns p hp) heq
      exact .inr (.inr ⟨ns, hns, hp⟩)
  · -- A seed is stored at some position, and its role there is destined to be main for the same reason.
    rintro (hmain | ⟨hkeep, hu, hmoocher⟩ | ⟨ns, hns, hu⟩)
    · obtain ⟨i, hu, hi⟩ := Role.mem_select.1 hmain
      exact ⟨i, hu, (hwf.getElem?_destined i).2 (.inl (.inl hi))⟩
    · obtain ⟨i, hi⟩ := List.mem_iff_getElem?.1 hu
      exact ⟨i, hi, (hwf.getElem?_destined i).2 (.inl (.inr ⟨hkeep, u, hi, hmoocher⟩))⟩
    · obtain ⟨i, hi⟩ := List.mem_iff_getElem?.1 (hs.resolved ns u hu)
      have htarget : s.target ns = some i :=
        Option.bind_eq_some_iff.2 ⟨u, hu, hwf.find?_eq_some_of_getElem? hi⟩
      exact ⟨i, hi, (hwf.getElem?_destined i).2 (.inr ⟨ns, hns, htarget⟩)⟩

/-- What the next manifest starts from is stored. -/
theorem mem_units_of_seed (hs : s.Complete) {u : SourceUnit} (hu : s.Seed u) : u ∈ s.units := by
  obtain ⟨i, hi, -⟩ := Role.mem_select.1 (hs.mem_select_destined.2 hu)
  exact List.mem_of_getElem? hi

/-- The destined main units are among the stored ones. -/
theorem select_destined_subset (hs : s.Complete) : Role.main.select s.units s.destined ⊆ s.units :=
  fun _ hu => hs.mem_units_of_seed (hs.mem_select_destined.1 hu)

/-- The only fault of an entry point is that nobody provides it. -/
theorem entryFault?_eq (hs : s.Complete) (ns : Namespace) :
    s.entryFault? ns = if (s.registry.resolve ns).isNone then some (.missingEntryPoint ns) else none := by
  rw [entryFault?, Role.entryFault?]
  cases hresolve : s.registry.resolve ns with
  | none => rfl
  | some u =>
    obtain ⟨i, hi⟩ := List.mem_iff_getElem?.1 (hs.resolved ns u hresolve)
    simp [hs.find?_eq_some_of_getElem? hi]

/-- The promotion succeeds, or the first named entry point that nobody provides makes it fail. -/
theorem promoted_cases (hs : s.Complete) :
    (s.unmet? = none ∧ s.promoted = .ok s.destined) ∨
      ∃ ns, s.unmet? = some ns ∧ s.promoted = .error (.missingEntryPoint ns) := by
  -- The first fault is that of the first name without a provider.
  have hfaults : s.entryPoints.findSome? s.entryFault? = s.unmet?.map .missingEntryPoint := by
    unfold unmet?
    induction s.entryPoints with
    | nil => rfl
    | cons ns rest ih =>
      rw [List.findSome?_cons, List.find?_cons, hs.entryFault?_eq ns]
      cases hnone : (s.registry.resolve ns).isNone with
      | true => rfl
      | false => exact ih
  -- Where nothing is unmet, nothing is at fault.
  rw [promoted_eq, hfaults]
  cases s.unmet? with
  | none => exact .inl ⟨rfl, rfl⟩
  | some ns => exact .inr ⟨ns, rfl, rfl⟩

/-- What a kept unit requires is kept as well. -/
theorem keeps_of_requires (hs : s.Complete) {u v : SourceUnit} (hu : s.Keeps u)
    (huv : s.registry.Requires u v) : s.Keeps v := by
  unfold Keeps at hu ⊢
  split at hu
  · rename_i hall
    rw [if_pos hall]
    obtain ⟨ns, -, hv⟩ := huv
    exact hs.resolved ns v hv
  · rename_i hsome
    rw [if_neg hsome]
    obtain ⟨w, hw, hwu⟩ := hu
    exact ⟨w, hw, hwu.tail huv⟩

theorem kept_cases (hs : s.Complete) :
    (∃ units, s.kept s.destined = .ok units ∧ units.Sublist s.units ∧ (∀ u, u ∈ units ↔ s.Keeps u) ∧
        (s.policy.keepAllUnits = false → ∀ u ∈ units, ¬ s.registry.Lacks u)) ∨
      s.policy.keepAllUnits = false ∧ ∃ u ns, s.Keeps u ∧ ns ∈ u.requires ∧
        s.registry.resolve ns = none ∧ s.kept s.destined = .error (.missingDependency ns u) := by
  cases hall : s.policy.keepAllUnits with
  | true =>
    left
    refine ⟨s.units, by rw [kept, hall, if_pos rfl], List.Sublist.refl _, fun u => ?_, fun h => by cases h⟩
    rw [Keeps, if_pos hall]
  | false =>
    -- The closure of the destined main units holds what the seeds reach.
    have hkeeps : ∀ u, Closure.Reached s.registry (Role.main.select s.units s.destined) u ↔
        s.Keeps u := fun u => by
      rw [Keeps, hall, if_neg Bool.false_ne_true]
      exact exists_congr fun v => and_congr_left fun _ => hs.mem_select_destined
    rw [kept, hall, if_neg Bool.false_ne_true]
    rcases Closure.units_fail_cases hs.knows hs.select_destined_subset with
      ⟨units, hunits, hsub, hmem, hprovided⟩ | ⟨u, ns, hu, hns, hmissing, herror⟩
    · exact .inl ⟨units, hunits, hsub, fun u => (hmem u).trans (hkeeps u), fun _ => hprovided⟩
    · exact .inr ⟨rfl, u, ns, (hkeeps u).1 hu, hns, hmissing, herror⟩

/-- A computation ends as one of the outcomes says. -/
theorem outcome_compute (hs : s.Complete) : s.Outcome s.compute := by
  -- The computation is followed part by part, and each part that fails is one of the outcomes.
  unfold compute
  rcases hs.promoted_cases with ⟨hmet, hpromoted⟩ | ⟨ns, hunmet, hpromoted⟩
  case inr => rw [hpromoted]; exact .missingEntryPoint hunmet
  rw [hpromoted]
  dsimp only
  rcases hs.kept_cases with ⟨units, hunits, hsub, hmem, hprovided⟩ | ⟨hall, u, ns, hu, hns, hmissing, herror⟩
  case inr =>
    rw [herror]
    exact .missingDependency hmet ⟨.inl hall, u, hu, ns, hns, hmissing⟩ hu hns hmissing
  rw [hunits]
  dsimp only
  unfold arranged
  have hdistinct : Distinct units := hs.distinct.sublist hsub
  -- In the original order, nobody looks for missing providers again.
  cases horder : s.policy.keepOriginalOrder with
  | true =>
    rw [if_pos rfl]
    refine .done hmet ?_ hdistinct hmem (fun _ => hsub) fun h => by cases horder.symm.trans h
    rintro ⟨hlooked | hlooked, u, hu, hlacks⟩
    · exact hprovided hlooked u ((hmem u).2 hu) hlacks
    · cases horder.symm.trans hlooked
  | false =>
    rw [if_neg Bool.false_ne_true]
    rcases DependencyGraph.build_fail_cases units s.registry with
      ⟨⟨graph, hgraph⟩, hall⟩ | ⟨u, ns, hgap, herror⟩
    case inr =>
      rw [herror]
      have hu := (hmem u).1 hgap.mem
      have hlacks : s.registry.Lacks u := ⟨ns, hgap.mem_requires, hgap.resolve_eq_none⟩
      exact .missingDependency hmet ⟨.inr horder, u, hu, hlacks⟩ hu hgap.mem_requires hgap.resolve_eq_none
    rw [hgraph]
    dsimp only
    -- The graph is there, so that nothing is lacking; it remains to sort it.
    have hclosed : ∀ u ∈ units, ∀ v, s.registry.Requires u v → v ∈ units := fun u hu v huv =>
      (hmem v).2 (hs.keeps_of_requires ((hmem u).1 hu) huv)
    have hlacking : ¬ s.Lacking := by
      rintro ⟨-, u, hu, hlacks⟩
      exact hall u ((hmem u).2 hu) hlacks
    rcases DependencyGraph.sort_cases hdistinct hclosed hgraph s.policy.strategy with
      ⟨sorted, hsort, hperm, hsorted⟩ | ⟨path, round, hsort, hround, hcycle⟩
    · rw [hsort]
      -- The sorted units are the kept ones in another order.
      refine .done hmet hlacking (hdistinct.perm hperm.symm)
        (fun u => hperm.mem_iff.trans (hmem u)) (fun h => by cases horder.symm.trans h) fun _ u hu => ?_
      exact hsorted u (hperm.mem_iff.1 hu)
    · rw [hsort]
      exact .circularDependency hmet hlacking horder (fun u hu => (hmem u).1 (hround u hu)) hcycle

end Complete

/-! ## The outcome decided -/

/-- A cycle of kept units makes a circle of needs. -/
theorem circular_of_isCycle {s : Session} (hsort : s.policy.keepOriginalOrder = false)
    {round : List SourceUnit} (hround : ∀ u ∈ round, s.Keeps u)
    (hcycle : IsCycle s.registry.Needs round) : s.Circular := by
  -- The circle is one of kept units only, as all of the cycle are kept.
  have hkept : IsCycle (fun a b => s.Keeps a ∧ s.Keeps b ∧ s.registry.Needs a b) round :=
    hcycle.imp fun a ha b hb hab => ⟨hround a ha, hround b hb, hab⟩
  obtain ⟨u, -, hu⟩ := hkept.transGen
  exact ⟨hsort, u, hu⟩

/-- Units that can be sorted do not need each other in a circle. -/
theorem not_circular_of_sorted {s : Session} {manifest : List SourceUnit} (hdistinct : Distinct manifest)
    (hmem : ∀ u, u ∈ manifest ↔ s.Keeps u)
    (hsorted : s.policy.keepOriginalOrder = false →
      ∀ u ∈ manifest, ∀ v, TransGen s.registry.Needs u v → Precedes manifest v u) : ¬ s.Circular := by
  rintro ⟨hsort, u, hu⟩
  -- A unit on the circle has a next one, so that it is kept.
  have hkeeps : s.Keeps u := by
    obtain ⟨v, ⟨hu, -, -⟩, -⟩ := TransGen.head'_iff.1 hu
    exact hu
  -- The unit would have to come before itself.
  have hneeds : TransGen s.registry.Needs u u := hu.lift (fun u => u) fun _ _ h => h.2.2
  exact (hsorted hsort u ((hmem u).2 hkeeps) u hneeds).irrefl hdistinct.nodup

/-- How a session answers when no unit was refused, whether or not a manifest is kept.  The entry
    points stand in the order in which they were named since the last manifest, and the first of them
    that nobody provides comes before a missing provider, and that before a circle; otherwise there is a
    manifest, and no other fault can happen. -/
theorem manifest_outcome (policy : Policy) (ops : List Operation) (s : Session)
    (hadds : (new policy).AddsSucceed ops) (hs : s = (new policy).after ops) :
    s.entryPoints = ((new policy).namesSince ops).eraseDups ∧
    (∀ ns, s.manifest.2 = .error (.missingEntryPoint ns) ↔ s.unmet? = some ns) ∧
    ((∃ ns u, s.manifest.2 = .error (.missingDependency ns u)) ↔ s.unmet? = none ∧ s.Lacking) ∧
    ((∃ path round, s.manifest.2 = .error (.circularDependency path round)) ↔
      s.unmet? = none ∧ ¬ s.Lacking ∧ s.Circular) ∧
    ((∃ manifest, s.manifest.2 = .ok manifest) ↔ s.unmet? = none ∧ ¬ s.Lacking ∧ ¬ s.Circular) ∧
    ∀ fault, s.manifest.2 = .error fault → fault.kind ≠ .invariantViolation ∧
      fault.kind ≠ .duplicateProvider ∧ fault.kind ≠ .invalidRuntimeBase := by
  have hcomplete : s.Complete := hs ▸ complete_after hadds
  have houtcome := hcomplete.outcome_compute
  refine ⟨hs ▸ entryPoints_after policy ops, ?_⟩
  rw [manifest_snd (hs ▸ coherent_after policy ops)]
  -- Each outcome decides every one of the conditions.
  generalize s.compute = result at houtcome
  cases houtcome with
  | missingEntryPoint hunmet => simp [Except.map, hunmet, Fault.kind]
  | missingDependency hmet hlacking => simp [Except.map, hmet, hlacking, Fault.kind]
  | circularDependency hmet hprovided hsort hround hcycle =>
    have hcircular := circular_of_isCycle hsort hround hcycle
    simp [Except.map, hmet, hprovided, hcircular, Fault.kind]
  | done hmet hprovided hdistinct hmem horiginal hsorted =>
    have hcircular := not_circular_of_sorted hdistinct hmem hsorted
    simp [Except.map, hmet, hprovided, hcircular]

/-- Neither of the two units is refused. -/
theorem addsSucceed_appWithUtil : (new allReady).AddsSucceed appWithUtil := by
  have hanswers : ((new allReady).runAll appWithUtil).2 = [.done, .done] := rfl
  exact addsSucceed_of_answers (by simp [hanswers])

/-- The candidate comes before the main unit, which requires it. -/
theorem manifest_appWithUtil :
    ((new allReady).after appWithUtil).manifest.2 =
      .ok [blank "util" [⟨"util"⟩] [], blank "app" [] [⟨"util"⟩]] := rfl

/-- A unit that requires a second one, and this a third. -/
def stack : List SourceUnit :=
  [blank "app" [] [⟨"util"⟩], blank "util" [⟨"util"⟩] [⟨"base"⟩], blank "base" [⟨"base"⟩] []]

/-- The first of these is main.  The others are candidates, as is one that nothing needs, and one of
    them is given twice. -/
def appOverBase : List Operation :=
  [.addMains [blank "app" [] [⟨"util"⟩]],
    .addCandidates [blank "util" [⟨"util"⟩] [⟨"base"⟩], blank "spare" [⟨"spare"⟩] []],
    .addCandidates [blank "util" [⟨"util"⟩] [⟨"base"⟩], blank "base" [⟨"base"⟩] []]]

/-- None of the units is refused, whatever the policy is. -/
theorem addsSucceed_appOverBase (policy : Policy) : (new policy).AddsSucceed appOverBase := by
  have hanswers : ((new policy).runAll appOverBase).2 = [.done, .done, .done] := rfl
  exact addsSucceed_of_answers (by simp [hanswers])

/-- The search depth first gives what is required before what requires it. -/
theorem manifest_appOverBase : ((new {}).after appOverBase).manifest.2 = .ok stack.reverse := by
  obtain ⟨graph, hbuild, hdeps⟩ : ∃ graph : Digraph 3,
      DependencyGraph.build stack ((new {}).after appOverBase).registry .fail = .ok ⟨stack, graph⟩ ∧
        ∀ i, graph.dependencies i = match i with | 0 => [1] | 1 => [2] | 2 => [] :=
    ⟨_, rfl, by decide⟩
  have hrange : List.finRange 3 = [0, 1, 2] := by decide
  -- The recursive search can be followed step by step.
  have horder : DepthFirst.order graph = .ok [2, 1, 0] := by
    rw [DepthFirst.order_eq]
    simp [Recursive.order, Recursive.visitAll, hrange, hdeps]
  have hpromoted : ((new {}).after appOverBase).promoted = .ok ((new {}).after appOverBase).roles := by
    decide +kernel
  have hkept : ((new {}).after appOverBase).kept ((new {}).after appOverBase).roles = .ok stack := by
    decide +kernel
  have harranged : ((new {}).after appOverBase).arranged stack = .ok stack.reverse := by
    unfold arranged
    rw [hbuild]
    exact DependencyGraph.sort_eq_ok ⟨stack, graph⟩ .depthFirst horder
  rw [manifest_snd (coherent_after {} appOverBase),
    compute_eq_ok_iff.2 ⟨hpromoted, stack, hkept, harranged⟩]
  rfl

/-- The needed units, as they were added. -/
def neededAsAdded : Policy := { keepOriginalOrder := true }

/-- A name is given before a manifest that succeeds, and others before and after one that fails, as two
    of them are provided by nobody. -/
def ghostsNamed : List Operation :=
  appOverBase ++ [.addEntryPoints [⟨"spare"⟩], .manifest,
    .addEntryPoints [⟨"base"⟩, ⟨"ghost"⟩, ⟨"base"⟩, ⟨"echo"⟩], .manifest, .addEntryPoints [⟨"echo"⟩, ⟨"util"⟩]]

/-- A candidate that is needed requires what nobody provides. -/
def appWithoutBase : List Operation :=
  [.addMains [blank "app" [] [⟨"util"⟩]], .addCandidates [blank "util" [⟨"util"⟩] [⟨"base"⟩]]]

/-- A main unit and a candidate that require each other. -/
def pingWithPong : List Operation :=
  [.addMains [blank "ping.js" [⟨"ping"⟩] [⟨"pong"⟩]],
    .addCandidates [blank "pong.js" [⟨"tone"⟩, ⟨"pong"⟩] [⟨"ping"⟩]]]

/-- Neither of them is refused, as no one else provides their namespaces. -/
theorem addsSucceed_pingWithPong (policy : Policy) : (new policy).AddsSucceed pingWithPong := by
  have hanswers : ((new policy).runAll pingWithPong).2 = [.done, .done] := rfl
  exact addsSucceed_of_answers (by simp [hanswers])

/-- The two cannot be sorted, and are reported with the candidate behind the main unit. -/
theorem manifest_pingWithPong :
    ((new neededReady).after pingWithPong).manifest.2 =
      .error (.circularDependency [⟨"ping"⟩, ⟨"tone"⟩, ⟨"ping"⟩]
        [blank "ping.js" [⟨"ping"⟩] [⟨"pong"⟩], blank "pong.js" [⟨"tone"⟩, ⟨"pong"⟩] [⟨"ping"⟩]]) := by
  decide +kernel

/-- What is needed can be sorted depth first.  Of the names given since the last manifest, the first
    that nobody provides is reported.  A missing provider and a circle make the manifest fail as well. -/
theorem manifest_outcome_of_appOverBase :
    ((new {}).AddsSucceed appOverBase ∧ ((new {}).after appOverBase).unmet? = none ∧
      ¬ ((new {}).after appOverBase).Lacking ∧ ¬ ((new {}).after appOverBase).Circular) ∧
    ((new neededAsAdded).AddsSucceed ghostsNamed ∧
      ((new neededAsAdded).after ghostsNamed).entryPoints = [⟨"base"⟩, ⟨"ghost"⟩, ⟨"echo"⟩, ⟨"util"⟩] ∧
      ((new neededAsAdded).after ghostsNamed).manifest.2 = .error (.missingEntryPoint ⟨"ghost"⟩)) ∧
    ((new {}).AddsSucceed appWithoutBase ∧ ((new {}).after appWithoutBase).Lacking) ∧
    ((new neededReady).AddsSucceed pingWithPong ∧ ((new neededReady).after pingWithPong).Circular) := by
  have hghosts : (new neededAsAdded).AddsSucceed ghostsNamed := by
    -- Requests for the manifest may fail here, so that only the answers of additions are looked at.
    have hadded : ∀ p ∈ ghostsNamed.zip ((new neededAsAdded).runAll ghostsNamed).2,
        p.1.addsUnits = true → p.2 = .done := by decide +kernel
    rintro op answer hmem hop fault rfl
    cases hadded _ hmem hop
  have hlonely : (new {}).AddsSucceed appWithoutBase := by
    have hanswers : ((new {}).runAll appWithoutBase).2 = [.done, .done] := rfl
    exact addsSucceed_of_answers (by simp [hanswers])
  refine ⟨⟨addsSucceed_appOverBase {}, ?_⟩, ⟨hghosts, ?_⟩, ⟨hlonely, ?_⟩,
    ⟨addsSucceed_pingWithPong neededReady, ?_⟩⟩
  · obtain ⟨-, -, -, -, hok, -⟩ := manifest_outcome {} appOverBase _ (addsSucceed_appOverBase {}) rfl
    exact hok.1 ⟨_, manifest_appOverBase⟩
  · obtain ⟨hnames, hunmet, -⟩ := manifest_outcome neededAsAdded ghostsNamed _ hghosts rfl
    have hsince : ((new neededAsAdded).namesSince ghostsNamed).eraseDups =
        [⟨"base"⟩, ⟨"ghost"⟩, ⟨"echo"⟩, ⟨"util"⟩] := by decide +kernel
    exact ⟨hnames.trans hsince, (hunmet ⟨"ghost"⟩).2 (by decide +kernel)⟩
  · obtain ⟨-, -, hlacking, -⟩ := manifest_outcome {} appWithoutBase _ hlonely rfl
    have hfault : ((new {}).after appWithoutBase).manifest.2 =
        .error (.missingDependency ⟨"base"⟩ (blank "util" [⟨"util"⟩] [⟨"base"⟩])) := by decide +kernel
    exact (hlacking.1 ⟨_, _, hfault⟩).2
  · obtain ⟨-, -, -, hcircular, -⟩ := manifest_outcome neededReady pingWithPong _
      (addsSucceed_pingWithPong neededReady) rfl
    exact (hcircular.1 ⟨_, _, manifest_pingWithPong⟩).2.2

end BuildOrder.Session
