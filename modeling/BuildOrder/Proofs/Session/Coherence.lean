import BuildOrder.Proofs.DependencyGraph
import BuildOrder.Proofs.Session.WellFormed

/-! # A kept manifest is what would be computed

* `compute_of_extends`     what is registered later does not change a manifest
* `compute_commit`         neither do the promotions that the manifest itself has made
* `coherent_after`         so a kept manifest is up to date after every history
* `cached_eq_recomputed`   and asking for it gives what a new computation would give
-/

namespace BuildOrder.Session

variable {s : Session}

/-- While nothing is stale, a manifest is kept that computing it would give again, with the roles
    that the units have. -/
def Coherent (s : Session) : Prop :=
  s.stale = false → ∃ manifest, s.cached = some manifest ∧ s.compute = .ok (s.roles, manifest)

/-! ## Later registrations -/

section Extends

variable {registry : Registry}

/-- What is registered later does not change which units are kept. -/
theorem kept_of_extends (hext : s.registry.Extends registry) {roles : List Role}
    {units : List SourceUnit} (h : s.kept roles = .ok units) :
    { s with registry }.kept roles = .ok units := by
  unfold kept at h ⊢
  split at h
  · rename_i hall
    rwa [if_pos hall]
  · rename_i hsome
    rw [if_neg hsome]
    -- A closure that lacks no provider does not change with the registry.
    exact Closure.units_fail_of_extends hext h

/-- What is registered later does not change how they are arranged. -/
theorem arranged_of_extends (hext : s.registry.Extends registry) {units manifest : List SourceUnit}
    (h : s.arranged units = .ok manifest) : { s with registry }.arranged units = .ok manifest := by
  unfold arranged at h ⊢
  split at h
  · rename_i horiginal
    rwa [if_pos horiginal]
  · rename_i hsorted
    split at h
    · rename_i graph hgraph
      rw [if_neg hsorted, DependencyGraph.build_fail_of_extends hext hgraph]
      exact h
    · cases h

/-- What is registered later does not change a manifest. -/
theorem compute_of_extends (hext : s.registry.Extends registry) {roles : List Role}
    {manifest : List SourceUnit} (h : s.compute = .ok (roles, manifest)) :
    { s with registry }.compute = .ok (roles, manifest) := by
  obtain ⟨hpromoted, units, hkept, harranged⟩ := compute_eq_ok_iff.1 h
  exact compute_eq_ok_iff.2
    ⟨Role.promoteProviders_of_extends hext hpromoted, units, kept_of_extends hext hkept,
      arranged_of_extends hext harranged⟩

end Extends

/-! ## Promotions -/

/-- The session once a computed manifest is kept. -/
def committed (s : Session) (roles : List Role) (units : List SourceUnit) : Session :=
  { s with roles, entryPoints := [], cached := some units, stale := false }

/-- Once a manifest is kept, no unit is destined to be main that is not main already. -/
theorem destined_committed (hs : s.WellFormed) (units : List SourceUnit) :
    (s.committed s.destined units).destined = s.destined := by
  have hcommitted : (s.committed s.destined units).WellFormed :=
    ⟨hs.distinct, hs.length_destined, hs.position⟩
  refine Role.list_ext ?_ fun i => ?_
  · rw [hcommitted.length_destined, hs.length_destined]
    rfl
  · rw [hcommitted.getElem?_destined]
    constructor
    -- The moochers are main already, and no entry point is named any more.
    · rintro ((hmain | hmoocher) | ⟨ns, hns, -⟩)
      · exact hmain
      · exact (hs.getElem?_destined i).2 (.inl (.inr hmoocher))
      · exact absurd hns List.not_mem_nil
    · exact fun hmain => .inl (.inl hmain)

/-- The promotions that a manifest has made do not change it. -/
theorem compute_commit (hs : s.WellFormed) {roles : List Role} {manifest : List SourceUnit}
    (h : s.compute = .ok (roles, manifest)) :
    (s.committed roles manifest).compute = .ok (roles, manifest) := by
  obtain ⟨-, rfl⟩ := eq_destined_of_compute h
  obtain ⟨-, units, hkept, harranged⟩ := compute_eq_ok_iff.1 h
  -- Which units are kept, and their order, depends on the roles only, and these are the same.
  refine compute_eq_ok_iff.2 ⟨?_, units, hkept, harranged⟩
  -- No entry point is named any more that could be at fault.
  have hpromoted := (s.committed s.destined manifest).promoted_eq
  rw [destined_committed hs] at hpromoted
  exact hpromoted

/-! ## Every history -/

/-- Every step keeps a manifest up to date or makes it stale. -/
theorem Coherent.step {t : Session} (hs : s.Coherent) (hstep : Step s t) (hwf : s.WellFormed) :
    t.Coherent := by
  intro hfresh
  cases hstep with
  | change hchange =>
    -- Every other change makes the manifest stale.
    cases hchange with
    | commit hstale hcompute => exact ⟨_, rfl, compute_commit hwf hcompute⟩
    | _ => cases hfresh
  | @refuse u registry conflict hnew hregister =>
    -- A refused unit only makes the registry larger.
    obtain ⟨manifest, hcached, hcompute⟩ := hs hfresh
    have hext : s.registry.Extends registry := extends_step (.refuse hnew hregister)
    exact ⟨manifest, hcached, compute_of_extends hext hcompute⟩

/-- A kept manifest is up to date after every history. -/
theorem coherent_after (policy : Policy) (ops : List Operation) :
    ((new policy).after ops).Coherent := by
  -- A kept manifest is up to date because the session is well formed, so that both are shown together.
  have hboth : ((new policy).after ops).WellFormed ∧ ((new policy).after ops).Coherent :=
    invariant_after (P := fun s => s.WellFormed ∧ s.Coherent)
      ⟨wellFormed_new policy, fun h => by cases h⟩
      (fun _ _ hstep hs => ⟨hs.1.step hstep, hs.2.step hstep hs.1⟩) ops
  exact hboth.2

/-- Asking for the manifest gives what computing it gives, fresh or stale. -/
theorem manifest_cases (hs : s.Coherent) :
    (∃ t manifest, s.manifest = (t, .ok manifest) ∧ s.compute = .ok (t.roles, manifest) ∧
        t.units = s.units ∧ t.registry = s.registry ∧ t.policy = s.policy) ∨
      ∃ fault, s.manifest = (s, .error fault) ∧ s.compute = .error fault := by
  unfold manifest
  cases hstale : s.stale with
  | true =>
    rw [if_pos rfl]
    cases hcompute : s.compute with
    | ok result => exact .inl ⟨_, _, rfl, rfl, rfl, rfl, rfl⟩
    | error fault => exact .inr ⟨fault, rfl, rfl⟩
  | false =>
    -- The kept manifest is the one that would be computed.
    obtain ⟨manifest, hcached, hcompute⟩ := hs hstale
    rw [if_neg Bool.false_ne_true, hcached]
    exact .inl ⟨s, manifest, rfl, hcompute, rfl, rfl, rfl⟩

/-- The answer does not depend on whether a manifest is kept. -/
theorem manifest_snd (hs : s.Coherent) : s.manifest.2 = s.compute.map Prod.snd := by
  rcases manifest_cases hs with ⟨t, manifest, hmanifest, hcompute, -⟩ | ⟨fault, hmanifest, hcompute⟩
  · rw [hmanifest, hcompute]
    rfl
  · rw [hmanifest, hcompute]
    rfl

/-- The manifest is given exactly when a computation would give it. -/
theorem manifest_snd_eq_ok_iff (hs : s.Coherent) {manifest : List SourceUnit} :
    s.manifest.2 = .ok manifest ↔ ∃ roles, s.compute = .ok (roles, manifest) := by
  rw [manifest_snd hs]
  cases s.compute with
  | error fault => simp [Except.map]
  | ok result => simp [Except.map, Prod.ext_iff]

/-- A fault is given exactly when a computation would give it. -/
theorem manifest_snd_eq_error_iff (hs : s.Coherent) {fault : Fault} :
    s.manifest.2 = .error fault ↔ s.compute = .error fault := by
  rw [manifest_snd hs]
  cases s.compute with
  | error other => simp [Except.map]
  | ok result => simp [Except.map]

/-- While nothing is stale, asking for the manifest gives the one that is kept, and a new
    computation from the units, roles, registrations, entry points and policy would give the same
    units in the same order. -/
theorem cached_eq_recomputed (policy : Policy) (ops : List Operation) (s : Session)
    (hs : s = (new policy).after ops) (hfresh : s.isStale = false) :
    ∃ manifest, s.cached = some manifest ∧ s.manifest = (s, .ok manifest) ∧
      { s with stale := true }.manifest.2 = .ok manifest := by
  obtain ⟨manifest, hcached, hcompute⟩ := (hs ▸ coherent_after policy ops : s.Coherent) hfresh
  refine ⟨manifest, hcached, ?_, ?_⟩
  · rw [Session.manifest, if_neg (by rw [show s.stale = false from hfresh]; exact Bool.false_ne_true),
      hcached]
  · -- A computation does not look at whether something is stale.
    have hrecompute : { s with stale := true }.compute = .ok (s.roles, manifest) := hcompute
    rw [Session.manifest, if_pos rfl, hrecompute]

/-- A unit without content. -/
def blank (id : String) (provides requires : List Namespace) : SourceUnit where
  id
  content := ""
  provides
  requires
  runtimeBase := false
  digest := "e3b0c44298fc1c149afbf4c8996fb92427ae41e4649b934ca495991b7852b855"
  digest_eq := Digest.ofText_empty.symm

/-- All units, the lowest ready one first. -/
def allReady : Policy := { keepAllUnits := true, strategy := .kahn }

/-- Only needed units, the lowest ready one first. -/
def neededReady : Policy := { strategy := .kahn }

/-- A main unit with the candidate that it requires. -/
def appWithUtil : List Operation :=
  [.addMains [blank "app" [] [⟨"util"⟩]], .addCandidates [blank "util" [⟨"util"⟩] []]]

/-- A refused unit leaves its first namespace in the registry and the manifest as it was. -/
def appWithRival : List Operation :=
  appWithUtil ++ [.manifest, .addCandidates [blank "rival" [⟨"extra"⟩, ⟨"util"⟩] []]]

/-- After the refusal, the manifest that is kept is still the one that would be computed. -/
theorem cached_eq_recomputed_of_rival :
    ((new allReady).after appWithRival).isStale = false ∧
    ∃ manifest, ((new allReady).after appWithRival).cached = some manifest ∧
      ((new allReady).after appWithRival).manifest = ((new allReady).after appWithRival, .ok manifest) ∧
      { (new allReady).after appWithRival with stale := true }.manifest.2 = .ok manifest := by
  have hfresh : ((new allReady).after appWithRival).isStale = false := by decide +kernel
  exact ⟨hfresh, cached_eq_recomputed allReady appWithRival _ rfl hfresh⟩

end BuildOrder.Session
