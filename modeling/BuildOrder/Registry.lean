import BuildOrder.Fault

/-! # The registry of providers

The registry says which unit provides a namespace.  A namespace belongs to the unit that was
registered for it first; nothing that happens later moves or removes it.  The main facts are how
the operations act on `resolve`:

* `resolve_empty`          `Registry.empty.resolve ns = none`
* `resolve_add`            the added namespace resolves to the added unit, all others as before
* `mem_providers_of_resolve`  what a namespace resolves to is one of the providers
-/

namespace BuildOrder

/-- Which unit provides a namespace, in the order of registration. -/
structure Registry where
  entries : List (Namespace × SourceUnit)
  /-- A namespace is registered once. -/
  nodup : (entries.map Prod.fst).Nodup

namespace Registry

/-- The registry in which nothing is registered. -/
def empty : Registry := ⟨[], List.nodup_nil⟩

/-- The unit that provides a namespace. -/
def resolve (r : Registry) (ns : Namespace) : Option SourceUnit := r.entries.lookup ns

/-- Whether some unit provides a namespace. -/
def contains (r : Registry) (ns : Namespace) : Bool := (r.resolve ns).isSome

/-- The number of namespaces. -/
def size (r : Registry) : Nat := r.entries.length

/-- The units that provide something, in the order of registration. -/
def providers (r : Registry) : List SourceUnit := r.entries.map Prod.snd

/-- The registered namespaces in ascending order. -/
def namespaces (r : Registry) : List Namespace := Namespace.sorted (r.entries.map Prod.fst)

/-- The registered namespaces in ascending order, each with its provider. -/
def bindings (r : Registry) : List (Namespace × SourceUnit) :=
  r.namespaces.filterMap fun ns => (r.resolve ns).map fun u => (ns, u)

theorem resolve_eq_none_iff {r : Registry} {ns : Namespace} :
    r.resolve ns = none ↔ ns ∉ r.entries.map Prod.fst := by
  simp only [resolve, List.lookup_eq_none_iff, List.mem_map, not_exists, not_and]
  constructor
  · intro h p hp heq
    exact absurd (h p hp) (by simp [heq])
  · intro h p hp
    simpa using fun heq => h p hp heq.symm

/-- Registers a namespace that has no provider yet. -/
def add (r : Registry) (ns : Namespace) (u : SourceUnit) (fresh : r.resolve ns = none) : Registry :=
  ⟨r.entries ++ [(ns, u)], by
    rw [List.map_append, List.nodup_append]
    refine ⟨r.nodup, by simp, fun a ha b hb heq => ?_⟩
    have hb : b = ns := by simpa using hb
    exact resolve_eq_none_iff.1 fresh (hb ▸ heq ▸ ha)⟩

@[simp] theorem resolve_empty (ns : Namespace) : empty.resolve ns = none := rfl

theorem resolve_add (r : Registry) {ns : Namespace} (u : SourceUnit) (fresh : r.resolve ns = none)
    (other : Namespace) :
    (r.add ns u fresh).resolve other = if other = ns then some u else r.resolve other := by
  have happend : (r.add ns u fresh).resolve other = (r.resolve other).or ([(ns, u)].lookup other) :=
    List.lookup_append
  rw [happend]
  by_cases h : other = ns
  · subst h
    simp [fresh]
  · have hne : (other == ns) = false := by simpa using h
    simp [h, hne, List.lookup_cons]

/-- What a namespace resolves to is one of the providers. -/
theorem mem_providers_of_resolve {r : Registry} {ns : Namespace} {u : SourceUnit}
    (h : r.resolve ns = some u) : u ∈ r.providers := by
  obtain ⟨before, after, hentries, -⟩ := List.lookup_eq_some_iff.1 h
  rw [providers, hentries]
  simp

/-- Registers one namespace for a unit, unless another unit provides it. -/
def claim (r : Registry) (u : SourceUnit) (ns : Namespace) : Except Conflict Registry :=
  match h : r.resolve ns with
  | some first => if first.same u then .ok r else .error ⟨ns, first, u⟩
  | none => .ok (r.add ns u h)

/-- Registers namespaces for a unit up to the first conflict. -/
def claimAll (r : Registry) (u : SourceUnit) : List Namespace → Registry × Option Conflict
  | [] => (r, none)
  | ns :: rest =>
    match r.claim u ns with
    | .ok next => next.claimAll u rest
    | .error conflict => (r, some conflict)

/-- Registers what a unit provides.  At a conflict, the namespaces before it stay registered and
    those after it are not reached. -/
def register (r : Registry) (u : SourceUnit) : Registry × Option Conflict := r.claimAll u u.provides

/-- Registers units one by one, up to the first conflict. -/
def registerEach (r : Registry) : List SourceUnit → Registry × Option Conflict
  | [] => (r, none)
  | u :: rest =>
    match r.register u with
    | (next, none) => next.registerEach rest
    | (next, some conflict) => (next, some conflict)

/-- The registry of a list of units, or the first conflict among them. -/
def ofUnits (units : List SourceUnit) : Except Conflict Registry :=
  match empty.registerEach units with
  | (r, none) => .ok r
  | (_, some conflict) => .error conflict

/-- Registers namespaces for a unit, passing over those that another unit provides. -/
def claimFree (r : Registry) (u : SourceUnit) : List Namespace → Registry × List Conflict
  | [] => (r, [])
  | ns :: rest =>
    match r.claim u ns with
    | .ok next => next.claimFree u rest
    | .error conflict =>
      let (final, conflicts) := r.claimFree u rest
      (final, conflict :: conflicts)

/-- Registers all units and collects every conflict on the way. -/
def registerAll (r : Registry) : List SourceUnit → Registry × List Conflict
  | [] => (r, [])
  | u :: rest =>
    let (next, conflicts) := r.claimFree u u.provides
    let (final, more) := next.registerAll rest
    (final, conflicts ++ more)

end Registry

end BuildOrder
