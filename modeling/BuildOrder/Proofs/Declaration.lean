import BuildOrder.SourceUnit.Draft
import Mathlib.Data.List.Induction

/-! # What declarations amount to

Of the names that are declared for a unit, each counts where it is mentioned first.  Of the other
declarations of a kind the last one counts.  Neither the order of declarations of different kinds
makes a difference, nor whether names are declared one by one or several at once.

* `Collects.declare`   a declaration adds to what a draft has collected
* `collects_foldl`     so a draft collects what its declarations amount to
* `declare_outcome`    which unit they make, or why they make none
-/

namespace BuildOrder

namespace Declaration

/-- The names that a declaration gives as provided. -/
def provided : Declaration → List Namespace
  | provide ns => [ns]
  | provides names => names
  | _ => []

/-- The names that a declaration gives as required. -/
def required : Declaration → List Namespace
  | require ns => [ns]
  | requires names => names
  | _ => []

/-- The content that a declaration gives. -/
def content? : Declaration → Option String
  | content text => some text
  | _ => none

/-- What a declaration says about being a runtime base. -/
def base? : Declaration → Option Bool
  | runtimeBase isBase => some isBase
  | _ => none

/-- The root namespace that a declaration gives. -/
def root? : Declaration → Option Namespace
  | rootNamespace ns => some ns
  | _ => none

/-- What the last of the declarations of a kind says, or else a default. -/
def lastGiven (read : Declaration → Option α) (default : α) (declarations : List Declaration) : α :=
  (declarations.filterMap read).getLastD default

/-- One more declaration decides if it says something of the kind, and changes nothing otherwise. -/
theorem lastGiven_append_singleton (read : Declaration → Option α) (default : α)
    (declarations : List Declaration) (x : Declaration) :
    lastGiven read default (declarations ++ [x]) =
      (read x).getD (lastGiven read default declarations) := by
  unfold lastGiven
  cases h : read x with
  | none => simp [List.filterMap_append, h]
  | some value => simp [List.filterMap_append, h]

/-- Declarations that make the unit a runtime base and yet declare names for it. -/
def Contradictory (declarations : List Declaration) : Prop :=
  lastGiven base? false declarations = true ∧
    ∃ x ∈ declarations, ∃ ns, ns ∈ x.provided ∨ ns ∈ x.required

end Declaration

/-! ## One declaration

Whatever its kind, a declaration changes a field of the draft by what it says about that field,
which is nothing for all fields but one. -/

namespace Draft

open Declaration

/-- No declaration changes the identifier. -/
@[simp] theorem id_declare (d : Draft) (x : Declaration) : (d.declare x).id = d.id := by
  cases x <;> rfl

/-- A declaration replaces the content if it gives one. -/
theorem content_declare (d : Draft) (x : Declaration) :
    (d.declare x).content = x.content?.getD d.content := by
  cases x <;> rfl

/-- A declaration adds the names that it gives as provided. -/
theorem provides_declare (d : Draft) (x : Declaration) :
    (d.declare x).provides = x.provided.foldl addOnce d.provides := by
  cases x <;> rfl

/-- A declaration adds the names that it gives as required. -/
theorem requires_declare (d : Draft) (x : Declaration) :
    (d.declare x).requires = x.required.foldl addOnce d.requires := by
  cases x <;> rfl

/-- A declaration decides whether the unit is a runtime base, if it says so. -/
theorem runtimeBase_declare (d : Draft) (x : Declaration) :
    (d.declare x).runtimeBase = x.base?.getD d.runtimeBase := by
  cases x <;> rfl

/-- A declaration replaces the root namespace if it gives one. -/
theorem root_declare (d : Draft) (x : Declaration) : (d.declare x).root = x.root?.getD d.root := by
  cases x <;> rfl

/-! ## Any number of declarations -/

/-- A draft holds what a list of declarations says about a unit of a name. -/
structure Collects (d : Draft) (name : String) (declarations : List Declaration) : Prop where
  id : d.id = name
  content : d.content = lastGiven content? "" declarations
  provides : d.provides = (declarations.flatMap provided).eraseDups
  requires : d.requires = (declarations.flatMap required).eraseDups
  runtimeBase : d.runtimeBase = lastGiven base? false declarations
  root : d.root = lastGiven root? .root declarations

theorem collects_nil (name : String) : Collects { id := name } name [] := ⟨rfl, rfl, rfl, rfl, rfl, rfl⟩

/-- A declaration adds to what a draft has collected. -/
theorem Collects.declare {d : Draft} {name : String} {declarations : List Declaration}
    (h : d.Collects name declarations) (x : Declaration) :
    (d.declare x).Collects name (declarations ++ [x]) where
  id := by rw [id_declare, h.id]
  content := by rw [content_declare, h.content, lastGiven_append_singleton]
  provides := by
    rw [provides_declare, h.provides, foldl_addOnce]
    simp
  requires := by
    rw [requires_declare, h.requires, foldl_addOnce]
    simp
  runtimeBase := by rw [runtimeBase_declare, h.runtimeBase, lastGiven_append_singleton]
  root := by rw [root_declare, h.root, lastGiven_append_singleton]

/-- A draft holds what its declarations amount to, in any number. -/
theorem collects_foldl (name : String) (declarations : List Declaration) :
    (declarations.foldl declare { id := name }).Collects name declarations := by
  -- The last declaration is split off, since it is added to what those before it have left.
  induction declarations using List.reverseRecOn with
  | nil => exact collects_nil name
  | append_singleton declarations x ih =>
    rw [List.foldl_append]
    exact ih.declare x

/-- A draft is without names when no declaration has given any. -/
theorem Collects.isEmpty_iff {d : Draft} {name : String} {declarations : List Declaration}
    (h : d.Collects name declarations) :
    (d.provides.isEmpty && d.requires.isEmpty) = true ↔
      ¬ ∃ x ∈ declarations, ∃ ns, ns ∈ x.provided ∨ ns ∈ x.required := by
  -- The names are empty lists when nothing is in the lists of all names that were given.
  simp only [h.provides, h.requires, Bool.and_eq_true, List.isEmpty_iff, List.eq_nil_iff_forall_not_mem,
    List.mem_eraseDups, List.mem_flatMap]
  constructor
  · intro ⟨hprovided, hrequired⟩ ⟨x, hx, ns, hns⟩
    cases hns with
    | inl hns => exact hprovided ns ⟨x, hx, hns⟩
    | inr hns => exact hrequired ns ⟨x, hx, hns⟩
  · intro hnone
    constructor
    · intro ns ⟨x, hx, hns⟩
      exact hnone ⟨x, hx, ns, .inl hns⟩
    · intro ns ⟨x, hx, hns⟩
      exact hnone ⟨x, hx, ns, .inr hns⟩

/-- A draft fails to become a unit when what it holds is contradictory. -/
theorem Collects.build_eq {d : Draft} {name : String} {declarations : List Declaration}
    (h : d.Collects name declarations) :
    (Contradictory declarations ∧ d.build = .error (.invalidRuntimeBase name)) ∨
    (¬ Contradictory declarations ∧ d.runtimeBase = true ∧ d.build = .ok d.base) ∨
    (¬ Contradictory declarations ∧ d.runtimeBase = false ∧ d.build = .ok d.ordinary) := by
  unfold build Contradictory
  -- What was said last about being a runtime base is what the draft holds.
  rw [← h.runtimeBase]
  cases hbase : d.runtimeBase with
  | false => simp
  | true =>
    have hnames := h.isEmpty_iff
    by_cases hempty : (d.provides.isEmpty && d.requires.isEmpty) = true
    · simp [hempty, hnames.1 hempty]
    · -- Some name has been declared, whether as provided or as required.
      have hsome := not_not.1 (mt hnames.2 hempty)
      simp [hempty, hsome, h.id]

end Draft

namespace SourceUnit

open Declaration

/-- Declarations make no unit when they make it a runtime base and declare names for it, before or
    after.  Otherwise an ordinary unit has the declared names, each once and in the order of first
    mention, and a runtime base provides one namespace alone, the last that was given to be the
    root.  The two direct ways to make a unit are cases of this. -/
theorem declare_outcome (id : String) (declarations : List Declaration) :
    (declare id declarations = .error (.invalidRuntimeBase id) ↔ Contradictory declarations) ∧
    (¬ Contradictory declarations → ∃ u, declare id declarations = .ok u ∧ u.id = id ∧
      u.content = lastGiven content? "" declarations ∧
      u.runtimeBase = lastGiven base? false declarations ∧
      (u.runtimeBase = false → u.provides = (declarations.flatMap provided).eraseDups ∧
        u.requires = (declarations.flatMap required).eraseDups) ∧
      (u.runtimeBase = true → u.provides = [lastGiven root? .root declarations] ∧ u.requires = [])) ∧
    (∀ names needs, declare id [.provides names, .requires needs] = .ok (ordinary id names needs)) ∧
    ∀ text, declare id [.content text, .runtimeBase true] = .ok (base id text) := by
  have h := Draft.collects_foldl id declarations
  -- The direct ways to make a unit are defined by these declarations.
  refine ⟨?_, fun hgood => ?_, fun names needs => rfl, fun text => rfl⟩
  · unfold declare
    obtain ⟨hbad, hbuild⟩ | ⟨hgood, -, hbuild⟩ | ⟨hgood, -, hbuild⟩ := h.build_eq
    · simp [hbuild, hbad]
    · simp [hbuild, hgood]
    · simp [hbuild, hgood]
  · unfold declare
    obtain ⟨hbad, -⟩ | ⟨-, hbase, hbuild⟩ | ⟨-, hbase, hbuild⟩ := h.build_eq
    · exact absurd hbad hgood
    · exact ⟨_, hbuild, h.id, h.content, hbase.symm.trans h.runtimeBase, by simp [Draft.base],
        by simp [Draft.base, h.root]⟩
    · exact ⟨_, hbuild, h.id, h.content, hbase.symm.trans h.runtimeBase,
        by simp [Draft.ordinary, h.provides, h.requires], by simp [Draft.ordinary]⟩

/-- A unit that is taken for a runtime base at first, with a name that is mentioned twice. -/
def widget : List Declaration :=
  [.runtimeBase true, .provides [⟨"app"⟩, ⟨"app.list"⟩, ⟨"app"⟩], .require ⟨"lib"⟩, .runtimeBase false,
    .provide ⟨"app.menu"⟩, .requires [⟨"app.list"⟩, ⟨"lib"⟩]]

/-- A runtime base, with a root that is given twice. -/
def boot : List Declaration := [.rootNamespace ⟨"old"⟩, .runtimeBase true, .provides [], .rootNamespace ⟨"rt"⟩]

/-- The unit that is an ordinary one after all has its names once each; the runtime base has the second
    root. -/
theorem declare_outcome_of_widget :
    ¬ Contradictory widget ∧ ¬ Contradictory boot ∧
    (∃ u, declare "widget.js" widget = .ok u ∧ u.provides = [⟨"app"⟩, ⟨"app.list"⟩, ⟨"app.menu"⟩] ∧
      u.requires = [⟨"lib"⟩, ⟨"app.list"⟩]) ∧
    ∃ u, declare "boot.js" boot = .ok u ∧ u.provides = [⟨"rt"⟩] ∧ u.requires = [] := by
  have hwidget : ¬ Contradictory widget := fun h => absurd h.1 (by decide)
  have hboot : ¬ Contradictory boot := by simp [Contradictory, boot, provided, required]
  obtain ⟨u, hu, -, -, hordinary, hnames, -⟩ := (declare_outcome "widget.js" widget).2.1 hwidget
  obtain ⟨v, hv, -, -, hbase, -, hroot⟩ := (declare_outcome "boot.js" boot).2.1 hboot
  exact ⟨hwidget, hboot, ⟨u, hu, hnames hordinary⟩, ⟨v, hv, hroot hbase⟩⟩

end SourceUnit

end BuildOrder
