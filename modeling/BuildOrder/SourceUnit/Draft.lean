import BuildOrder.Fault

/-! # Declaring units

A unit is declared step by step.  Each declaration changes a draft, and a finished draft becomes
a unit.  A runtime base provides one namespace and requires none, whatever its draft says; it is
a fault to declare more for it.

* `foldl_addOnce`  names are collected once each, in the order of their first mention
-/

namespace BuildOrder

/-- One statement about a unit. -/
inductive Declaration
  | content (text : String)
  | provide (ns : Namespace)
  | provides (names : List Namespace)
  | require (ns : Namespace)
  | requires (names : List Namespace)
  | runtimeBase (isBase : Bool)
  | rootNamespace (ns : Namespace)

/-- Adds a namespace at the end of a list that does not hold it yet. -/
def addOnce (names : List Namespace) (ns : Namespace) : List Namespace :=
  if ns ∈ names then names else names ++ [ns]

/-- One more name is collected unless it was mentioned before. -/
theorem addOnce_eraseDups (names : List Namespace) (ns : Namespace) :
    addOnce names.eraseDups ns = (names ++ [ns]).eraseDups := by
  rw [addOnce, List.eraseDups_append]
  by_cases h : ns ∈ names
  · simp [h, List.removeAll]
  · simp [h, List.removeAll, List.eraseDups_cons]

/-- Names that are collected one after the other are the first mentions among all of them. -/
theorem foldl_addOnce (names more : List Namespace) :
    more.foldl addOnce names.eraseDups = (names ++ more).eraseDups := by
  induction more generalizing names with
  | nil => simp
  | cons ns rest ih =>
    rw [List.foldl_cons, addOnce_eraseDups, ih]
    simp

/-- What has been declared about a unit so far. -/
structure Draft where
  id : String
  content : String := ""
  provides : List Namespace := []
  requires : List Namespace := []
  runtimeBase : Bool := false
  root : Namespace := .root

namespace Draft

/-- Takes one more declaration.  Names are collected once each, in the order of their first
    mention; of the other declarations of a kind the last one holds. -/
def declare (d : Draft) : Declaration → Draft
  | .content text => { d with content := text }
  | .provide ns => { d with provides := addOnce d.provides ns }
  | .provides names => { d with provides := names.foldl addOnce d.provides }
  | .require ns => { d with requires := addOnce d.requires ns }
  | .requires names => { d with requires := names.foldl addOnce d.requires }
  | .runtimeBase isBase => { d with runtimeBase := isBase }
  | .rootNamespace ns => { d with root := ns }

/-- The unit of a draft, as an ordinary one. -/
def ordinary (d : Draft) : SourceUnit :=
  { id := d.id, content := d.content, provides := d.provides, requires := d.requires, runtimeBase := false }

/-- The unit of a draft, as a runtime base. -/
def base (d : Draft) : SourceUnit :=
  { id := d.id, content := d.content, provides := [d.root], requires := [], runtimeBase := true }

/-- The unit that was drafted.  A runtime base must not have declared any names. -/
def build (d : Draft) : Except Fault SourceUnit :=
  if d.runtimeBase then
    if d.provides.isEmpty && d.requires.isEmpty then .ok d.base else .error (.invalidRuntimeBase d.id)
  else .ok d.ordinary

end Draft

namespace SourceUnit

/-- The unit that a list of declarations describes. -/
def declare (id : String) (declarations : List Declaration) : Except Fault SourceUnit :=
  (declarations.foldl Draft.declare { id }).build

/-- An ordinary unit without content. -/
def ordinary (id : String) (provides requires : List Namespace) : SourceUnit :=
  ([.provides provides, .requires requires].foldl Draft.declare { id }).ordinary

/-- A runtime base that provides the root namespace. -/
def base (id content : String) : SourceUnit := (Draft.declare { id } (.content content)).base

end SourceUnit

end BuildOrder
