import BuildOrder.Digest
import BuildOrder.Namespace
import BuildOrder.Text.Quoted

/-! # Source units

A unit is one input file with the namespaces that it provides and requires.  Its identity is its
name together with the digest of its content: units of one identity are *the same unit* for
every rule of the library, even where their declarations differ.
-/

namespace BuildOrder

/-- What makes a unit the unit it is. -/
structure Identity where
  id : String
  digest : String
deriving DecidableEq

/-- One input file with its declarations, which stand in the order in which they were made. -/
structure SourceUnit where
  id : String
  content : String
  provides : List Namespace
  requires : List Namespace
  runtimeBase : Bool
  digest : String := Digest.ofText content
  /-- The digest is that of the content. -/
  digest_eq : digest = Digest.ofText content := by rfl
deriving DecidableEq

namespace SourceUnit

/-- The name and the digest of a unit. -/
def identity (u : SourceUnit) : Identity := ⟨u.id, u.digest⟩

/-- Whether two values describe the same unit. -/
def same (u v : SourceUnit) : Bool := u.identity == v.identity

@[simp] theorem same_iff {u v : SourceUnit} : u.same v = true ↔ u.identity = v.identity := by
  simp [same]

/-- Whether the unit declares nothing that another could require. -/
def isMoocher (u : SourceUnit) : Bool := u.provides.isEmpty

/-- Whether the unit declares that it provides a namespace. -/
def declares (u : SourceUnit) (ns : Namespace) : Bool := u.provides.contains ns

/-- The name of the unit in a path of namespaces: the first that it provides, or else its own. -/
def representative (u : SourceUnit) : Namespace := u.provides.headD ⟨u.id⟩

/-- The unit as one line of text, without its content. -/
def describe (u : SourceUnit) : String :=
  let names (list : List Namespace) := Text.bracketed (list.map fun ns => Text.quoted ns.name)
  "SourceUnit \x7b id: " ++ Text.quoted u.id ++ ", provides: " ++ names u.provides ++
    ", requires: " ++ names u.requires ++
    ", runtime_base: " ++ (if u.runtimeBase then "true" else "false") ++ " \x7d"

/-- The number of different units in a list. -/
def countDistinct (units : List SourceUnit) : Nat := (units.map identity).eraseDups.length

end SourceUnit

end BuildOrder
