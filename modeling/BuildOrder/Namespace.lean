/-! # Namespaces

A namespace is the name under which units provide and require each other's definitions.
-/

namespace BuildOrder

/-- The name of a namespace, such as `app.main`.  Two namespaces are the same exactly when
    they are spelled alike. -/
structure Namespace where
  name : String
deriving DecidableEq, Inhabited

namespace Namespace

/-- The namespace that a runtime base provides when no other name is given. -/
def root : Namespace := ⟨"goog"⟩

/-- Namespaces are ordered by the code points of their names. -/
instance : LT Namespace := ⟨fun a b => a.name < b.name⟩

instance (a b : Namespace) : Decidable (a < b) := inferInstanceAs (Decidable (a.name < b.name))

/-- How two namespaces compare in the order of their names. -/
def order (a b : Namespace) : Ordering :=
  if a < b then .lt else if a = b then .eq else .gt

instance : Ord Namespace := ⟨order⟩

/-- The namespaces in ascending order. -/
def sorted (names : List Namespace) : List Namespace := names.mergeSort fun a b => !decide (b < a)

/-- A path through namespaces, each leading to the next. -/
def path (names : List Namespace) : String := " -> ".intercalate (names.map name)

end Namespace

end BuildOrder
