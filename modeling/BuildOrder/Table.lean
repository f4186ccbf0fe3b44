/-! # Tables

* `get_fill`, `get_ofFn`   what a new table holds
* `get_set`                a value that is set is there, and all others are as before
-/

namespace BuildOrder

/-- A value for each of the nodes `0, …, n - 1`. -/
structure Table (α : Type) (n : Nat) where
  values : Vector α n

namespace Table

/-- The table that holds one value everywhere. -/
def fill (n : Nat) (value : α) : Table α n := ⟨Vector.replicate n value⟩

/-- The table of the values of a function. -/
def ofFn (f : Fin n → α) : Table α n := ⟨Vector.ofFn f⟩

/-- The value for a node. -/
def get (t : Table α n) (i : Fin n) : α := getElem t.values i.val i.isLt

/-- Sets the value for a node. -/
def set (t : Table α n) (i : Fin n) (value : α) : Table α n := ⟨t.values.set i.val value i.isLt⟩

@[simp] theorem get_fill (value : α) (i : Fin n) : (fill n value).get i = value := by
  simp [fill, get]

@[simp] theorem get_ofFn (f : Fin n → α) (i : Fin n) : (ofFn f).get i = f i := by
  simp [ofFn, get]

theorem get_set (t : Table α n) (i j : Fin n) (value : α) :
    (t.set i value).get j = if i = j then value else t.get j := by
  simp [set, get, Vector.getElem_set, Fin.ext_iff]

/-- Tables are equal when they hold the same values. -/
@[ext] theorem ext {t u : Table α n} (h : ∀ i, t.get i = u.get i) : t = u := by
  obtain ⟨values⟩ := t
  obtain ⟨values'⟩ := u
  congr 1
  exact Vector.ext fun i hi => h ⟨i, hi⟩

end Table

end BuildOrder
