/-! # Ascending lists of nodes

A set of nodes is kept as the list of its members in ascending order, each once.  A queue of nodes
is kept in ascending order as well, but holds a node as often as it was added.

* `mem_insert`         `j ∈ insert i xs ↔ j = i ∨ j ∈ xs`
* `pairwise_insert`    `insert` keeps a set ascending
* `perm_enqueue`       a queue has one more entry after `enqueue`, whatever it held
* `pairwise_enqueue`   `enqueue` keeps a queue ascending
-/

namespace BuildOrder.Ascending

/-! ## Sets -/

/-- Adds a node at its place in an ascending list, unless it is there already. -/
def insert (i : Fin n) : List (Fin n) → List (Fin n)
  | [] => [i]
  | j :: rest => if i < j then i :: j :: rest else if i = j then j :: rest else j :: insert i rest

/-- What is in the set afterwards is the added node or was there before. -/
@[simp] theorem mem_insert {i j : Fin n} {xs : List (Fin n)} : j ∈ insert i xs ↔ j = i ∨ j ∈ xs := by
  induction xs with
  | nil => simp [insert]
  | cons k rest ih =>
    rw [insert]
    split
    · simp
    · split
      · -- The node is there already.
        rename_i h
        simp [h]
      · simp only [List.mem_cons, ih]
        constructor <;> rintro (h | h | h) <;> simp [h]

/-- A set stays ascending, each node in it once. -/
theorem pairwise_insert {i : Fin n} {xs : List (Fin n)} (h : xs.Pairwise (· < ·)) :
    (insert i xs).Pairwise (· < ·) := by
  induction xs with
  | nil => simp [insert]
  | cons k rest ih =>
    obtain ⟨hk, hrest⟩ := List.pairwise_cons.1 h
    rw [insert]
    split
    · rename_i hlt
      refine List.pairwise_cons.2 ⟨fun j hj => ?_, h⟩
      rcases List.mem_cons.1 hj with rfl | hj
      · exact hlt
      · exact Fin.lt_trans hlt (hk j hj)
    · split
      · exact h
      · rename_i hle hne
        refine List.pairwise_cons.2 ⟨fun j hj => ?_, ih hrest⟩
        rcases mem_insert.1 hj with rfl | hj
        · omega
        · exact hk j hj

/-! ## Queues -/

/-- Adds an entry to an ascending queue, before those that are not lower. -/
def enqueue (i : Fin n) : List (Fin n) → List (Fin n)
  | [] => [i]
  | j :: rest => if i ≤ j then i :: j :: rest else j :: enqueue i rest

/-- A queue has one more entry, whatever it held. -/
theorem perm_enqueue (i : Fin n) (xs : List (Fin n)) : (enqueue i xs).Perm (i :: xs) := by
  induction xs with
  | nil => exact .refl _
  | cons j rest ih =>
    rw [enqueue]
    split
    · exact .refl _
    · -- The new entry moves up from its place further down.
      exact (ih.cons j).trans (.swap i j rest)

/-- A queue stays ascending. -/
theorem pairwise_enqueue {i : Fin n} {xs : List (Fin n)} (h : xs.Pairwise (· ≤ ·)) :
    (enqueue i xs).Pairwise (· ≤ ·) := by
  induction xs with
  | nil => simp [enqueue]
  | cons k rest ih =>
    obtain ⟨hk, hrest⟩ := List.pairwise_cons.1 h
    rw [enqueue]
    split
    · rename_i hle
      refine List.pairwise_cons.2 ⟨fun j hj => ?_, h⟩
      rcases List.mem_cons.1 hj with rfl | hj
      · exact hle
      · exact Fin.le_trans hle (hk j hj)
    · rename_i hlt
      refine List.pairwise_cons.2 ⟨fun j hj => ?_, ih hrest⟩
      -- What follows in the queue is the new entry or was there before.
      rcases List.mem_cons.1 ((perm_enqueue i rest).mem_iff.1 hj) with rfl | hj
      · omega
      · exact hk j hj

end BuildOrder.Ascending
