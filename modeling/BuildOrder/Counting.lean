/-! # Counting what is left

Searches end because the number of elements that they have not met yet shrinks.

* `countP_lt_countP`  a weaker test accepts more, if it accepts one element that the other refuses
* `unmet_append_lt`   meeting a new node leaves fewer to meet
-/

namespace BuildOrder

/-- A test that accepts all that another one accepts, and a further element, accepts more. -/
theorem countP_lt_countP {p q : α → Bool} {xs : List α} (himp : ∀ x ∈ xs, p x = true → q x = true)
    {a : α} (ha : a ∈ xs) (hp : p a = false) (hq : q a = true) : xs.countP p < xs.countP q := by
  induction xs with
  | nil => cases ha
  | cons x xs ih =>
    have htail : xs.countP p ≤ xs.countP q :=
      List.countP_mono_left fun y hy => himp y (List.mem_cons_of_mem _ hy)
    rw [List.countP_cons, List.countP_cons]
    rcases List.mem_cons.1 ha with rfl | ha
    · simp only [hp, hq]
      simpa using Nat.lt_succ_of_le htail
    · have := ih (fun y hy => himp y (List.mem_cons_of_mem _ hy)) ha
      have hx := himp x List.mem_cons_self
      by_cases hpx : p x = true
      · simpa [hpx, hx hpx] using this
      · rw [if_neg hpx]
        omega

/-- The sum of numbers. -/
def total (numbers : List Nat) : Nat := numbers.foldr (fun k sum => k + sum) 0

/-- How many of `n` nodes are not in a list. -/
def unmet {n : Nat} (met : List (Fin n)) : Nat := (List.finRange n).countP fun i => !met.contains i

/-- Meeting a new node leaves fewer to meet. -/
theorem unmet_append_lt {n : Nat} {met : List (Fin n)} {i : Fin n} (hi : i ∉ met) :
    unmet (met ++ [i]) < unmet met := by
  apply countP_lt_countP _ (List.mem_finRange i)
  · simp
  · simpa using hi
  · intro j _ hj
    simp only [List.contains_eq_mem, List.mem_append, Bool.not_eq_true', decide_eq_false_iff_not,
      not_or] at hj ⊢
    exact hj.1

end BuildOrder
