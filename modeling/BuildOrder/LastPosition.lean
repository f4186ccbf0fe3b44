/-! # The last position of a kind of element

* `lastPosition?_eq_some_iff`  the answer satisfies the test and nothing after it does
* `lastPosition?_eq_none_iff`  there is no answer only when no element satisfies the test
-/

namespace BuildOrder

/-- The last position of an element that satisfies `p`. -/
def lastPosition? (p : α → Bool) : (xs : List α) → Option (Fin xs.length)
  | [] => none
  | x :: xs =>
    match lastPosition? p xs with
    | some i => some i.succ
    | none => if p x then some ⟨0, Nat.succ_pos _⟩ else none

theorem lastPosition?_eq_none_iff {p : α → Bool} {xs : List α} :
    lastPosition? p xs = none ↔ ∀ x ∈ xs, p x = false := by
  induction xs with
  | nil => simp [lastPosition?]
  | cons x xs ih =>
    cases h : lastPosition? p xs with
    | none =>
      have hnone := ih.1 h
      simp [lastPosition?, h]
      exact fun _ => hnone
    | some i =>
      have : ¬ ∀ y ∈ xs, p y = false := fun hall => by simp [ih.2 hall] at h
      simp only [lastPosition?, h, reduceCtorEq, List.mem_cons, forall_eq_or_imp, false_iff]
      exact fun hall => this hall.2

theorem lastPosition?_eq_some_iff {p : α → Bool} {xs : List α} {i : Fin xs.length} :
    lastPosition? p xs = some i ↔ p (xs.get i) = true ∧ ∀ j : Fin xs.length, i < j → p (xs.get j) = false := by
  induction xs with
  | nil => exact i.elim0
  | cons x xs ih =>
    cases h : lastPosition? p xs with
    | none =>
      have hnone := lastPosition?_eq_none_iff.1 h
      refine i.cases ?_ fun k => ?_
      · have later : ∀ j : Fin (x :: xs).length, ⟨0, Nat.succ_pos _⟩ < j → p ((x :: xs).get j) = false := by
          intro j
          refine j.cases (fun lt => absurd lt (Nat.lt_irrefl 0)) fun k _ => ?_
          exact hnone _ (List.get_mem xs k)
        by_cases hx : p x = true
        · simpa [lastPosition?, h, hx] using later
        · simp [lastPosition?, h, hx]
      · have : p (xs.get k) = false := hnone _ (List.get_mem xs k)
        have hk : p ((x :: xs).get k.succ) = false := this
        simp only [lastPosition?, h, hk, Bool.false_eq_true, false_and, iff_false]
        split
        · intro heq
          exact absurd (congrArg Fin.val (Option.some.inj heq)) (by simp)
        · simp
    | some m =>
      have hm := (ih (i := m)).1 h
      refine i.cases ?_ fun k => ?_
      · simp only [lastPosition?, h]
        constructor
        · intro heq
          exact absurd (congrArg Fin.val (Option.some.inj heq)) (by simp)
        · intro hall
          have := hall.2 m.succ (Nat.succ_pos _)
          exact absurd hm.1 (by simpa using this)
      · simp only [lastPosition?, h, Option.some.injEq, Fin.succ_inj]
        constructor
        · rintro rfl
          refine ⟨hm.1, fun j => ?_⟩
          refine j.cases (fun lt => absurd lt (Nat.not_lt_zero _)) fun l lt => ?_
          exact hm.2 l (Nat.lt_of_succ_lt_succ lt)
        · rintro ⟨hk, hlater⟩
          have : lastPosition? p xs = some k :=
            ih.2 ⟨hk, fun j lt => hlater j.succ (Nat.succ_lt_succ lt)⟩
          simpa [h] using this

end BuildOrder
