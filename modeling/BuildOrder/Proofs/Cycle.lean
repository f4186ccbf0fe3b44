import BuildOrder.Cycle
import Mathlib.Data.Fintype.EquivFin
import Mathlib.Data.List.Chain
import Mathlib.Data.List.Nodup
import Mathlib.Logic.Relation

/-! # Ways round a cycle

A cycle is a list of different elements each of which is related to the next, and the last to
the first.  A trail that comes back to one of its elements holds a cycle.

* `isCycle_of_trail`         the part of the trail from that element on is one
* `isCycle_of_cut`           it is the part that `Finding.cut` gives
* `IsCycle.exists_rel`       some element is related to each element of a cycle
* `IsCycle.transGen`         its first element leads back to itself
* `exists_cycle_of_forall_exists`   a way that never ends comes to a cycle
-/

namespace BuildOrder

open Relation

/-- Different elements, each related to the next and the last to the first. -/
def IsCycle (R : α → α → Prop) (xs : List α) : Prop :=
  xs.Nodup ∧ ∃ first rest, xs = first :: rest ∧ (xs ++ [first]).IsChain R

/-- A chain goes on to an element that its last element is related to. -/
theorem isChain_append_singleton {R : α → α → Prop} {xs : List α} {x : α}
    (hchain : xs.IsChain R) (hlink : ∀ p ∈ xs.getLast?, R p x) : (xs ++ [x]).IsChain R := by
  refine hchain.append (List.isChain_singleton x) fun p hp k hk => ?_
  obtain rfl : x = k := by simpa using hk
  exact hlink p hp

/-- A chain that comes back to one of its elements is a cycle from there on. -/
theorem isCycle_of_trail {R : α → α → Prop} {pre post : List α} {x : α}
    (hnodup : (pre ++ x :: post).Nodup) (hchain : (pre ++ x :: post ++ [x]).IsChain R) :
    IsCycle R (x :: post) := by
  refine ⟨(List.nodup_append.1 hnodup).2.1, x, post, rfl, ?_⟩
  -- What leads to the element does not belong to the cycle.
  rw [List.append_assoc] at hchain
  exact hchain.right_of_append

/-- What is cut out of a list that holds the place begins there. -/
theorem cut_eq_some [DecidableEq α] {place : α} {trail : List α} (h : place ∈ trail) :
    ∃ pre post, trail = pre ++ place :: post ∧ Finding.cut place trail = some (place :: post) := by
  induction trail with
  | nil => exact absurd h List.not_mem_nil
  | cons x rest ih =>
    by_cases hx : x = place
    · subst hx
      exact ⟨[], rest, rfl, by simp [Finding.cut]⟩
    · have hrest : place ∈ rest := (List.mem_cons.1 h).resolve_left (Ne.symm hx)
      obtain ⟨pre, post, hsplit, hcut⟩ := ih hrest
      exact ⟨x :: pre, post, by rw [hsplit, List.cons_append], by rw [Finding.cut, if_neg hx, hcut]⟩

/-- What is cut out of a list that holds the place is the list without what comes before the place. -/
theorem cut_eq_dropWhile [DecidableEq α] {place : α} {trail : List α} (h : place ∈ trail) :
    Finding.cut place trail = some (trail.dropWhile (· ≠ place)) := by
  induction trail with
  | nil => exact absurd h List.not_mem_nil
  | cons x rest ih =>
    by_cases hx : x = place
    · simp [Finding.cut, hx]
    · have hrest : place ∈ rest := (List.mem_cons.1 h).resolve_left (Ne.symm hx)
      simp [Finding.cut, hx, ih hrest]

/-- What is cut out of a trail that has come back to one of its elements is a cycle, and the last part
    of the trail. -/
theorem isCycle_of_cut [DecidableEq α] {R : α → α → Prop} {trail : List α} {x : α}
    (hnodup : trail.Nodup) (hchain : (trail ++ [x]).IsChain R) (hx : x ∈ trail) :
    ∃ nodes, Finding.cut x trail = some nodes ∧ IsCycle R nodes ∧ nodes <:+ trail := by
  -- The trail splits before the place where it comes round.
  obtain ⟨pre, post, rfl, hcut⟩ := cut_eq_some hx
  exact ⟨x :: post, hcut, isCycle_of_trail hnodup hchain, List.suffix_append pre _⟩

/-- A cycle of one relation is one of another that holds wherever the first one does on the cycle. -/
theorem IsCycle.imp {R S : α → α → Prop} {xs : List α} (h : IsCycle R xs)
    (himp : ∀ a ∈ xs, ∀ b ∈ xs, R a b → S a b) : IsCycle S xs := by
  obtain ⟨hnodup, first, rest, rfl, hchain⟩ := h
  refine ⟨hnodup, first, rest, rfl, hchain.imp_of_mem_imp fun a b ha hb => ?_⟩
  -- The way round repeats the first element and has no others than the cycle.
  have hmem : ∀ c ∈ first :: rest ++ [first], c ∈ first :: rest := by
    simp +contextual [or_comm]
  exact himp a (hmem a ha) b (hmem b hb)

/-- A function that tells the elements of a cycle apart carries it to a relation that it respects. -/
theorem IsCycle.map {R : α → α → Prop} {S : β → β → Prop} {xs : List α} (h : IsCycle R xs) (f : α → β)
    (hinj : ∀ a ∈ xs, ∀ b ∈ xs, f a = f b → a = b) (hf : ∀ a ∈ xs, ∀ b ∈ xs, R a b → S (f a) (f b)) :
    IsCycle S (xs.map f) := by
  obtain ⟨hnodup, first, rest, rfl, hchain⟩ := h.imp (S := fun a b => S (f a) (f b)) hf
  refine ⟨List.Nodup.map_on hinj hnodup, f first, rest.map f, rfl, ?_⟩
  -- The way round is mapped as a whole, the repeated first element included.
  have hmap := (List.isChain_map f).2 hchain
  rwa [List.map_append] at hmap

/-- Something comes before each element of a chain but the first. -/
theorem exists_rel_of_isChain {R : α → α → Prop} {a x : α} {xs : List α} (h : (a :: xs).IsChain R)
    (hx : x ∈ xs) : ∃ y ∈ a :: xs, R y x := by
  -- By induction with a moving head, since the element that comes before is the head or found further
  -- on.
  induction xs generalizing a with
  | nil => exact absurd hx List.not_mem_nil
  | cons b xs ih =>
    obtain ⟨hab, hrest⟩ := List.isChain_cons_cons.1 h
    rcases List.mem_cons.1 hx with rfl | hx
    · exact ⟨a, List.mem_cons_self, hab⟩
    · obtain ⟨y, hy, hyx⟩ := ih hrest hx
      exact ⟨y, List.mem_cons_of_mem _ hy, hyx⟩

/-- Some element is related to each element of a cycle. -/
theorem IsCycle.exists_rel {R : α → α → Prop} {xs : List α} (h : IsCycle R xs) {x : α} (hx : x ∈ xs) :
    ∃ y, R y x := by
  obtain ⟨-, first, rest, rfl, hchain⟩ := h
  rw [List.cons_append] at hchain
  -- On the way round, every element stands after the first one.
  have hafter : x ∈ rest ++ [first] := by simpa [or_comm] using hx
  obtain ⟨y, -, hyx⟩ := exists_rel_of_isChain hchain hafter
  exact ⟨y, hyx⟩

/-- The first element of a chain of at least two leads to the last one. -/
theorem transGen_of_isChain {R : α → α → Prop} {a b : α} {xs : List α}
    (h : (a :: xs ++ [b]).IsChain R) : TransGen R a b := by
  induction xs generalizing a with
  | nil => exact .single (List.isChain_pair.1 h)
  | cons x xs ih =>
    obtain ⟨hax, hrest⟩ := List.isChain_cons_cons.1 h
    exact .head hax (ih hrest)

/-- The first element of a cycle leads back to itself. -/
theorem IsCycle.transGen {R : α → α → Prop} {xs : List α} (h : IsCycle R xs) :
    ∃ x ∈ xs, TransGen R x x := by
  obtain ⟨-, first, rest, rfl, hchain⟩ := h
  exact ⟨first, List.mem_cons_self, transGen_of_isChain hchain⟩

/-- Among finitely many elements, a way that can always go on comes to a cycle. -/
theorem exists_cycle_of_forall_exists [Finite α] {R : α → α → Prop} {P : α → Prop}
    (hnext : ∀ x, P x → ∃ y, R x y ∧ P y) {x : α} (hx : P x) :
    ∃ c, ReflTransGen R x c ∧ TransGen R c c := by
  by_contra hnone
  push Not at hnone
  -- Without a cycle, the way from one element to the next descends among those that are reached.
  have hwf : WellFounded fun a b : { y // ReflTransGen R x y } => TransGen R b.1 a.1 := by
    have : IsTrans { y // ReflTransGen R x y } fun a b => TransGen R b.1 a.1 :=
      ⟨fun _ _ _ hab hbc => hbc.trans hab⟩
    have : Std.Irrefl fun a b : { y // ReflTransGen R x y } => TransGen R b.1 a.1 :=
      ⟨fun a => hnone a.1 a.2⟩
    exact Finite.wellFounded_of_trans_of_irrefl _
  -- So the way would have to end, wherever it has come to.
  have hends : ∀ a : { y // ReflTransGen R x y }, ¬ P a.1 := by
    intro a
    induction a using hwf.induction with
    | _ a ih =>
      intro ha
      obtain ⟨y, hay, hy⟩ := hnext a.1 ha
      exact ih ⟨y, a.2.tail hay⟩ (.single hay) hy
  exact hends ⟨x, .refl⟩ hx

end BuildOrder
