import Mathlib.Data.List.Nodup

/-! # Precedence in a list

* `nodup_append_singleton`     a new element may be put at the end of a list
* `precedes_append_singleton`  what is in the list precedes it there
* `Precedes.trans`             precedence in a list without repetitions is transitive
* `Precedes.irrefl`            and nothing precedes itself there
* `Precedes.lt_of_get`         so that precedence is the order of the positions there
* `Precedes.mem_of_append_cons`  what precedes an element there stands in the part before it
-/

namespace BuildOrder

/-- A list of different elements stays one when an element that it does not hold is put at its end. -/
theorem nodup_append_singleton {xs : List α} {x : α} (hxs : xs.Nodup) (hx : x ∉ xs) :
    (xs ++ [x]).Nodup :=
  List.Nodup.append hxs (List.nodup_singleton x) (List.disjoint_singleton.2 hx)

/-- One element stands before another in a list. -/
def Precedes (xs : List α) (a b : α) : Prop := [a, b].Sublist xs

theorem Precedes.mem_left {xs : List α} {a b : α} (h : Precedes xs a b) : a ∈ xs :=
  h.subset List.mem_cons_self

theorem Precedes.mem_right {xs : List α} {a b : α} (h : Precedes xs a b) : b ∈ xs :=
  h.subset (List.mem_cons_of_mem _ List.mem_cons_self)

/-- What comes later does not disturb the order of what is there. -/
theorem Precedes.append {xs : List α} {a b : α} (h : Precedes xs a b) (ys : List α) :
    Precedes (xs ++ ys) a b :=
  h.trans (List.sublist_append_left xs ys)

/-- A function applied to every element keeps their order.  It need not be injective, so that the images
    may be the same. -/
theorem Precedes.map {xs : List α} {a b : α} (f : α → β) (h : Precedes xs a b) :
    Precedes (xs.map f) (f a) (f b) :=
  List.Sublist.map f h

/-- Every element of a list precedes one that is put at the end. -/
theorem precedes_append_singleton {xs : List α} {a : α} (ha : a ∈ xs) (b : α) :
    Precedes (xs ++ [b]) a b :=
  List.Sublist.append (List.singleton_sublist.2 ha) (List.Sublist.refl [b])

/-- In a list with a head, one element precedes another when it is the head and the other comes later,
    or when both stand in that order after the head. -/
theorem precedes_cons {xs : List α} {x a b : α} :
    Precedes (x :: xs) a b ↔ (a = x ∧ b ∈ xs) ∨ Precedes xs a b := by
  unfold Precedes
  constructor
  · intro h
    -- The pair is a sublist that either passes over the head or begins with it.
    cases h with
    | cons _ h => exact .inr h
    | cons_cons _ h => exact .inl ⟨rfl, List.singleton_sublist.1 h⟩
  · rintro (⟨rfl, hb⟩ | h)
    · exact (List.singleton_sublist.2 hb).cons_cons _
    · exact h.cons _

/-- In a list without repetitions, precedence is transitive. -/
theorem Precedes.trans {xs : List α} (hxs : xs.Nodup) {a b c : α} (hab : Precedes xs a b)
    (hbc : Precedes xs b c) : Precedes xs a c := by
  -- With a repetition this fails: in b, c, a, b the element a precedes b, and b precedes c.
  induction xs with
  | nil => exact absurd hab.mem_left List.not_mem_nil
  | cons x xs ih =>
    obtain ⟨hx, hxs⟩ := List.nodup_cons.1 hxs
    rw [precedes_cons] at hab hbc ⊢
    rcases hbc with ⟨rfl, -⟩ | hbc
    · -- The middle element is the head, which nothing precedes.
      rcases hab with ⟨-, hb⟩ | hab
      · exact absurd hb hx
      · exact absurd hab.mem_right hx
    · rcases hab with ⟨ha, -⟩ | hab
      · exact .inl ⟨ha, hbc.mem_right⟩
      · exact .inr (ih hxs hab hbc)

/-- In a list without repetitions, nothing precedes itself. -/
theorem Precedes.irrefl {xs : List α} (hxs : xs.Nodup) {a : α} : ¬ Precedes xs a a := by
  intro h
  -- The pair would be a list without repetitions itself.
  have hpair : [a, a].Nodup := hxs.sublist h
  simp at hpair

/-- An element at a lower position precedes the one at a higher position. -/
theorem precedes_get {xs : List α} {i j : Fin xs.length} (h : i < j) :
    Precedes xs (xs.get i) (xs.get j) :=
  -- What holds of all pairs that stand in order holds of the elements at two positions in order.
  List.pairwise_iff_getElem.1 (List.pairwise_iff_forall_sublist.2 fun hpair => hpair) i j i.2 j.2 h

/-- In a list without repetitions, precedence is the order of the positions. -/
theorem Precedes.lt_of_get {xs : List α} (hxs : xs.Nodup) {i j : Fin xs.length}
    (h : Precedes xs (xs.get i) (xs.get j)) : i < j := by
  -- At a lower or the same position, the other element would precede itself.
  refine Fin.not_le.1 fun hle => ?_
  rcases Fin.lt_or_eq_of_le hle with hlt | rfl
  · exact Precedes.irrefl hxs (h.trans hxs (precedes_get hlt))
  · exact Precedes.irrefl hxs h

/-- In a list without repetitions, what precedes an element stands in the part before it. -/
theorem Precedes.mem_of_append_cons {pre post : List α} {a b : α} (hnodup : (pre ++ b :: post).Nodup)
    (h : Precedes (pre ++ b :: post) a b) : a ∈ pre := by
  induction pre with
  | nil =>
    -- The list begins with the element itself, and nothing precedes a head that does not come again.
    have hb : b ∉ post := (List.nodup_cons.1 hnodup).1
    rcases precedes_cons.1 h with ⟨-, hmem⟩ | h
    · exact absurd hmem hb
    · exact absurd h.mem_right hb
  | cons x pre ih =>
    rw [List.cons_append] at h hnodup
    rcases precedes_cons.1 h with ⟨rfl, -⟩ | h
    · exact List.mem_cons_self
    · exact List.mem_cons_of_mem _ (ih (List.nodup_cons.1 hnodup).2 h)

end BuildOrder
