import BuildOrder.Order.Recursive
import BuildOrder.Proofs.Cycle
import BuildOrder.Proofs.Digraph

/-! # The recursive search is sound and complete

Each visit keeps the placed nodes an order of what has been placed, off the path that leads to
it; a visit that comes back to the path has found a cycle.

* `visitAll_ok`      what is placed stays placed, and the visited nodes are placed as well
* `mem_of_visitAll`  nothing else is placed than what they need
* `visitAll_error`   the reported nodes are a cycle
* `isOrder_of_order_eq_ok`, `isCycle_of_order_eq_error`   the same for the whole search
-/

namespace BuildOrder.Recursive

open BuildOrder.Digraph Relation

variable {n : Nat}

/-- What every visit keeps of the placed nodes. -/
structure Placement (g : Digraph n) (path placed : List (Fin n)) : Prop where
  nodup : placed.Nodup
  respects : g.Respects placed
  /-- A node of the path waits for its visit to end. -/
  offPath : ∀ i ∈ path, i ∉ placed

theorem placement_nil (g : Digraph n) : Placement g [] [] :=
  ⟨List.nodup_nil, respects_nil g, fun _ hi => absurd hi List.not_mem_nil⟩

/-- A visited node is placed at the end when all that it depends on is there. -/
theorem Placement.append_singleton {g : Digraph n} {path placed : List (Fin n)} {i : Fin n}
    (h : Placement g (path ++ [i]) placed) (hi : i ∉ path) (hdeps : ∀ j, g.Depends i j → j ∈ placed) :
    Placement g path (placed ++ [i]) := by
  have hplaced : i ∉ placed := h.offPath i (by simp)
  refine ⟨?_, respects_append_singleton h.respects hdeps, fun k hk => ?_⟩
  · exact nodup_append_singleton h.nodup hplaced
  · rw [List.mem_append, List.mem_singleton, not_or]
    -- The node itself has left the path, on which it was only at the end.
    exact ⟨h.offPath k (List.mem_append_left _ hk), fun heq => hi (heq ▸ hk)⟩

/-- A path may go on to a node that has not been placed. -/
theorem Placement.deeper {g : Digraph n} {path placed : List (Fin n)} {i : Fin n}
    (h : Placement g path placed) (hi : i ∉ placed) : Placement g (path ++ [i]) placed := by
  refine ⟨h.nodup, h.respects, fun k hk => ?_⟩
  rcases List.mem_append.1 hk with hk | hk
  · exact h.offPath k hk
  · exact List.mem_singleton.1 hk ▸ hi

/-- A successful visit only adds to the placed nodes, and among them are those that it visits. -/
theorem visitAll_ok {g : Digraph n} {path placed nodes inner : List (Fin n)}
    (h : visitAll g path placed nodes = .ok inner) (hplacement : Placement g path placed) :
    placed <+: inner ∧ (∀ i ∈ nodes, i ∈ inner) ∧ Placement g path inner := by
  fun_induction visitAll g path placed nodes generalizing inner with
  | case1 path placed =>
    obtain rfl := Except.ok.inj h
    exact ⟨List.prefix_refl _, fun _ hi => absurd hi List.not_mem_nil, hplacement⟩
  | case2 path placed i rest hi ih =>
    -- The node was placed before, and stays so.
    obtain ⟨hkept, hmem, hinner⟩ := ih h hplacement
    refine ⟨hkept, fun k hk => ?_, hinner⟩
    rcases List.mem_cons.1 hk with rfl | hk
    · exact hkept.subset hi
    · exact hmem k hk
  | case3 => cases h
  | case4 path placed i rest hi hpath visited hvisit ihdeps ihrest =>
    -- The path grows by the node while its dependencies are visited.
    -- Afterwards they are all placed, so that the node can follow them.
    obtain ⟨hdepsPrefix, hdeps, hvisited⟩ := ihdeps hvisit (hplacement.deeper hi)
    obtain ⟨hkept, hmem, hinner⟩ := ihrest h (hvisited.append_singleton hpath hdeps)
    refine ⟨?_, fun k hk => ?_, hinner⟩
    · exact (hdepsPrefix.trans (List.prefix_append _ _)).trans hkept
    · rcases List.mem_cons.1 hk with rfl | hk
      · exact hkept.subset (by simp)
      · exact hmem k hk
  | case5 => cases h

/-- A visit places only what it is asked to visit and what is needed for that. -/
theorem mem_of_visitAll {g : Digraph n} {path placed nodes inner : List (Fin n)}
    (h : visitAll g path placed nodes = .ok inner) {v : Fin n} (hv : v ∈ inner) :
    v ∈ placed ∨ ∃ i ∈ nodes, ReflTransGen g.Depends i v := by
  fun_induction visitAll g path placed nodes generalizing inner with
  | case1 =>
    left
    exact Except.ok.inj h ▸ hv
  | case2 path placed i rest hi ih =>
    rcases ih h hv with hv | ⟨k, hk, hkv⟩
    · exact .inl hv
    · exact .inr ⟨k, List.mem_cons_of_mem _ hk, hkv⟩
  | case3 => cases h
  | case4 path placed i rest hi hpath visited hvisit ihdeps ihrest =>
    -- The node was placed for a later one, for this one, or before.
    rcases ihrest h hv with hv | ⟨k, hk, hkv⟩
    · rcases List.mem_append.1 hv with hv | hv
      · -- What is placed for a dependency of the node is needed by the node.
        rcases ihdeps hvisit hv with hv | ⟨j, hj, hjv⟩
        · exact .inl hv
        · exact .inr ⟨i, List.mem_cons_self, .head hj hjv⟩
      · obtain rfl := List.mem_singleton.1 hv
        exact .inr ⟨v, List.mem_cons_self, .refl⟩
    · exact .inr ⟨k, List.mem_cons_of_mem _ hk, hkv⟩
  | case5 => cases h

/-- A visit that fails has come round to a node of the path. -/
theorem visitAll_error {g : Digraph n} {path placed nodes cycle : List (Fin n)}
    (h : visitAll g path placed nodes = .error cycle) (hnodup : path.Nodup)
    (hchain : path.IsChain g.Depends) (hlink : ∀ p ∈ path.getLast?, ∀ i ∈ nodes, g.Depends p i) :
    IsCycle g.Depends cycle := by
  fun_induction visitAll g path placed nodes generalizing cycle with
  | case1 => cases h
  | case2 path placed i rest hi ih =>
    -- A placed node is passed over, and the path stays as it is.
    exact ih h hnodup hchain fun p hp k hk => hlink p hp k (List.mem_cons_of_mem _ hk)
  | case3 path placed i rest hi hpath =>
    obtain rfl := Except.error.inj h
    -- The path is a chain that the node closes.
    have hclosed : (path ++ [i]).IsChain g.Depends :=
      isChain_append_singleton hchain fun p hp => hlink p hp i List.mem_cons_self
    obtain ⟨nodes, hcut, hcycle, -⟩ := isCycle_of_cut hnodup hclosed hpath
    rw [cut_eq_dropWhile hpath] at hcut
    exact Option.some.inj hcut ▸ hcycle
  | case4 path placed i rest hi hpath visited hvisit ihdeps ihrest =>
    exact ihrest h hnodup hchain fun p hp k hk => hlink p hp k (List.mem_cons_of_mem _ hk)
  | case5 path placed i rest hi hpath inner hvisit ihdeps =>
    -- The dependencies of the node are visited with the node at the end of the path.
    obtain rfl := Except.error.inj h
    refine ihdeps hvisit ?_ ?_ ?_
    · exact nodup_append_singleton hnodup hpath
    · exact isChain_append_singleton hchain fun p hp => hlink p hp i List.mem_cons_self
    · intro p hp k hk
      obtain rfl : i = p := by simpa using hp
      exact hk

/-- What the recursive search gives is an order of the graph. -/
theorem isOrder_of_order_eq_ok {g : Digraph n} {placed : List (Fin n)} (h : order g = .ok placed) :
    g.IsOrder placed := by
  obtain ⟨-, hmem, hplaced⟩ := visitAll_ok h (placement_nil g)
  -- All nodes are visited from the top, so that all are placed.
  exact isOrder_of_length_le hplaced.nodup hplaced.respects
    (le_length_of_forall_mem fun i => hmem i (List.mem_finRange i))

/-- What the recursive search reports is a cycle of the graph. -/
theorem isCycle_of_order_eq_error {g : Digraph n} {cycle : List (Fin n)}
    (h : order g = .error cycle) : IsCycle g.Depends cycle :=
  visitAll_error h List.nodup_nil List.isChain_nil fun _ hp => by simp at hp

end BuildOrder.Recursive
