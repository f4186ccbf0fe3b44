import BuildOrder.LastPosition
import BuildOrder.Proofs.Precedence
import BuildOrder.SourceUnit

/-! # Lists of distinct units

* `Distinct.eq_of_identity_eq`       in such a list, the identity tells which unit it is
* `Distinct.lastPosition?_eq_some`   and where it stands
-/

namespace BuildOrder.SourceUnit

/-- No two units of a list are the same unit. -/
def Distinct (units : List SourceUnit) : Prop := (units.map identity).Nodup

theorem Distinct.nodup {units : List SourceUnit} (h : Distinct units) : units.Nodup :=
  List.Nodup.of_map identity h

/-- In a list of distinct units, the identity tells which unit it is. -/
theorem Distinct.eq_of_identity_eq {units : List SourceUnit} (h : Distinct units) {u v : SourceUnit}
    (hu : u ∈ units) (hv : v ∈ units) (heq : u.identity = v.identity) : u = v :=
  List.inj_on_of_nodup_map h hu hv heq

/-- A part of a list of distinct units is one as well. -/
theorem Distinct.sublist {xs ys : List SourceUnit} (h : Distinct ys) (hsub : xs.Sublist ys) :
    Distinct xs :=
  List.Nodup.sublist (hsub.map identity) h

theorem Distinct.perm {xs ys : List SourceUnit} (h : Distinct xs) (hperm : xs.Perm ys) : Distinct ys :=
  (hperm.map identity).nodup h

/-- A unit may be put at the end of a list of distinct units when its identity is not among theirs. -/
theorem Distinct.append_singleton {units : List SourceUnit} (h : Distinct units) {u : SourceUnit}
    (hu : ∀ v ∈ units, v.identity ≠ u.identity) : Distinct (units ++ [u]) := by
  rw [Distinct, List.map_append]
  refine nodup_append_singleton h fun hmem => ?_
  -- A repeated identity would be that of a unit of the list.
  obtain ⟨v, hv, heq⟩ := List.mem_map.1 hmem
  exact hu v hv heq

/-- The last position of a unit is its only one. -/
theorem Distinct.lastPosition?_eq_some {units : List SourceUnit} (h : Distinct units) {u : SourceUnit}
    {i : Fin units.length} : lastPosition? u.same units = some i ↔ u.identity = (units.get i).identity := by
  rw [lastPosition?_eq_some_iff, same_iff]
  -- That the position holds the unit is enough: a later position of it would hold the same unit.
  refine ⟨And.left, fun hi => ⟨hi, fun j hij => ?_⟩⟩
  rw [← Bool.not_eq_true, same_iff]
  intro hj
  have heq : (units.get i) = (units.get j) :=
    h.eq_of_identity_eq (List.getElem_mem _) (List.getElem_mem _) (hi.symm.trans hj)
  have : i = j := Fin.ext ((List.Nodup.getElem_inj_iff h.nodup).1 heq)
  omega

end BuildOrder.SourceUnit
