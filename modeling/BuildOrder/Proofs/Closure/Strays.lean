import BuildOrder.Proofs.Closure
import BuildOrder.SourceUnit.Draft
import Mathlib.Data.List.Perm.Subperm

/-! # Units that are met and not known

A closure is given in the order of a list of known units.  It compares how many of their listings are
met with how many units are met at all, which is to show that all of these are known.

* `countDistinct_add_strays`   a unit that is met is known or a stray
* `length_listed_eq_iff`       the numbers agree when as many listings are repeated as units are strays
* `exists_stray`               a stray is found when there is one
* `stray_reported`             so a stray is reported, unless repeated listings make up for it
* `repeat_hides_stray`         which they can
-/

namespace BuildOrder

/-- The first occurrences in a list are different from each other. -/
theorem nodup_eraseDups [DecidableEq α] : (xs : List α) → xs.eraseDups.Nodup
  | [] => by simp
  | x :: rest => by
    rw [List.eraseDups_cons, List.nodup_cons]
    exact ⟨by simp [List.mem_eraseDups], nodup_eraseDups _⟩
termination_by xs => xs.length
decreasing_by exact Nat.lt_succ_of_le (List.length_filter_le _ rest)

namespace Closure

open SourceUnit

variable {registry : Registry} {policy : MissingPolicy} {entries met known : List SourceUnit}

/-! ## Listings and strays -/

/-- The known units that are met, as often as they are listed. -/
def listed (met known : List SourceUnit) : List SourceUnit := known.filter fun u => met.any u.same

/-- The units that are met and not known. -/
def strays (met known : List SourceUnit) : List SourceUnit := met.filter fun u => !known.any u.same

/-- The number of listings of units that are met beyond the first of each. -/
def repeats (met known : List SourceUnit) : Nat := (listed met known).length - countDistinct (listed met known)

/-- What is listed are the known units that are met. -/
theorem mem_listed {u : SourceUnit} : u ∈ listed met known ↔ u ∈ known ∧ Meets met u := by
  rw [listed, List.mem_filter, any_same_iff]

/-- A unit that is not met makes no difference to what is listed. -/
theorem listed_append_singleton {u : SourceUnit} (h : ¬ Meets met u) :
    listed met (known ++ [u]) = listed met known := by
  have hunmet : met.any u.same = false := by rwa [← Bool.not_eq_true, any_same_iff]
  rw [listed, List.filter_append, List.filter_singleton, hunmet]
  exact List.append_nil _

/-- What is astray are the units that are met but not known. -/
theorem mem_strays {u : SourceUnit} : u ∈ strays met known ↔ u ∈ met ∧ ¬ Meets known u := by
  rw [strays, List.mem_filter, Bool.not_eq_true', ← Bool.not_eq_true, any_same_iff]

/-- There are no more different units in a list than it is long. -/
theorem countDistinct_le_length (units : List SourceUnit) : countDistinct units ≤ units.length := by
  -- The first occurrences of the identities are some of the identities.
  have hsub := (nodup_eraseDups (units.map identity)).subperm fun _ h => List.mem_eraseDups.1 h
  have hle := hsub.length_le
  rwa [List.length_map] at hle

/-- Among different units there are as many as are listed. -/
theorem countDistinct_eq_length {units : List SourceUnit} (h : Distinct units) :
    countDistinct units = units.length := by
  -- The identities are among their first occurrences, which are hence no fewer.
  have hsub := h.subperm fun _ hkey => List.mem_eraseDups.2 hkey
  have hle := hsub.length_le
  rw [List.length_map] at hle
  exact Nat.le_antisymm (countDistinct_le_length units) hle

/-- Each unit that is met is one of the known ones or a stray. -/
theorem countDistinct_add_strays (hmet : Distinct met) (known : List SourceUnit) :
    countDistinct (listed met known) + (strays met known).length = met.length := by
  -- The known ones have the same identities, each once, as what is met besides the strays.
  have hperm : ((listed met known).map identity).eraseDups.Perm
      ((met.filter fun u => known.any u.same).map identity) := by
    refine (List.perm_ext_iff_of_nodup (nodup_eraseDups _) (hmet.sublist List.filter_sublist)).2 fun key => ?_
    rw [List.mem_eraseDups]
    simp only [List.mem_map, mem_listed, List.mem_filter, any_same_iff, Meets]
    constructor
    · rintro ⟨u, ⟨hu, v, hv, heq⟩, rfl⟩
      exact ⟨v, ⟨hv, u, hu, heq.symm⟩, heq⟩
    · rintro ⟨v, ⟨hv, u, hu, heq⟩, rfl⟩
      exact ⟨u, ⟨hu, v, hv, heq.symm⟩, heq⟩
  have hlength := hperm.length_eq
  rw [List.length_map] at hlength
  rw [countDistinct, hlength]
  exact (List.length_eq_length_filter_add fun u : SourceUnit => known.any u.same).symm

/-- As many listings are met as units when as many of them are repeated as units are strays. -/
theorem length_listed_eq_iff (hmet : Distinct met) :
    (listed met known).length = met.length ↔ repeats met known = (strays met known).length := by
  have hcount := countDistinct_add_strays hmet known
  have hle := countDistinct_le_length (listed met known)
  unfold repeats
  omega

/-- Where no listing is repeated, the numbers agree when all that is met is known. -/
theorem length_listed_eq_iff_forall (hmet : Distinct met) (hlisted : Distinct (listed met known)) :
    (listed met known).length = met.length ↔ ∀ u ∈ met, Meets known u := by
  have hnone : strays met known = [] ↔ ∀ u ∈ met, Meets known u := by
    simp [List.eq_nil_iff_forall_not_mem, mem_strays]
  have hcount := countDistinct_add_strays hmet known
  rw [countDistinct_eq_length hlisted] at hcount
  rw [← hnone, ← List.length_eq_zero_iff]
  omega

/-- When some unit that is met is not known, there is a first such unit. -/
theorem exists_stray (h : ¬ ∀ u ∈ met, Meets known u) :
    ∃ u ∈ met, ¬ Meets known u ∧ stray? met known = some u := by
  have hsome : (stray? met known).isSome := by
    rw [stray?, List.find?_isSome]
    push Not at h
    obtain ⟨u, hu, hunknown⟩ := h
    exact ⟨u, hu, by rwa [Bool.not_eq_true', ← Bool.not_eq_true, any_same_iff]⟩
  -- The search finds one that passes its test, which is to be no known unit.
  obtain ⟨u, hu⟩ := Option.isSome_iff_exists.1 hsome
  have hunknown : ¬ Meets known u := by
    have htest := List.find?_some hu
    rwa [Bool.not_eq_true', ← Bool.not_eq_true, any_same_iff] at htest
  exact ⟨u, List.mem_of_find?_eq_some hu, hunknown, hu⟩

/-! ## Closures after a walk -/

/-- The closure after a walk, as far as the numbers agree. -/
theorem units_of_visited (hvisited : visited registry policy entries = .ok met) :
    units registry policy entries known =
      if (listed met known).length = met.length then .ok (listed met known)
      else .error (.invariantViolation (.strayUnit (((stray? met known).map SourceUnit.id).getD ""))) := by
  simp only [units, hvisited]
  rfl

/-- A walk that meets a stray gives no closure but reports a stray, unless listings of other units that
    it meets are repeated, as many as there are strays.  It does so whenever no such unit is listed
    twice, and a walk that fails reports the missing provider that it came to before. -/
theorem stray_reported (registry : Registry) (policy : MissingPolicy) (entries known : List SourceUnit) :
    (∀ fault, visited registry policy entries = .error fault →
      units registry policy entries known = .error fault ∧ ∃ ns u, fault = .missingDependency ns u) ∧
    ∀ met, visited registry policy entries = .ok met → ∀ u ∈ met, ¬ Meets known u →
      (repeats met known ≠ (strays met known).length → ∃ stray ∈ met, ¬ Meets known stray ∧
        units registry policy entries known = .error (.invariantViolation (.strayUnit stray.id))) ∧
      (repeats met known = (strays met known).length →
        units registry policy entries known = .ok (listed met known)) ∧
      (Distinct (listed met known) → repeats met known ≠ (strays met known).length) := by
  rcases visited_cases registry policy entries with ⟨walked, hwalked, hclosure⟩ | ⟨-, v, ns, -, -, herror⟩
  case inr =>
    refine ⟨fun fault hfault => ?_, fun met hmet => ?_⟩
    · -- A walk that fails decides the closure before any numbers are compared.
      obtain rfl := Except.error.inj (herror.symm.trans hfault)
      exact ⟨by rw [units, herror], ns, v, rfl⟩
    · cases herror.symm.trans hmet
  refine ⟨fun fault hfault => ?_, fun met hmet u hu hunknown => ?_⟩
  · cases hwalked.symm.trans hfault
  obtain rfl := Except.ok.inj (hwalked.symm.trans hmet)
  -- From here on, the numbers agree exactly when the repeats make up for the strays.
  have hcount : (listed walked known).length = walked.length ↔
      repeats walked known = (strays walked known).length := length_listed_eq_iff hclosure.distinct
  rw [units_of_visited hwalked]
  refine ⟨fun hrepeats => ?_, fun hrepeats => if_pos (hcount.2 hrepeats), fun hlisted hrepeats => ?_⟩
  · obtain ⟨stray, hstray, hlost, hfirst⟩ := exists_stray fun hall => hunknown (hall u hu)
    rw [if_neg (mt hcount.1 hrepeats), hfirst]
    exact ⟨stray, hstray, hlost, rfl⟩
  · -- Without repetitions, all that is met would be known.
    exact hunknown ((length_listed_eq_iff_forall hclosure.distinct hlisted).1 (hcount.2 hrepeats) u hu)

/-- A unit that requires another one. -/
def user : SourceUnit := .ordinary "user.js" [⟨"user"⟩] [⟨"base"⟩]

/-- The unit that it requires. -/
def base : SourceUnit := .ordinary "base.js" [⟨"base"⟩] []

/-- What the two units provide. -/
def userRegistry : Registry := (Registry.empty.registerEach [base, user]).1

theorem visited_user : visited userRegistry .fail [user] = .ok [user, base] := by decide +kernel

/-- Among listings of one unit, the unit that it requires is not met. -/
theorem not_meets_base {known : List SourceUnit} (h : ∀ u ∈ known, u = user) : ¬ Meets known base := by
  rintro ⟨v, hv, heq⟩
  rw [h v hv] at heq
  exact absurd heq (by decide +kernel)

/-- Listed once, the unit does not make up for the one that it requires. -/
theorem stray_reported_of_user :
    visited userRegistry .fail [user] = .ok [user, base] ∧ ¬ Meets [user] base ∧
      repeats [user, base] [user] ≠ (strays [user, base] [user]).length ∧
      ∃ stray ∈ [user, base], ¬ Meets [user] stray ∧
        units userRegistry .fail [user] [user] = .error (.invariantViolation (.strayUnit stray.id)) := by
  have hunknown : ¬ Meets [user] base := not_meets_base (by simp)
  have hcount : repeats [user, base] [user] ≠ (strays [user, base] [user]).length := by decide +kernel
  exact ⟨visited_user, hunknown, hcount,
    ((stray_reported userRegistry .fail [user] [user]).2 _ visited_user base (by simp) hunknown).1 hcount⟩

/-- Listed twice, it does, and the closure lacks a unit that was met. -/
theorem repeat_hides_stray :
    ¬ ∀ (registry : Registry) (policy : MissingPolicy) (entries known met kept : List SourceUnit),
      visited registry policy entries = .ok met → (∃ u ∈ met, ¬ Meets known u) →
        units registry policy entries known ≠ .ok kept := by
  intro hall
  have hunits : units userRegistry .fail [user] [user, user] = .ok [user, user] := by decide +kernel
  exact hall userRegistry .fail [user] [user, user] _ _ visited_user
    ⟨base, by simp, not_meets_base (by simp)⟩ hunits

end Closure

end BuildOrder
