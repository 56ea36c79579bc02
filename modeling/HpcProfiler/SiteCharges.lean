import Mathlib.Algebra.BigOperators.Group.Finset.Piecewise
import Mathlib.Algebra.Order.BigOperators.Group.Finset
import Mathlib.Algebra.Order.Ring.Int
import Mathlib.Tactic.Ring

/-!
Charges to sites that have a budget each. What all sites are charged is within the sum of
the budgets if every site is within its own. Where a charge always takes the whole budget
of its site, the sites are within their budgets exactly if none is charged twice.
-/

namespace HpcProfiler.SiteCharges

open Finset

variable {ι κ : Type*} [DecidableEq ι] [DecidableEq κ]

/-- What a site is charged in all. -/
def charged (charges : List (ι × ℤ)) (site : ι) : ℤ :=
  ((charges.filter fun charge => charge.1 = site).map Prod.snd).sum

@[simp] theorem charged_nil (site : ι) : charged [] site = 0 := rfl

theorem charged_cons (charge : ι × ℤ) (charges : List (ι × ℤ)) (site : ι) :
    charged (charge :: charges) site =
      (if charge.1 = site then charge.2 else 0) + charged charges site := by
  unfold charged
  by_cases hsite : charge.1 = site
  · rw [List.filter_cons_of_pos (by simpa using hsite), if_pos hsite, List.map_cons, List.sum_cons]
  · rw [List.filter_cons_of_neg (by simpa using hsite), if_neg hsite, zero_add]

/-- Sites may be renamed. -/
theorem charged_map {f : ι → κ} (hf : Function.Injective f) (charges : List (ι × ℤ)) (site : ι) :
    charged (charges.map (Prod.map f id)) (f site) = charged charges site := by
  induction charges with
  | nil => rfl
  | cons charge charges ih =>
    rw [List.map_cons, charged_cons, charged_cons, ih]
    congr 1
    exact if_congr hf.eq_iff rfl rfl

/-- Every charge is to one site. -/
theorem sum_charged {charges : List (ι × ℤ)} {sites : Finset ι}
    (hsites : ∀ charge ∈ charges, charge.1 ∈ sites) :
    ∑ site ∈ sites, charged charges site = (charges.map Prod.snd).sum := by
  induction charges with
  | nil => exact sum_const_zero
  | cons charge charges ih =>
    have hfirst := hsites charge (List.mem_cons_self ..)
    have hrest := ih fun other hother => hsites other (List.mem_cons_of_mem _ hother)
    simp only [charged_cons]
    rw [sum_add_distrib, hrest, sum_ite_eq, if_pos hfirst, List.map_cons, List.sum_cons]

theorem sum_le_of_charged_le {charges : List (ι × ℤ)} {sites : Finset ι} {budget : ι → ℤ}
    (hsites : ∀ charge ∈ charges, charge.1 ∈ sites)
    (hwithin : ∀ site, charged charges site ≤ budget site) :
    (charges.map Prod.snd).sum ≤ ∑ site ∈ sites, budget site := by
  rw [← sum_charged hsites]
  exact sum_le_sum fun site _ => hwithin site

/-- Every charge takes the whole budget of its site, which is not nothing. -/
def Full (budget : ι → ℤ) (charges : List (ι × ℤ)) : Prop :=
  ∀ charge ∈ charges, 0 < budget charge.1 ∧ charge.2 = budget charge.1

section

variable {budget : ι → ℤ} {charges : List (ι × ℤ)}

theorem Full.charged (h : Full budget charges) (site : ι) :
    charged charges site = (charges.map Prod.fst).count site * budget site := by
  induction charges with
  | nil => simp
  | cons charge charges ih =>
    have hrest : Full budget charges := fun other hother => h other (List.mem_cons_of_mem _ hother)
    have hfull := (h charge (List.mem_cons_self ..)).2
    rw [charged_cons, ih hrest, List.map_cons, List.count_cons]
    by_cases hsite : charge.1 = site
    · subst hsite
      rw [if_pos rfl, if_pos (beq_self_eq_true _), hfull]
      push_cast
      ring
    · rw [if_neg hsite, if_neg (by simpa using hsite)]
      push_cast
      ring

theorem Full.within_iff_nodup (h : Full budget charges) (hnonneg : ∀ site, 0 ≤ budget site) :
    (∀ site, SiteCharges.charged charges site ≤ budget site) ↔ (charges.map Prod.fst).Nodup := by
  rw [List.nodup_iff_count_le_one]
  refine forall_congr' fun site => ?_
  rw [h.charged]
  constructor
  · intro hwithin
    by_cases hmem : site ∈ charges.map Prod.fst
    · obtain ⟨charge, hcharge, rfl⟩ := List.mem_map.mp hmem
      have hpos := (h charge hcharge).1
      have hone : ((charges.map Prod.fst).count charge.1 : ℤ) ≤ 1 := by
        apply le_of_mul_le_mul_right _ hpos
        rw [one_mul]
        exact hwithin
      exact_mod_cast hone
    · rw [List.count_eq_zero_of_not_mem hmem]
      exact Nat.zero_le _
  · intro hone
    calc ((charges.map Prod.fst).count site : ℤ) * budget site ≤ 1 * budget site :=
          mul_le_mul_of_nonneg_right (by exact_mod_cast hone) (hnonneg site)
      _ = budget site := one_mul _

end

end HpcProfiler.SiteCharges
