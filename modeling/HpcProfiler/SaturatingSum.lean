import Mathlib.Algebra.BigOperators.Group.Finset.Piecewise
import Mathlib.Algebra.BigOperators.Group.List.Basic
import Mathlib.Algebra.Ring.Nat
import Mathlib.Data.List.Induction

/-!
Sums that stop at a top. Adding one amount after another gives the sum of all, or the top
if the sum is more, so the order of the amounts does not matter; and amounts that are
handed out to several sums are all there.
-/

namespace HpcProfiler.SaturatingSum

/-- The test cannot overflow: it compares with what is left up to the top. -/
def satAdd (top acc inc : ℕ) : ℕ := if acc > top - inc then top else acc + inc

variable {top : ℕ}

theorem satAdd_eq {acc inc : ℕ} (hinc : inc ≤ top) :
    satAdd top acc inc = min top (acc + inc) := by
  unfold satAdd
  split <;> omega

/-- One more amount behind those that are summed up already. -/
theorem satAdd_min {sum inc : ℕ} (hinc : inc ≤ top) :
    satAdd top (min top sum) inc = min top (sum + inc) := by
  rw [satAdd_eq hinc]
  omega

/-- The amounts that go to one of the sums. -/
def share {α ι : Type*} [DecidableEq ι] (key : α → Option ι) (amount : α → ℕ) (i : ι)
    (xs : List α) : ℕ :=
  ((xs.filter fun x => key x = some i).map amount).sum

variable {α ι κ : Type*} [DecidableEq ι] [DecidableEq κ] {key : α → Option ι} {amount : α → ℕ}

theorem share_concat (i : ι) (xs : List α) (x : α) :
    share key amount i (xs ++ [x]) =
      share key amount i xs + if key x = some i then amount x else 0 := by
  unfold share
  rw [List.filter_append, List.map_append, List.sum_append]
  by_cases hx : key x = some i <;> simp [hx]

theorem share_perm {xs ys : List α} (h : xs.Perm ys) (i : ι) :
    share key amount i xs = share key amount i ys :=
  ((h.filter _).map amount).sum_eq

theorem share_eq_zero {xs : List α} {i : ι} (h : ∀ x ∈ xs, key x ≠ some i) :
    share key amount i xs = 0 := by
  have hnone : (xs.filter fun x => key x = some i) = [] := by
    apply List.filter_eq_nil_iff.mpr
    intro x hx
    simpa using h x hx
  rw [share, hnone, List.map_nil, List.sum_nil]

/-- If the sums of one kind are split up further, the parts add up to the whole. -/
theorem sum_share {parts : Finset ι} {whole : α → Option κ} {k : κ} {xs : List α}
    (h : ∀ x ∈ xs, whole x = some k ↔ ∃ i ∈ parts, key x = some i) :
    ∑ i ∈ parts, share key amount i xs = share whole amount k xs := by
  induction xs using List.reverseRecOn with
  | nil => exact Finset.sum_eq_zero fun _ _ => rfl
  | append_singleton xs x ih =>
    have hlast : ∑ i ∈ parts, (if key x = some i then amount x else 0) =
        if whole x = some k then amount x else 0 := by
      by_cases hwhole : whole x = some k
      · obtain ⟨i, hi, hx⟩ := (h x (by simp)).mp hwhole
        rw [if_pos hwhole]
        simp only [hx, Option.some.injEq]
        rw [Finset.sum_ite_eq, if_pos hi]
      · rw [if_neg hwhole]
        apply Finset.sum_eq_zero
        intro i hi
        rw [if_neg]
        intro hx
        exact hwhole ((h x (by simp)).mpr ⟨i, hi, hx⟩)
    simp only [share_concat]
    rw [Finset.sum_add_distrib, ih fun y hy => h y (by simp [hy]), hlast]

end HpcProfiler.SaturatingSum
