import Mathlib.Data.Int.Notation
import Mathlib.Data.List.Basic
import Mathlib.Data.List.Pairwise
import Mathlib.Order.Basic

/-!
Binary search for the last element that passes a test, in a list whose passing
elements all come first. The indices of the loop are integers, since its upper end
may step below zero; they are inside the list by construction.
-/

namespace HpcProfiler.RightmostSearch

variable {α : Type*}

def searchLoop (test : α → Bool) (xs : List α) (lo hi : ℤ) (hlo : 0 ≤ lo) (hhi : hi < xs.length)
    (best : Option (Fin xs.length)) : Option (Fin xs.length) :=
  if h : lo ≤ hi then
    let mid := (lo + hi) / 2
    let i : Fin xs.length := ⟨mid.toNat, by omega⟩
    if test (xs.get i) then searchLoop test xs (mid + 1) hi (by omega) hhi (some i)
    else searchLoop test xs lo (mid - 1) hlo (by omega) best
  else best
termination_by (hi + 1 - lo).toNat

def search (test : α → Bool) (xs : List α) : Option α :=
  (searchLoop test xs 0 (xs.length - 1) (by omega) (by omega) none).map xs.get

/-- The passing elements come first. -/
def Initial (test : α → Bool) (xs : List α) : Prop :=
  xs.Pairwise fun x y => test y = true → test x = true

/-- The best index so far is the passing one right below the range still searched. -/
structure LoopInv (test : α → Bool) (xs : List α) (lo hi : ℤ) (best : Option (Fin xs.length)) :
    Prop where
  range : lo ≤ hi + 1
  above : ∀ j : Fin xs.length, hi < j.val → test (xs.get j) = false
  found : ∀ i ∈ best, (i.val : ℤ) + 1 = lo ∧ test (xs.get i) = true
  missing : best = none → lo = 0

/-- An index is the last passing one, or none passes. -/
structure Rightmost (test : α → Bool) (xs : List α) (result : Option (Fin xs.length)) : Prop where
  passes : ∀ i ∈ result, test (xs.get i) = true
  last : ∀ i ∈ result, ∀ j, i < j → test (xs.get j) = false
  missing : result = none → ∀ j, test (xs.get j) = false

theorem test_of_le {test : α → Bool} {xs : List α} (h : Initial test xs) {i j : Fin xs.length}
    (hij : i ≤ j) (hj : test (xs.get j) = true) : test (xs.get i) = true := by
  rcases Nat.lt_or_eq_of_le hij with hlt | heq
  · exact List.pairwise_iff_get.mp h i j hlt hj
  · rw [Fin.ext heq]
    exact hj

theorem LoopInv.finish {test : α → Bool} {xs : List α} {lo hi : ℤ}
    {best : Option (Fin xs.length)} (h : LoopInv test xs lo hi best) (hend : ¬ lo ≤ hi) :
    Rightmost test xs best := by
  have hrange := h.range
  refine ⟨fun i hi => (h.found i hi).2, ?_, ?_⟩
  · intro i hbest j hij
    obtain ⟨hnext, -⟩ := h.found i hbest
    have hlt : i.val < j.val := hij
    exact h.above j (by omega)
  · intro hnone j
    have hzero := h.missing hnone
    exact h.above j (by omega)

theorem searchLoop_spec {test : α → Bool} {xs : List α} (h : Initial test xs) (lo hi : ℤ)
    (hlo : 0 ≤ lo) (hhi : hi < xs.length) (best : Option (Fin xs.length))
    (hinv : LoopInv test xs lo hi best) :
    Rightmost test xs (searchLoop test xs lo hi hlo hhi best) := by
  induction lo, hi, hlo, hhi, best using searchLoop.induct test xs with
  | case1 lo hi hlo hhi best hle mid i htest ih =>
    rw [searchLoop, dif_pos hle]
    dsimp only
    rw [if_pos htest]
    have hi' : (i.val : ℤ) = mid := Int.toNat_of_nonneg (by omega)
    refine ih ⟨by omega, hinv.above, ?_, ?_⟩
    · intro j hj
      cases hj
      exact ⟨by omega, htest⟩
    · intro hnone
      cases hnone
  | case2 lo hi hlo hhi best hle mid i htest ih =>
    rw [searchLoop, dif_pos hle]
    dsimp only
    rw [if_neg htest]
    have hi' : (i.val : ℤ) = mid := Int.toNat_of_nonneg (by omega)
    refine ih ⟨by omega, ?_, hinv.found, hinv.missing⟩
    intro j hj
    by_contra hpass
    rw [Bool.not_eq_false] at hpass
    have hij : i ≤ j := by
      rw [Fin.le_def]
      omega
    exact htest (test_of_le h hij hpass)
  | case3 lo hi hlo hhi best hend =>
    rw [searchLoop, dif_neg hend]
    exact hinv.finish hend

theorem searchLoop_start {test : α → Bool} {xs : List α} (h : Initial test xs) :
    Rightmost test xs (searchLoop test xs 0 (xs.length - 1) (by omega) (by omega) none) := by
  apply searchLoop_spec h
  refine ⟨by omega, ?_, ?_, fun _ => rfl⟩
  · intro j hj
    have hlt := j.isLt
    omega
  · intro i hi
    cases hi

/-- A found element is the last one that passes. -/
theorem search_some {test : α → Bool} {xs : List α} {a : α} (h : Initial test xs)
    (hfound : search test xs = some a) :
    ∃ before after, xs = before ++ a :: after ∧ test a = true ∧ ∀ x ∈ after, test x = false := by
  obtain ⟨i, hi, rfl⟩ := Option.map_eq_some_iff.mp hfound
  have hspec := searchLoop_start h
  refine ⟨xs.take i.val, xs.drop (i.val + 1), ?_, hspec.passes i hi, ?_⟩
  · rw [List.get_eq_getElem, List.getElem_cons_drop, List.take_append_drop]
  · intro x hx
    obtain ⟨k, hk, rfl⟩ := List.getElem_of_mem hx
    rw [List.length_drop] at hk
    rw [List.getElem_drop]
    exact hspec.last i hi ⟨i.val + 1 + k, by omega⟩ (by rw [Fin.lt_def]; dsimp only; omega)

theorem search_none {test : α → Bool} {xs : List α} (h : Initial test xs)
    (hnone : search test xs = none) : ∀ x ∈ xs, test x = false := by
  intro x hx
  obtain ⟨k, hk, rfl⟩ := List.getElem_of_mem hx
  exact (searchLoop_start h).missing (Option.map_eq_none_iff.mp hnone) ⟨k, hk⟩

theorem filter_eq_nil {test : α → Bool} {xs : List α} (h : ∀ x ∈ xs, test x = false) :
    xs.filter test = [] := by
  rw [List.filter_eq_nil_iff]
  intro x hx
  rw [h x hx]
  exact Bool.false_ne_true

theorem search_eq {test : α → Bool} {xs : List α} (h : Initial test xs) :
    search test xs = (xs.filter test).getLast? := by
  cases hresult : search test xs with
  | none => rw [filter_eq_nil (search_none h hresult), List.getLast?_nil]
  | some a =>
    obtain ⟨before, after, hsplit, ha, hafter⟩ := search_some h hresult
    rw [hsplit, List.filter_append, List.filter_cons_of_pos ha, filter_eq_nil hafter,
      List.getLast?_concat]

/-- An element that passes with no passing one behind it is found. -/
theorem search_eq_some {test : α → Bool} {before after : List α} {a : α}
    (h : Initial test (before ++ a :: after)) (ha : test a = true)
    (hafter : ∀ x ∈ after, test x = false) : search test (before ++ a :: after) = some a := by
  rw [search_eq h, List.filter_append, List.filter_cons_of_pos ha, filter_eq_nil hafter,
    List.getLast?_concat]

end HpcProfiler.RightmostSearch
