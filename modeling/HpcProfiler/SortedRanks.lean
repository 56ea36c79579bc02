import HpcProfiler.StableSort

/-!
The element of a given rank in a sorted list. If so many elements lie between two bounds
that they can neither all stand before that rank nor all behind it, the element of that
rank lies between the bounds, wherever the other elements are.
-/

namespace HpcProfiler.SortedRanks

open StableSort

variable {α κ : Type*} [LinearOrder κ] {key : α → κ} {ys : List α} {p : α → Bool} {k : ℕ}

theorem countP_le_of_take (h : ∀ a ∈ ys.take k, p a = false) :
    ys.countP p ≤ ys.length - k := by
  have hfront : (ys.take k).countP p = 0 := by
    rw [List.countP_eq_zero]
    intro a ha hp
    rw [h a ha] at hp
    cases hp
  calc ys.countP p = (ys.take k).countP p + (ys.drop k).countP p := by
        rw [← List.countP_append, List.take_append_drop]
    _ = (ys.drop k).countP p := by rw [hfront, Nat.zero_add]
    _ ≤ (ys.drop k).length := List.countP_le_length
    _ = ys.length - k := List.length_drop

theorem countP_le_of_drop (h : ∀ a ∈ ys.drop k, p a = false) : ys.countP p ≤ k := by
  have hback : (ys.drop k).countP p = 0 := by
    rw [List.countP_eq_zero]
    intro a ha hp
    rw [h a ha] at hp
    cases hp
  calc ys.countP p = (ys.take k).countP p + (ys.drop k).countP p := by
        rw [← List.countP_append, List.take_append_drop]
    _ = (ys.take k).countP p := by rw [hback, Nat.add_zero]
    _ ≤ (ys.take k).length := List.countP_le_length
    _ ≤ k := List.length_take_le _ _

/-- A property of the greater elements, which more elements have than stand behind the
rank. -/
theorem rank_of_upward (hsorted : ys.Pairwise fun a b => key a ≤ key b)
    (hup : ∀ a b, key a ≤ key b → p a = true → p b = true) (hk : k < ys.length)
    (hcount : ys.length ≤ k + ys.countP p) : p ys[k] = true := by
  by_contra hnot
  have hfront : ∀ a ∈ ys.take (k + 1), p a = false := by
    intro a ha
    obtain ⟨i, hi, rfl⟩ := List.mem_take_iff_getElem.mp ha
    rw [Bool.eq_false_iff]
    intro hp
    rcases Nat.lt_or_ge i k with hlt | hge
    · have hle := List.pairwise_iff_getElem.mp hsorted i k (by omega) hk hlt
      exact hnot (hup _ _ hle hp)
    · have hik : i = k := by omega
      subst hik
      exact hnot hp
  have hle := countP_le_of_take hfront
  omega

/-- A property of the lesser elements, which more elements have than stand before the
rank. -/
theorem rank_of_downward (hsorted : ys.Pairwise fun a b => key a ≤ key b)
    (hdown : ∀ a b, key a ≤ key b → p b = true → p a = true) (hk : k < ys.length)
    (hcount : k < ys.countP p) : p ys[k] = true := by
  by_contra hnot
  have hback : ∀ a ∈ ys.drop k, p a = false := by
    intro a ha
    obtain ⟨i, hi, rfl⟩ := List.mem_drop_iff_getElem.mp ha
    rw [Bool.eq_false_iff]
    intro hp
    rcases Nat.eq_zero_or_pos i with rfl | hpos
    · exact hnot hp
    · have hle := List.pairwise_iff_getElem.mp hsorted k (k + i) hk (by omega) (by omega)
      exact hnot (hdown _ _ hle hp)
  have hle := countP_le_of_drop hback
  omega

/-- The elements whose key lies between the bounds. -/
def countBetween (key : α → κ) (lo hi : κ) (xs : List α) : ℕ :=
  xs.countP fun a => lo ≤ key a ∧ key a ≤ hi

theorem countBetween_perm {lo hi : κ} {xs : List α} (h : xs.Perm ys) :
    countBetween key lo hi xs = countBetween key lo hi ys :=
  h.countP_eq _

/-- The element of rank `k` lies between the bounds as soon as more elements lie there
than there are places before the rank, and more than there are behind it. -/
theorem sortBy_between {xs : List α} {lo hi : κ} (hk : k < xs.length)
    (hbefore : k < countBetween key lo hi xs)
    (hbehind : xs.length ≤ k + countBetween key lo hi xs) :
    ∃ a, (sortBy key xs)[k]? = some a ∧ lo ≤ key a ∧ key a ≤ hi := by
  have hperm := sortBy_perm key xs
  have hsorted := sortBy_pairwise key xs
  rw [← countBetween_perm hperm] at hbefore hbehind
  rw [← hperm.length_eq] at hk hbehind
  generalize sortBy key xs = ys at hsorted hk hbefore hbehind
  have hlow : countBetween key lo hi ys ≤ ys.countP fun a => lo ≤ key a := by
    apply List.countP_mono_left
    intro a _ ha
    exact decide_eq_true (of_decide_eq_true ha).1
  have hhigh : countBetween key lo hi ys ≤ ys.countP fun a => key a ≤ hi := by
    apply List.countP_mono_left
    intro a _ ha
    exact decide_eq_true (of_decide_eq_true ha).2
  have hge := rank_of_upward (p := fun a => decide (lo ≤ key a)) hsorted
    (fun a b hab ha => decide_eq_true ((of_decide_eq_true ha).trans hab)) hk (by omega)
  have hle := rank_of_downward (p := fun a => decide (key a ≤ hi)) hsorted
    (fun a b hab hb => decide_eq_true (hab.trans (of_decide_eq_true hb))) hk (by omega)
  exact ⟨ys[k], List.getElem?_eq_getElem hk, of_decide_eq_true hge, of_decide_eq_true hle⟩

end HpcProfiler.SortedRanks
