import Mathlib.Data.List.Sort

/-!
Stable sorting by a key, as Python's sorted and JavaScript's sort do it. Elements that
already stand in the order of their keys keep their order among themselves, so that a
sorted list is left as it is; and the sort sees nothing of an element but its key.
-/

namespace HpcProfiler.StableSort

variable {α β κ : Type*} [LinearOrder κ]

def sortBy (key : α → κ) (xs : List α) : List α :=
  xs.insertionSort fun a b => key a ≤ key b

theorem sortBy_perm (key : α → κ) (xs : List α) : (sortBy key xs).Perm xs :=
  List.perm_insertionSort _ _

theorem mem_sortBy {key : α → κ} {xs : List α} {a : α} : a ∈ sortBy key xs ↔ a ∈ xs :=
  List.mem_insertionSort _

theorem sortBy_pairwise (key : α → κ) (xs : List α) :
    (sortBy key xs).Pairwise fun a b => key a ≤ key b := by
  have htotal : Std.Total fun a b : α => key a ≤ key b := ⟨fun a b => le_total (key a) (key b)⟩
  have htrans : IsTrans α fun a b => key a ≤ key b := ⟨fun a b c hab hbc => le_trans hab hbc⟩
  exact List.pairwise_insertionSort _ _

theorem sortBy_of_pairwise {key : α → κ} {xs : List α}
    (h : xs.Pairwise fun a b => key a ≤ key b) : sortBy key xs = xs :=
  h.insertionSort_eq

/-- A map that respects the order of the keys may be applied before or after. -/
theorem map_sortBy_of_iff {key : α → κ} {key' : β → κ} {f : α → β} {xs : List α}
    (h : ∀ a ∈ xs, ∀ b ∈ xs, key a ≤ key b ↔ key' (f a) ≤ key' (f b)) :
    sortBy key' (xs.map f) = (sortBy key xs).map f :=
  (List.map_insertionSort _ _ f xs h).symm

/-- A map that respects the keys may be applied before or after. -/
theorem map_sortBy {key : α → κ} {key' : β → κ} {f : α → β} {xs : List α}
    (h : ∀ a ∈ xs, key' (f a) = key a) : sortBy key' (xs.map f) = (sortBy key xs).map f := by
  refine map_sortBy_of_iff ?_
  intro a ha b hb
  rw [h a ha, h b hb]

/-- Sorted by themselves, the elements stand in one order only. -/
theorem sortBy_id_congr {xs ys : List κ} (h : xs.Perm ys) : sortBy id xs = sortBy id ys := by
  have hperm : (sortBy id xs).Perm (sortBy id ys) :=
    ((sortBy_perm id xs).trans h).trans (sortBy_perm id ys).symm
  exact hperm.eq_of_pairwise (fun a b _ _ hab hba => le_antisymm hab hba)
    (sortBy_pairwise id xs) (sortBy_pairwise id ys)

/-- Elements picked out that stand in order of their keys are found in the same order. -/
theorem filter_sortBy {key : α → κ} {xs : List α} {p : α → Bool}
    (h : (xs.filter p).Pairwise fun a b => key a ≤ key b) :
    (sortBy key xs).filter p = xs.filter p := by
  have hsub : List.Sublist (xs.filter p) (sortBy key xs) :=
    List.sublist_insertionSort h List.filter_sublist
  have hfilter := hsub.filter p
  rw [List.filter_filter] at hfilter
  simp only [Bool.and_self] at hfilter
  exact (hfilter.eq_of_length ((sortBy_perm key xs).filter p).length_eq.symm).symm

/-- Elements of one key keep their order. -/
theorem filter_key_sortBy (key : α → κ) (xs : List α) (k : κ) :
    ((sortBy key xs).filter fun a => key a = k) = xs.filter fun a => key a = k := by
  refine filter_sortBy (List.pairwise_of_forall_mem_list ?_)
  intro a ha b hb
  rw [List.mem_filter, decide_eq_true_eq] at ha hb
  rw [ha.2, hb.2]

/-- Elements numbered by their places stand in the order of their numbers. -/
theorem zipIdx_pairwise (xs : List α) : xs.zipIdx.Pairwise fun x y => x.2 < y.2 := by
  have hplaces : (xs.zipIdx.map Prod.snd).Pairwise (· < ·) := by
    rw [List.zipIdx_map_snd]
    exact List.pairwise_lt_range'
  exact List.pairwise_map.mp hplaces

end HpcProfiler.StableSort
