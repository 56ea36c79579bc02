import Mathlib.Data.List.Nodup

/-!
Walks along a list: from each element to the next one, and in strides of a fixed length,
as the slices of Python take them. A walk in strides of n stays within a number of elements
exactly if that many strides cover the list.
-/

namespace HpcProfiler.ListWalks

variable {α : Type*}

/-- The pairs of neighbours, in order. -/
def neighbours (xs : List α) : List (α × α) := xs.zip xs.tail

theorem neighbours_snoc (xs : List α) (x : α) :
    neighbours (xs ++ [x]) = neighbours xs ++ (xs.getLast?.map fun last => (last, x)).toList := by
  induction xs with
  | nil => rfl
  | cons y ys ih =>
    cases ys with
    | nil => rfl
    | cons z zs =>
      have hcons : ∀ ws : List α, neighbours (y :: z :: ws) = (y, z) :: neighbours (z :: ws) :=
        fun _ => rfl
      rw [List.cons_append, List.cons_append, hcons, hcons, ← List.cons_append, ih,
        List.getLast?_cons_cons, List.cons_append]

theorem mem_of_mem_neighbours {xs : List α} {p : α × α} (h : p ∈ neighbours xs) :
    p.1 ∈ xs ∧ p.2 ∈ xs := by
  obtain ⟨hfirst, hsecond⟩ := List.of_mem_zip h
  exact ⟨hfirst, List.mem_of_mem_tail hsecond⟩

/-- The elements at the multiples of a step that is one or more. -/
def stride (step : ℕ) : List α → List α
  | [] => []
  | x :: xs => x :: stride step (xs.drop (step - 1))
termination_by xs => xs.length
decreasing_by
  rw [List.length_drop, List.length_cons]
  omega

theorem stride_sublist (step : ℕ) (xs : List α) : (stride step xs).Sublist xs := by
  induction xs using stride.induct step with
  | case1 =>
    rw [stride]
  | case2 x xs ih =>
    rw [stride]
    exact (ih.trans (List.drop_sublist _ _)).cons_cons x

theorem stride_one (xs : List α) : stride 1 xs = xs := by
  induction xs using stride.induct 1 with
  | case1 => rw [stride]
  | case2 x xs ih =>
    rw [stride]
    exact congrArg (x :: ·) ih

theorem length_stride_le_iff {step : ℕ} (hstep : 0 < step) (xs : List α) (m : ℕ) :
    (stride step xs).length ≤ m ↔ xs.length ≤ m * step := by
  induction xs using stride.induct step generalizing m with
  | case1 => simp [stride]
  | case2 x xs ih =>
    rw [stride, List.length_cons, List.length_cons]
    cases m with
    | zero => simp
    | succ m =>
      rw [Nat.succ_le_succ_iff, ih m, List.length_drop, Nat.succ_mul]
      omega

/-- Elements whose numbers are distinct are found again by their numbers. -/
theorem filter_mem_numbers {xs ys : List (α × ℕ)} (hsub : ys.Sublist xs)
    (hnodup : (xs.map Prod.snd).Nodup) :
    (xs.filter fun x => x.2 ∈ ys.map Prod.snd) = ys := by
  induction hsub with
  | slnil => rfl
  | cons x hsub ih =>
    rw [List.map_cons, List.nodup_cons] at hnodup
    have hnot : x.2 ∉ _ := fun hmem => hnodup.1 ((hsub.map Prod.snd).subset hmem)
    rw [List.filter_cons_of_neg (by simpa using hnot), ih hnodup.2]
  | cons_cons x hsub ih =>
    rename_i ys xs
    rw [List.map_cons, List.nodup_cons] at hnodup
    have hrest : (xs.filter fun y => y.2 ∈ (x :: ys).map Prod.snd) =
        xs.filter fun y => y.2 ∈ ys.map Prod.snd := by
      refine List.filter_congr fun y hy => ?_
      have hne : y.2 ≠ x.2 := by
        intro heq
        exact hnodup.1 (heq ▸ List.mem_map_of_mem hy)
      simp [hne]
    rw [List.filter_cons_of_pos (by simp), hrest, ih hnodup.2]

end HpcProfiler.ListWalks
