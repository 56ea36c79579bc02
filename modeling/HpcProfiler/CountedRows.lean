import Mathlib.Algebra.BigOperators.Group.List.Basic
import Mathlib.Algebra.Order.Ring.Int
import Mathlib.Data.List.Nodup

/-!
Counters in an array and rows under keys. An array ignores an index that is not one of its
cells. A row under a key is changed in place, and it is added behind the others before its
first use.
-/

namespace HpcProfiler.CountedRows

/-- One more in the cell at the index, if there is such a cell. -/
def bump (counts : List ℕ) (i : ℤ) : List ℕ :=
  if 0 ≤ i then counts.modify i.toNat (· + 1) else counts

@[simp] theorem length_bump (counts : List ℕ) (i : ℤ) : (bump counts i).length = counts.length := by
  unfold bump
  split
  · exact List.length_modify ..
  · rfl

theorem sum_modify_succ {counts : List ℕ} {n : ℕ} (hn : n < counts.length) :
    (counts.modify n (· + 1)).sum = counts.sum + 1 := by
  induction counts generalizing n with
  | nil => exact absurd hn (Nat.not_lt_zero n)
  | cons count counts ih =>
    cases n with
    | zero =>
      rw [List.modify_zero_cons, List.sum_cons, List.sum_cons]
      omega
    | succ n =>
      have hrest := ih (Nat.lt_of_succ_lt_succ hn)
      rw [List.modify_succ_cons, List.sum_cons, List.sum_cons, hrest, Nat.add_assoc]

/-- What is counted below the first cell is lost. -/
theorem sum_bump {counts : List ℕ} {i : ℤ} (hi : i < counts.length) :
    (bump counts i).sum = counts.sum + if 0 ≤ i then 1 else 0 := by
  unfold bump
  split
  · exact sum_modify_succ (by omega)
  · rfl

section

variable {κ α : Type*} [DecidableEq κ]

def adjust (key : κ) (f : α → α) (rows : List (κ × α)) : List (κ × α) :=
  rows.map fun row => if row.1 = key then (row.1, f row.2) else row

/-- The row is added, where there is none under the key yet. -/
def ensure (key : κ) (fresh : α) (rows : List (κ × α)) : List (κ × α) :=
  if key ∈ rows.map Prod.fst then rows else rows ++ [(key, fresh)]

@[simp] theorem keys_adjust (key : κ) (f : α → α) (rows : List (κ × α)) :
    (adjust key f rows).map Prod.fst = rows.map Prod.fst := by
  rw [adjust, List.map_map]
  refine List.map_congr_left fun row _ => ?_
  by_cases hkey : row.1 = key
  · simp [hkey]
  · simp [hkey]

theorem mem_keys_ensure (key : κ) (fresh : α) (rows : List (κ × α)) :
    key ∈ (ensure key fresh rows).map Prod.fst := by
  unfold ensure
  split
  · assumption
  · simp

theorem keys_subset_ensure {key k : κ} {fresh : α} {rows : List (κ × α)}
    (h : k ∈ rows.map Prod.fst) : k ∈ (ensure key fresh rows).map Prod.fst := by
  unfold ensure
  split
  · exact h
  · rw [List.map_append]
    exact List.mem_append_left _ h

theorem keys_ensure_nodup {key : κ} {fresh : α} {rows : List (κ × α)}
    (h : (rows.map Prod.fst).Nodup) : ((ensure key fresh rows).map Prod.fst).Nodup := by
  unfold ensure
  split
  · exact h
  · rename_i hkey
    rw [List.map_append, List.nodup_append]
    refine ⟨h, List.nodup_singleton _, ?_⟩
    rintro k hk k' hk' rfl
    rw [List.map_singleton, List.mem_singleton] at hk'
    rw [hk'] at hk
    exact hkey hk

theorem mem_adjust {key : κ} {f : α → α} {rows : List (κ × α)} {row : κ × α}
    (h : row ∈ adjust key f rows) :
    (∃ old, (key, old) ∈ rows ∧ row = (key, f old)) ∨ row ∈ rows ∧ row.1 ≠ key := by
  obtain ⟨old, hold, rfl⟩ := List.mem_map.mp h
  obtain ⟨oldKey, old⟩ := old
  by_cases hkey : oldKey = key
  · subst hkey
    exact .inl ⟨old, hold, if_pos rfl⟩
  · rw [if_neg hkey]
    exact .inr ⟨hold, hkey⟩

theorem mem_ensure {key : κ} {fresh : α} {rows : List (κ × α)} {row : κ × α}
    (h : row ∈ ensure key fresh rows) :
    row ∈ rows ∨ row = (key, fresh) ∧ key ∉ rows.map Prod.fst := by
  unfold ensure at h
  split at h
  · exact .inl h
  · rename_i hkey
    rcases List.mem_append.mp h with hold | hnew
    · exact .inl hold
    · exact .inr ⟨List.mem_singleton.mp hnew, hkey⟩

/-- The row under the key was there or is fresh; the others were there. -/
theorem mem_adjust_ensure {key : κ} {f : α → α} {fresh : α} {rows : List (κ × α)} {row : κ × α}
    (h : row ∈ adjust key f (ensure key fresh rows)) :
    (∃ old, row = (key, f old) ∧
      ((key, old) ∈ rows ∨ old = fresh ∧ key ∉ rows.map Prod.fst)) ∨
    row ∈ rows ∧ row.1 ≠ key := by
  rcases mem_adjust h with ⟨old, hold, rfl⟩ | ⟨hrow, hne⟩
  · refine .inl ⟨old, rfl, ?_⟩
    rcases mem_ensure hold with hmem | ⟨heq, hnew⟩
    · exact .inl hmem
    · exact .inr ⟨congrArg Prod.snd heq, hnew⟩
  · rcases mem_ensure hrow with hmem | ⟨rfl, -⟩
    · exact .inr ⟨hmem, hne⟩
    · exact absurd rfl hne

theorem adjust_of_not_mem {key : κ} {f : α → α} {rows : List (κ × α)}
    (h : key ∉ rows.map Prod.fst) : adjust key f rows = rows := by
  conv_rhs => rw [← List.map_id rows]
  refine List.map_congr_left fun row hrow => ?_
  have hkey : row.1 ≠ key := by
    rintro rfl
    exact h (List.mem_map_of_mem hrow)
  rw [if_neg hkey, id]

/-- One row has the key, so a weight that grows by one there grows by one in all. -/
theorem sum_adjust {key : κ} {f : α → α} {rows : List (κ × α)} (weight : α → ℕ)
    (hnodup : (rows.map Prod.fst).Nodup) (hkey : key ∈ rows.map Prod.fst)
    (hf : ∀ old, weight (f old) = weight old + 1) :
    ((adjust key f rows).map fun row => weight row.2).sum =
      (rows.map fun row => weight row.2).sum + 1 := by
  induction rows with
  | nil => cases hkey
  | cons row rows ih =>
    rw [List.map_cons, List.nodup_cons] at hnodup
    rw [List.map_cons, List.mem_cons] at hkey
    have hcons : adjust key f (row :: rows) =
        (if row.1 = key then (row.1, f row.2) else row) :: adjust key f rows := rfl
    rw [hcons]
    by_cases hrow : row.1 = key
    · rw [if_pos hrow, adjust_of_not_mem (hrow ▸ hnodup.1), List.map_cons, List.map_cons,
        List.sum_cons, List.sum_cons, hf]
      omega
    · have hmem : key ∈ rows.map Prod.fst := by
        rcases hkey with heq | hmem
        · exact absurd heq.symm hrow
        · exact hmem
      rw [if_neg hrow, List.map_cons, List.map_cons, List.sum_cons, List.sum_cons,
        ih hnodup.2 hmem, Nat.add_assoc]

theorem sum_ensure {key : κ} {fresh : α} (rows : List (κ × α)) {weight : α → ℕ}
    (hfresh : weight fresh = 0) :
    ((ensure key fresh rows).map fun row => weight row.2).sum =
      (rows.map fun row => weight row.2).sum := by
  unfold ensure
  split
  · rfl
  · rw [List.map_append, List.sum_append, List.map_singleton, List.sum_singleton, hfresh,
      Nat.add_zero]

end

end HpcProfiler.CountedRows
