import HpcProfiler.IntervalSearch
import HpcProfiler.StepSystem

/-!
The loop of _binary_search_interval, one round a step, with its three local variables
and Python's indices, which count from the end below zero. In a list that is sorted by
address the loop comes to its end, looks inside the list only, and leaves the last index
whose address is at or below the one that is looked up.
-/

namespace HpcProfiler.SearchRounds

open StepSystem RightmostSearch Correlation CorrelationLookups

/-- An index outside of the list raises. -/
def getItem {α : Type} (xs : List α) (i : ℤ) : Option α :=
  if 0 ≤ i then xs[i.toNat]?
  else if 0 ≤ xs.length + i then xs[(xs.length + i).toNat]?
  else none

structure Locals where
  lo : ℤ
  hi : ℤ
  bestIdx : ℤ
  deriving DecidableEq

def Locals.mid (s : Locals) : ℤ := (s.lo + s.hi) / 2

section

variable (sortedAllocs : List LiveAlloc) (addr : ℤ)

def start : Locals := ⟨0, sortedAllocs.length - 1, -1⟩

/-- A round of the loop; there is none behind its end, nor where the index raises. -/
def round (s : Locals) (_ : Unit) : Option Locals :=
  if s.lo ≤ s.hi then
    (getItem sortedAllocs s.mid).map fun alloc =>
      if alloc.address ≤ addr then { s with bestIdx := s.mid, lo := s.mid + 1 }
      else { s with hi := s.mid - 1 }
  else none

/-- What stands behind the loop; the index may raise here too. -/
def candidate (s : Locals) : Option (Option LiveAlloc) :=
  if s.bestIdx = -1 then some none
  else
    (getItem sortedAllocs s.bestIdx).map fun alloc =>
      if alloc.contains addr then some alloc else none

/-- The index of the next round, if there is one, lies inside the list. -/
def InBounds (s : Locals) : Prop :=
  s.lo ≤ s.hi → 0 ≤ s.mid ∧ s.mid < sortedAllocs.length

/-- The element at the largest index whose address is at or below the one looked up
decides. -/
structure Rightmost (found : Option LiveAlloc) : Prop where
  last : ∀ (i : ℕ) (alloc : LiveAlloc), sortedAllocs[i]? = some alloc → alloc.address ≤ addr →
    (∀ (j : ℕ) (other : LiveAlloc), i < j → sortedAllocs[j]? = some other →
      addr < other.address) →
    found = if alloc.contains addr then some alloc else none
  missing : (∀ alloc ∈ sortedAllocs, addr < alloc.address) → found = none

end

theorem getItem_of_lt {α : Type} {xs : List α} {i : ℤ} (h : 0 ≤ i) (hlt : i < xs.length) :
    getItem xs i = some (xs.get ⟨i.toNat, by omega⟩) := by
  rw [getItem, if_pos h]
  exact List.getElem?_eq_getElem (by omega)

/-- The best index as the loop writes it. -/
def indexOf {n : ℕ} (best : Option (Fin n)) : ℤ := best.elim (-1) fun i => i.val

section

variable {allocs : List LiveAlloc} {addr : ℤ}

/-- A round whose element is at or below the address. -/
theorem round_below {s : Locals} (hgo : s.lo ≤ s.hi) (hmid : 0 ≤ s.mid)
    (hlt : s.mid < allocs.length)
    (hle : (allocs.get ⟨s.mid.toNat, by omega⟩).address ≤ addr) :
    round allocs addr s () = some ⟨s.mid + 1, s.hi, s.mid⟩ := by
  rw [round, if_pos hgo, getItem_of_lt hmid hlt, Option.map_some, if_pos hle]

theorem round_above {s : Locals} (hgo : s.lo ≤ s.hi) (hmid : 0 ≤ s.mid)
    (hlt : s.mid < allocs.length)
    (hle : ¬(allocs.get ⟨s.mid.toNat, by omega⟩).address ≤ addr) :
    round allocs addr s () = some ⟨s.lo, s.mid - 1, s.bestIdx⟩ := by
  rw [round, if_pos hgo, getItem_of_lt hmid hlt, Option.map_some, if_neg hle]

theorem mid_bounds {s : Locals} (hlo : 0 ≤ s.lo) (hhi : s.hi < allocs.length)
    (hgo : s.lo ≤ s.hi) : 0 ≤ s.mid ∧ s.mid < allocs.length := by
  unfold Locals.mid
  omega

/-- One round more in front of the others. -/
theorem rounds_cons {s s' last : Locals} {n : ℕ} (hround : round allocs addr s () = some s')
    (hin : InBounds allocs s)
    (hrun : run (round allocs addr) s' (List.replicate n ()) = some last)
    (halways : Always (round allocs addr) (InBounds allocs) s' (List.replicate n ())) :
    run (round allocs addr) s (List.replicate (n + 1) ()) = some last ∧
      Always (round allocs addr) (InBounds allocs) s (List.replicate (n + 1) ()) := by
  refine ⟨run_cons_eq_some.mpr ⟨s', hround, hrun⟩, hin, fun next hnext => ?_⟩
  rw [hround] at hnext
  cases hnext
  exact halways

/-- The rounds from given bounds come to an end inside the list, with the best index that
the search over the same bounds has. -/
theorem exists_rounds (allocs : List LiveAlloc) (addr lo hi : ℤ) (hlo : 0 ≤ lo)
    (hhi : hi < allocs.length) (best : Option (Fin allocs.length)) :
    ∃ n last, run (round allocs addr) ⟨lo, hi, indexOf best⟩ (List.replicate n ()) = some last ∧
      last.hi < last.lo ∧
      Always (round allocs addr) (InBounds allocs) ⟨lo, hi, indexOf best⟩
        (List.replicate n ()) ∧
      last.bestIdx = indexOf
        (searchLoop (fun alloc : LiveAlloc => decide (alloc.address ≤ addr)) allocs lo hi hlo hhi
          best) := by
  induction lo, hi, hlo, hhi, best using
      searchLoop.induct (fun alloc : LiveAlloc => decide (alloc.address ≤ addr)) allocs with
  | case1 lo hi hlo hhi best hle mid i htest ih =>
    obtain ⟨n, last, hrun, hend, halways, hbest⟩ := ih
    have hbounds := mid_bounds (s := ⟨lo, hi, indexOf best⟩) hlo hhi hle
    have hround := round_below (s := ⟨lo, hi, indexOf best⟩) hle hbounds.1 hbounds.2
      (of_decide_eq_true htest)
    have hi' : indexOf (some i) = mid := Int.toNat_of_nonneg hbounds.1
    rw [hi'] at hrun halways
    obtain ⟨hrun', halways'⟩ := rounds_cons hround (fun _ => hbounds) hrun halways
    refine ⟨n + 1, last, hrun', hend, halways', ?_⟩
    rw [hbest]
    conv_rhs => rw [searchLoop, dif_pos hle]
    dsimp only
    rw [if_pos htest]
  | case2 lo hi hlo hhi best hle mid i htest ih =>
    obtain ⟨n, last, hrun, hend, halways, hbest⟩ := ih
    have hbounds := mid_bounds (s := ⟨lo, hi, indexOf best⟩) hlo hhi hle
    have hround := round_above (s := ⟨lo, hi, indexOf best⟩) hle hbounds.1 hbounds.2
      fun hpass => htest (decide_eq_true hpass)
    obtain ⟨hrun', halways'⟩ := rounds_cons hround (fun _ => hbounds) hrun halways
    refine ⟨n + 1, last, hrun', hend, halways', ?_⟩
    rw [hbest]
    conv_rhs => rw [searchLoop, dif_pos hle]
    dsimp only
    rw [if_neg htest]
  | case3 lo hi hlo hhi best hend =>
    refine ⟨0, _, rfl, Int.not_le.mp hend, fun hgo => absurd hgo hend, ?_⟩
    rw [searchLoop, dif_neg hend]

/-- What the loop leaves is what the search finds. -/
theorem candidate_eq {last : Locals} {hlo : (0 : ℤ) ≤ 0}
    {hhi : (allocs.length : ℤ) - 1 < allocs.length}
    (hbest : last.bestIdx = indexOf
      (searchLoop (fun alloc : LiveAlloc => decide (alloc.address ≤ addr)) allocs 0
        (allocs.length - 1) hlo hhi none)) :
    candidate allocs addr last = some (binarySearchInterval allocs addr) := by
  unfold candidate binarySearchInterval search
  rw [hbest]
  cases searchLoop (fun alloc : LiveAlloc => decide (alloc.address ≤ addr)) allocs 0
      (allocs.length - 1) hlo hhi none with
  | none => rfl
  | some i =>
    have hne : indexOf (some i) ≠ -1 := by
      show (i.val : ℤ) ≠ -1
      omega
    have hi : (i.val : ℤ) < allocs.length := by
      have hlt := i.isLt
      omega
    have hitem : getItem allocs (indexOf (some i)) = some (allocs.get i) :=
      getItem_of_lt (Int.natCast_nonneg _) hi
    rw [if_neg hne, hitem, Option.map_some, Option.map_some, Option.filter_some]

theorem rightmost_binarySearchInterval (h : SortedByAddress allocs) :
    Rightmost allocs addr (binarySearchInterval allocs addr) where
  last := by
    intro i alloc hi hle hafter
    obtain ⟨hlt, rfl⟩ := List.getElem?_eq_some_iff.mp hi
    have hsplit : allocs = allocs.take i ++ allocs[i] :: allocs.drop (i + 1) := by
      rw [List.getElem_cons_drop, List.take_append_drop]
    have hfound : search (fun alloc : LiveAlloc => decide (alloc.address ≤ addr)) allocs =
        some allocs[i] := by
      have hinitial := initial_of_sorted h addr
      rw [hsplit] at hinitial
      conv_lhs => rw [hsplit]
      refine search_eq_some hinitial (decide_eq_true hle) ?_
      intro other hother
      obtain ⟨k, hk⟩ := List.mem_iff_getElem?.mp hother
      rw [List.getElem?_drop] at hk
      have hbehind := hafter (i + 1 + k) other (by omega) hk
      rw [decide_eq_false_iff_not]
      omega
    rw [binarySearchInterval, hfound, Option.filter_some]
  missing := by
    intro hall
    cases hfound : binarySearchInterval allocs addr with
    | none => rfl
    | some alloc =>
      obtain ⟨before, after, rfl, hle, -⟩ := (binarySearchInterval_iff h).mp hfound
      have habove := hall alloc (List.mem_append_right _ (List.mem_cons_self ..))
      omega

end

/-- In a list sorted by address the loop ends, with every index inside the list, and
what it returns is decided by the last element at or below the address. -/
theorem rounds_find_rightmost (allocs : List LiveAlloc) (h : SortedByAddress allocs) (addr : ℤ) :
    ∃ n last found, run (round allocs addr) (start allocs) (List.replicate n ()) = some last ∧
      last.hi < last.lo ∧
      Always (round allocs addr) (InBounds allocs) (start allocs) (List.replicate n ()) ∧
      candidate allocs addr last = some found ∧ Rightmost allocs addr found := by
  obtain ⟨n, last, hrun, hend, halways, hbest⟩ :=
    exists_rounds allocs addr 0 (allocs.length - 1) (by omega) (by omega) none
  exact ⟨n, last, _, hrun, hend, halways, candidate_eq hbest, rightmost_binarySearchInterval h⟩

/-- Of two allocations at one address, the second decides. -/
theorem rounds_find_rightmost_ties :
    ∃ n last found,
      run (round [.ofEvent (allocAt 1 10 100 8 0), .ofEvent (allocAt 2 20 100 0 0)] 100)
        (start [.ofEvent (allocAt 1 10 100 8 0), .ofEvent (allocAt 2 20 100 0 0)])
        (List.replicate n ()) = some last ∧
      last.hi < last.lo ∧
      Always (round [.ofEvent (allocAt 1 10 100 8 0), .ofEvent (allocAt 2 20 100 0 0)] 100)
        (InBounds [.ofEvent (allocAt 1 10 100 8 0), .ofEvent (allocAt 2 20 100 0 0)])
        (start [.ofEvent (allocAt 1 10 100 8 0), .ofEvent (allocAt 2 20 100 0 0)])
        (List.replicate n ()) ∧
      candidate [.ofEvent (allocAt 1 10 100 8 0), .ofEvent (allocAt 2 20 100 0 0)] 100 last =
        some found ∧
      Rightmost [.ofEvent (allocAt 1 10 100 8 0), .ofEvent (allocAt 2 20 100 0 0)] 100 found :=
  rounds_find_rightmost [.ofEvent (allocAt 1 10 100 8 0), .ofEvent (allocAt 2 20 100 0 0)]
    (by unfold SortedByAddress; decide) 100

end HpcProfiler.SearchRounds
