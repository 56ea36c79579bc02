import HpcProfiler.StableSort
import HpcProfiler.UiSession
import Mathlib.Data.List.Chain

/-!
The bursts among the allocations of a session. Two loops walk over the list, from the
start of one run of equal allocations to the start of the next; the runs are all maximal
ones, each of five allocations or more is a burst, and the eight largest are reported.
-/

namespace HpcProfiler.BurstRuns

open Events UiSession StableSort

structure Burst where
  type : String
  size : ℤ
  count : ℕ
  start : ℤ
  deriving DecidableEq

/-- The inner loop, from the index j on. -/
def runEnd (allocs : List CpuEvent) (t : String) (s : ℤ) (j : ℕ) : ℕ :=
  if h : j < allocs.length then
    if allocs[j].objectType = t ∧ allocs[j].allocSizeBytes = s then runEnd allocs t s (j + 1)
    else j
  else j
termination_by allocs.length - j

theorem le_runEnd (allocs : List CpuEvent) (t : String) (s : ℤ) (j : ℕ) :
    j ≤ runEnd allocs t s j := by
  induction j using runEnd.induct allocs t s with
  | case1 j hj hsame ih =>
    rw [runEnd, dif_pos hj, if_pos hsame]
    omega
  | case2 j hj hsame =>
    rw [runEnd, dif_pos hj, if_neg hsame]
  | case3 j hj => rw [runEnd, dif_neg hj]

/-- The outer loop, from the index i on: the bursts it adds. -/
def burstsFrom (allocs : List CpuEvent) (i : ℕ) : List Burst :=
  if h : i < allocs.length then
    let t := allocs[i].objectType
    let s := allocs[i].allocSizeBytes
    let j := runEnd allocs t s (i + 1)
    (if j - i ≥ 5 then [⟨t, s, j - i, allocs[i].base.timestampNs⟩] else []) ++ burstsFrom allocs j
  else []
termination_by allocs.length - i
decreasing_by
  have hle := le_runEnd allocs allocs[i].objectType allocs[i].allocSizeBytes (i + 1)
  omega

/-- Sorted by decreasing count, the first eight. -/
def detectBursts (allocs : List CpuEvent) : List Burst :=
  (sortBy (fun burst => OrderDual.toDual burst.count) (burstsFrom allocs 0)).take 8

/-- The stretches of the list that the outer loop walks over, from the index i on. -/
def walked (allocs : List CpuEvent) (i : ℕ) : List (List CpuEvent) :=
  if h : i < allocs.length then
    let j := runEnd allocs allocs[i].objectType allocs[i].allocSizeBytes (i + 1)
    (allocs.drop i).take (j - i) :: walked allocs j
  else []
termination_by allocs.length - i
decreasing_by
  have hle := le_runEnd allocs allocs[i].objectType allocs[i].allocSizeBytes (i + 1)
  omega

def Same (a b : CpuEvent) : Prop :=
  a.objectType = b.objectType ∧ a.allocSizeBytes = b.allocSizeBytes

/-- The runs make up the list; the allocations of a run are equal in type and size, and
those of a run and the next one are not. -/
structure MaximalRuns (allocs : List CpuEvent) (runs : List (List CpuEvent)) : Prop where
  flatten_eq : runs.flatten = allocs
  nonempty : ∀ run ∈ runs, run ≠ []
  same : ∀ run ∈ runs, ∀ a ∈ run, ∀ b ∈ run, Same a b
  maximal : runs.IsChain fun run next => ∀ a ∈ run, ∀ b ∈ next, ¬Same a b

/-- What is reported of a run of this many allocations. -/
def burstOf : List CpuEvent → Option Burst
  | [] => none
  | first :: rest =>
    some ⟨first.objectType, first.allocSizeBytes, rest.length + 1, first.base.timestampNs⟩

/-- All runs of at least five allocations. -/
def bursts (runs : List (List CpuEvent)) : List Burst :=
  (runs.filter fun run => 5 ≤ run.length).filterMap burstOf

/-- The same bursts by decreasing count, those of one count in their order. -/
structure StablyDescending (found sorted : List Burst) : Prop where
  perm : sorted.Perm found
  descending : sorted.Pairwise fun a b => b.count ≤ a.count
  stable : ∀ n : ℕ, (sorted.filter fun b => b.count = n) = found.filter fun b => b.count = n

section

variable {allocs : List CpuEvent}

/-- The inner loop stops at the first allocation that differs, or at the end. -/
structure StopsAt (allocs : List CpuEvent) (t : String) (s : ℤ) (first j : ℕ) : Prop where
  le_length : first ≤ allocs.length → j ≤ allocs.length
  equal : ∀ (k : ℕ) (a : CpuEvent), first ≤ k → k < j → allocs[k]? = some a →
    a.objectType = t ∧ a.allocSizeBytes = s
  differs : ∀ a ∈ allocs[j]?, ¬(a.objectType = t ∧ a.allocSizeBytes = s)

theorem runEnd_stopsAt (allocs : List CpuEvent) (t : String) (s : ℤ) (j : ℕ) :
    StopsAt allocs t s j (runEnd allocs t s j) := by
  induction j using runEnd.induct allocs t s with
  | case1 j hj hsame ih =>
    rw [runEnd, dif_pos hj, if_pos hsame]
    refine ⟨fun _ => ih.le_length hj, ?_, ih.differs⟩
    intro k a hk hlt ha
    by_cases hkj : k = j
    · subst hkj
      rw [List.getElem?_eq_getElem hj] at ha
      cases ha
      exact hsame
    · exact ih.equal k a (by omega) hlt ha
  | case2 j hj hsame =>
    rw [runEnd, dif_pos hj, if_neg hsame]
    refine ⟨id, fun k a hk hlt => by omega, ?_⟩
    intro a ha
    rw [List.getElem?_eq_getElem hj] at ha
    cases ha
    exact hsame
  | case3 j hj =>
    rw [runEnd, dif_neg hj]
    refine ⟨id, fun k a hk hlt => by omega, ?_⟩
    intro a ha
    rw [List.getElem?_eq_none (by omega)] at ha
    cases ha

/-- The stretch from the index i to where the inner loop stops. -/
def stretch (allocs : List CpuEvent) (i : ℕ) (h : i < allocs.length) : List CpuEvent :=
  (allocs.drop i).take
    (runEnd allocs allocs[i].objectType allocs[i].allocSizeBytes (i + 1) - i)

variable {i : ℕ} (h : i < allocs.length)

theorem walked_of_lt : walked allocs i = stretch allocs i h ::
    walked allocs (runEnd allocs allocs[i].objectType allocs[i].allocSizeBytes (i + 1)) := by
  rw [walked, dif_pos h]
  rfl

theorem stretch_append : stretch allocs i h ++
    allocs.drop (runEnd allocs allocs[i].objectType allocs[i].allocSizeBytes (i + 1)) =
      allocs.drop i := by
  have hle := le_runEnd allocs allocs[i].objectType allocs[i].allocSizeBytes (i + 1)
  have hdrop := List.take_append_drop
    (runEnd allocs allocs[i].objectType allocs[i].allocSizeBytes (i + 1) - i) (allocs.drop i)
  rw [List.drop_drop, Nat.add_sub_cancel' (Nat.le_of_succ_le hle)] at hdrop
  exact hdrop

theorem stretch_length : (stretch allocs i h).length =
    runEnd allocs allocs[i].objectType allocs[i].allocSizeBytes (i + 1) - i := by
  have hstops := runEnd_stopsAt allocs allocs[i].objectType allocs[i].allocSizeBytes (i + 1)
  have hle := hstops.le_length h
  rw [stretch, List.length_take, List.length_drop, Nat.min_eq_left (by omega)]

theorem stretch_eq_cons : ∃ rest, stretch allocs i h = allocs[i] :: rest := by
  have hle := le_runEnd allocs allocs[i].objectType allocs[i].allocSizeBytes (i + 1)
  obtain ⟨n, hn⟩ : ∃ n,
      runEnd allocs allocs[i].objectType allocs[i].allocSizeBytes (i + 1) - i = n + 1 :=
    Nat.exists_eq_succ_of_ne_zero (Nat.sub_ne_zero_of_lt hle)
  rw [stretch, hn, ← List.getElem_cons_drop h, List.take_succ_cons]
  exact ⟨_, rfl⟩

theorem same_of_mem_stretch {a : CpuEvent} (ha : a ∈ stretch allocs i h) :
    Same a allocs[i] := by
  obtain ⟨k, hk⟩ := List.mem_iff_getElem?.mp ha
  have hlt := (List.getElem?_eq_some_iff.mp hk).1
  rw [stretch_length] at hlt
  rw [stretch, List.getElem?_take_of_lt hlt, List.getElem?_drop] at hk
  by_cases hzero : k = 0
  · subst hzero
    rw [Nat.add_zero, List.getElem?_eq_getElem h] at hk
    cases hk
    exact ⟨rfl, rfl⟩
  · have hstops := runEnd_stopsAt allocs allocs[i].objectType
      allocs[i].allocSizeBytes (i + 1)
    exact hstops.equal (i + k) a (by omega) (by omega) hk

end

theorem Same.symm {a b : CpuEvent} (h : Same a b) : Same b a := ⟨h.1.symm, h.2.symm⟩

theorem Same.trans {a b c : CpuEvent} (h : Same a b) (h' : Same b c) : Same a c :=
  ⟨h.1.trans h'.1, h.2.trans h'.2⟩

/-- A stretch in front of the runs behind it. -/
theorem MaximalRuns.cons {allocs : List CpuEvent} {i : ℕ} (h : i < allocs.length)
    {runs : List (List CpuEvent)}
    (hruns : MaximalRuns
      (allocs.drop (runEnd allocs allocs[i].objectType allocs[i].allocSizeBytes (i + 1))) runs) :
    MaximalRuns (allocs.drop i) (stretch allocs i h :: runs) := by
  have hstops := runEnd_stopsAt allocs allocs[i].objectType allocs[i].allocSizeBytes (i + 1)
  refine ⟨?_, ?_, ?_, ?_⟩
  · rw [List.flatten_cons, hruns.flatten_eq, stretch_append]
  · rw [List.forall_mem_cons]
    obtain ⟨rest, hrest⟩ := stretch_eq_cons h
    exact ⟨by rw [hrest]; exact List.cons_ne_nil _ _, hruns.nonempty⟩
  · rw [List.forall_mem_cons]
    refine ⟨?_, hruns.same⟩
    intro a ha b hb
    exact (same_of_mem_stretch h ha).trans (same_of_mem_stretch h hb).symm
  · refine hruns.maximal.cons ?_
    intro next hnext a ha b hb hsame
    -- The next run starts with the allocation that the inner loop has stopped at.
    obtain ⟨runs', rfl⟩ : ∃ runs', runs = next :: runs' := List.head?_eq_some_iff.mp hnext
    obtain ⟨first, rest, rfl⟩ := List.exists_cons_of_ne_nil
      (hruns.nonempty next (List.mem_cons_self ..))
    have hflat := congrArg List.head? hruns.flatten_eq
    rw [List.flatten_cons, List.cons_append, List.head?_cons, List.head?_drop] at hflat
    have hfirst := hruns.same _ (List.mem_cons_self ..) first (List.mem_cons_self ..) b hb
    exact hstops.differs first hflat.symm
      (hfirst.trans (hsame.symm.trans (same_of_mem_stretch h ha)))

theorem walked_maximal (allocs : List CpuEvent) (i : ℕ) :
    MaximalRuns (allocs.drop i) (walked allocs i) := by
  induction i using walked.induct allocs with
  | case1 i hi j ih =>
    rw [walked_of_lt hi]
    exact ih.cons hi
  | case2 i hi =>
    rw [walked, dif_neg hi, List.drop_eq_nil_of_le (by omega)]
    exact ⟨rfl, by simp, by simp, .nil⟩

theorem bursts_cons (run : List CpuEvent) (runs : List (List CpuEvent)) :
    bursts (run :: runs) =
      (if 5 ≤ run.length then (burstOf run).toList else []) ++ bursts runs := by
  unfold bursts
  by_cases hlong : 5 ≤ run.length
  · rw [if_pos hlong, List.filter_cons_of_pos (by simpa using hlong), List.filterMap_cons]
    cases burstOf run <;> rfl
  · rw [if_neg hlong, List.filter_cons_of_neg (by simpa using hlong)]
    rfl

theorem burstsFrom_eq (allocs : List CpuEvent) (i : ℕ) :
    burstsFrom allocs i = bursts (walked allocs i) := by
  induction i using walked.induct allocs with
  | case1 i hi j ih =>
    obtain ⟨rest, hrest⟩ := stretch_eq_cons hi
    have hlength := stretch_length hi
    have hburst : burstOf (stretch allocs i hi) = some ⟨allocs[i].objectType,
        allocs[i].allocSizeBytes, j - i, allocs[i].base.timestampNs⟩ := by
      rw [← hlength, hrest]
      rfl
    rw [burstsFrom, dif_pos hi, walked_of_lt hi, bursts_cons, hlength, hburst, ← ih]
    rfl
  | case2 i hi =>
    rw [burstsFrom, dif_neg hi, walked, dif_neg hi]
    rfl

/-- The loops walk over the maximal runs of the list, and what is returned are the first
eight of the runs of at least five, stably sorted by decreasing count. -/
theorem detectBursts_spec (allocs : List CpuEvent) :
    MaximalRuns allocs (walked allocs 0) ∧
      ∃ sorted, StablyDescending (bursts (walked allocs 0)) sorted ∧
        detectBursts allocs = sorted.take 8 := by
  refine ⟨walked_maximal allocs 0, _, ?_, rfl⟩
  rw [burstsFrom_eq]
  refine ⟨sortBy_perm _ _, ?_, ?_⟩
  · exact sortBy_pairwise (fun burst : Burst => OrderDual.toDual burst.count) _
  · intro n
    exact filter_key_sortBy (fun burst : Burst => OrderDual.toDual burst.count) _
      (OrderDual.toDual n)

end HpcProfiler.BurstRuns
