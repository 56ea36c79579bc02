import HpcProfiler.Correlation

/-!
What the indices of the correlation passes find. The interval search finds the last
allocation, in address order, that starts at or below the address; the pinned index
finds the first allocation with the pointer; the window search finds the first of
the closest allocations. Each lookup keeps one candidate for a query.
-/

namespace HpcProfiler.CorrelationLookups

open Events GreedyChoice RightmostSearch Correlation

theorem mem_sortedAllocs {cpuEvents : List CpuEvent} {alloc : LiveAlloc} :
    alloc ∈ sortedAllocs cpuEvents ↔
      ∃ event ∈ cpuEvents, isAlloc event = true ∧ LiveAlloc.ofEvent event = alloc := by
  unfold sortedAllocs
  rw [List.mem_insertionSort, List.mem_map]
  simp only [List.mem_filter, and_assoc]

def SortedByAddress (allocs : List LiveAlloc) : Prop :=
  allocs.Pairwise fun a b => a.address ≤ b.address

theorem sortedAllocs_sorted (cpuEvents : List CpuEvent) :
    SortedByAddress (sortedAllocs cpuEvents) := by
  have htotal : Std.Total fun a b : LiveAlloc => a.address ≤ b.address :=
    ⟨fun a b => le_total a.address b.address⟩
  have htrans : IsTrans LiveAlloc fun a b => a.address ≤ b.address :=
    ⟨fun a b c hab hbc => le_trans hab hbc⟩
  exact List.pairwise_insertionSort _ _

theorem initial_of_sorted {allocs : List LiveAlloc} (h : SortedByAddress allocs) (addr : ℤ) :
    Initial (fun alloc : LiveAlloc => decide (alloc.address ≤ addr)) allocs := by
  apply List.Pairwise.imp _ h
  intro a b hab hb
  rw [decide_eq_true_eq] at hb ⊢
  exact le_trans hab hb

/-- The allocation that an address falls to: the last one in address order that starts
at or below it, provided that it reaches the address. -/
def Owns (allocs : List LiveAlloc) (addr : ℤ) (alloc : LiveAlloc) : Prop :=
  ∃ before after, allocs = before ++ alloc :: after ∧ alloc.address ≤ addr ∧
    addr < alloc.endAddress ∧ ∀ other ∈ after, addr < other.address

theorem binarySearchInterval_iff {allocs : List LiveAlloc} (h : SortedByAddress allocs)
    {addr : ℤ} {alloc : LiveAlloc} :
    binarySearchInterval allocs addr = some alloc ↔ Owns allocs addr alloc := by
  unfold binarySearchInterval
  rw [Option.filter_eq_some_iff]
  constructor
  · rintro ⟨hfound, hcontains⟩
    obtain ⟨before, after, hsplit, hle, hafter⟩ := search_some (initial_of_sorted h addr) hfound
    rw [decide_eq_true_eq] at hle
    simp only [LiveAlloc.contains, Bool.and_eq_true, decide_eq_true_eq] at hcontains
    refine ⟨before, after, hsplit, hle, hcontains.2, ?_⟩
    intro other hother
    have hfalse := hafter other hother
    rw [decide_eq_false_iff_not] at hfalse
    omega
  · rintro ⟨before, after, rfl, hle, hlt, hafter⟩
    refine ⟨search_eq_some (initial_of_sorted h addr) (decide_eq_true hle) ?_, ?_⟩
    · intro other hother
      have hbehind := hafter other hother
      rw [decide_eq_false_iff_not]
      omega
    · simp only [LiveAlloc.contains, Bool.and_eq_true, decide_eq_true_eq]
      exact ⟨hle, hlt⟩

/-- The source address is tried first, the destination address only without a hit. -/
theorem findAddressMatch_iff {allocs : List LiveAlloc} {srcAddr dstAddr : ℤ}
    {alloc : LiveAlloc} :
    findAddressMatch allocs srcAddr dstAddr = some alloc ↔
      (srcAddr ≠ 0 ∧ binarySearchInterval allocs srcAddr = some alloc) ∨
        ((srcAddr = 0 ∨ binarySearchInterval allocs srcAddr = none) ∧ dstAddr ≠ 0 ∧
          binarySearchInterval allocs dstAddr = some alloc) := by
  unfold findAddressMatch
  rw [List.findSome?_cons, List.findSome?_cons, List.findSome?_nil]
  by_cases hsrc : srcAddr = 0
  · by_cases hdst : dstAddr = 0
    · simp [hsrc, hdst]
    · cases binarySearchInterval allocs dstAddr <;> simp [hsrc, hdst]
  · cases hfound : binarySearchInterval allocs srcAddr with
    | some found => simp [hsrc]
    | none =>
      by_cases hdst : dstAddr = 0
      · simp [hsrc, hdst]
      · cases binarySearchInterval allocs dstAddr <;> simp [hsrc, hdst]

theorem findAddressMatch_mem {allocs : List LiveAlloc} (h : SortedByAddress allocs)
    {srcAddr dstAddr : ℤ} {alloc : LiveAlloc}
    (hfound : findAddressMatch allocs srcAddr dstAddr = some alloc) :
    alloc ∈ allocs ∧ ∃ addr, (addr = srcAddr ∨ addr = dstAddr) ∧ addr ≠ 0 ∧
      alloc.address ≤ addr ∧ addr < alloc.endAddress := by
  rcases findAddressMatch_iff.mp hfound with ⟨hne, hown⟩ | ⟨-, hne, hown⟩
  · obtain ⟨before, after, hsplit, hle, hlt, -⟩ := (binarySearchInterval_iff h).mp hown
    exact ⟨by rw [hsplit]; simp, srcAddr, Or.inl rfl, hne, hle, hlt⟩
  · obtain ⟨before, after, hsplit, hle, hlt, -⟩ := (binarySearchInterval_iff h).mp hown
    exact ⟨by rw [hsplit]; simp, dstAddr, Or.inr rfl, hne, hle, hlt⟩

/-- The first allocation with the key that is not shadowed by the index so far. -/
theorem addPinned_foldl (allocs : List LiveAlloc) (index : ℤ → Option LiveAlloc) (key : ℤ) :
    allocs.foldl addPinned index key =
      (index key).or
        (if key = 0 then none else allocs.find? fun alloc => alloc.pinnedAddress = key) := by
  induction allocs generalizing index with
  | nil => by_cases hzero : key = 0 <;> simp [hzero]
  | cons alloc allocs ih =>
    rw [List.foldl_cons, ih]
    unfold addPinned
    by_cases hzero : key = 0
    · rw [if_pos hzero, if_pos hzero]
      split
      · rename_i hnew
        rw [Function.update_of_ne (by omega)]
      · rfl
    · rw [if_neg hzero, if_neg hzero, List.find?_cons]
      by_cases hkey : alloc.pinnedAddress = key
      · rw [hkey, decide_eq_true rfl]
        cases hold : index key with
        | none => simp [hzero]
        | some old => simp [hold]
      · rw [decide_eq_false hkey]
        split
        · rw [Function.update_of_ne (Ne.symm hkey)]
        · rfl

theorem pinnedIndex_eq (allocs : List LiveAlloc) (key : ℤ) :
    pinnedIndex allocs key =
      if key = 0 then none else allocs.find? fun alloc => alloc.pinnedAddress = key := by
  unfold pinnedIndex
  rw [addPinned_foldl, Option.none_or]

theorem pinnedIndex_mem {allocs : List LiveAlloc} {key : ℤ} {alloc : LiveAlloc}
    (h : pinnedIndex allocs key = some alloc) :
    alloc ∈ allocs ∧ key ≠ 0 ∧ alloc.pinnedAddress = key := by
  rw [pinnedIndex_eq] at h
  by_cases hzero : key = 0
  · rw [if_pos hzero] at h
    cases h
  · rw [if_neg hzero] at h
    have hkey := List.find?_some h
    exact ⟨List.mem_of_find?_eq_some h, hzero, of_decide_eq_true hkey⟩

theorem addSize_foldl (allocs : List LiveAlloc) (index : ℤ → Option (List LiveAlloc))
    (key : ℤ) :
    (allocs.foldl addSize index key).getD [] =
      (index key).getD [] ++ allocs.filter fun alloc => alloc.size = key := by
  induction allocs generalizing index with
  | nil => simp
  | cons alloc allocs ih =>
    rw [List.foldl_cons, ih]
    unfold addSize
    by_cases hkey : alloc.size = key
    · rw [hkey, Function.update_self, Option.getD_some, List.filter_cons, if_pos (by simpa),
        List.append_assoc]
      rfl
    · rw [Function.update_of_ne (Ne.symm hkey), List.filter_cons_of_neg]
      rw [decide_eq_true_eq]
      exact hkey

theorem sizeIndex_eq (allocs : List LiveAlloc) (key : ℤ) :
    (sizeIndex allocs key).getD [] = allocs.filter fun alloc => alloc.size = key := by
  unfold sizeIndex
  rw [addSize_foldl]
  rfl

/-- The first of the closest candidates inside the window. -/
structure ClosestAt (gpuTs windowNs : ℤ) (excludeIds : Finset ℤ)
    (before after : List LiveAlloc) (alloc : LiveAlloc) : Prop where
  free : alloc.eventId ∉ excludeIds
  inWindow : distance gpuTs alloc.timestampNs ≤ windowNs
  before : ∀ other ∈ before, other.eventId ∉ excludeIds →
    distance gpuTs alloc.timestampNs < distance gpuTs other.timestampNs
  after : ∀ other ∈ after, other.eventId ∉ excludeIds →
    distance gpuTs alloc.timestampNs ≤ distance gpuTs other.timestampNs

/-- What the loop over the candidates knows after a part of them. -/
def ScanInv (gpuTs windowNs : ℤ) (excludeIds : Finset ℤ) (seen : List LiveAlloc) :
    Option LiveAlloc × ℤ → Prop
  | (none, bestDelta) => bestDelta = windowNs + 1 ∧
      ∀ other ∈ seen, other.eventId ∉ excludeIds → windowNs < distance gpuTs other.timestampNs
  | (some alloc, bestDelta) => bestDelta = distance gpuTs alloc.timestampNs ∧
      ∃ before after, seen = before ++ alloc :: after ∧
        ClosestAt gpuTs windowNs excludeIds before after alloc

theorem ScanInv.skip {gpuTs windowNs : ℤ} {excludeIds : Finset ℤ} {seen : List LiveAlloc}
    {best : Option LiveAlloc × ℤ} {alloc : LiveAlloc}
    (h : ScanInv gpuTs windowNs excludeIds seen best)
    (hskip : alloc.eventId ∉ excludeIds →
      ¬ (distance gpuTs alloc.timestampNs ≤ windowNs ∧
        distance gpuTs alloc.timestampNs < best.2)) :
    ScanInv gpuTs windowNs excludeIds (seen ++ [alloc]) best := by
  obtain ⟨found, bestDelta⟩ := best
  cases found with
  | none =>
    obtain ⟨hdelta, hfar⟩ := h
    refine ⟨hdelta, ?_⟩
    intro other hother hfree
    rcases List.mem_append.mp hother with hold | hnew
    · exact hfar other hold hfree
    · rw [List.mem_singleton] at hnew
      subst hnew
      have hnot := hskip hfree
      dsimp only at hnot
      omega
  | some nearest =>
    obtain ⟨hdelta, before, after, hseen, hclosest⟩ := h
    refine ⟨hdelta, before, after ++ [alloc], by rw [hseen]; simp, hclosest.free,
      hclosest.inWindow, hclosest.before, ?_⟩
    intro other hother hfree
    rcases List.mem_append.mp hother with hold | hnew
    · exact hclosest.after other hold hfree
    · rw [List.mem_singleton] at hnew
      subst hnew
      have hnot := hskip hfree
      have hin := hclosest.inWindow
      dsimp only at hnot
      omega

theorem ScanInv.take {gpuTs windowNs : ℤ} {excludeIds : Finset ℤ} {seen : List LiveAlloc}
    {best : Option LiveAlloc × ℤ} {alloc : LiveAlloc}
    (h : ScanInv gpuTs windowNs excludeIds seen best) (hfree : alloc.eventId ∉ excludeIds)
    (hin : distance gpuTs alloc.timestampNs ≤ windowNs)
    (hcloser : distance gpuTs alloc.timestampNs < best.2) :
    ScanInv gpuTs windowNs excludeIds (seen ++ [alloc])
      (some alloc, distance gpuTs alloc.timestampNs) := by
  refine ⟨rfl, seen, [], rfl, hfree, hin, ?_, by simp⟩
  intro other hother hother'
  obtain ⟨found, bestDelta⟩ := best
  cases found with
  | none =>
    have hfar := h.2 other hother hother'
    omega
  | some nearest =>
    obtain ⟨hdelta, before, after, hseen, hclosest⟩ := h
    dsimp only at hcloser
    rw [hseen, List.mem_append, List.mem_cons] at hother
    rcases hother with hbefore | rfl | hafter
    · have hfar := hclosest.before other hbefore hother'
      omega
    · omega
    · have hfar := hclosest.after other hafter hother'
      omega

theorem closerOf_inv (gpuTs windowNs : ℤ) (excludeIds : Finset ℤ) (allocs : List LiveAlloc) :
    ScanInv gpuTs windowNs excludeIds allocs
      (allocs.foldl (closerOf gpuTs windowNs excludeIds) (none, windowNs + 1)) := by
  induction allocs using List.reverseRecOn with
  | nil => exact ⟨rfl, by simp⟩
  | append_singleton seen alloc ih =>
    rw [List.foldl_append, List.foldl_cons, List.foldl_nil]
    generalize seen.foldl (closerOf gpuTs windowNs excludeIds) (none, windowNs + 1) = best at ih
    unfold closerOf
    by_cases hexcluded : alloc.eventId ∈ excludeIds
    · rw [if_pos hexcluded]
      exact ih.skip fun hfree => absurd hexcluded hfree
    · rw [if_neg hexcluded]
      dsimp only
      by_cases hcloser : distance gpuTs alloc.timestampNs ≤ windowNs ∧
          distance gpuTs alloc.timestampNs < best.2
      · rw [if_pos hcloser]
        exact ih.take hexcluded hcloser.1 hcloser.2
      · rw [if_neg hcloser]
        exact ih.skip fun _ => hcloser

/-- The search returns what the loop knows at its end. -/
theorem findClosestInWindow_inv (allocs : List LiveAlloc) (gpuTs windowNs : ℤ)
    (excludeIds : Finset ℤ) : ∃ bestDelta, ScanInv gpuTs windowNs excludeIds allocs
      (findClosestInWindow allocs gpuTs windowNs excludeIds, bestDelta) :=
  ⟨_, closerOf_inv gpuTs windowNs excludeIds allocs⟩

theorem findClosestInWindow_some {allocs : List LiveAlloc} {gpuTs windowNs : ℤ}
    {excludeIds : Finset ℤ} {alloc : LiveAlloc}
    (h : findClosestInWindow allocs gpuTs windowNs excludeIds = some alloc) :
    ∃ before after, allocs = before ++ alloc :: after ∧
      ClosestAt gpuTs windowNs excludeIds before after alloc := by
  obtain ⟨bestDelta, hinv⟩ := findClosestInWindow_inv allocs gpuTs windowNs excludeIds
  rw [h] at hinv
  exact hinv.2

theorem findClosestInWindow_none {allocs : List LiveAlloc} {gpuTs windowNs : ℤ}
    {excludeIds : Finset ℤ} (h : findClosestInWindow allocs gpuTs windowNs excludeIds = none) :
    ∀ other ∈ allocs, other.eventId ∉ excludeIds →
      windowNs < distance gpuTs other.timestampNs := by
  obtain ⟨bestDelta, hinv⟩ := findClosestInWindow_inv allocs gpuTs windowNs excludeIds
  rw [h] at hinv
  exact hinv.2

theorem head_cases {α : Type*} {mid after after' : List α} {a b : α}
    (h : a :: after = mid ++ b :: after') : a = b ∨ (a ∈ mid ∧ b ∈ after) := by
  rcases List.cons_eq_append_iff.mp h with ⟨-, htail⟩ | ⟨mid', hmid, hafter⟩
  · exact .inl (List.cons.inj htail).1.symm
  · refine .inr ⟨?_, ?_⟩
    · rw [hmid]
      exact List.mem_cons_self ..
    · rw [hafter]
      exact List.mem_append_right _ (List.mem_cons_self ..)

/-- Two places in one list are the same, or one lies before the other. -/
theorem split_cases {α : Type*} {before before' after after' : List α} {a b : α}
    (h : before ++ a :: after = before' ++ b :: after') :
    a = b ∨ (a ∈ before' ∧ b ∈ after) ∨ (b ∈ before ∧ a ∈ after') := by
  rcases List.append_eq_append_iff.mp h with ⟨mid, hbefore, hafter⟩ | ⟨mid, hbefore, hafter⟩
  · rcases head_cases hafter with heq | ⟨hmid, hlast⟩
    · exact .inl heq
    · refine .inr (.inl ⟨?_, hlast⟩)
      rw [hbefore]
      exact List.mem_append_right _ hmid
  · rcases head_cases hafter with heq | ⟨hmid, hlast⟩
    · exact .inl heq.symm
    · refine .inr (.inr ⟨?_, hlast⟩)
      rw [hbefore]
      exact List.mem_append_right _ hmid

/-- The first of the closest candidates is the one that is found. -/
theorem findClosestInWindow_eq_some {before after : List LiveAlloc} {gpuTs windowNs : ℤ}
    {excludeIds : Finset ℤ} {alloc : LiveAlloc}
    (hclosest : ClosestAt gpuTs windowNs excludeIds before after alloc) :
    findClosestInWindow (before ++ alloc :: after) gpuTs windowNs excludeIds = some alloc := by
  have hin := hclosest.inWindow
  cases hfound : findClosestInWindow (before ++ alloc :: after) gpuTs windowNs excludeIds with
  | none =>
    have hfar := findClosestInWindow_none hfound alloc (by simp) hclosest.free
    omega
  | some other =>
    obtain ⟨before', after', hsplit, hclosest'⟩ := findClosestInWindow_some hfound
    rcases split_cases hsplit with heq | ⟨hfirst, hlast⟩ | ⟨hlast, hfirst⟩
    · rw [heq]
    · have hlt := hclosest'.before alloc hfirst hclosest.free
      have hle := hclosest.after other hlast hclosest'.free
      omega
    · have hlt := hclosest.before other hlast hclosest'.free
      have hle := hclosest'.after alloc hfirst hclosest.free
      omega

/-- A wider window and fewer candidates still give the same answer, as long as the
answer is among the candidates left. -/
theorem findClosestInWindow_stable {allocs : List LiveAlloc} {gpuTs windowNs windowNs' : ℤ}
    {excludeIds excludeIds' : Finset ℤ} {alloc : LiveAlloc} (hwindow : windowNs ≤ windowNs')
    (hexclude : excludeIds ⊆ excludeIds') (hfree : alloc.eventId ∉ excludeIds')
    (h : findClosestInWindow allocs gpuTs windowNs excludeIds = some alloc) :
    findClosestInWindow allocs gpuTs windowNs' excludeIds' = some alloc := by
  obtain ⟨before, after, rfl, hclosest⟩ := findClosestInWindow_some h
  apply findClosestInWindow_eq_some
  refine ⟨hfree, hclosest.inWindow.trans hwindow, ?_, ?_⟩
  · intro other hother hother'
    exact hclosest.before other hother fun hmem => hother' (hexclude hmem)
  · intro other hother hother'
    exact hclosest.after other hother fun hmem => hother' (hexclude hmem)

/-- So do fewer candidates in the list. -/
theorem findClosestInWindow_filter {allocs : List LiveAlloc} {gpuTs windowNs : ℤ}
    {excludeIds : Finset ℤ} {alloc : LiveAlloc} {keeps : LiveAlloc → Bool}
    (hkeeps : keeps alloc = true)
    (h : findClosestInWindow allocs gpuTs windowNs excludeIds = some alloc) :
    findClosestInWindow (allocs.filter keeps) gpuTs windowNs excludeIds = some alloc := by
  obtain ⟨before, after, rfl, hclosest⟩ := findClosestInWindow_some h
  rw [List.filter_append, List.filter_cons_of_pos hkeeps]
  apply findClosestInWindow_eq_some
  refine ⟨hclosest.free, hclosest.inWindow, ?_, ?_⟩
  · intro other hother
    exact hclosest.before other (List.mem_of_mem_filter hother)
  · intro other hother
    exact hclosest.after other (List.mem_of_mem_filter hother)

end HpcProfiler.CorrelationLookups
