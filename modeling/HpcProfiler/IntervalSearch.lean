import HpcProfiler.CorrelationLookups

/-!
The interval search against a linear scan of the same allocations. The search looks at
one allocation, the last one in address order that starts at or below the address. This
is enough where ranges lie apart; where they nest, a small range inside a large one may
hide what is behind it.
-/

namespace HpcProfiler.IntervalSearch

open RightmostSearch Correlation CorrelationLookups

/-- The search finds an allocation that contains the address exactly if there is one. -/
structure AgreesWithScan (allocs : List LiveAlloc) (addr : ℤ) : Prop where
  isSome_iff : (binarySearchInterval allocs addr).isSome = true ↔
    ∃ alloc ∈ allocs, alloc.contains addr = true
  contains : ∀ alloc ∈ binarySearchInterval allocs addr,
    alloc ∈ allocs ∧ alloc.contains addr = true

/-- Where the last allocation that starts at or below the address ends at or below it
too, so do all allocations before it. -/
def NotHidden (allocs : List LiveAlloc) (addr : ℤ) : Prop :=
  ∀ before last after, allocs = before ++ last :: after → last.address ≤ addr →
    (∀ other ∈ after, addr < other.address) → last.endAddress ≤ addr →
    ∀ other ∈ before, other.endAddress ≤ addr

theorem contains_iff {alloc : LiveAlloc} {addr : ℤ} :
    alloc.contains addr = true ↔ alloc.address ≤ addr ∧ addr < alloc.endAddress := by
  simp only [LiveAlloc.contains, Bool.and_eq_true, decide_eq_true_eq]

section

variable {allocs : List LiveAlloc} {addr : ℤ}

theorem mem_of_found (h : SortedByAddress allocs) :
    ∀ alloc ∈ binarySearchInterval allocs addr, alloc ∈ allocs ∧ alloc.contains addr = true := by
  intro alloc halloc
  obtain ⟨before, after, rfl, hle, hlt, -⟩ := (binarySearchInterval_iff h).mp halloc
  exact ⟨List.mem_append_right _ (List.mem_cons_self ..), contains_iff.mpr ⟨hle, hlt⟩⟩

/-- The search decides by the last allocation that starts at or below the address. -/
theorem isSome_of_split {before after : List LiveAlloc} {last : LiveAlloc}
    (h : SortedByAddress (before ++ last :: after)) (hle : last.address ≤ addr)
    (hafter : ∀ other ∈ after, addr < other.address) :
    (binarySearchInterval (before ++ last :: after) addr).isSome = true ↔
      addr < last.endAddress := by
  have hsearch : search (fun alloc : LiveAlloc => decide (alloc.address ≤ addr))
      (before ++ last :: after) = some last := by
    apply search_eq_some (initial_of_sorted h addr) (decide_eq_true hle)
    intro other hother
    have hbehind := hafter other hother
    rw [decide_eq_false_iff_not]
    omega
  rw [binarySearchInterval, hsearch, Option.filter_some]
  by_cases hend : addr < last.endAddress
  · rw [if_pos (contains_iff.mpr ⟨hle, hend⟩)]
    exact iff_of_true rfl hend
  · rw [if_neg (fun hin => hend (contains_iff.mp hin).2)]
    exact iff_of_false Bool.false_ne_true hend

/-- With an allocation at or below the address there is a last one. -/
theorem exists_last (h : SortedByAddress allocs)
    (hexists : ∃ alloc ∈ allocs, alloc.address ≤ addr) :
    ∃ before last after, allocs = before ++ last :: after ∧ last.address ≤ addr ∧
      ∀ other ∈ after, addr < other.address := by
  have hinitial := initial_of_sorted h addr
  cases hsearch : search (fun alloc : LiveAlloc => decide (alloc.address ≤ addr)) allocs with
  | none =>
    obtain ⟨alloc, halloc, hle⟩ := hexists
    have hfalse := search_none hinitial hsearch alloc halloc
    rw [decide_eq_false_iff_not] at hfalse
    omega
  | some last =>
    obtain ⟨before, after, hsplit, hle, hafter⟩ := search_some hinitial hsearch
    refine ⟨before, last, after, hsplit, of_decide_eq_true hle, ?_⟩
    intro other hother
    have hfalse := hafter other hother
    rw [decide_eq_false_iff_not] at hfalse
    omega

end

/-- The search agrees with a linear scan exactly if no allocation that contains the
address is hidden. -/
theorem agreesWithScan_iff {allocs : List LiveAlloc} (h : SortedByAddress allocs) (addr : ℤ) :
    AgreesWithScan allocs addr ↔ NotHidden allocs addr := by
  constructor
  · rintro hagrees before last after rfl hle hafter hend other hother
    by_contra hreaches
    have hbelow : other.address ≤ last.address :=
      (List.pairwise_append.mp h).2.2 other hother last (List.mem_cons_self ..)
    have hin : other.contains addr = true := contains_iff.mpr ⟨by omega, by omega⟩
    have hfound := hagrees.isSome_iff.mpr ⟨other, List.mem_append_left _ hother, hin⟩
    rw [isSome_of_split h hle hafter] at hfound
    omega
  · intro hnothidden
    refine ⟨⟨fun hsome => ?_, ?_⟩, mem_of_found h⟩
    · obtain ⟨alloc, halloc⟩ := Option.isSome_iff_exists.mp hsome
      exact ⟨alloc, mem_of_found h alloc halloc⟩
    · rintro ⟨alloc, halloc, hin⟩
      obtain ⟨hstart, hlt⟩ := contains_iff.mp hin
      obtain ⟨before, last, after, rfl, hle, hafter⟩ := exists_last h ⟨alloc, halloc, hstart⟩
      rw [isSome_of_split h hle hafter]
      by_contra hend
      have hbefore := hnothidden before last after rfl hle hafter (by omega)
      rcases List.mem_append.mp halloc with hmem | hmem
      · have hends := hbefore alloc hmem
        omega
      · rcases List.mem_cons.mp hmem with rfl | hmem
        · omega
        · have hbehind := hafter alloc hmem
          omega

/-- Ranges that lie apart hide nothing: each ends before a later one starts. -/
theorem notHidden_of_apart {allocs : List LiveAlloc}
    (hapart : allocs.Pairwise fun a b => a.endAddress ≤ b.address) (addr : ℤ) :
    NotHidden allocs addr := by
  rintro before last after rfl hle hafter hend other hother
  have hends := (List.pairwise_append.mp hapart).2.2 other hother last (List.mem_cons_self ..)
  omega

/-- Two arrays side by side. -/
def sideBySide : List LiveAlloc :=
  [.ofEvent (allocAt 1 10 100 20 0), .ofEvent (allocAt 2 20 120 10 0)]

theorem sideBySide_sorted : SortedByAddress sideBySide := by
  unfold SortedByAddress
  decide

theorem agreesWithScan_sideBySide : AgreesWithScan sideBySide 110 :=
  (agreesWithScan_iff sideBySide_sorted 110).mpr (notHidden_of_apart (by decide) 110)

/-- A large range with a small one inside. -/
def outer : LiveAlloc := .ofEvent (allocAt 1 10 100 100 0)

def inner : LiveAlloc := .ofEvent (allocAt 2 20 120 10 0)

theorem nested_sorted : SortedByAddress [outer, inner] := by
  unfold SortedByAddress
  decide

theorem nested_hides : ¬∀ allocs addr, SortedByAddress allocs → AgreesWithScan allocs addr := by
  intro hall
  have hagrees := hall [outer, inner] 150 nested_sorted
  have hfound := hagrees.isSome_iff.mpr ⟨outer, List.mem_cons_self .., by decide⟩
  have hsplit : (binarySearchInterval ([outer] ++ inner :: []) 150).isSome = true ↔
      150 < inner.endAddress := isSome_of_split nested_sorted (by decide) (by simp)
  exact absurd (hsplit.mp hfound) (by decide)

end HpcProfiler.IntervalSearch
