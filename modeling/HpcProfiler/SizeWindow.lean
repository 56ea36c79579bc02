import HpcProfiler.CorrelationOwners

/-!
The window of the size matches. It is documented as the time after the allocation; the
search measures the distance to either side. Beside the pass stands the documented one,
which looks only at allocations made before the transfer: the two part where a later
allocation is closer.
-/

namespace HpcProfiler.SizeWindow

open Events GreedyChoice Correlation CorrelationLookups CorrelationPasses CorrelationSound

/-- The transfer comes after the allocation, by the window at most. -/
structure InDocumentedWindow (timeWindowNs : ℤ) (m : Match) : Prop where
  after : m.alloc.timestampNs ≤ m.gpu.base.timestampNs
  within : m.gpu.base.timestampNs ≤ m.alloc.timestampNs + timeWindowNs

/-- Pass 2 as it is documented. -/
def chooseDocumented (index : ℤ → Option (List LiveAlloc)) (timeWindowNs : ℤ) (st : MatchState)
    (gpu : GpuEvent) : Option Match :=
  let candidates := ((index (transferSize gpu)).getD []).filter fun alloc =>
    alloc.timestampNs ≤ gpu.base.timestampNs
  if gpu.base.eventId ∈ st.matchedGpu then none
  else if transferSize gpu = 0 then none
  else
    match findClosestInWindow candidates gpu.base.timestampNs timeWindowNs st.matchedCpu with
    | none => none
    | some best => some ⟨.size, best, gpu⟩

/-- An allocation of the size that has been made by the time of the transfer and has not
been used up. -/
structure FreeEarly (st : MatchState) (gpu : GpuEvent) (alloc : LiveAlloc) : Prop where
  free : alloc.eventId ∉ st.matchedCpu
  early : alloc.timestampNs ≤ gpu.base.timestampNs

/-- Every later allocation of the size that is free and in reach of the window is beaten
by an earlier one, which is closer to the transfer or as close and at a lower place. -/
def LateBeaten (allocs : List LiveAlloc) (timeWindowNs : ℤ) (st : MatchState) (gpu : GpuEvent) :
    Prop :=
  gpu.base.eventId ∉ st.matchedGpu → transferSize gpu ≠ 0 →
    ∀ before late after,
      (allocs.filter fun alloc => alloc.size = transferSize gpu) = before ++ late :: after →
      late.eventId ∉ st.matchedCpu → gpu.base.timestampNs < late.timestampNs →
      late.timestampNs ≤ gpu.base.timestampNs + timeWindowNs →
      (∃ alloc ∈ before, FreeEarly st gpu alloc ∧
        gpu.base.timestampNs - alloc.timestampNs ≤ late.timestampNs - gpu.base.timestampNs) ∨
      ∃ alloc ∈ after, FreeEarly st gpu alloc ∧
        gpu.base.timestampNs - alloc.timestampNs < late.timestampNs - gpu.base.timestampNs

section

variable {allocs : List LiveAlloc} {timeWindowNs : ℤ} {st : MatchState} {gpu : GpuEvent}

theorem distance_of_le {a b : ℤ} (h : b ≤ a) : distance a b = a - b := by
  unfold distance
  omega

theorem distance_of_ge {a b : ℤ} (h : a ≤ b) : distance a b = b - a := by
  unfold distance
  omega

theorem inWindow_of_lateBeaten (hbeaten : LateBeaten allocs timeWindowNs st gpu) {m : Match}
    (hm : m ∈ chooseSize (sizeIndex allocs) timeWindowNs st gpu) :
    InDocumentedWindow timeWindowNs m := by
  obtain ⟨best, hfound, hsize, hgpu, rfl⟩ := chooseSize_iff.mp hm
  rw [sizeIndex_eq] at hfound
  obtain ⟨before, after, hsplit, hclosest⟩ := findClosestInWindow_some hfound
  have hin := hclosest.inWindow
  have hearly : best.timestampNs ≤ gpu.base.timestampNs := by
    by_contra hlate
    rw [distance_of_ge (by omega)] at hin
    rcases hbeaten hgpu hsize before best after hsplit hclosest.free (by omega) (by omega) with
      ⟨alloc, halloc, hfree, hcloser⟩ | ⟨alloc, halloc, hfree, hcloser⟩
    · have hlt := hclosest.before alloc halloc hfree.free
      rw [distance_of_ge (by omega), distance_of_le hfree.early] at hlt
      omega
    · have hle := hclosest.after alloc halloc hfree.free
      rw [distance_of_ge (by omega), distance_of_le hfree.early] at hle
      omega
  rw [distance_of_le hearly] at hin
  exact ⟨hearly, by dsimp only; omega⟩

/-- The pass prefers a late allocation to none, so where its choice is early, one has beaten
the late ones. -/
theorem lateBeaten_of_inWindow (hgood : ∀ m ∈ chooseSize (sizeIndex allocs) timeWindowNs st gpu,
    InDocumentedWindow timeWindowNs m) : LateBeaten allocs timeWindowNs st gpu := by
  intro hgpu hsize before late after hsplit hfree hlate hreach
  have hmem : late ∈ allocs.filter fun alloc => alloc.size = transferSize gpu := by
    rw [hsplit]
    exact List.mem_append_right _ (List.mem_cons_self ..)
  have hlateIn : distance gpu.base.timestampNs late.timestampNs ≤ timeWindowNs := by
    rw [distance_of_ge (by omega)]
    omega
  cases hfound : findClosestInWindow (allocs.filter fun alloc => alloc.size = transferSize gpu)
      gpu.base.timestampNs timeWindowNs st.matchedCpu with
  | none =>
    have hfar := findClosestInWindow_none hfound late hmem hfree
    omega
  | some best =>
    have hchoice : chooseSize (sizeIndex allocs) timeWindowNs st gpu =
        some ⟨.size, best, gpu⟩ := by
      rw [chooseSize_iff]
      refine ⟨best, ?_, hsize, hgpu, rfl⟩
      rw [sizeIndex_eq]
      exact hfound
    have hearly := (hgood _ hchoice).after
    dsimp only at hearly
    obtain ⟨before', after', hsplit', hclosest⟩ := findClosestInWindow_some hfound
    have hfreeEarly : FreeEarly st gpu best := ⟨hclosest.free, hearly⟩
    rcases split_cases (hsplit.symm.trans hsplit') with heq | ⟨hfirst, hlast⟩ | ⟨hlast, hfirst⟩
    · rw [heq] at hlate
      omega
    · have hlt := hclosest.before late hfirst hfree
      rw [distance_of_le hearly, distance_of_ge (by omega)] at hlt
      exact .inr ⟨best, hlast, hfreeEarly, hlt⟩
    · have hle := hclosest.after late hfirst hfree
      rw [distance_of_le hearly, distance_of_ge (by omega)] at hle
      exact .inl ⟨best, hlast, hfreeEarly, hle⟩

/-- The pass finds an earlier allocation exactly if the later ones are beaten. -/
theorem lateBeaten_iff :
    LateBeaten allocs timeWindowNs st gpu ↔
      ∀ m ∈ chooseSize (sizeIndex allocs) timeWindowNs st gpu,
        InDocumentedWindow timeWindowNs m :=
  ⟨fun hbeaten _ hm => inWindow_of_lateBeaten hbeaten hm, lateBeaten_of_inWindow⟩

/-- Where the later allocations are beaten, the pass is the documented one. -/
theorem chooseSize_eq_documented (hbeaten : LateBeaten allocs timeWindowNs st gpu) :
    chooseSize (sizeIndex allocs) timeWindowNs st gpu =
      chooseDocumented (sizeIndex allocs) timeWindowNs st gpu := by
  have hgood := lateBeaten_iff.mp hbeaten
  unfold chooseSize at hgood ⊢
  unfold chooseDocumented transferSize
  dsimp only at hgood ⊢
  split
  · rfl
  · rename_i hgpu
    split
    · rfl
    · rename_i hsize
      rw [if_neg hgpu, if_neg hsize] at hgood
      cases hfound : findClosestInWindow ((sizeIndex allocs (gpu.transferSizeBytes.getD 0)).getD [])
          gpu.base.timestampNs timeWindowNs st.matchedCpu with
      | some best =>
        rw [hfound] at hgood
        have hearly := (hgood _ rfl).after
        rw [findClosestInWindow_filter (decide_eq_true hearly) hfound]
      | none =>
        cases hdoc : findClosestInWindow (((sizeIndex allocs (gpu.transferSizeBytes.getD 0)).getD
            []).filter fun alloc => alloc.timestampNs ≤ gpu.base.timestampNs)
            gpu.base.timestampNs timeWindowNs st.matchedCpu with
        | none => rfl
        | some best =>
          obtain ⟨hmem, hfree, hin, -⟩ := closest_le hdoc
          have hfar := findClosestInWindow_none hfound best (List.mem_of_mem_filter hmem) hfree
          omega

end

theorem pass_correlated (choose : MatchState → GpuEvent → Option Match) (st : MatchState)
    (gpus : List GpuEvent) : (pass choose MatchState.add st gpus).correlated =
      st.correlated ++ taken choose MatchState.add st gpus := by
  induction gpus generalizing st with
  | nil => exact (List.append_nil _).symm
  | cons gpu gpus ih =>
    rw [pass_cons, ih, taken]
    cases hchoice : choose st gpu with
    | none => rw [step_of_none hchoice, Option.toList_none, List.nil_append]
    | some m =>
      rw [step_of_some hchoice, Option.toList_some, MatchState.add, List.append_assoc]

section

variable (cpuEvents : List CpuEvent) (gpuEvents : List GpuEvent) (timeWindowNs : ℤ)

/-- Every size match keeps to the documented window, and its latency is not clamped. -/
def WindowKept : Prop :=
  ∀ m ∈ (afterTimestamp cpuEvents gpuEvents timeWindowNs).correlated,
    m.toRecord.matchReason = .sizeAndTimestamp → InDocumentedWindow timeWindowNs m ∧
      m.toRecord.latencyNs = m.gpu.base.timestampNs - m.alloc.timestampNs

/-- The state in which the documented pass comes to a transfer. -/
def documentedAfter (before : List GpuEvent) : MatchState :=
  pass (chooseDocumented (sizeIndex (sortedAllocs cpuEvents)) timeWindowNs) MatchState.add
    (afterPinned cpuEvents gpuEvents) before

theorem latency_of_inWindow {m : Match} (h : InDocumentedWindow timeWindowNs m) :
    m.toRecord.latencyNs = m.gpu.base.timestampNs - m.alloc.timestampNs := by
  have hafter := h.after
  dsimp only [Match.toRecord, makeCorrelated]
  omega

theorem reason_size_iff {m : Match} :
    m.toRecord.matchReason = .sizeAndTimestamp ↔ m.found = .size := by
  dsimp only [Match.toRecord, makeCorrelated]
  cases m.found <;> simp [Pass.matchReason]

/-- The size matches are what pass 2 takes. -/
theorem mem_size_iff {m : Match} :
    (m ∈ (afterTimestamp cpuEvents gpuEvents timeWindowNs).correlated ∧ m.found = .size) ↔
      m ∈ taken (chooseSize (sizeIndex (sortedAllocs cpuEvents)) timeWindowNs) MatchState.add
        (afterPinned cpuEvents gpuEvents) (gpuEvents.filter isTransfer) := by
  have hcorrelated : (afterSize cpuEvents gpuEvents timeWindowNs).correlated =
      (afterPinned cpuEvents gpuEvents).correlated ++
        taken (chooseSize (sizeIndex (sortedAllocs cpuEvents)) timeWindowNs) MatchState.add
          (afterPinned cpuEvents gpuEvents) (gpuEvents.filter isTransfer) := pass_correlated _ _ _
  constructor
  · rintro ⟨hm, hsize⟩
    rcases afterTimestamp_found cpuEvents gpuEvents timeWindowNs m hm with hhard | hweak
    · rw [hcorrelated] at hhard
      rcases List.mem_append.mp hhard with hpinned | hnew
      · have haddress := ((address_iff cpuEvents gpuEvents timeWindowNs).mpr hpinned).2
        rw [hsize] at haddress
        cases haddress
      · exact hnew
    · rw [hsize] at hweak
      cases hweak
  · intro hm
    have hhard : m ∈ (afterSize cpuEvents gpuEvents timeWindowNs).correlated := by
      rw [hcorrelated]
      exact List.mem_append_right _ hm
    obtain ⟨st, gpu, hchoice⟩ := exists_of_mem_taken hm
    obtain ⟨alloc, -, -, -, rfl⟩ := chooseSize_iff.mp hchoice
    exact ⟨(grows_afterTimestamp cpuEvents gpuEvents timeWindowNs).correlated _ hhard, rfl⟩

/-- The size matches keep to the documented window exactly if, as the documented pass goes
through the transfers, it comes to none with a later allocation that is not beaten. -/
theorem windowKept_iff_lateBeaten :
    WindowKept cpuEvents gpuEvents timeWindowNs ↔
      ∀ before gpu after, gpuEvents.filter isTransfer = before ++ gpu :: after →
        LateBeaten (sortedAllocs cpuEvents) timeWindowNs
          (documentedAfter cpuEvents gpuEvents timeWindowNs before) gpu := by
  have hkept : WindowKept cpuEvents gpuEvents timeWindowNs ↔
      ∀ m ∈ taken (chooseSize (sizeIndex (sortedAllocs cpuEvents)) timeWindowNs) MatchState.add
        (afterPinned cpuEvents gpuEvents) (gpuEvents.filter isTransfer),
        InDocumentedWindow timeWindowNs m := by
    unfold WindowKept
    constructor
    · intro hall m hm
      obtain ⟨hmem, hsize⟩ := (mem_size_iff cpuEvents gpuEvents timeWindowNs).mpr hm
      exact (hall m hmem (reason_size_iff.mpr hsize)).1
    · intro hall m hm hreason
      have hwindow := hall m ((mem_size_iff cpuEvents gpuEvents timeWindowNs).mp
        ⟨hm, reason_size_iff.mp hreason⟩)
      exact ⟨hwindow, latency_of_inWindow timeWindowNs hwindow⟩
  rw [hkept]
  exact taken_good_iff (fun _ _ => lateBeaten_iff) fun _ _ => chooseSize_eq_documented

end

/-- The buffer of the size is made after the transfer. -/
theorem later_allocation_is_matched :
    ¬∀ (cpuEvents : List CpuEvent) (gpuEvents : List GpuEvent) (timeWindowNs : ℤ),
      WindowKept cpuEvents gpuEvents timeWindowNs := by
  intro hall
  have hrun : (afterTimestamp [allocAt 1 140 4096 64 0] [transferAt 7 130 9000 0 64]
      50).correlated =
      [⟨.size, .ofEvent (allocAt 1 140 4096 64 0), transferAt 7 130 9000 0 64⟩] := by
    decide +kernel
  have hwindow := (hall [allocAt 1 140 4096 64 0] [transferAt 7 130 9000 0 64] 50
    ⟨.size, .ofEvent (allocAt 1 140 4096 64 0), transferAt 7 130 9000 0 64⟩
    (by rw [hrun]; exact List.mem_singleton.mpr rfl) rfl).1.after
  exact absurd hwindow (by decide)

end HpcProfiler.SizeWindow
