import HpcProfiler.CorrelationSound
import Mathlib.Data.List.Perm.Subperm

/-!
What the time window decides. An event with a candidate inside the window is always
matched, the size pass leaves no transfer beside a free allocation of its size, and
the nearest candidate is taken. Widening the window keeps every allocation that was
used up: the two size passes may pair their transfers differently, but the wide one
has always used up at least the allocations of the narrow one.
-/

namespace HpcProfiler.CorrelationWindow

open Events GreedyChoice Correlation CorrelationLookups CorrelationPasses CorrelationSound

/-- The record names the allocation and the GPU event. -/
def Names (r : CorrelatedEvent) (a : CpuEvent) (g : GpuEvent) : Prop :=
  r.cpuEventId = a.base.eventId ∧ r.gpuEventId = g.base.eventId

/-- No hard record among these names the allocation. -/
def NotHard (records : List CorrelatedEvent) (a : CpuEvent) : Prop :=
  ∀ r ∈ records, r.confidence = .hard → r.cpuEventId ≠ a.base.eventId

/-- What the passes by size and by time achieve. -/
structure WindowComplete (cpuEvents : List CpuEvent) (gpuEvents : List GpuEvent)
    (timeWindowNs : ℤ) (records : List CorrelatedEvent) : Prop where
  present_iff : ∀ g ∈ gpuEvents, (∃ r ∈ records, r.gpuEventId = g.base.eventId) ↔
    (∃ r ∈ records, r.gpuEventId = g.base.eventId ∧ r.matchReason = .addressMatch) ∨
      ∃ a ∈ cpuEvents, isAlloc a = true ∧ eventGap g a ≤ timeWindowNs
  size_maximal : ¬ ∃ g ∈ gpuEvents, isTransfer g = true ∧
    (∀ r ∈ records, r.confidence = .hard → r.gpuEventId ≠ g.base.eventId) ∧
    ∃ a ∈ cpuEvents, isAlloc a = true ∧ NotHard records a ∧ transferSize g ≠ 0 ∧
      a.allocSizeBytes = transferSize g ∧ eventGap g a ≤ timeWindowNs
  timestamp_nearest : ∀ r ∈ records, r.matchReason = .timestampOnly →
    ∃ a ∈ cpuEvents, ∃ g ∈ gpuEvents, isAlloc a = true ∧ Names r a g ∧
      ∀ other ∈ cpuEvents, isAlloc other = true → eventGap g a ≤ eventGap g other
  size_nearest : ∀ earlier r later, records = earlier ++ r :: later →
    r.matchReason = .sizeAndTimestamp →
    ∃ a ∈ cpuEvents, ∃ g ∈ gpuEvents, isAlloc a = true ∧ Names r a g ∧ NotHard earlier a ∧
      ∀ other ∈ cpuEvents, isAlloc other = true → other.allocSizeBytes = a.allocSizeBytes →
        NotHard earlier other → eventGap g a ≤ eventGap g other

section

variable {cpuEvents : List CpuEvent} {gpuEvents : List GpuEvent} {timeWindowNs : ℤ}

theorem alloc_mem {a : CpuEvent} (ha : a ∈ cpuEvents) (halloc : isAlloc a = true) :
    LiveAlloc.ofEvent a ∈ sortedAllocs cpuEvents :=
  mem_sortedAllocs.mpr ⟨a, ha, halloc, rfl⟩

/-- An explained match is about an event of the list. -/
theorem named {earlier : List Match} {m : Match}
    (hm : Explained cpuEvents gpuEvents timeWindowNs earlier m) :
    ∃ a ∈ cpuEvents, isAlloc a = true ∧ m.alloc = .ofEvent a ∧ Names m.toRecord a m.gpu := by
  obtain ⟨a, ha, halloc, hof⟩ := mem_sortedAllocs.mp hm.alloc_mem
  refine ⟨a, ha, halloc, hof.symm, ?_, rfl⟩
  unfold Match.toRecord makeCorrelated
  rw [← hof]
  rfl

theorem notHard_records {earlier : List Match} {a : CpuEvent} :
    NotHard (earlier.map Match.toRecord) a ↔
      ∀ e ∈ earlier, isHard e = true → cpuId e ≠ (LiveAlloc.ofEvent a).eventId := by
  unfold NotHard
  rw [List.forall_mem_map]
  constructor
  · intro h e he hhard
    exact h e he (of_decide_eq_true hhard)
  · intro h e he hhard
    exact h e he (decide_eq_true hhard)

/-- The records up to a record are those of the matches up to its match. -/
theorem record_split {earlier later : List CorrelatedEvent} {r : CorrelatedEvent}
    (hids : (gpuEvents.map fun gpu => gpu.base.eventId).Nodup)
    (hsplit : runCorrelation cpuEvents gpuEvents timeWindowNs = earlier ++ r :: later) :
    ∃ before m, earlier = before.map Match.toRecord ∧ r = m.toRecord ∧
      Explained cpuEvents gpuEvents timeWindowNs before m := by
  unfold runCorrelation at hsplit
  obtain ⟨before, rest, hmatches, hbefore, hrest⟩ := List.map_eq_append_iff.mp hsplit
  obtain ⟨m, after, hcons, hm, -⟩ := List.map_eq_cons_iff.mp hrest
  subst hcons
  have hvalid := afterTimestamp_valid cpuEvents timeWindowNs hids
  exact ⟨before, m, hbefore.symm, hm.symm, hvalid.chronicle.justified hmatches⟩

theorem record_explained {r : CorrelatedEvent}
    (hids : (gpuEvents.map fun gpu => gpu.base.eventId).Nodup)
    (hr : r ∈ runCorrelation cpuEvents gpuEvents timeWindowNs) :
    ∃ before m, r = m.toRecord ∧ Explained cpuEvents gpuEvents timeWindowNs before m := by
  obtain ⟨earlier, later, hsplit⟩ := List.append_of_mem hr
  obtain ⟨before, m, -, hm, hexplained⟩ := record_split hids hsplit
  exact ⟨before, m, hm, hexplained⟩

/-- A match that is not by address has its allocation inside the window. -/
theorem address_or_inWindow {earlier : List Match} {m : Match}
    (hm : Explained cpuEvents gpuEvents timeWindowNs earlier m) :
    m.toRecord.matchReason = .addressMatch ∨ gap m.gpu m.alloc ≤ timeWindowNs := by
  have hreason := hm.reason
  obtain ⟨found, alloc, gpu⟩ := m
  cases found with
  | address => exact Or.inl rfl
  | pinned => exact Or.inl rfl
  | size =>
    obtain ⟨-, -, -, hwindow, -⟩ := hreason
    exact Or.inr hwindow
  | timestamp => exact Or.inr hreason.1

/-- The last pass matches every event left that has an allocation inside its window. -/
theorem gpu_matched_of_inWindow {g : GpuEvent} (hg : g ∈ gpuEvents) {a : CpuEvent}
    (ha : a ∈ cpuEvents) (halloc : isAlloc a = true) (hwindow : eventGap g a ≤ timeWindowNs) :
    ∃ r ∈ runCorrelation cpuEvents gpuEvents timeWindowNs, r.gpuEventId = g.base.eventId := by
  by_cases hused : g.base.eventId ∈ (afterSize cpuEvents gpuEvents timeWindowNs).matchedGpu
  · have hvalid := afterSize_valid cpuEvents gpuEvents timeWindowNs
    obtain ⟨m, hm, hid⟩ := (hvalid.gpuIds _).mp hused
    exact ⟨m.toRecord, (hard_record hm).1, hid⟩
  · have hleft : g ∈ unmatchedGpu cpuEvents gpuEvents timeWindowNs :=
      List.mem_filter.mpr ⟨hg, decide_eq_true hused⟩
    obtain ⟨mid, -, -, htaken⟩ := offered_to
      (chooseTimestamp (sortedAllocs cpuEvents) timeWindowNs)
      (afterSize cpuEvents gpuEvents timeWindowNs) hleft
    cases hfound : findClosestInWindow (sortedAllocs cpuEvents) g.base.timestampNs
        timeWindowNs ∅ with
    | none =>
      have hfar := findClosestInWindow_none hfound _ (alloc_mem ha halloc)
        (Finset.notMem_empty _)
      exact absurd hfar (not_lt.mpr hwindow)
    | some alloc =>
      have hm := htaken _ (chooseTimestamp_iff.mpr ⟨alloc, hfound, rfl⟩)
      exact ⟨_, mem_runCorrelation hm, rfl⟩

theorem gpu_present_iff (hids : (gpuEvents.map fun gpu => gpu.base.eventId).Nodup)
    {g : GpuEvent} (hg : g ∈ gpuEvents) :
    (∃ r ∈ runCorrelation cpuEvents gpuEvents timeWindowNs, r.gpuEventId = g.base.eventId) ↔
      (∃ r ∈ runCorrelation cpuEvents gpuEvents timeWindowNs,
        r.gpuEventId = g.base.eventId ∧ r.matchReason = .addressMatch) ∨
        ∃ a ∈ cpuEvents, isAlloc a = true ∧ eventGap g a ≤ timeWindowNs := by
  constructor
  · rintro ⟨r, hr, hid⟩
    obtain ⟨before, m, rfl, hexplained⟩ := record_explained hids hr
    have hgpu : m.gpu = g := List.inj_on_of_nodup_map hids hexplained.gpu_mem hg hid
    rcases address_or_inWindow hexplained with haddress | hwindow
    · exact Or.inl ⟨m.toRecord, hr, hid, haddress⟩
    · obtain ⟨a, ha, halloc, hof, -⟩ := named hexplained
      rw [hof, hgpu] at hwindow
      exact Or.inr ⟨a, ha, halloc, hwindow⟩
  · rintro (⟨r, hr, hid, -⟩ | ⟨a, ha, halloc, hwindow⟩)
    · exact ⟨r, hr, hid⟩
    · exact gpu_matched_of_inWindow hg ha halloc hwindow

/-- A transfer that is passed over leaves no free allocation of its size in its window. -/
theorem no_free_of_chooseSize_none {st : MatchState} {g : GpuEvent} {a : CpuEvent}
    (hchoice : chooseSize (sizeIndex (sortedAllocs cpuEvents)) timeWindowNs st g = none)
    (hgpu : g.base.eventId ∉ st.matchedGpu) (hsize : transferSize g ≠ 0)
    (ha : a ∈ cpuEvents) (halloc : isAlloc a = true) (hsame : a.allocSizeBytes = transferSize g)
    (hcpu : a.base.eventId ∉ st.matchedCpu) : timeWindowNs < eventGap g a := by
  have hcandidate : LiveAlloc.ofEvent a ∈
      (sizeIndex (sortedAllocs cpuEvents) (transferSize g)).getD [] := by
    rw [sizeIndex_eq, List.mem_filter, decide_eq_true_eq]
    exact ⟨alloc_mem ha halloc, hsame⟩
  cases hfound : findClosestInWindow
      ((sizeIndex (sortedAllocs cpuEvents) (transferSize g)).getD []) g.base.timestampNs
      timeWindowNs st.matchedCpu with
  | none => exact findClosestInWindow_none hfound _ hcandidate hcpu
  | some alloc =>
    rw [chooseSize_iff.mpr ⟨alloc, hfound, hsize, hgpu, rfl⟩] at hchoice
    cases hchoice

theorem no_size_pair_left : ¬ ∃ g ∈ gpuEvents, isTransfer g = true ∧
    (∀ r ∈ runCorrelation cpuEvents gpuEvents timeWindowNs,
      r.confidence = .hard → r.gpuEventId ≠ g.base.eventId) ∧
    ∃ a ∈ cpuEvents, isAlloc a = true ∧
      NotHard (runCorrelation cpuEvents gpuEvents timeWindowNs) a ∧ transferSize g ≠ 0 ∧
      a.allocSizeBytes = transferSize g ∧ eventGap g a ≤ timeWindowNs := by
  rintro ⟨g, hg, htransfer, hnogpu, a, ha, halloc, hnocpu, hsize, hsame, hwindow⟩
  have hvalid := afterSize_valid cpuEvents gpuEvents timeWindowNs
  obtain ⟨mid, -, hto, htaken⟩ := offered_to
    (chooseSize (sizeIndex (sortedAllocs cpuEvents)) timeWindowNs)
    (afterPinned cpuEvents gpuEvents) (List.mem_filter.mpr ⟨hg, htransfer⟩)
  cases hchoice : chooseSize (sizeIndex (sortedAllocs cpuEvents)) timeWindowNs mid g with
  | some m =>
    obtain ⟨alloc, -, -, -, rfl⟩ := chooseSize_iff.mp hchoice
    obtain ⟨hr, hhard⟩ := hard_record (htaken _ hchoice)
    exact hnogpu _ hr hhard rfl
  | none =>
    have hgpu : g.base.eventId ∉ mid.matchedGpu := by
      intro hused
      obtain ⟨m, hm, hid⟩ := (hvalid.gpuIds _).mp (hto.matchedGpu hused)
      obtain ⟨hr, hhard⟩ := hard_record hm
      exact hnogpu _ hr hhard hid
    have hcpu : a.base.eventId ∉ mid.matchedCpu := by
      intro hused
      obtain ⟨m, hm, -, hid⟩ := (hvalid.cpuIds _).mp (hto.matchedCpu hused)
      obtain ⟨hr, hhard⟩ := hard_record hm
      exact hnocpu _ hr hhard hid
    have hfar := no_free_of_chooseSize_none hchoice hgpu hsize ha halloc hsame hcpu
    omega

theorem timestamp_record_nearest (hids : (gpuEvents.map fun gpu => gpu.base.eventId).Nodup)
    {r : CorrelatedEvent} (hr : r ∈ runCorrelation cpuEvents gpuEvents timeWindowNs)
    (hreason : r.matchReason = .timestampOnly) :
    ∃ a ∈ cpuEvents, ∃ g ∈ gpuEvents, isAlloc a = true ∧ Names r a g ∧
      ∀ other ∈ cpuEvents, isAlloc other = true → eventGap g a ≤ eventGap g other := by
  obtain ⟨before, m, rfl, hexplained⟩ := record_explained hids hr
  obtain ⟨a, ha, halloc, hof, hnames⟩ := named hexplained
  refine ⟨a, ha, m.gpu, hexplained.gpu_mem, halloc, hnames, ?_⟩
  intro other hother hotheralloc
  have hfound := hexplained.reason
  obtain ⟨found, alloc, gpu⟩ := m
  dsimp only at hof
  subst hof
  cases found with
  | timestamp => exact hfound.2 _ (alloc_mem hother hotheralloc)
  | _ => cases hreason

theorem size_record_nearest (hids : (gpuEvents.map fun gpu => gpu.base.eventId).Nodup)
    {earlier later : List CorrelatedEvent} {r : CorrelatedEvent}
    (hsplit : runCorrelation cpuEvents gpuEvents timeWindowNs = earlier ++ r :: later)
    (hreason : r.matchReason = .sizeAndTimestamp) :
    ∃ a ∈ cpuEvents, ∃ g ∈ gpuEvents, isAlloc a = true ∧ Names r a g ∧ NotHard earlier a ∧
      ∀ other ∈ cpuEvents, isAlloc other = true → other.allocSizeBytes = a.allocSizeBytes →
        NotHard earlier other → eventGap g a ≤ eventGap g other := by
  obtain ⟨before, m, rfl, rfl, hexplained⟩ := record_split hids hsplit
  obtain ⟨a, ha, halloc, hof, hnames⟩ := named hexplained
  have hnew := hexplained.cpu_new
  have hfound := hexplained.reason
  refine ⟨a, ha, m.gpu, hexplained.gpu_mem, halloc, hnames, ?_⟩
  obtain ⟨found, alloc, gpu⟩ := m
  dsimp only at hof
  subst hof
  cases found with
  | size =>
    refine ⟨notHard_records.mpr (hnew rfl), ?_⟩
    intro other hother hotheralloc hsame hunused
    obtain ⟨-, -, -, -, hclosest⟩ := hfound
    exact hclosest _ (alloc_mem hother hotheralloc) hsame (notHard_records.mp hunused)
  | _ => cases hreason

end

/-- Every event that the window lets be matched is matched, and with the nearest
allocation that its pass leaves to it. -/
theorem correlation_window_complete (cpuEvents : List CpuEvent) (gpuEvents : List GpuEvent)
    (timeWindowNs : ℤ) (hids : (gpuEvents.map fun gpu => gpu.base.eventId).Nodup) :
    WindowComplete cpuEvents gpuEvents timeWindowNs
      (runCorrelation cpuEvents gpuEvents timeWindowNs) where
  present_iff := fun _ hg => gpu_present_iff hids hg
  size_maximal := no_size_pair_left
  timestamp_nearest := fun _ hr hreason => timestamp_record_nearest hids hr hreason
  size_nearest := fun _ _ _ hsplit hreason => size_record_nearest hids hsplit hreason

/-- Two transfers of one size that compete for two allocations of it. -/
theorem correlation_window_complete_two :
    WindowComplete [allocAt 1 100 4096 64 0, allocAt 2 140 8192 64 0]
      [transferAt 7 130 9000 0 64, transferAt 8 135 9100 0 64] 50
      (runCorrelation [allocAt 1 100 4096 64 0, allocAt 2 140 8192 64 0]
        [transferAt 7 130 9000 0 64, transferAt 8 135 9100 0 64] 50) :=
  correlation_window_complete _ _ 50 (by decide)

/-! Two windows. -/

/-- The wide run has used up every allocation that the narrow run has, and the two
agree on which of the transfers still to come are matched. -/
structure Ahead (rest : List GpuEvent) (st st' : MatchState) : Prop where
  matchedCpu : st.matchedCpu ⊆ st'.matchedCpu
  matchedGpu : ∀ g ∈ rest, g.base.eventId ∈ st.matchedGpu ↔ g.base.eventId ∈ st'.matchedGpu
  distinct : (rest.map fun gpu => gpu.base.eventId).Nodup

section

variable {index : ℤ → Option (List LiveAlloc)} {timeWindowNs timeWindowNs' : ℤ}
  {st st' : MatchState} {g : GpuEvent} {rest : List GpuEvent}

theorem Ahead.refl (hids : (rest.map fun gpu => gpu.base.eventId).Nodup) : Ahead rest st st :=
  ⟨Finset.Subset.refl _, fun _ _ => Iff.rfl, hids⟩

/-- Offering the next transfer changes no other transfer's standing. -/
theorem mem_step_matchedGpu {w : ℤ} {id : ℤ} (hne : g.base.eventId ≠ id) :
    id ∈ (step (chooseSize index w) MatchState.add st g).matchedGpu ↔ id ∈ st.matchedGpu := by
  cases hchoice : chooseSize index w st g with
  | none => rw [step_of_none hchoice]
  | some m =>
    obtain ⟨alloc, -, -, -, rfl⟩ := chooseSize_iff.mp hchoice
    rw [step_of_some hchoice, mem_add_matchedGpu]
    exact or_iff_left hne

theorem step_matchedCpu_subset {w : ℤ} :
    st.matchedCpu ⊆ (step (chooseSize index w) MatchState.add st g).matchedCpu := by
  cases hchoice : chooseSize index w st g with
  | none => rw [step_of_none hchoice]
  | some m =>
    rw [step_of_some hchoice]
    exact (grows_add st m).matchedCpu

/-- What the narrow run takes, the wide run has taken before or takes now. -/
theorem Ahead.taken (h : Ahead (g :: rest) st st') (hwindow : timeWindowNs ≤ timeWindowNs')
    {m : Match} (hchoice : chooseSize index timeWindowNs st g = some m) :
    m.alloc.eventId ∈ (step (chooseSize index timeWindowNs') MatchState.add st' g).matchedCpu := by
  obtain ⟨alloc, hfound, hsize, hfree, rfl⟩ := chooseSize_iff.mp hchoice
  by_cases hused : alloc.eventId ∈ st'.matchedCpu
  · exact step_matchedCpu_subset hused
  · have hfree' : g.base.eventId ∉ st'.matchedGpu := by
      intro hmem
      exact hfree ((h.matchedGpu g (List.mem_cons_self ..)).mpr hmem)
    have hsame := findClosestInWindow_stable hwindow h.matchedCpu hused hfound
    have hchoice' := chooseSize_iff.mpr ⟨alloc, hsame, hsize, hfree', rfl⟩
    rw [step_of_some hchoice']
    exact mem_add_matchedCpu.mpr (Or.inr ⟨rfl, rfl⟩)

theorem Ahead.step (h : Ahead (g :: rest) st st') (hwindow : timeWindowNs ≤ timeWindowNs') :
    Ahead rest (step (chooseSize index timeWindowNs) MatchState.add st g)
      (step (chooseSize index timeWindowNs') MatchState.add st' g) := by
  have hdistinct := h.distinct
  rw [List.map_cons, List.nodup_cons] at hdistinct
  refine ⟨?_, ?_, hdistinct.2⟩
  · intro id hid
    cases hchoice : chooseSize index timeWindowNs st g with
    | none =>
      rw [step_of_none hchoice] at hid
      exact step_matchedCpu_subset (h.matchedCpu hid)
    | some m =>
      rw [step_of_some hchoice] at hid
      rcases mem_add_matchedCpu.mp hid with hold | ⟨-, hnew⟩
      · exact step_matchedCpu_subset (h.matchedCpu hold)
      · subst hnew
        exact h.taken hwindow hchoice
  · intro later hlater
    have hne : g.base.eventId ≠ later.base.eventId := by
      intro heq
      exact hdistinct.1 (List.mem_map.mpr ⟨later, hlater, heq.symm⟩)
    rw [mem_step_matchedGpu hne, mem_step_matchedGpu hne]
    exact h.matchedGpu later (List.mem_cons_of_mem _ hlater)

end

section

variable (cpuEvents : List CpuEvent) {gpuEvents : List GpuEvent} {timeWindowNs timeWindowNs' : ℤ}

theorem afterSize_ahead (hids : (gpuEvents.map fun gpu => gpu.base.eventId).Nodup)
    (hwindow : timeWindowNs ≤ timeWindowNs') :
    Ahead [] (afterSize cpuEvents gpuEvents timeWindowNs)
      (afterSize cpuEvents gpuEvents timeWindowNs') := by
  apply pass_related
  · intro g rest st st' h
    exact h.step hwindow
  · exact Ahead.refl (hids.sublist (List.filter_sublist.map _))

theorem hardCpu_kept (hids : (gpuEvents.map fun gpu => gpu.base.eventId).Nodup)
    (hwindow : timeWindowNs ≤ timeWindowNs') {r : CorrelatedEvent}
    (hr : r ∈ runCorrelation cpuEvents gpuEvents timeWindowNs) (hhard : r.confidence = .hard) :
    ∃ r' ∈ runCorrelation cpuEvents gpuEvents timeWindowNs',
      r'.confidence = .hard ∧ r'.cpuEventId = r.cpuEventId := by
  obtain ⟨m, hm, rfl⟩ := List.mem_map.mp hr
  have hused := (mem_matchedCpu_iff cpuEvents gpuEvents timeWindowNs).mpr
    ⟨m, hm, decide_eq_true hhard, rfl⟩
  have hkept := (afterSize_ahead cpuEvents hids hwindow).matchedCpu hused
  obtain ⟨m', hm', hhard', hid⟩ :=
    (mem_matchedCpu_iff cpuEvents gpuEvents timeWindowNs').mp hkept
  exact ⟨m'.toRecord, mem_runCorrelation hm', of_decide_eq_true hhard', hid⟩

theorem addressMatch_kept {id : ℤ}
    (h : ∃ r ∈ runCorrelation cpuEvents gpuEvents timeWindowNs,
      r.gpuEventId = id ∧ r.matchReason = .addressMatch) :
    ∃ r ∈ runCorrelation cpuEvents gpuEvents timeWindowNs',
      r.gpuEventId = id ∧ r.matchReason = .addressMatch := by
  obtain ⟨r, hr, hid, hreason⟩ := h
  obtain ⟨m, hm, rfl⟩ := List.mem_map.mp hr
  have hbefore := (address_iff cpuEvents gpuEvents timeWindowNs).mp ⟨hm, hreason⟩
  exact ⟨m.toRecord, (address_record hbefore).1, hid, hreason⟩

theorem gpu_kept (hids : (gpuEvents.map fun gpu => gpu.base.eventId).Nodup)
    (hwindow : timeWindowNs ≤ timeWindowNs') {r : CorrelatedEvent}
    (hr : r ∈ runCorrelation cpuEvents gpuEvents timeWindowNs) :
    ∃ r' ∈ runCorrelation cpuEvents gpuEvents timeWindowNs', r'.gpuEventId = r.gpuEventId := by
  obtain ⟨before, m, hm, hexplained⟩ := record_explained hids hr
  have hid : r.gpuEventId = m.gpu.base.eventId := by rw [hm]; rfl
  rw [hid]
  apply (gpu_present_iff hids hexplained.gpu_mem).mpr
  rcases (gpu_present_iff hids hexplained.gpu_mem).mp ⟨r, hr, hid⟩ with
    haddress | ⟨a, ha, halloc, hin⟩
  · exact Or.inl (addressMatch_kept cpuEvents haddress)
  · exact Or.inr ⟨a, ha, halloc, hin.trans hwindow⟩

end

def hardCpuIds (records : List CorrelatedEvent) : List ℤ :=
  (records.filter fun r => r.confidence = .hard).map CorrelatedEvent.cpuEventId

theorem mem_hardCpuIds {records : List CorrelatedEvent} {id : ℤ} :
    id ∈ hardCpuIds records ↔ ∃ r ∈ records, r.confidence = .hard ∧ r.cpuEventId = id := by
  unfold hardCpuIds
  simp only [List.mem_map, List.mem_filter, decide_eq_true_eq, and_assoc]

/-- Widening the window loses no hard-correlated allocation and no correlated GPU event,
and does not lower the number of hard records. -/
theorem wider_window_keeps (cpuEvents : List CpuEvent) (gpuEvents : List GpuEvent)
    (timeWindowNs timeWindowNs' : ℤ) (hids : (gpuEvents.map fun gpu => gpu.base.eventId).Nodup)
    (hwindow : timeWindowNs ≤ timeWindowNs') :
    (∀ r ∈ runCorrelation cpuEvents gpuEvents timeWindowNs, r.confidence = .hard →
      ∃ r' ∈ runCorrelation cpuEvents gpuEvents timeWindowNs',
        r'.confidence = .hard ∧ r'.cpuEventId = r.cpuEventId) ∧
    ((runCorrelation cpuEvents gpuEvents timeWindowNs).filter
        fun r => r.confidence = .hard).length ≤
      ((runCorrelation cpuEvents gpuEvents timeWindowNs').filter
        fun r => r.confidence = .hard).length ∧
    ∀ r ∈ runCorrelation cpuEvents gpuEvents timeWindowNs,
      ∃ r' ∈ runCorrelation cpuEvents gpuEvents timeWindowNs',
        r'.gpuEventId = r.gpuEventId := by
  refine ⟨fun r hr hhard => hardCpu_kept cpuEvents hids hwindow hr hhard, ?_,
    fun r hr => gpu_kept cpuEvents hids hwindow hr⟩
  have hsubset : hardCpuIds (runCorrelation cpuEvents gpuEvents timeWindowNs) ⊆
      hardCpuIds (runCorrelation cpuEvents gpuEvents timeWindowNs') := by
    intro id hid
    obtain ⟨r, hr, hhard, rfl⟩ := mem_hardCpuIds.mp hid
    exact mem_hardCpuIds.mpr (hardCpu_kept cpuEvents hids hwindow hr hhard)
  have hsound : Sound cpuEvents gpuEvents timeWindowNs
      (runCorrelation cpuEvents gpuEvents timeWindowNs) := runCorrelation_sound hids
  have honce : (hardCpuIds (runCorrelation cpuEvents gpuEvents timeWindowNs)).Nodup :=
    hsound.hardCpuOnce
  have hlength := (List.subperm_of_subset honce hsubset).length_le
  unfold hardCpuIds at hlength
  simpa only [List.length_map] using hlength

/-- With the wider window the first transfer takes the allocation that only the second
one could reach before, and the second takes another. -/
theorem wider_window_keeps_small :
    (∀ r ∈ runCorrelation [allocAt 1 100 4096 64 0, allocAt 2 190 8192 64 0]
        [transferAt 7 130 9000 0 64, transferAt 8 105 9100 0 64] 20, r.confidence = .hard →
      ∃ r' ∈ runCorrelation [allocAt 1 100 4096 64 0, allocAt 2 190 8192 64 0]
        [transferAt 7 130 9000 0 64, transferAt 8 105 9100 0 64] 90,
        r'.confidence = .hard ∧ r'.cpuEventId = r.cpuEventId) ∧
    ((runCorrelation [allocAt 1 100 4096 64 0, allocAt 2 190 8192 64 0]
        [transferAt 7 130 9000 0 64, transferAt 8 105 9100 0 64] 20).filter
        fun r => r.confidence = .hard).length ≤
      ((runCorrelation [allocAt 1 100 4096 64 0, allocAt 2 190 8192 64 0]
        [transferAt 7 130 9000 0 64, transferAt 8 105 9100 0 64] 90).filter
        fun r => r.confidence = .hard).length ∧
    ∀ r ∈ runCorrelation [allocAt 1 100 4096 64 0, allocAt 2 190 8192 64 0]
        [transferAt 7 130 9000 0 64, transferAt 8 105 9100 0 64] 20,
      ∃ r' ∈ runCorrelation [allocAt 1 100 4096 64 0, allocAt 2 190 8192 64 0]
        [transferAt 7 130 9000 0 64, transferAt 8 105 9100 0 64] 90,
        r'.gpuEventId = r.gpuEventId :=
  wider_window_keeps _ _ 20 90 (by decide) (by decide)

end HpcProfiler.CorrelationWindow
