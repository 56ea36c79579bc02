import HpcProfiler.CorrelationLookups

/-!
The invariant of the four passes. The two sets hold exactly the ids of the matches so
far, and every match is explained by the session's events and by the matches before
it: its GPU event is new, a hard match's allocation is new, and a match by size or
time is as close as any candidate that was left.
-/

namespace HpcProfiler.CorrelationPasses

open Events GreedyChoice Correlation CorrelationLookups

def isHard (m : Match) : Bool := m.found.confidence = .hard

def cpuId (m : Match) : ℤ := m.alloc.eventId

def gpuId (m : Match) : ℤ := m.gpu.base.eventId

/-- The time between the GPU event and the allocation of a match. -/
def gap (gpu : GpuEvent) (alloc : LiveAlloc) : ℤ :=
  distance gpu.base.timestampNs alloc.timestampNs

section

variable (cpuEvents : List CpuEvent) (gpuEvents : List GpuEvent) (timeWindowNs : ℤ)

/-- What the pass of a match found, given the matches before it. -/
def Reason (earlier : List Match) (m : Match) : Prop :=
  match m.found with
  | .address => isTransfer m.gpu = true ∧
      findAddressMatch (sortedAllocs cpuEvents) (m.gpu.srcAddress.getD 0)
        (m.gpu.dstAddress.getD 0) = some m.alloc
  | .pinned => isTransfer m.gpu = true ∧
      (pinnedIndex (sortedAllocs cpuEvents) (m.gpu.srcAddress.getD 0)).or
        (pinnedIndex (sortedAllocs cpuEvents) (m.gpu.dstAddress.getD 0)) = some m.alloc
  | .size => isTransfer m.gpu = true ∧ m.gpu.transferSizeBytes.getD 0 ≠ 0 ∧
      m.alloc.size = m.gpu.transferSizeBytes.getD 0 ∧ gap m.gpu m.alloc ≤ timeWindowNs ∧
      ∀ other ∈ sortedAllocs cpuEvents, other.size = m.alloc.size →
        (∀ e ∈ earlier, isHard e = true → cpuId e ≠ other.eventId) →
        gap m.gpu m.alloc ≤ gap m.gpu other
  | .timestamp => gap m.gpu m.alloc ≤ timeWindowNs ∧
      ∀ other ∈ sortedAllocs cpuEvents, gap m.gpu m.alloc ≤ gap m.gpu other

structure Explained (earlier : List Match) (m : Match) : Prop where
  alloc_mem : m.alloc ∈ sortedAllocs cpuEvents
  gpu_mem : m.gpu ∈ gpuEvents
  gpu_new : ∀ e ∈ earlier, gpuId e ≠ gpuId m
  cpu_new : isHard m = true → ∀ e ∈ earlier, isHard e = true → cpuId e ≠ cpuId m
  reason : Reason cpuEvents timeWindowNs earlier m

structure Valid (st : MatchState) : Prop where
  chronicle : Chronicle (Explained cpuEvents gpuEvents timeWindowNs) st.correlated
  cpuIds : ∀ id, id ∈ st.matchedCpu ↔ ∃ m ∈ st.correlated, isHard m = true ∧ cpuId m = id
  gpuIds : ∀ id, id ∈ st.matchedGpu ↔ ∃ m ∈ st.correlated, gpuId m = id

end

section

variable {cpuEvents : List CpuEvent} {gpuEvents : List GpuEvent} {timeWindowNs : ℤ}
  {st : MatchState} {gpu : GpuEvent} {m : Match}

theorem empty_valid : Valid cpuEvents gpuEvents timeWindowNs .empty where
  chronicle := .nil
  cpuIds := by simp [MatchState.empty]
  gpuIds := by simp [MatchState.empty]

theorem mem_add_matchedCpu {id : ℤ} :
    id ∈ (st.add m).matchedCpu ↔ id ∈ st.matchedCpu ∨ isHard m = true ∧ cpuId m = id := by
  unfold MatchState.add isHard cpuId
  by_cases hhard : m.found.confidence = .hard
  · simp only [if_pos hhard, Finset.mem_insert, decide_eq_true hhard, true_and]
    exact or_comm.trans (or_congr_right eq_comm)
  · simp only [if_neg hhard, decide_eq_false hhard, Bool.false_eq_true, false_and, or_false]

theorem mem_add_matchedGpu {id : ℤ} :
    id ∈ (st.add m).matchedGpu ↔ id ∈ st.matchedGpu ∨ gpuId m = id := by
  unfold MatchState.add gpuId
  rw [Finset.mem_insert]
  exact or_comm.trans (or_congr_right eq_comm)

theorem Valid.add (h : Valid cpuEvents gpuEvents timeWindowNs st)
    (hm : Explained cpuEvents gpuEvents timeWindowNs st.correlated m) :
    Valid cpuEvents gpuEvents timeWindowNs (st.add m) where
  chronicle := .snoc h.chronicle hm
  cpuIds := by
    intro id
    rw [mem_add_matchedCpu, h.cpuIds]
    unfold MatchState.add
    simp only [List.mem_append, List.mem_singleton, or_and_right, exists_or, exists_eq_left]
  gpuIds := by
    intro id
    rw [mem_add_matchedGpu, h.gpuIds]
    unfold MatchState.add
    simp only [List.mem_append, List.mem_singleton, or_and_right, exists_or, exists_eq_left]

theorem Valid.gpu_new (h : Valid cpuEvents gpuEvents timeWindowNs st)
    (hfree : gpuId m ∉ st.matchedGpu) : ∀ e ∈ st.correlated, gpuId e ≠ gpuId m := by
  intro e he heq
  exact hfree ((h.gpuIds _).mpr ⟨e, he, heq⟩)

theorem Valid.cpu_new (h : Valid cpuEvents gpuEvents timeWindowNs st) {id : ℤ}
    (hfree : id ∉ st.matchedCpu) : ∀ e ∈ st.correlated, isHard e = true → cpuId e ≠ id := by
  intro e he hhard heq
  exact hfree ((h.cpuIds _).mpr ⟨e, he, hhard, heq⟩)

/-! What each pass chooses. -/

theorem chooseAddress_iff {allocs : List LiveAlloc} :
    chooseAddress allocs st gpu = some m ↔
      ∃ alloc, findAddressMatch allocs (gpu.srcAddress.getD 0) (gpu.dstAddress.getD 0) =
        some alloc ∧ alloc.eventId ∉ st.matchedCpu ∧ gpu.base.eventId ∉ st.matchedGpu ∧
        m = ⟨.address, alloc, gpu⟩ := by
  unfold chooseAddress
  cases findAddressMatch allocs (gpu.srcAddress.getD 0) (gpu.dstAddress.getD 0) with
  | none => simp
  | some alloc =>
    by_cases hused : alloc.eventId ∈ st.matchedCpu ∨ gpu.base.eventId ∈ st.matchedGpu
    · simp only [if_pos hused]
      constructor
      · intro hnone
        cases hnone
      · rintro ⟨alloc', heq, hcpu, hgpu, -⟩
        cases heq
        exact absurd hused (by simp [hcpu, hgpu])
    · simp only [if_neg hused, Option.some.injEq]
      rw [not_or] at hused
      constructor
      · rintro rfl
        exact ⟨alloc, rfl, hused.1, hused.2, rfl⟩
      · rintro ⟨alloc', rfl, -, -, rfl⟩
        rfl

theorem choosePinned_iff {index : ℤ → Option LiveAlloc} :
    choosePinned index st gpu = some m ↔
      ∃ alloc, (index (gpu.srcAddress.getD 0)).or (index (gpu.dstAddress.getD 0)) =
        some alloc ∧ alloc.eventId ∉ st.matchedCpu ∧ gpu.base.eventId ∉ st.matchedGpu ∧
        m = ⟨.pinned, alloc, gpu⟩ := by
  unfold choosePinned
  by_cases hgpu : gpu.base.eventId ∈ st.matchedGpu
  · simp [hgpu]
  · rw [if_neg hgpu]
    cases (index (gpu.srcAddress.getD 0)).or (index (gpu.dstAddress.getD 0)) with
    | none => simp
    | some alloc =>
      by_cases hcpu : alloc.eventId ∈ st.matchedCpu
      · simp [hcpu]
      · simp [hcpu, hgpu, eq_comm]

theorem chooseSize_iff {index : ℤ → Option (List LiveAlloc)} :
    chooseSize index timeWindowNs st gpu = some m ↔
      ∃ alloc, findClosestInWindow ((index (gpu.transferSizeBytes.getD 0)).getD [])
        gpu.base.timestampNs timeWindowNs st.matchedCpu = some alloc ∧
        gpu.transferSizeBytes.getD 0 ≠ 0 ∧ gpu.base.eventId ∉ st.matchedGpu ∧
        m = ⟨.size, alloc, gpu⟩ := by
  unfold chooseSize
  dsimp only
  by_cases hgpu : gpu.base.eventId ∈ st.matchedGpu
  · simp [hgpu]
  · rw [if_neg hgpu]
    by_cases hzero : gpu.transferSizeBytes.getD 0 = 0
    · simp [hzero]
    · rw [if_neg hzero]
      cases findClosestInWindow ((index (gpu.transferSizeBytes.getD 0)).getD [])
        gpu.base.timestampNs timeWindowNs st.matchedCpu with
      | none => simp
      | some alloc => simp [hgpu, hzero, eq_comm]

theorem chooseTimestamp_iff {allocs : List LiveAlloc} :
    chooseTimestamp allocs timeWindowNs st gpu = some m ↔
      ∃ alloc, findClosestInWindow allocs gpu.base.timestampNs timeWindowNs ∅ = some alloc ∧
        m = ⟨.timestamp, alloc, gpu⟩ := by
  unfold chooseTimestamp
  cases findClosestInWindow allocs gpu.base.timestampNs timeWindowNs ∅ with
  | none => simp
  | some alloc => simp [eq_comm]

/-! Every choice is explained. -/

theorem mem_transfers (h : gpu ∈ gpuEvents.filter isTransfer) :
    gpu ∈ gpuEvents ∧ isTransfer gpu = true := List.mem_filter.mp h

theorem address_explained (h : Valid cpuEvents gpuEvents timeWindowNs st)
    (hgpu : gpu ∈ gpuEvents.filter isTransfer)
    (hchoice : chooseAddress (sortedAllocs cpuEvents) st gpu = some m) :
    Explained cpuEvents gpuEvents timeWindowNs st.correlated m := by
  obtain ⟨hmem, htransfer⟩ := mem_transfers hgpu
  obtain ⟨alloc, hfound, hcpu, hfree, rfl⟩ := chooseAddress_iff.mp hchoice
  obtain ⟨halloc, -⟩ := findAddressMatch_mem (sortedAllocs_sorted cpuEvents) hfound
  exact ⟨halloc, hmem, h.gpu_new hfree, fun _ => h.cpu_new hcpu, htransfer, hfound⟩

theorem pinned_mem {allocs : List LiveAlloc} {srcAddr dstAddr : ℤ} {alloc : LiveAlloc}
    (h : (pinnedIndex allocs srcAddr).or (pinnedIndex allocs dstAddr) = some alloc) :
    alloc ∈ allocs ∧ ∃ addr, (addr = srcAddr ∨ addr = dstAddr) ∧ addr ≠ 0 ∧
      alloc.pinnedAddress = addr := by
  rcases Option.or_eq_some_iff.mp h with hsrc | ⟨-, hdst⟩
  · obtain ⟨hmem, hne, hkey⟩ := pinnedIndex_mem hsrc
    exact ⟨hmem, srcAddr, Or.inl rfl, hne, hkey⟩
  · obtain ⟨hmem, hne, hkey⟩ := pinnedIndex_mem hdst
    exact ⟨hmem, dstAddr, Or.inr rfl, hne, hkey⟩

theorem pinned_explained (h : Valid cpuEvents gpuEvents timeWindowNs st)
    (hgpu : gpu ∈ gpuEvents.filter isTransfer)
    (hchoice : choosePinned (pinnedIndex (sortedAllocs cpuEvents)) st gpu = some m) :
    Explained cpuEvents gpuEvents timeWindowNs st.correlated m := by
  obtain ⟨hmem, htransfer⟩ := mem_transfers hgpu
  obtain ⟨alloc, hfound, hcpu, hfree, rfl⟩ := choosePinned_iff.mp hchoice
  obtain ⟨halloc, -⟩ := pinned_mem hfound
  exact ⟨halloc, hmem, h.gpu_new hfree, fun _ => h.cpu_new hcpu, htransfer, hfound⟩

/-- A found candidate is no farther than any candidate that is not excluded. -/
theorem closest_le {allocs : List LiveAlloc} {gpuTs windowNs : ℤ} {excludeIds : Finset ℤ}
    {alloc : LiveAlloc} (h : findClosestInWindow allocs gpuTs windowNs excludeIds = some alloc) :
    alloc ∈ allocs ∧ alloc.eventId ∉ excludeIds ∧
      distance gpuTs alloc.timestampNs ≤ windowNs ∧
      ∀ other ∈ allocs, other.eventId ∉ excludeIds →
        distance gpuTs alloc.timestampNs ≤ distance gpuTs other.timestampNs := by
  obtain ⟨before, after, rfl, hclosest⟩ := findClosestInWindow_some h
  refine ⟨by simp, hclosest.free, hclosest.inWindow, ?_⟩
  intro other hother hfree
  rw [List.mem_append, List.mem_cons] at hother
  rcases hother with hbefore | rfl | hafter
  · exact le_of_lt (hclosest.before other hbefore hfree)
  · exact le_refl _
  · exact hclosest.after other hafter hfree

theorem size_explained (h : Valid cpuEvents gpuEvents timeWindowNs st)
    (hgpu : gpu ∈ gpuEvents.filter isTransfer)
    (hchoice : chooseSize (sizeIndex (sortedAllocs cpuEvents)) timeWindowNs st gpu = some m) :
    Explained cpuEvents gpuEvents timeWindowNs st.correlated m := by
  obtain ⟨hmem, htransfer⟩ := mem_transfers hgpu
  obtain ⟨alloc, hfound, hsize, hfree, rfl⟩ := chooseSize_iff.mp hchoice
  rw [sizeIndex_eq] at hfound
  obtain ⟨hcandidate, hcpu, hwindow, hclosest⟩ := closest_le hfound
  obtain ⟨halloc, hsame⟩ := List.mem_filter.mp hcandidate
  rw [decide_eq_true_eq] at hsame
  refine ⟨halloc, hmem, h.gpu_new hfree, fun _ => h.cpu_new hcpu, htransfer, hsize, hsame,
    hwindow, ?_⟩
  intro other hother hothersize hunused
  apply hclosest other
  · rw [List.mem_filter, decide_eq_true_eq]
    exact ⟨hother, hothersize.trans hsame⟩
  · intro hused
    obtain ⟨e, he, hhard, hid⟩ := (h.cpuIds _).mp hused
    exact hunused e he hhard hid

theorem timestamp_explained (h : Valid cpuEvents gpuEvents timeWindowNs st)
    (hgpu : gpu ∈ gpuEvents) (hfree : gpu.base.eventId ∉ st.matchedGpu)
    (hchoice : chooseTimestamp (sortedAllocs cpuEvents) timeWindowNs st gpu = some m) :
    Explained cpuEvents gpuEvents timeWindowNs st.correlated m := by
  obtain ⟨alloc, hfound, rfl⟩ := chooseTimestamp_iff.mp hchoice
  obtain ⟨halloc, -, hwindow, hclosest⟩ := closest_le hfound
  refine ⟨halloc, hgpu, h.gpu_new hfree, ?_, hwindow, ?_⟩
  · intro hhard
    cases hhard
  · intro other hother
    exact hclosest other hother (Finset.notMem_empty _)

end

/-! The states after the passes. -/

section

variable (cpuEvents : List CpuEvent) (gpuEvents : List GpuEvent) (timeWindowNs : ℤ)

theorem afterAddress_valid :
    Valid cpuEvents gpuEvents timeWindowNs (afterAddress cpuEvents gpuEvents) := by
  apply pass_invariant _ empty_valid
  intro st gpu m hgpu h hchoice
  exact h.add (address_explained h hgpu hchoice)

theorem afterPinned_valid :
    Valid cpuEvents gpuEvents timeWindowNs (afterPinned cpuEvents gpuEvents) := by
  apply pass_invariant _ (afterAddress_valid cpuEvents gpuEvents timeWindowNs)
  intro st gpu m hgpu h hchoice
  exact h.add (pinned_explained h hgpu hchoice)

theorem afterSize_valid :
    Valid cpuEvents gpuEvents timeWindowNs (afterSize cpuEvents gpuEvents timeWindowNs) := by
  apply pass_invariant _ (afterPinned_valid cpuEvents gpuEvents timeWindowNs)
  intro st gpu m hgpu h hchoice
  exact h.add (size_explained h hgpu hchoice)

/-- GPU events with distinct ids, none of which has been used. -/
def Fresh (st : MatchState) (rest : List GpuEvent) : Prop :=
  (rest.map fun gpu => gpu.base.eventId).Nodup ∧
    ∀ gpu ∈ rest, gpu ∈ gpuEvents ∧ gpu.base.eventId ∉ st.matchedGpu

variable {gpuEvents}

theorem Fresh.tail {st : MatchState} {gpu : GpuEvent} {rest : List GpuEvent}
    (h : Fresh gpuEvents st (gpu :: rest)) : Fresh gpuEvents st rest := by
  obtain ⟨hnodup, hfree⟩ := h
  rw [List.map_cons, List.nodup_cons] at hnodup
  exact ⟨hnodup.2, fun g hg => hfree g (List.mem_cons_of_mem _ hg)⟩

theorem Fresh.add {st : MatchState} {m : Match} {rest : List GpuEvent}
    (h : Fresh gpuEvents st (m.gpu :: rest)) : Fresh gpuEvents (st.add m) rest := by
  have htail := h.tail
  obtain ⟨hnodup, -⟩ := h
  rw [List.map_cons, List.nodup_cons] at hnodup
  refine ⟨htail.1, ?_⟩
  intro g hg
  refine ⟨(htail.2 g hg).1, ?_⟩
  intro hused
  rcases mem_add_matchedGpu.mp hused with hold | hnew
  · exact (htail.2 g hg).2 hold
  · exact hnodup.1 (List.mem_map.mpr ⟨g, hg, hnew.symm⟩)

theorem unmatched_fresh (hids : (gpuEvents.map fun gpu => gpu.base.eventId).Nodup) :
    Fresh gpuEvents (afterSize cpuEvents gpuEvents timeWindowNs)
      (unmatchedGpu cpuEvents gpuEvents timeWindowNs) := by
  unfold unmatchedGpu
  refine ⟨hids.sublist (List.filter_sublist.map _), ?_⟩
  intro gpu hgpu
  obtain ⟨hmem, hfree⟩ := List.mem_filter.mp hgpu
  exact ⟨hmem, of_decide_eq_true hfree⟩

/-- The invariant of the last pass, with the events still to come. -/
def Ready (gpuEvents : List GpuEvent) (rest : List GpuEvent) (st : MatchState) : Prop :=
  Valid cpuEvents gpuEvents timeWindowNs st ∧ Fresh gpuEvents st rest

theorem afterTimestamp_valid (hids : (gpuEvents.map fun gpu => gpu.base.eventId).Nodup) :
    Valid cpuEvents gpuEvents timeWindowNs
      (afterTimestamp cpuEvents gpuEvents timeWindowNs) := by
  have hnone : ∀ gpu rest st, Ready cpuEvents timeWindowNs gpuEvents (gpu :: rest) st →
      chooseTimestamp (sortedAllocs cpuEvents) timeWindowNs st gpu = none →
      Ready cpuEvents timeWindowNs gpuEvents rest st := by
    intro gpu rest st h _
    exact ⟨h.1, h.2.tail⟩
  have hsome : ∀ gpu rest st m, Ready cpuEvents timeWindowNs gpuEvents (gpu :: rest) st →
      chooseTimestamp (sortedAllocs cpuEvents) timeWindowNs st gpu = some m →
      Ready cpuEvents timeWindowNs gpuEvents rest (st.add m) := by
    intro gpu rest st m h hchoice
    have hgpu := h.2.2 gpu (List.mem_cons_self ..)
    have hm := timestamp_explained h.1 hgpu.1 hgpu.2 hchoice
    obtain ⟨alloc, -, rfl⟩ := chooseTimestamp_iff.mp hchoice
    exact ⟨h.1.add hm, h.2.add⟩
  have hstart : Ready cpuEvents timeWindowNs gpuEvents
      (unmatchedGpu cpuEvents gpuEvents timeWindowNs)
      (afterSize cpuEvents gpuEvents timeWindowNs) :=
    ⟨afterSize_valid cpuEvents gpuEvents timeWindowNs,
      unmatched_fresh cpuEvents timeWindowNs hids⟩
  exact (pass_induction hnone hsome hstart).1

end

/-! Matches and used ids only accumulate, and each pass adds matches of its own kind. -/

structure Grows (st st' : MatchState) : Prop where
  correlated : ∀ m ∈ st.correlated, m ∈ st'.correlated
  matchedCpu : st.matchedCpu ⊆ st'.matchedCpu
  matchedGpu : st.matchedGpu ⊆ st'.matchedGpu

theorem Grows.refl (st : MatchState) : Grows st st :=
  ⟨fun _ hm => hm, Finset.Subset.refl _, Finset.Subset.refl _⟩

theorem Grows.trans {st st' st'' : MatchState} (h : Grows st st') (h' : Grows st' st'') :
    Grows st st'' :=
  ⟨fun m hm => h'.correlated m (h.correlated m hm),
    Finset.Subset.trans h.matchedCpu h'.matchedCpu,
    Finset.Subset.trans h.matchedGpu h'.matchedGpu⟩

theorem grows_add (st : MatchState) (m : Match) : Grows st (st.add m) where
  correlated := fun _ he => List.mem_append_left _ he
  matchedCpu := fun _ hid => mem_add_matchedCpu.mpr (Or.inl hid)
  matchedGpu := fun _ hid => mem_add_matchedGpu.mpr (Or.inl hid)

theorem mem_add_correlated (st : MatchState) (m : Match) : m ∈ (st.add m).correlated :=
  List.mem_append_right _ (List.mem_singleton.mpr rfl)

section

variable (choose : MatchState → GpuEvent → Option Match) (st : MatchState) {bs : List GpuEvent}

theorem grows_pass : Grows st (pass choose MatchState.add st bs) := by
  apply pass_invariant _ (Grows.refl st)
  intro st' gpu m _ h _
  exact h.trans (grows_add st' m)

/-- An offered event is matched, or passed over in a state inside the pass. -/
theorem offered_to {gpu : GpuEvent} (hgpu : gpu ∈ bs) :
    ∃ mid, Grows st mid ∧ Grows mid (pass choose MatchState.add st bs) ∧
      ∀ m, choose mid gpu = some m → m ∈ (pass choose MatchState.add st bs).correlated := by
  obtain ⟨mid, hfrom, hto, htaken⟩ :=
    offered Grows.refl (fun _ _ _ h h' => Grows.trans h h') grows_add hgpu st
  exact ⟨mid, hfrom, hto, fun m hm =>
    (htaken m hm).correlated m (mem_add_correlated mid m)⟩

variable {choose st}

theorem found_of_pass {kind : Pass} (hkind : ∀ st gpu m, choose st gpu = some m → m.found = kind) :
    ∀ m ∈ (pass choose MatchState.add st bs).correlated,
      m ∈ st.correlated ∨ m.found = kind := by
  have htake : ∀ s gpu m, gpu ∈ bs → (∀ e ∈ s.correlated, e ∈ st.correlated ∨ e.found = kind) →
      choose s gpu = some m →
      ∀ e ∈ (s.add m).correlated, e ∈ st.correlated ∨ e.found = kind := by
    intro s gpu m _ h hchoice e he
    rcases List.mem_append.mp he with hold | hnew
    · exact h e hold
    · rw [List.mem_singleton.mp hnew]
      exact Or.inr (hkind s gpu m hchoice)
  exact pass_invariant htake fun m hm => Or.inl hm

end

section

variable (cpuEvents : List CpuEvent) (gpuEvents : List GpuEvent) (timeWindowNs : ℤ)

theorem afterAddress_found :
    ∀ m ∈ (afterAddress cpuEvents gpuEvents).correlated, m.found = .address := by
  intro m hm
  have hkind : ∀ st gpu m, chooseAddress (sortedAllocs cpuEvents) st gpu = some m →
      m.found = .address := by
    intro st gpu m hchoice
    obtain ⟨alloc, -, -, -, rfl⟩ := chooseAddress_iff.mp hchoice
    rfl
  rcases found_of_pass hkind m hm with hempty | hfound
  · cases hempty
  · exact hfound

theorem afterPinned_found : ∀ m ∈ (afterPinned cpuEvents gpuEvents).correlated,
    m ∈ (afterAddress cpuEvents gpuEvents).correlated ∨ m.found = .pinned := by
  apply found_of_pass
  intro st gpu m hchoice
  obtain ⟨alloc, -, -, -, rfl⟩ := choosePinned_iff.mp hchoice
  rfl

theorem afterSize_found : ∀ m ∈ (afterSize cpuEvents gpuEvents timeWindowNs).correlated,
    m ∈ (afterPinned cpuEvents gpuEvents).correlated ∨ m.found = .size := by
  apply found_of_pass
  intro st gpu m hchoice
  obtain ⟨alloc, -, -, -, rfl⟩ := chooseSize_iff.mp hchoice
  rfl

theorem afterTimestamp_found :
    ∀ m ∈ (afterTimestamp cpuEvents gpuEvents timeWindowNs).correlated,
      m ∈ (afterSize cpuEvents gpuEvents timeWindowNs).correlated ∨ m.found = .timestamp := by
  apply found_of_pass
  intro st gpu m hchoice
  obtain ⟨alloc, -, rfl⟩ := chooseTimestamp_iff.mp hchoice
  rfl

theorem grows_afterPinned :
    Grows (afterAddress cpuEvents gpuEvents) (afterPinned cpuEvents gpuEvents) := grows_pass _ _

theorem grows_afterSize :
    Grows (afterPinned cpuEvents gpuEvents) (afterSize cpuEvents gpuEvents timeWindowNs) :=
  grows_pass _ _

theorem grows_afterTimestamp :
    Grows (afterSize cpuEvents gpuEvents timeWindowNs)
      (afterTimestamp cpuEvents gpuEvents timeWindowNs) := grows_pass _ _

/-- The hard matches of the whole run are the matches before the last pass. -/
theorem hard_iff {m : Match} :
    m ∈ (afterTimestamp cpuEvents gpuEvents timeWindowNs).correlated ∧ isHard m = true ↔
      m ∈ (afterSize cpuEvents gpuEvents timeWindowNs).correlated := by
  constructor
  · rintro ⟨hm, hhard⟩
    rcases afterTimestamp_found cpuEvents gpuEvents timeWindowNs m hm with hbefore | hweak
    · exact hbefore
    · unfold isHard at hhard
      rw [hweak] at hhard
      cases hhard
  · intro hm
    refine ⟨(grows_afterTimestamp cpuEvents gpuEvents timeWindowNs).correlated m hm, ?_⟩
    rcases afterSize_found cpuEvents gpuEvents timeWindowNs m hm with hpinned | hsize
    · rcases afterPinned_found cpuEvents gpuEvents m hpinned with haddress | hkind
      · unfold isHard
        rw [afterAddress_found cpuEvents gpuEvents m haddress]
        rfl
      · unfold isHard
        rw [hkind]
        rfl
    · unfold isHard
      rw [hsize]
      rfl

/-- The matches by address are the matches of the first two passes. -/
theorem address_iff {m : Match} :
    m ∈ (afterTimestamp cpuEvents gpuEvents timeWindowNs).correlated ∧
        m.found.matchReason = .addressMatch ↔
      m ∈ (afterPinned cpuEvents gpuEvents).correlated := by
  constructor
  · rintro ⟨hm, hreason⟩
    rcases afterTimestamp_found cpuEvents gpuEvents timeWindowNs m hm with hsize | hkind
    · rcases afterSize_found cpuEvents gpuEvents timeWindowNs m hsize with hpinned | hkind
      · exact hpinned
      · rw [hkind] at hreason
        cases hreason
    · rw [hkind] at hreason
      cases hreason
  · intro hm
    refine ⟨(grows_afterTimestamp cpuEvents gpuEvents timeWindowNs).correlated m
      ((grows_afterSize cpuEvents gpuEvents timeWindowNs).correlated m hm), ?_⟩
    rcases afterPinned_found cpuEvents gpuEvents m hm with haddress | hkind
    · rw [afterAddress_found cpuEvents gpuEvents m haddress]
      rfl
    · rw [hkind]
      rfl

/-- An allocation id is used up exactly when a hard match has it. -/
theorem mem_matchedCpu_iff {id : ℤ} :
    id ∈ (afterSize cpuEvents gpuEvents timeWindowNs).matchedCpu ↔
      ∃ m ∈ (afterTimestamp cpuEvents gpuEvents timeWindowNs).correlated,
        isHard m = true ∧ cpuId m = id := by
  rw [(afterSize_valid cpuEvents gpuEvents timeWindowNs).cpuIds]
  constructor
  · rintro ⟨m, hm, hhard, hid⟩
    exact ⟨m, ((hard_iff cpuEvents gpuEvents timeWindowNs).mpr hm).1, hhard, hid⟩
  · rintro ⟨m, hm, hhard, hid⟩
    exact ⟨m, (hard_iff cpuEvents gpuEvents timeWindowNs).mp ⟨hm, hhard⟩, hhard, hid⟩

end

end HpcProfiler.CorrelationPasses
