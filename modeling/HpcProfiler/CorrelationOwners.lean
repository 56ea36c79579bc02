import HpcProfiler.CorrelationSound

/-!
Whose memory a transfer touches. The address passes give a transfer at most two
partners, the allocation its address lookup finds and the one its pinned lookup finds,
and never leave both a transfer and such a partner unmatched. They do not look at
deallocations, so a partner may have been freed before the transfer; the exact inputs
on which this happens are those where a transfer served by the first pass has an owner
freed in between.
-/

namespace HpcProfiler.CorrelationOwners

open Events GreedyChoice Correlation CorrelationLookups CorrelationPasses CorrelationSound

/-- The first allocation in address order with this pinned address. -/
def FirstPinned (allocs : List LiveAlloc) (addr : ℤ) (alloc : LiveAlloc) : Prop :=
  ∃ before after, allocs = before ++ alloc :: after ∧ alloc.pinnedAddress = addr ∧
    ∀ other ∈ before, other.pinnedAddress ≠ addr

/-- A lookup by the source address or, only without a hit there, by the destination
address; zero is no address. -/
def SourceFirst (hit : ℤ → LiveAlloc → Prop) (gpu : GpuEvent) (alloc : LiveAlloc) : Prop :=
  (srcAddr gpu ≠ 0 ∧ hit (srcAddr gpu) alloc) ∨
    ((srcAddr gpu = 0 ∨ ∀ other, ¬ hit (srcAddr gpu) other) ∧ dstAddr gpu ≠ 0 ∧
      hit (dstAddr gpu) alloc)

/-- The partners that the address passes consider for a transfer. -/
def Partner (cpuEvents : List CpuEvent) (gpu : GpuEvent) (alloc : LiveAlloc) : Prop :=
  SourceFirst (Owns (sortedAllocs cpuEvents)) gpu alloc ∨
    SourceFirst (FirstPinned (sortedAllocs cpuEvents)) gpu alloc

theorem findAddressMatch_of_sourceFirst {cpuEvents : List CpuEvent} {gpu : GpuEvent}
    {alloc : LiveAlloc} (h : SourceFirst (Owns (sortedAllocs cpuEvents)) gpu alloc) :
    findAddressMatch (sortedAllocs cpuEvents) (srcAddr gpu) (dstAddr gpu) = some alloc := by
  have hsorted := sortedAllocs_sorted cpuEvents
  rw [findAddressMatch_iff]
  rcases h with ⟨hne, hown⟩ | ⟨hsrc, hne, hown⟩
  · exact Or.inl ⟨hne, (binarySearchInterval_iff hsorted).mpr hown⟩
  · refine Or.inr ⟨?_, hne, (binarySearchInterval_iff hsorted).mpr hown⟩
    rcases hsrc with hzero | hmiss
    · exact Or.inl hzero
    · right
      rw [Option.eq_none_iff_forall_ne_some]
      intro other hother
      exact hmiss other ((binarySearchInterval_iff hsorted).mp hother)

theorem pinnedIndex_iff {allocs : List LiveAlloc} {key : ℤ} {alloc : LiveAlloc} :
    pinnedIndex allocs key = some alloc ↔ key ≠ 0 ∧ FirstPinned allocs key alloc := by
  rw [pinnedIndex_eq]
  by_cases hzero : key = 0
  · rw [if_pos hzero]
    simp [hzero]
  · rw [if_neg hzero, List.find?_eq_some_iff_append]
    constructor
    · rintro ⟨hkey, before, after, hsplit, hbefore⟩
      refine ⟨hzero, before, after, hsplit, of_decide_eq_true hkey, ?_⟩
      intro other hother
      simpa using hbefore other hother
    · rintro ⟨-, before, after, hsplit, hkey, hbefore⟩
      refine ⟨decide_eq_true hkey, before, after, hsplit, ?_⟩
      intro other hother
      simpa using hbefore other hother

theorem pinnedLookup_of_sourceFirst {allocs : List LiveAlloc} {gpu : GpuEvent}
    {alloc : LiveAlloc} (h : SourceFirst (FirstPinned allocs) gpu alloc) :
    (pinnedIndex allocs (srcAddr gpu)).or (pinnedIndex allocs (dstAddr gpu)) = some alloc := by
  rw [Option.or_eq_some_iff]
  rcases h with ⟨hne, hfirst⟩ | ⟨hsrc, hne, hfirst⟩
  · exact Or.inl (pinnedIndex_iff.mpr ⟨hne, hfirst⟩)
  · refine Or.inr ⟨?_, pinnedIndex_iff.mpr ⟨hne, hfirst⟩⟩
    rw [Option.eq_none_iff_forall_ne_some]
    intro other hother
    obtain ⟨hsrcne, hsrcfirst⟩ := pinnedIndex_iff.mp hother
    rcases hsrc with hzero | hmiss
    · exact hsrcne hzero
    · exact hmiss other hsrcfirst

section

variable {cpuEvents : List CpuEvent} {gpuEvents : List GpuEvent} (timeWindowNs : ℤ)

/-- A state inside the address passes has used only ids with records by address. -/
theorem gpu_used_by_address {st : MatchState}
    (h : Grows st (afterPinned cpuEvents gpuEvents)) {id : ℤ} (hid : id ∈ st.matchedGpu) :
    ∃ r ∈ runCorrelation cpuEvents gpuEvents timeWindowNs, r.gpuEventId = id ∧
      r.matchReason = .addressMatch := by
  have hvalid := afterPinned_valid cpuEvents gpuEvents timeWindowNs
  obtain ⟨m, hm, hgpu⟩ := (hvalid.gpuIds id).mp (h.matchedGpu hid)
  obtain ⟨hr, hreason⟩ := address_record hm
  exact ⟨m.toRecord, hr, hgpu, hreason⟩

theorem cpu_used_by_hard {st : MatchState}
    (h : Grows st (afterSize cpuEvents gpuEvents timeWindowNs)) {id : ℤ}
    (hid : id ∈ st.matchedCpu) :
    ∃ r ∈ runCorrelation cpuEvents gpuEvents timeWindowNs, r.confidence = .hard ∧
      r.cpuEventId = id := by
  obtain ⟨m, hm, hhard, hcpu⟩ :=
    (mem_matchedCpu_iff cpuEvents gpuEvents timeWindowNs).mp (h.matchedCpu hid)
  exact ⟨m.toRecord, mem_runCorrelation hm, of_decide_eq_true hhard, hcpu⟩

end

/-- After the run there is no transfer without a record by address and allocation
without a hard record such that the allocation is a partner of the transfer. -/
theorem address_passes_miss_no_partner (cpuEvents : List CpuEvent) (gpuEvents : List GpuEvent)
    (timeWindowNs : ℤ) :
    ¬ ∃ gpu ∈ gpuEvents, isTransfer gpu = true ∧
      (∀ r ∈ runCorrelation cpuEvents gpuEvents timeWindowNs,
        r.gpuEventId = gpu.base.eventId → r.matchReason ≠ .addressMatch) ∧
      ∃ alloc ∈ sortedAllocs cpuEvents,
        (∀ r ∈ runCorrelation cpuEvents gpuEvents timeWindowNs,
          r.confidence = .hard → r.cpuEventId ≠ alloc.eventId) ∧
        Partner cpuEvents gpu alloc := by
  rintro ⟨gpu, hgpu, htransfer, hnoaddress, alloc, -, hnohard, hpartner⟩
  have hmem : gpu ∈ gpuEvents.filter isTransfer := List.mem_filter.mpr ⟨hgpu, htransfer⟩
  have hfreeGpu : ∀ st, Grows st (afterPinned cpuEvents gpuEvents) →
      gpu.base.eventId ∉ st.matchedGpu := by
    intro st hst hused
    obtain ⟨r, hr, hid, hreason⟩ := gpu_used_by_address timeWindowNs hst hused
    exact hnoaddress r hr hid hreason
  have hfreeCpu : ∀ st, Grows st (afterPinned cpuEvents gpuEvents) →
      alloc.eventId ∉ st.matchedCpu := by
    intro st hst hused
    obtain ⟨r, hr, hhard, hid⟩ := cpu_used_by_hard timeWindowNs
      (hst.trans (grows_afterSize cpuEvents gpuEvents timeWindowNs)) hused
    exact hnohard r hr hhard hid
  have hmatched : ∀ m, m ∈ (afterPinned cpuEvents gpuEvents).correlated →
      gpuId m = gpu.base.eventId → False := by
    intro m hm hid
    obtain ⟨hr, hreason⟩ := address_record hm
    exact hnoaddress m.toRecord hr hid hreason
  rcases hpartner with haddress | hpinned
  · obtain ⟨mid, -, hto, htaken⟩ :=
      offered_to (chooseAddress (sortedAllocs cpuEvents)) .empty hmem
    have hkeep := grows_afterPinned cpuEvents gpuEvents
    have hgrows := hto.trans hkeep
    have hchoice := chooseAddress_iff.mpr ⟨alloc, findAddressMatch_of_sourceFirst haddress,
      hfreeCpu mid hgrows, hfreeGpu mid hgrows, rfl⟩
    exact hmatched _ (hkeep.correlated _ (htaken _ hchoice)) rfl
  · obtain ⟨mid, -, hgrows, htaken⟩ :=
      offered_to (choosePinned (pinnedIndex (sortedAllocs cpuEvents)))
        (afterAddress cpuEvents gpuEvents) hmem
    have hchoice := choosePinned_iff.mpr ⟨alloc, pinnedLookup_of_sourceFirst hpinned,
      hfreeCpu mid hgrows, hfreeGpu mid hgrows, rfl⟩
    exact hmatched _ (htaken _ hchoice) rfl

/-- The second transfer's source falls to an allocation that is used up; its destination
falls to one that is free and stays so. -/
theorem free_destination_is_missed :
    ¬ ∀ (cpuEvents : List CpuEvent) (gpuEvents : List GpuEvent) (timeWindowNs : ℤ),
      (gpuEvents.map fun gpu => gpu.base.eventId).Nodup →
      ¬ ∃ gpu ∈ gpuEvents, isTransfer gpu = true ∧
        (∀ r ∈ runCorrelation cpuEvents gpuEvents timeWindowNs,
          r.gpuEventId = gpu.base.eventId → r.matchReason ≠ .addressMatch) ∧
        ∃ event ∈ cpuEvents, isAlloc event = true ∧
          (∀ r ∈ runCorrelation cpuEvents gpuEvents timeWindowNs,
            r.confidence = .hard → r.cpuEventId ≠ event.base.eventId) ∧
          AddressHit event gpu := by
  intro hclaim
  have hrun : runCorrelation [allocAt 1 100 4096 64 0, allocAt 2 110 8192 64 0]
      [transferAt 7 130 4096 0 1, transferAt 8 140 4100 8200 2] 50 =
      [⟨1, 7, .hard, .addressMatch, 30⟩, ⟨2, 8, .weak, .timestampOnly, 30⟩] := by
    decide +kernel
  apply hclaim [allocAt 1 100 4096 64 0, allocAt 2 110 8192 64 0]
    [transferAt 7 130 4096 0 1, transferAt 8 140 4100 8200 2] 50 (by decide)
  rw [hrun]
  refine ⟨transferAt 8 140 4100 8200 2, by simp, by decide, by decide,
    allocAt 2 110 8192 64 0, by simp, by decide, by decide, 8200, Or.inr rfl, by decide, ?_⟩
  exact Or.inl ⟨by decide, by decide⟩

/-! Frees. -/

/-- The allocation's address was deallocated after it was made and before the GPU event. -/
def Freed (cpuEvents : List CpuEvent) (alloc : LiveAlloc) (gpu : GpuEvent) : Prop :=
  ∃ dealloc ∈ cpuEvents, isAlloc dealloc = false ∧ dealloc.allocAddress = alloc.address ∧
    alloc.timestampNs ≤ dealloc.base.timestampNs ∧
    dealloc.base.timestampNs < gpu.base.timestampNs

/-- The transfers whose address lookup has a result, with that result. -/
def ownedTransfers (allocs : List LiveAlloc) (transfers : List GpuEvent) :
    List (LiveAlloc × GpuEvent) :=
  transfers.filterMap fun gpu =>
    (findAddressMatch allocs (srcAddr gpu) (dstAddr gpu)).map fun alloc => (alloc, gpu)

def ownerId (owned : LiveAlloc × GpuEvent) : ℤ := owned.1.eventId

def transferId (owned : LiveAlloc × GpuEvent) : ℤ := owned.2.base.eventId

/-- The first pass serves its owned transfers first come, first served. -/
theorem addressPass_serves (allocs : List LiveAlloc) (transfers : List GpuEvent)
    (st : MatchState) :
    (pass (chooseAddress allocs) MatchState.add st transfers).correlated =
      st.correlated ++ (firstServed ownerId transferId st.matchedCpu st.matchedGpu
        (ownedTransfers allocs transfers)).map fun owned => ⟨.address, owned.1, owned.2⟩ := by
  induction transfers generalizing st with
  | nil => simp [GreedyChoice.pass, ownedTransfers, firstServed]
  | cons gpu transfers ih =>
    rw [pass_cons, ih]
    unfold ownedTransfers
    rw [List.filterMap_cons]
    cases hfound : findAddressMatch allocs (srcAddr gpu) (dstAddr gpu) with
    | none =>
      have hchoice : chooseAddress allocs st gpu = none := by
        unfold chooseAddress
        unfold srcAddr dstAddr at hfound
        rw [hfound]
      rw [step_of_none hchoice]
      rfl
    | some alloc =>
      by_cases hused : ownerId (alloc, gpu) ∈ st.matchedCpu ∨
          transferId (alloc, gpu) ∈ st.matchedGpu
      · have hchoice : chooseAddress allocs st gpu = none := by
          unfold chooseAddress
          unfold srcAddr dstAddr at hfound
          rw [hfound]
          exact if_pos hused
        rw [step_of_none hchoice, Option.map_some]
        dsimp only
        rw [firstServed, if_pos hused]
      · have hchoice : chooseAddress allocs st gpu = some ⟨.address, alloc, gpu⟩ := by
          unfold chooseAddress
          unfold srcAddr dstAddr at hfound
          rw [hfound]
          exact if_neg hused
        rw [step_of_some hchoice, Option.map_some]
        dsimp only
        rw [firstServed, if_neg hused, List.map_cons]
        unfold MatchState.add
        rw [List.append_assoc]
        rfl

theorem ownedTransfers_ids (allocs : List LiveAlloc) (transfers : List GpuEvent) :
    ((ownedTransfers allocs transfers).map transferId).Sublist
      (transfers.map fun gpu => gpu.base.eventId) := by
  induction transfers with
  | nil => exact List.Sublist.refl _
  | cons gpu transfers ih =>
    unfold ownedTransfers at ih ⊢
    rw [List.filterMap_cons, List.map_cons]
    cases findAddressMatch allocs (srcAddr gpu) (dstAddr gpu) with
    | none => exact ih.cons _
    | some alloc => exact ih.cons_cons _

/-- A transfer and its owner, such that no earlier transfer's owner has the same id. -/
def FirstOfOwner (allocs : List LiveAlloc) (transfers : List GpuEvent) (alloc : LiveAlloc)
    (gpu : GpuEvent) : Prop :=
  ∃ before after, transfers = before ++ gpu :: after ∧
    findAddressMatch allocs (srcAddr gpu) (dstAddr gpu) = some alloc ∧
    ∀ earlier ∈ before, ∀ other,
      findAddressMatch allocs (srcAddr earlier) (dstAddr earlier) = some other →
      other.eventId ≠ alloc.eventId

/-- With distinct transfer ids, the served transfers are the first ones of their owners. -/
theorem served_iff_firstOfOwner {allocs : List LiveAlloc} {transfers : List GpuEvent}
    (hids : (transfers.map fun gpu => gpu.base.eventId).Nodup) {alloc : LiveAlloc}
    {gpu : GpuEvent} :
    (alloc, gpu) ∈ firstServed ownerId transferId ∅ ∅ (ownedTransfers allocs transfers) ↔
      FirstOfOwner allocs transfers alloc gpu := by
  have honce := hids.sublist (ownedTransfers_ids allocs transfers)
  rw [mem_firstServed ownerId transferId honce (fun _ _ => Finset.notMem_empty _)]
  unfold ownedTransfers FirstOfOwner
  constructor
  · rintro ⟨-, before, after, hsplit, hfirst⟩
    obtain ⟨front, back, rfl, hfront, hback⟩ := List.filterMap_eq_append_iff.mp hsplit
    obtain ⟨skipped, found, rest, rfl, hskipped, hfound, -⟩ :=
      List.filterMap_eq_cons_iff.mp hback
    obtain ⟨owner, howner, hpair⟩ := Option.map_eq_some_iff.mp hfound
    cases hpair
    refine ⟨front ++ skipped, rest, by rw [List.append_assoc], howner, ?_⟩
    intro earlier hearlier other hother
    rcases List.mem_append.mp hearlier with hmem | hmem
    · apply hfirst (other, earlier)
      rw [← hfront, List.mem_filterMap]
      exact ⟨earlier, hmem, by rw [hother]; rfl⟩
    · have hnone := hskipped earlier hmem
      rw [hother] at hnone
      cases hnone
  · rintro ⟨before, after, rfl, howner, hfirst⟩
    rw [List.filterMap_append, List.filterMap_cons, howner, Option.map_some]
    refine ⟨Finset.notMem_empty _, _, _, rfl, ?_⟩
    rintro ⟨other, earlier⟩ hmem
    obtain ⟨gpu', hgpu', hpair⟩ := List.mem_filterMap.mp hmem
    obtain ⟨owner, hother, heq⟩ := Option.map_eq_some_iff.mp hpair
    cases heq
    exact hfirst earlier hgpu' other hother

/-- No match by address is with a freed allocation, as long as the matches are made by
the first pass. -/
def OnlyLive (cpuEvents : List CpuEvent) (gpuEvents : List GpuEvent) (timeWindowNs : ℤ) : Prop :=
  ∀ m ∈ (afterTimestamp cpuEvents gpuEvents timeWindowNs).correlated, m.found = .address →
    ¬ Freed cpuEvents m.alloc m.gpu

theorem onlyLive_iff_served (cpuEvents : List CpuEvent) (gpuEvents : List GpuEvent)
    (timeWindowNs : ℤ) :
    OnlyLive cpuEvents gpuEvents timeWindowNs ↔
      ∀ owned ∈ firstServed ownerId transferId ∅ ∅
        (ownedTransfers (sortedAllocs cpuEvents) (gpuEvents.filter isTransfer)),
        ¬ Freed cpuEvents owned.1 owned.2 := by
  have hserves := addressPass_serves (sortedAllocs cpuEvents) (gpuEvents.filter isTransfer) .empty
  have haddress : ∀ m, (m ∈ (afterTimestamp cpuEvents gpuEvents timeWindowNs).correlated ∧
      m.found = .address) ↔ m ∈ (afterAddress cpuEvents gpuEvents).correlated := by
    intro m
    constructor
    · rintro ⟨hm, hfound⟩
      have hpinned := (address_iff cpuEvents gpuEvents timeWindowNs).mp
        ⟨hm, by rw [hfound]; rfl⟩
      rcases afterPinned_found cpuEvents gpuEvents m hpinned with hkept | hkind
      · exact hkept
      · rw [hfound] at hkind
        cases hkind
    · intro hm
      have hpinned := (grows_afterPinned cpuEvents gpuEvents).correlated m hm
      exact ⟨((address_iff cpuEvents gpuEvents timeWindowNs).mpr hpinned).1,
        afterAddress_found cpuEvents gpuEvents m hm⟩
  unfold OnlyLive
  constructor
  · intro hlive owned howned
    have hmem : (⟨.address, owned.1, owned.2⟩ : Match) ∈
        (afterAddress cpuEvents gpuEvents).correlated := by
      unfold afterAddress
      rw [hserves]
      exact List.mem_append_right _ (List.mem_map.mpr ⟨owned, howned, rfl⟩)
    obtain ⟨hfinal, hfound⟩ := (haddress _).mpr hmem
    exact hlive _ hfinal hfound
  · intro hserved m hm hfound
    have hmem := (haddress m).mp ⟨hm, hfound⟩
    unfold afterAddress at hmem
    rw [hserves] at hmem
    rcases List.mem_append.mp hmem with hempty | hnew
    · cases hempty
    · obtain ⟨owned, howned, rfl⟩ := List.mem_map.mp hnew
      exact hserved owned howned

/-- The first pass never pairs a transfer with a freed allocation exactly when no
transfer it serves, going first come, first served by owner id and transfer id, has an
owner freed in between; with distinct GPU event ids these are the transfers that are
the first of their owners. -/
theorem only_live_iff (cpuEvents : List CpuEvent) (gpuEvents : List GpuEvent)
    (timeWindowNs : ℤ) :
    (OnlyLive cpuEvents gpuEvents timeWindowNs ↔
      ∀ owned ∈ firstServed ownerId transferId ∅ ∅
        (ownedTransfers (sortedAllocs cpuEvents) (gpuEvents.filter isTransfer)),
        ¬ Freed cpuEvents owned.1 owned.2) ∧
    ((gpuEvents.map fun gpu => gpu.base.eventId).Nodup →
      (OnlyLive cpuEvents gpuEvents timeWindowNs ↔
        ∀ alloc gpu,
          FirstOfOwner (sortedAllocs cpuEvents) (gpuEvents.filter isTransfer) alloc gpu →
          ¬ Freed cpuEvents alloc gpu)) := by
  have hserved := onlyLive_iff_served cpuEvents gpuEvents timeWindowNs
  refine ⟨hserved, ?_⟩
  intro hids
  have hids' : ((gpuEvents.filter isTransfer).map fun gpu => gpu.base.eventId).Nodup :=
    hids.sublist (List.filter_sublist.map _)
  rw [hserved]
  constructor
  · intro hlive alloc gpu hfirst
    exact hlive (alloc, gpu) ((served_iff_firstOfOwner hids').mpr hfirst)
  · rintro hlive ⟨alloc, gpu⟩ howned
    exact hlive alloc gpu ((served_iff_firstOfOwner hids').mp howned)

theorem only_live_iff_small :
    OnlyLive [allocAt 1 100 4096 64 0, deallocAt 2 140 4096] [transferAt 7 130 4100 0 64] 50 ↔
      ∀ alloc gpu, FirstOfOwner
        (sortedAllocs [allocAt 1 100 4096 64 0, deallocAt 2 140 4096])
        ([transferAt 7 130 4100 0 64].filter isTransfer) alloc gpu →
        ¬ Freed [allocAt 1 100 4096 64 0, deallocAt 2 140 4096] alloc gpu :=
  (only_live_iff _ _ 50).2 (by decide)

/-- An allocation freed before the transfer is matched all the same. -/
theorem freed_allocation_is_matched :
    ¬ ∀ (cpuEvents : List CpuEvent) (gpuEvents : List GpuEvent) (timeWindowNs : ℤ),
      OnlyLive cpuEvents gpuEvents timeWindowNs := by
  intro hclaim
  have hrun : (afterTimestamp [allocAt 1 100 4096 64 0, deallocAt 2 110 4096]
      [transferAt 7 130 4100 0 64] 50).correlated =
      [⟨.address, .ofEvent (allocAt 1 100 4096 64 0), transferAt 7 130 4100 0 64⟩] := by
    decide +kernel
  apply hclaim [allocAt 1 100 4096 64 0, deallocAt 2 110 4096] [transferAt 7 130 4100 0 64] 50
    ⟨.address, .ofEvent (allocAt 1 100 4096 64 0), transferAt 7 130 4100 0 64⟩
  · rw [hrun]
    exact List.mem_singleton.mpr rfl
  · rfl
  · exact ⟨deallocAt 2 110 4096, by simp, by decide, by decide, by decide, by decide⟩

end HpcProfiler.CorrelationOwners
