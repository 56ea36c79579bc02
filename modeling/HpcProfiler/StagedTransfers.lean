import HpcProfiler.CorrelationPasses

/-!
Sessions in which every transfer copies from the start of an allocation of its own.
Such a session is built up by adding an allocation above the others, a transfer of an
allocation that has none yet, or an event that is no transfer. The correlation finds
exactly its pairs in its first pass; the passes by pinned address and by size have
nothing left to do, and the last pass only adds weak matches.
-/

namespace HpcProfiler.StagedTransfers

open Events GreedyChoice Correlation CorrelationLookups CorrelationPasses

def cpuEventId (p : CpuEvent × GpuEvent) : ℤ := p.1.base.eventId

def gpuEventId (p : CpuEvent × GpuEvent) : ℤ := p.2.base.eventId

/-- The allocations in address order, and the pairs of an allocation and its transfer in
the order of the transfers. -/
structure Staged (cpuEvents : List CpuEvent) (gpuEvents : List GpuEvent)
    (pairs : List (CpuEvent × GpuEvent)) : Prop where
  allocs : ∀ a ∈ cpuEvents, isAlloc a = true ∧ 0 < a.allocAddress ∧ 0 < a.allocSizeBytes
  ascending : cpuEvents.Pairwise fun a b => a.allocAddress < b.allocAddress
  transfers : gpuEvents.filter isTransfer = pairs.map Prod.snd
  sources : ∀ p ∈ pairs, p.1 ∈ cpuEvents ∧ p.2.srcAddress = some p.1.allocAddress
  cpuOnce : (pairs.map cpuEventId).Nodup
  gpuOnce : (pairs.map gpuEventId).Nodup

section

variable {cpuEvents : List CpuEvent} {gpuEvents : List GpuEvent}
  {pairs : List (CpuEvent × GpuEvent)}

theorem staged_nil : Staged [] [] [] where
  allocs := by simp
  ascending := List.Pairwise.nil
  transfers := rfl
  sources := by simp
  cpuOnce := List.nodup_nil
  gpuOnce := List.nodup_nil

theorem Staged.addAlloc (h : Staged cpuEvents gpuEvents pairs) {a : CpuEvent}
    (halloc : isAlloc a = true) (hpos : 0 < a.allocAddress) (hsize : 0 < a.allocSizeBytes)
    (habove : ∀ b ∈ cpuEvents, b.allocAddress < a.allocAddress) :
    Staged (cpuEvents ++ [a]) gpuEvents pairs where
  allocs := by
    intro b hb
    rcases List.mem_append.mp hb with hold | hnew
    · exact h.allocs b hold
    · rw [List.mem_singleton.mp hnew]
      exact ⟨halloc, hpos, hsize⟩
  ascending := by
    rw [List.pairwise_append]
    refine ⟨h.ascending, List.pairwise_singleton _ _, ?_⟩
    intro b hb c hc
    rw [List.mem_singleton.mp hc]
    exact habove b hb
  transfers := h.transfers
  sources := by
    intro p hp
    obtain ⟨hmem, hsrc⟩ := h.sources p hp
    exact ⟨List.mem_append_left _ hmem, hsrc⟩
  cpuOnce := h.cpuOnce
  gpuOnce := h.gpuOnce

/-- An id that no pair has can be the id of a new pair. -/
theorem nodup_map_concat {ι : Type*} {key : CpuEvent × GpuEvent → ι}
    {p : CpuEvent × GpuEvent} (honce : (pairs.map key).Nodup)
    (hnew : ∀ q ∈ pairs, key q ≠ key p) : ((pairs ++ [p]).map key).Nodup := by
  rw [List.map_append, List.map_singleton, ← List.concat_eq_append]
  apply honce.concat
  intro hmem
  obtain ⟨q, hq, heq⟩ := List.mem_map.mp hmem
  exact hnew q hq heq

theorem Staged.addTransfer (h : Staged cpuEvents gpuEvents pairs) {a : CpuEvent} {g : GpuEvent}
    (htransfer : isTransfer g = true) (ha : a ∈ cpuEvents)
    (hsrc : g.srcAddress = some a.allocAddress)
    (hcpu : ∀ p ∈ pairs, cpuEventId p ≠ a.base.eventId)
    (hgpu : ∀ p ∈ pairs, gpuEventId p ≠ g.base.eventId) :
    Staged cpuEvents (gpuEvents ++ [g]) (pairs ++ [(a, g)]) where
  allocs := h.allocs
  ascending := h.ascending
  transfers := by
    rw [List.filter_append, List.map_append, h.transfers, List.filter_cons_of_pos htransfer]
    rfl
  sources := by
    intro p hp
    rcases List.mem_append.mp hp with hold | hnew
    · exact h.sources p hold
    · rw [List.mem_singleton.mp hnew]
      exact ⟨ha, hsrc⟩
  cpuOnce := nodup_map_concat h.cpuOnce hcpu
  gpuOnce := nodup_map_concat h.gpuOnce hgpu

theorem Staged.addOther (h : Staged cpuEvents gpuEvents pairs) {g : GpuEvent}
    (hother : isTransfer g = false) : Staged cpuEvents (gpuEvents ++ [g]) pairs where
  allocs := h.allocs
  ascending := h.ascending
  transfers := by
    rw [List.filter_append, h.transfers, List.filter_cons_of_neg (by rw [hother]; simp)]
    exact List.append_nil _
  sources := h.sources
  cpuOnce := h.cpuOnce
  gpuOnce := h.gpuOnce

/-! The first pass. -/

/-- The correlator's list is the list of the allocations, in the order they came. -/
theorem Staged.sortedAllocs_eq (h : Staged cpuEvents gpuEvents pairs) :
    sortedAllocs cpuEvents = cpuEvents.map LiveAlloc.ofEvent := by
  unfold sortedAllocs
  rw [List.filter_eq_self.mpr fun a ha => (h.allocs a ha).1]
  apply List.Pairwise.insertionSort_eq
  rw [List.pairwise_map]
  exact h.ascending.imp fun hlt => le_of_lt hlt

/-- An allocation owns the address that it starts at. -/
theorem owns_start {a : CpuEvent} (ha : a ∈ cpuEvents) (hsize : 0 < a.allocSizeBytes)
    (hascending : cpuEvents.Pairwise fun a b => a.allocAddress < b.allocAddress) :
    Owns (cpuEvents.map LiveAlloc.ofEvent) a.allocAddress (LiveAlloc.ofEvent a) := by
  obtain ⟨before, after, rfl⟩ := List.append_of_mem ha
  rw [List.pairwise_append, List.pairwise_cons] at hascending
  obtain ⟨-, ⟨habove, -⟩, -⟩ := hascending
  refine ⟨before.map LiveAlloc.ofEvent, after.map LiveAlloc.ofEvent, by simp, le_refl _, ?_, ?_⟩
  · show a.allocAddress < a.allocAddress + a.allocSizeBytes
    omega
  · intro other hother
    obtain ⟨b, hb, rfl⟩ := List.mem_map.mp hother
    exact habove b hb

/-- The source address of a transfer leads to its own allocation. -/
theorem Staged.finds (h : Staged cpuEvents gpuEvents pairs) {p : CpuEvent × GpuEvent}
    (hp : p ∈ pairs) :
    findAddressMatch (sortedAllocs cpuEvents) (p.2.srcAddress.getD 0)
      (p.2.dstAddress.getD 0) = some (LiveAlloc.ofEvent p.1) := by
  obtain ⟨hmem, hsrc⟩ := h.sources p hp
  obtain ⟨-, hpos, hsize⟩ := h.allocs p.1 hmem
  have howns := owns_start hmem hsize h.ascending
  rw [← h.sortedAllocs_eq] at howns
  rw [findAddressMatch_iff, hsrc, Option.getD_some]
  exact .inl ⟨ne_of_gt hpos, (binarySearchInterval_iff (sortedAllocs_sorted cpuEvents)).mpr howns⟩

/-- The match of a pair by its address. -/
def addressMatch (p : CpuEvent × GpuEvent) : Match := ⟨.address, LiveAlloc.ofEvent p.1, p.2⟩

/-- Pairs with ids of their own that have not been used are all matched, in order. -/
theorem pass_matches {allocs : List LiveAlloc} {st : MatchState}
    (hfinds : ∀ p ∈ pairs, findAddressMatch allocs (p.2.srcAddress.getD 0)
      (p.2.dstAddress.getD 0) = some (LiveAlloc.ofEvent p.1))
    (hcpuOnce : (pairs.map cpuEventId).Nodup) (hgpuOnce : (pairs.map gpuEventId).Nodup)
    (hcpu : ∀ p ∈ pairs, cpuEventId p ∉ st.matchedCpu)
    (hgpu : ∀ p ∈ pairs, gpuEventId p ∉ st.matchedGpu) :
    (pass (chooseAddress allocs) MatchState.add st (pairs.map Prod.snd)).correlated =
      st.correlated ++ pairs.map addressMatch := by
  induction pairs generalizing st with
  | nil => exact (List.append_nil _).symm
  | cons p rest ih =>
    rw [List.map_cons, List.nodup_cons] at hcpuOnce hgpuOnce
    rw [List.forall_mem_cons] at hfinds hcpu hgpu
    have hchoice : chooseAddress allocs st p.2 = some (addressMatch p) :=
      chooseAddress_iff.mpr ⟨_, hfinds.1, hcpu.1, hgpu.1, rfl⟩
    rw [List.map_cons, pass_cons, step_of_some hchoice,
      ih hfinds.2 hcpuOnce.2 hgpuOnce.2 ?_ ?_]
    · unfold MatchState.add
      rw [List.append_assoc, List.map_cons]
      rfl
    · intro q hq hused
      rcases mem_add_matchedCpu.mp hused with hold | ⟨-, heq⟩
      · exact hcpu.2 q hq hold
      · exact hcpuOnce.1 (List.mem_map.mpr ⟨q, hq, heq.symm⟩)
    · intro q hq hused
      rcases mem_add_matchedGpu.mp hused with hold | heq
      · exact hgpu.2 q hq hold
      · exact hgpuOnce.1 (List.mem_map.mpr ⟨q, hq, heq.symm⟩)

theorem Staged.afterAddress_correlated (h : Staged cpuEvents gpuEvents pairs) :
    (afterAddress cpuEvents gpuEvents).correlated = pairs.map addressMatch := by
  unfold afterAddress
  rw [h.transfers, pass_matches (fun p hp => h.finds hp) h.cpuOnce h.gpuOnce]
  · rfl
  · intro p _
    exact Finset.notMem_empty _
  · intro p _
    exact Finset.notMem_empty _

/-! The passes after it. -/

theorem Staged.transfer_used (h : Staged cpuEvents gpuEvents pairs) {g : GpuEvent}
    (hg : g ∈ gpuEvents.filter isTransfer) :
    g.base.eventId ∈ (afterAddress cpuEvents gpuEvents).matchedGpu := by
  rw [h.transfers] at hg
  obtain ⟨p, hp, rfl⟩ := List.mem_map.mp hg
  rw [(afterAddress_valid cpuEvents gpuEvents 0).gpuIds, h.afterAddress_correlated]
  exact ⟨addressMatch p, List.mem_map_of_mem hp, rfl⟩

theorem Staged.afterPinned_eq (h : Staged cpuEvents gpuEvents pairs) :
    afterPinned cpuEvents gpuEvents = afterAddress cpuEvents gpuEvents := by
  apply pass_of_none
  intro g hg
  unfold choosePinned
  rw [if_pos (h.transfer_used hg)]

theorem Staged.afterSize_eq (h : Staged cpuEvents gpuEvents pairs) (timeWindowNs : ℤ) :
    afterSize cpuEvents gpuEvents timeWindowNs = afterAddress cpuEvents gpuEvents := by
  unfold afterSize
  rw [h.afterPinned_eq]
  apply pass_of_none
  intro g hg
  unfold chooseSize
  rw [if_pos (h.transfer_used hg)]

end

/-- The matches of a later state are those of the earlier one and, behind them, matches of
one kind. -/
def Behind (kind : Pass) (st st' : MatchState) : Prop :=
  ∃ later, st'.correlated = st.correlated ++ later ∧ ∀ m ∈ later, m.found = kind

theorem behind_pass {choose : MatchState → GpuEvent → Option Match} {kind : Pass}
    (hkind : ∀ st gpu m, choose st gpu = some m → m.found = kind) (st : MatchState)
    (bs : List GpuEvent) : Behind kind st (pass choose MatchState.add st bs) := by
  have htake : ∀ s gpu m, gpu ∈ bs → Behind kind st s → choose s gpu = some m →
      Behind kind st (s.add m) := by
    rintro s gpu m - ⟨later, hsplit, hlater⟩ hchoice
    refine ⟨later ++ [m], ?_, ?_⟩
    · rw [← List.append_assoc, ← hsplit]
      rfl
    · intro e he
      rcases List.mem_append.mp he with hold | hnew
      · exact hlater e hold
      · rw [List.mem_singleton.mp hnew]
        exact hkind s gpu m hchoice
  exact pass_invariant htake ⟨[], (List.append_nil _).symm, by simp⟩

theorem behind_afterTimestamp (cpuEvents : List CpuEvent) (gpuEvents : List GpuEvent)
    (timeWindowNs : ℤ) :
    Behind .timestamp (afterSize cpuEvents gpuEvents timeWindowNs)
      (afterTimestamp cpuEvents gpuEvents timeWindowNs) := by
  apply behind_pass
  intro st gpu m hchoice
  obtain ⟨alloc, -, rfl⟩ := chooseTimestamp_iff.mp hchoice
  rfl

/-- A test that the matches by address pass and the last pass's matches fail keeps the
records of the pairs. -/
theorem Staged.filter_records {cpuEvents : List CpuEvent} {gpuEvents : List GpuEvent}
    {pairs : List (CpuEvent × GpuEvent)} (h : Staged cpuEvents gpuEvents pairs)
    (timeWindowNs : ℤ) {keeps : CorrelatedEvent → Bool}
    (haddress : ∀ m : Match, m.found = .address → keeps m.toRecord = true)
    (htimestamp : ∀ m : Match, m.found = .timestamp → keeps m.toRecord = false) :
    (runCorrelation cpuEvents gpuEvents timeWindowNs).filter keeps =
      pairs.map fun p => (addressMatch p).toRecord := by
  obtain ⟨later, hsplit, hlater⟩ := behind_afterTimestamp cpuEvents gpuEvents timeWindowNs
  have hkept : (pairs.map fun p => (addressMatch p).toRecord).filter keeps =
      pairs.map fun p => (addressMatch p).toRecord := by
    apply List.filter_eq_self.mpr
    intro r hr
    obtain ⟨p, -, rfl⟩ := List.mem_map.mp hr
    exact haddress _ rfl
  have hdropped : (later.map Match.toRecord).filter keeps = [] := by
    apply List.filter_eq_nil_iff.mpr
    intro r hr
    obtain ⟨m, hm, rfl⟩ := List.mem_map.mp hr
    rw [htimestamp m (hlater m hm)]
    exact Bool.false_ne_true
  unfold runCorrelation
  rw [hsplit, h.afterSize_eq, h.afterAddress_correlated, List.map_append, List.map_map,
    List.filter_append, hdropped, List.append_nil]
  exact hkept

section

variable {cpuEvents : List CpuEvent} {gpuEvents : List GpuEvent}
  {pairs : List (CpuEvent × GpuEvent)} (h : Staged cpuEvents gpuEvents pairs)
  (timeWindowNs : ℤ)

include h

theorem Staged.address_records :
    ((runCorrelation cpuEvents gpuEvents timeWindowNs).filter fun r =>
      r.matchReason = .addressMatch) = pairs.map fun p => (addressMatch p).toRecord := by
  apply h.filter_records
  · rintro ⟨found, alloc, gpu⟩ rfl
    rfl
  · rintro ⟨found, alloc, gpu⟩ rfl
    rfl

theorem Staged.hard_records :
    ((runCorrelation cpuEvents gpuEvents timeWindowNs).filter fun r =>
      r.confidence = .hard) = pairs.map fun p => (addressMatch p).toRecord := by
  apply h.filter_records
  · rintro ⟨found, alloc, gpu⟩ rfl
    rfl
  · rintro ⟨found, alloc, gpu⟩ rfl
    rfl

end

end HpcProfiler.StagedTransfers
