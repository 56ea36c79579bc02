import HpcProfiler.CorrelationPasses
import HpcProfiler.CorrelatorSession

/-!
Every record of a correlation is justified by the events it was computed from, no GPU
event has two records, and no allocation has two hard ones. A session built while
events keep arriving is sound for its own lists.
-/

namespace HpcProfiler.CorrelationSound

open Events GreedyChoice Correlation CorrelationLookups CorrelationPasses

def srcAddr (g : GpuEvent) : ℤ := g.srcAddress.getD 0

def dstAddr (g : GpuEvent) : ℤ := g.dstAddress.getD 0

def transferSize (g : GpuEvent) : ℤ := g.transferSizeBytes.getD 0

/-- A nonzero address of the transfer lies in the allocation's range or is its pinned
address. -/
def AddressHit (a : CpuEvent) (g : GpuEvent) : Prop :=
  ∃ addr, (addr = srcAddr g ∨ addr = dstAddr g) ∧ addr ≠ 0 ∧
    (a.allocAddress ≤ addr ∧ addr < a.allocAddress + a.allocSizeBytes ∨
      a.pinnedAddress.getD 0 = addr)

/-- The time between a GPU event and a CPU event. -/
def eventGap (g : GpuEvent) (a : CpuEvent) : ℤ :=
  (g.base.timestampNs - a.base.timestampNs).natAbs

/-- What a record's confidence and reason promise of its two events. -/
def ReasonHolds (timeWindowNs : ℤ) (a : CpuEvent) (g : GpuEvent) (r : CorrelatedEvent) : Prop :=
  (r.matchReason = .addressMatch ∧ r.confidence = .hard ∧ isTransfer g = true ∧
      AddressHit a g) ∨
    (r.matchReason = .sizeAndTimestamp ∧ r.confidence = .hard ∧ isTransfer g = true ∧
      transferSize g ≠ 0 ∧ a.allocSizeBytes = transferSize g ∧ eventGap g a ≤ timeWindowNs) ∨
    (r.matchReason = .timestampOnly ∧ r.confidence = .weak ∧ eventGap g a ≤ timeWindowNs)

structure Sound (cpuEvents : List CpuEvent) (gpuEvents : List GpuEvent) (timeWindowNs : ℤ)
    (records : List CorrelatedEvent) : Prop where
  justified : ∀ r ∈ records, ∃ a ∈ cpuEvents, ∃ g ∈ gpuEvents, isAlloc a = true ∧
    r.cpuEventId = a.base.eventId ∧ r.gpuEventId = g.base.eventId ∧
    r.latencyNs = max 0 (g.base.timestampNs - a.base.timestampNs) ∧
    ReasonHolds timeWindowNs a g r
  gpuOnce : (records.map CorrelatedEvent.gpuEventId).Nodup
  hardCpuOnce : ((records.filter fun r => r.confidence = .hard).map
    CorrelatedEvent.cpuEventId).Nodup

section

variable {cpuEvents : List CpuEvent} {gpuEvents : List GpuEvent} {timeWindowNs : ℤ}

theorem reasonHolds {earlier : List Match} {m : Match} {a : CpuEvent}
    (hm : Explained cpuEvents gpuEvents timeWindowNs earlier m)
    (ha : LiveAlloc.ofEvent a = m.alloc) : ReasonHolds timeWindowNs a m.gpu m.toRecord := by
  have hreason := hm.reason
  obtain ⟨found, alloc, gpu⟩ := m
  dsimp only at ha
  subst ha
  cases found with
  | address =>
    obtain ⟨htransfer, hfound⟩ := hreason
    obtain ⟨-, addr, haddr, hne, hle, hlt⟩ :=
      findAddressMatch_mem (sortedAllocs_sorted cpuEvents) hfound
    exact Or.inl ⟨rfl, rfl, htransfer, addr, haddr, hne, Or.inl ⟨hle, hlt⟩⟩
  | pinned =>
    obtain ⟨htransfer, hfound⟩ := hreason
    obtain ⟨-, addr, haddr, hne, hkey⟩ := pinned_mem hfound
    exact Or.inl ⟨rfl, rfl, htransfer, addr, haddr, hne, Or.inr hkey⟩
  | size =>
    obtain ⟨htransfer, hsize, hsame, hwindow, -⟩ := hreason
    exact Or.inr (Or.inl ⟨rfl, rfl, htransfer, hsize, hsame, hwindow⟩)
  | timestamp => exact Or.inr (Or.inr ⟨rfl, rfl, hreason.1⟩)

theorem runCorrelation_sound (hids : (gpuEvents.map fun gpu => gpu.base.eventId).Nodup) :
    Sound cpuEvents gpuEvents timeWindowNs
      (runCorrelation cpuEvents gpuEvents timeWindowNs) := by
  have hvalid := afterTimestamp_valid cpuEvents timeWindowNs hids
  unfold runCorrelation
  generalize (afterTimestamp cpuEvents gpuEvents timeWindowNs) = final at hvalid
  refine ⟨?_, ?_, ?_⟩
  · intro r hr
    obtain ⟨m, hm, rfl⟩ := List.mem_map.mp hr
    obtain ⟨earlier, later, -, hexplained⟩ := hvalid.chronicle.of_mem hm
    obtain ⟨a, ha, halloc, hof⟩ := mem_sortedAllocs.mp hexplained.alloc_mem
    have hreason := reasonHolds hexplained hof
    refine ⟨a, ha, m.gpu, hexplained.gpu_mem, halloc, ?_, rfl, ?_, hreason⟩
    · unfold Match.toRecord makeCorrelated
      rw [← hof]
      rfl
    · unfold Match.toRecord makeCorrelated
      rw [← hof]
      rfl
  · have hnodup := hvalid.chronicle.nodup_keys gpuId (fun _ => true)
      (fun _ _ hm _ e he _ => hm.gpu_new e he)
    rw [List.filter_true] at hnodup
    rw [List.map_map]
    exact hnodup
  · have hnodup := hvalid.chronicle.nodup_keys cpuId isHard
      (fun _ _ hm hhard e he hhard' => hm.cpu_new hhard e he hhard')
    rw [List.filter_map, List.map_map]
    exact hnodup

/-! Every match is written down as a record. -/

theorem mem_runCorrelation {m : Match}
    (hm : m ∈ (afterTimestamp cpuEvents gpuEvents timeWindowNs).correlated) :
    m.toRecord ∈ runCorrelation cpuEvents gpuEvents timeWindowNs :=
  List.mem_map.mpr ⟨m, hm, rfl⟩

/-- The matches of the first three passes become hard records. -/
theorem hard_record {m : Match}
    (hm : m ∈ (afterSize cpuEvents gpuEvents timeWindowNs).correlated) :
    m.toRecord ∈ runCorrelation cpuEvents gpuEvents timeWindowNs ∧
      m.toRecord.confidence = .hard := by
  obtain ⟨hfinal, hhard⟩ := (hard_iff cpuEvents gpuEvents timeWindowNs).mpr hm
  exact ⟨mem_runCorrelation hfinal, of_decide_eq_true hhard⟩

/-- The matches of the first two passes become records by address. -/
theorem address_record {m : Match} (hm : m ∈ (afterPinned cpuEvents gpuEvents).correlated) :
    m.toRecord ∈ runCorrelation cpuEvents gpuEvents timeWindowNs ∧
      m.toRecord.matchReason = .addressMatch := by
  obtain ⟨hfinal, hreason⟩ := (address_iff cpuEvents gpuEvents timeWindowNs).mpr hm
  exact ⟨mem_runCorrelation hfinal, hreason⟩

end

/-- The correlation of any lists with distinct GPU event ids is sound for them, and so
is every session that a call of `build_session` returns, however the appends of the
drain threads fall between its steps. -/
theorem correlation_sound :
    (∀ (cpuEvents : List CpuEvent) (gpuEvents : List GpuEvent) (timeWindowNs : ℤ),
      (gpuEvents.map fun gpu => gpu.base.eventId).Nodup →
      Sound cpuEvents gpuEvents timeWindowNs
        (runCorrelation cpuEvents gpuEvents timeWindowNs)) ∧
    ∀ (timeWindow : ℤ) (cpuEvents : List CpuEvent) (gpuEvents : List GpuEvent)
      (actions : List CorrelatorSession.Action) (s : CorrelatorSession.CorrelatorState)
      (session : CorrelatorSession.Session),
      StepSystem.run CorrelatorSession.step
        (CorrelatorSession.start timeWindow cpuEvents gpuEvents) actions = some s →
      s.call = .returned session →
      (session.gpuEvents.map fun gpu => gpu.base.eventId).Nodup →
      Sound session.cpuEvents session.gpuEvents timeWindow session.correlatedEvents := by
  constructor
  · intro cpuEvents gpuEvents timeWindowNs hids
    exact runCorrelation_sound hids
  · intro timeWindow cpuEvents gpuEvents actions s session hrun hreturn hids
    obtain ⟨-, -, hcorrelated⟩ := CorrelatorSession.run_session hrun hreturn
    rw [hcorrelated]
    exact runCorrelation_sound hids

/-- One allocation, with a transfer from it and a later one to elsewhere, correlated
at once and in a session built while the second transfer arrives. -/
theorem correlation_sound_small :
    Sound [allocAt 1 100 4096 64 0] [transferAt 7 130 4100 0 64, transferAt 8 140 9000 0 64] 50
        (runCorrelation [allocAt 1 100 4096 64 0]
          [transferAt 7 130 4100 0 64, transferAt 8 140 9000 0 64] 50) ∧
      Sound [allocAt 1 100 4096 64 0] [transferAt 7 130 4100 0 64] 50
        (runCorrelation [allocAt 1 100 4096 64 0] [transferAt 7 130 4100 0 64] 50) :=
  ⟨correlation_sound.1 _ _ 50 (by decide),
    correlation_sound.2 50 [allocAt 1 100 4096 64 0] []
      [.appendGpu (transferAt 7 130 4100 0 64), .buildSession, .buildSession, .buildSession,
        .buildSession, .appendGpu (transferAt 8 140 9000 0 64), .buildSession]
      _ ⟨_, _, _⟩ rfl rfl (by decide)⟩

end HpcProfiler.CorrelationSound
