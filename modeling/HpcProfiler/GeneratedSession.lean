import HpcProfiler.MockSession
import HpcProfiler.SessionSchema

/-!
The sessions of the generator against the schema. Whatever is drawn between the bounds, a
session conforms to the schema, its event ids count from one without a gap, and every
hard match that is written down names an allocation and a transfer of the session. Its
latency leaves out the step of the clock between the two: it is always that much short of
the difference of the timestamps.
-/

namespace HpcProfiler.GeneratedSession

open Correlation CorrelatorLifecycle Events MockSession SessionSchema

/-- What is drawn lies between the bounds that are asked for. -/
def Bounded {σ F : Type*} (rng : Rng σ F) : Prop :=
  ∀ low high s, low ≤ high →
    low ≤ (rng.randint low high s).1 ∧ (rng.randint low high s).1 ≤ high

def cpuIds (events : List CpuEvent) : List ℤ := events.map fun e => e.base.eventId

def gpuIds (events : List GpuEvent) : List ℤ := events.map fun e => e.base.eventId

/-- The numbers from one to n. -/
def firstIds (n : ℕ) : List ℤ := (List.range n).map fun i : ℕ => (i : ℤ) + 1

/-- A record of a transfer of the memory of an allocation. -/
structure Planned (cpuEvents : List CpuEvent) (gpuEvents : List GpuEvent)
    (r : CorrelatedEvent) : Prop where
  events : ∃ c ∈ cpuEvents, ∃ g ∈ gpuEvents, c.base.eventId = r.cpuEventId ∧
    g.base.eventId = r.gpuEventId ∧ g.srcAddress = some c.allocAddress ∧
    g.transferSizeBytes = some c.allocSizeBytes ∧
    g.base.timestampNs - c.base.timestampNs = r.latencyNs + 5000
  latency : 100000 ≤ r.latencyNs ∧ r.latencyNs ≤ 2000000

/-- What the loops keep: the events conform, and n of them have been numbered. -/
structure Generated {σ : Type*} (s : Mock σ) (n : ℕ) : Prop where
  eid : s.eid = n + 1
  tsCpu : 0 ≤ s.tsCpu
  cpu : ∀ e ∈ s.cpuEvents, CpuConforms e
  gpu : ∀ e ∈ s.gpuEvents, GpuConforms e
  ids : (cpuIds s.cpuEvents ++ gpuIds s.gpuEvents).Perm (firstIds n)
  records : ∀ r ∈ s.correlatedEvents, Planned s.cpuEvents s.gpuEvents r

theorem firstIds_succ (n : ℕ) : firstIds (n + 1) = firstIds n ++ [(n : ℤ) + 1] := by
  rw [firstIds, List.range_succ, List.map_append]
  rfl

theorem Planned.mono {cpuEvents cpuEvents' : List CpuEvent} {gpuEvents gpuEvents' : List GpuEvent}
    {r : CorrelatedEvent} (h : Planned cpuEvents gpuEvents r)
    (hcpu : ∀ c ∈ cpuEvents, c ∈ cpuEvents') (hgpu : ∀ g ∈ gpuEvents, g ∈ gpuEvents') :
    Planned cpuEvents' gpuEvents' r := by
  obtain ⟨c, hc, g, hg, hrest⟩ := h.events
  exact ⟨⟨c, hcpu c hc, g, hgpu g hg, hrest⟩, h.latency⟩

theorem base_conforms {eid ts : ℤ} {etype : String} (heid : 0 ≤ eid) (hts : 0 ≤ ts)
    (htype : etype ∈ eventTypeEnum) : BaseEvent (base eid ts etype) :=
  ⟨heid, hts, Int.one_nonneg, Int.one_nonneg, htype⟩

theorem cpuAlloc_conforms {eid ts addr size pinned : ℤ} (heid : 0 ≤ eid) (hts : 0 ≤ ts)
    (haddr : 0 ≤ addr) (hsize : 0 ≤ size) (hpinned : 0 ≤ pinned) (dtype : String) :
    CpuConforms (cpuAlloc eid ts addr size pinned none dtype) where
  base := base_conforms heid hts (by decide)
  allocAddress := haddr
  allocSizeBytes := hsize
  moduleName := rfl
  refCount := (by decide : (0 : ℤ) ≤ 2)
  gcGeneration := (by decide : (-1 : ℤ) ≤ 0 ∧ (0 : ℤ) ≤ 2)
  isDealloc := rfl
  peakRssKb := ⟨1024, rfl, by decide⟩
  lifetimeNs := ⟨0, rfl, le_refl _⟩
  isNumpyBuffer := rfl
  bufferNbytes := by
    refine ⟨_, rfl, ?_⟩
    split
    · exact le_refl _
    · exact hsize
  parentAddress := ⟨0, rfl, le_refl _⟩
  pinnedAddress := ⟨pinned, rfl, hpinned⟩
  tracemallocSize := ⟨size, rfl, hsize⟩
  arrayShape := by
    refine ⟨[size / 4], rfl, ?_⟩
    intro v hv
    rw [List.mem_singleton.mp hv]
    omega
  arrayDtype := rfl

theorem gpuTransfer_conforms {eid ts src size : ℤ} (heid : 0 ≤ eid) (hts : 0 ≤ ts)
    (hsrc : 0 ≤ src) (hsize : 0 ≤ size) :
    GpuConforms (gpuTransfer eid ts src size "HOST_TO_DEVICE") where
  base := base_conforms heid hts (by decide)
  deviceId := le_refl _
  srcAddress := ⟨src, rfl, hsrc⟩
  dstAddress := ⟨0, rfl, le_refl _⟩
  transferSizeBytes := ⟨size, rfl, hsize⟩
  transferKind := List.mem_cons_self ..
  umPageFaults := le_refl _
  kernelDurationNs := le_refl _
  streamId := le_refl _
  deviceMemUsedMb := le_refl _
  umBytesHtod := hsize
  umBytesDtoh := le_refl _
  grid := ⟨le_refl _, le_refl _, le_refl _⟩
  block := ⟨le_refl _, le_refl _, le_refl _⟩
  registersPerThread := le_refl _
  sharedMemBytes := le_refl _
  correlationId := heid

theorem gpuKernel_conforms {eid ts : ℤ} (heid : 0 ≤ eid) (hts : 0 ≤ ts) (name : String) :
    GpuConforms (gpuKernel eid ts name) where
  base := base_conforms heid hts (by decide)
  deviceId := le_refl _
  srcAddress := ⟨0, rfl, le_refl _⟩
  dstAddress := ⟨0, rfl, le_refl _⟩
  transferSizeBytes := ⟨0, rfl, le_refl _⟩
  transferKind := List.mem_cons_self ..
  umPageFaults := le_refl _
  kernelDurationNs := (by decide : (0 : ℤ) ≤ 50000)
  streamId := le_refl _
  deviceMemUsedMb := le_refl _
  umBytesHtod := le_refl _
  umBytesDtoh := le_refl _
  grid := ⟨(by decide : (0 : ℤ) ≤ 128), Int.one_nonneg, Int.one_nonneg⟩
  block := ⟨(by decide : (0 : ℤ) ≤ 256), Int.one_nonneg, Int.one_nonneg⟩
  registersPerThread := (by decide : (0 : ℤ) ≤ 32)
  sharedMemBytes := (by decide : (0 : ℤ) ≤ 4096)
  correlationId := heid

section

variable {σ F : Type*} {rng : Rng σ F} {s : Mock σ} {n : ℕ}

theorem generated_start (rng : Rng σ F) (seed : ℤ) : Generated (start rng seed) 0 where
  eid := rfl
  tsCpu := (by decide : (0 : ℤ) ≤ 1000000)
  cpu := List.forall_mem_nil _
  gpu := List.forall_mem_nil _
  ids := List.Perm.refl _
  records := List.forall_mem_nil _

theorem Generated.draw (h : Generated s n) (drawn : σ) :
    Generated { s with rng := drawn } n :=
  ⟨h.eid, h.tsCpu, h.cpu, h.gpu, h.ids, h.records⟩

theorem Generated.addAlloc (h : Generated s n) (i : ℕ) :
    Generated (MockSession.addAlloc s i) (n + 1) := by
  have haddr := addrAt_pos i
  have heid := h.eid
  constructor
  · change s.eid + 1 = _
    omega
  · have htime := h.tsCpu
    change 0 ≤ s.tsCpu + 5000
    omega
  · intro e he
    rcases List.mem_append.mp he with hold | hnew
    · exact h.cpu e hold
    · rw [List.mem_singleton.mp hnew]
      exact cpuAlloc_conforms (by omega) h.tsCpu (by omega) (by decide) (by omega) _
  · exact h.gpu
  · rw [firstIds_succ, ← heid]
    change (cpuIds (s.cpuEvents ++ [_]) ++ gpuIds s.gpuEvents).Perm _
    rw [cpuIds, List.map_append, List.append_assoc]
    refine (List.Perm.append_left _ List.perm_append_comm).trans ?_
    rw [← List.append_assoc]
    exact h.ids.append_right _
  · intro r hr
    exact (h.records r hr).mono (fun c hc => List.mem_append_left _ hc) fun g hg => hg

theorem ids_concat_gpu {cpuEvents : List CpuEvent} {gpuEvents : List GpuEvent}
    (h : (cpuIds cpuEvents ++ gpuIds gpuEvents).Perm (firstIds n)) {g : GpuEvent}
    (hg : g.base.eventId = n + 1) :
    (cpuIds cpuEvents ++ gpuIds (gpuEvents ++ [g])).Perm (firstIds (n + 1)) := by
  rw [firstIds_succ, ← hg, gpuIds, List.map_append, ← List.append_assoc]
  exact h.append_right _

/-- The transfer follows its allocation by the time that is drawn. -/
theorem Generated.addTransfer (h : Generated s n) (hrng : Bounded rng) {c : CpuEvent}
    (hc : c ∈ s.cpuEvents) {i : ℕ} (haddr : c.allocAddress = addrAt i)
    (hsize : c.allocSizeBytes = allocSize) (htime : s.tsCpu = c.base.timestampNs + 5000) :
    Generated (MockSession.addTransfer rng s c.base.eventId i) (n + 1) := by
  have hpos := addrAt_pos i
  have heid := h.eid
  have hnow := h.tsCpu
  obtain ⟨hlow, hhigh⟩ := hrng 100000 2000000 s.rng (by decide)
  constructor
  · change s.eid + 1 = _
    omega
  · exact h.tsCpu
  · exact h.cpu
  · intro e he
    rcases List.mem_append.mp he with hold | hnew
    · exact h.gpu e hold
    · rw [List.mem_singleton.mp hnew]
      have hlater := Int.add_nonneg hnow ((by decide : (0 : ℤ) ≤ 100000).trans hlow)
      exact gpuTransfer_conforms (by omega) hlater (by omega) (by decide)
  · exact ids_concat_gpu h.ids heid
  · intro r hr
    rcases List.mem_append.mp hr with hold | hnew
    · exact (h.records r hold).mono (fun c hc => hc) fun g hg => List.mem_append_left _ hg
    · rw [List.mem_singleton.mp hnew]
      constructor
      · refine ⟨c, hc, _, List.mem_append_right _ (List.mem_singleton_self _), rfl, rfl,
          ?_, ?_, ?_⟩
        · rw [haddr]
          rfl
        · rw [hsize]
          rfl
        · change s.tsCpu + (rng.randint 100000 2000000 s.rng).1 - c.base.timestampNs =
            s.tsCpu + (rng.randint 100000 2000000 s.rng).1 - s.tsCpu + 5000
          omega
      · change 100000 ≤ s.tsCpu + (rng.randint 100000 2000000 s.rng).1 - s.tsCpu ∧
          s.tsCpu + (rng.randint 100000 2000000 s.rng).1 - s.tsCpu ≤ 2000000
        omega

theorem Generated.addKernel (h : Generated s n) (i : ℕ) :
    Generated (MockSession.addKernel s i) (n + 1) := by
  have heid := h.eid
  constructor
  · change s.eid + 1 = _
    omega
  · exact h.tsCpu
  · exact h.cpu
  · intro e he
    rcases List.mem_append.mp he with hold | hnew
    · exact h.gpu e hold
    · rw [List.mem_singleton.mp hnew]
      exact gpuKernel_conforms (by omega) (by omega) _
  · exact ids_concat_gpu h.ids heid
  · intro r hr
    exact (h.records r hr).mono (fun c hc => hc) fun g hg => List.mem_append_left _ hg

variable [LT F] [DecidableLT F]

theorem Generated.addPair (h : Generated s n) (hrng : Bounded rng) (hardMatchRate : F) (i : ℕ) :
    ∃ n', Generated (MockSession.addPair rng hardMatchRate s i) n' := by
  have hdrawn := (h.addAlloc i).draw (rng.random (MockSession.addAlloc s i).rng).2
  unfold MockSession.addPair
  dsimp only
  by_cases hmatch : (rng.random (MockSession.addAlloc s i).rng).1 < hardMatchRate
  · rw [if_pos hmatch]
    have hnew := List.mem_append_right s.cpuEvents (List.mem_singleton_self
      (cpuAlloc s.eid s.tsCpu (addrAt i) allocSize (addrAt i + 0x40000000) none "float32"))
    exact ⟨_, hdrawn.addTransfer hrng hnew rfl rfl rfl⟩
  · rw [if_neg hmatch]
    exact ⟨_, hdrawn⟩

theorem generated_generated (hrng : Bounded rng) (nAllocPairs : ℤ) (hardMatchRate : F)
    (seed : ℤ) : ∃ n, Generated (generated rng nAllocPairs hardMatchRate seed) n := by
  have hpairs : ∀ m : ℕ, ∃ n, Generated ((List.range m).foldl (addPair rng hardMatchRate)
      (start rng seed)) n := by
    intro m
    induction m with
    | zero => exact ⟨0, generated_start rng seed⟩
    | succ m ih =>
      obtain ⟨n, hn⟩ := ih
      rw [List.range_succ, List.foldl_append]
      exact hn.addPair hrng hardMatchRate m
  unfold generated
  generalize (min 20 (nAllocPairs / 5)).toNat = k
  induction k with
  | zero => exact hpairs nAllocPairs.toNat
  | succ k ih =>
    obtain ⟨n, hn⟩ := ih
    rw [List.range_succ, List.foldl_append]
    exact ⟨n + 1, hn.addKernel k⟩

/-- Every generated session conforms to the schema, has the ids from one to the number of
its events, and records transfers of its own events only. -/
theorem generated_sessions_conform (hrng : Bounded rng) (nAllocPairs : ℤ) (hardMatchRate : F)
    (seed : ℤ) (sessionId : String) (now : ℕ) :
    let session := generateSession rng nAllocPairs hardMatchRate seed sessionId now
    SessionConforms session ∧
    (cpuIds session.cpuEvents ++ gpuIds session.gpuEvents).Perm
      (firstIds (session.cpuEvents.length + session.gpuEvents.length)) ∧
    ∀ r ∈ session.correlatedEvents, Planned session.cpuEvents session.gpuEvents r := by
  intro session
  obtain ⟨n, h⟩ := generated_generated hrng nAllocPairs hardMatchRate seed
  have hlength : n = session.cpuEvents.length + session.gpuEvents.length := by
    have hperm := h.ids.length_eq
    rw [List.length_append, cpuIds, gpuIds, firstIds, List.length_map, List.length_map,
      List.length_map, List.length_range] at hperm
    exact hperm.symm
  refine ⟨⟨h.cpu, h.gpu, ?_⟩, ?_, h.records⟩
  · intro r hr
    have hlatency := (h.records r hr).latency.1
    omega
  · rw [← hlength]
    exact h.ids

end

theorem generated_sessions_conform_counting : Bounded counting ∧
    SessionConforms (generateSession counting 3 2 0 "" 0) := by
  have hbounded : Bounded counting := fun low high s h => ⟨le_refl _, h⟩
  exact ⟨hbounded, (generated_sessions_conform hbounded 3 2 0 "" 0).1⟩

end HpcProfiler.GeneratedSession
