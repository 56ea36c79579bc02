import HpcProfiler.CorrelatorLifecycle
import HpcProfiler.StagedTransfers

/-!
The generator of synthetic sessions, `generate_session`, and what the correlation makes
of its events. The random numbers are a parameter: any state that can be seeded and
drawn from. The generator writes down the hard matches that it plants while it goes;
the sessions that it builds are staged after every round, so the correlation finds
those matches and no other hard one, whatever is drawn.
-/

namespace HpcProfiler.MockSession

open Events Correlation CorrelatorLifecycle StagedTransfers

/-- A random number generator with states `σ`, whose `random` draws from `F`. -/
structure Rng (σ F : Type*) where
  seeded : ℤ → σ
  random : σ → F × σ
  randint : ℤ → ℤ → σ → ℤ × σ

def base (eid ts : ℤ) (etype : String) : Base where
  eventId := eid
  timestampNs := ts
  processId := 1
  threadId := 1
  eventType := etype

/-- A shape that is missing or empty is made up from the size. -/
def shapeOr (shape : Option (List ℤ)) (size : ℤ) : List ℤ :=
  match shape with
  | some (dim :: dims) => dim :: dims
  | _ => [size / 4]

def cpuAlloc (eid ts addr size pinned : ℤ) (shape : Option (List ℤ)) (dtype : String) :
    CpuEvent where
  base := base eid ts "ALLOC"
  allocAddress := addr
  allocSizeBytes := size
  objectType := "numpy.ndarray"
  refCount := 2
  gcGeneration := 0
  isDealloc := some false
  callstack := ["workload.py:" ++ toString (eid % 50 + 1)]
  moduleName := some "numpy"
  peakRssKb := some 1024
  lifetimeNs := some 0
  isNumpyBuffer := some (pinned ≠ 0)
  bufferNbytes := some (if pinned = 0 then 0 else size)
  parentAddress := some 0
  pinnedAddress := some pinned
  tracemallocSize := some size
  arrayShape := some (shapeOr shape size)
  arrayDtype := some dtype

def gpuTransfer (eid ts src size : ℤ) (kind : String) : GpuEvent where
  base := base eid ts "TRANSFER"
  deviceId := 0
  srcAddress := some src
  dstAddress := some 0
  transferSizeBytes := some size
  transferKind := kind
  umPageFaults := 0
  kernelName := ""
  kernelDurationNs := 0
  streamId := 0
  deviceMemUsedMb := 0
  umBytesHtod := if kind = "HOST_TO_DEVICE" then size else 0
  umBytesDtoh := if kind = "HOST_TO_DEVICE" then 0 else size
  grid := ⟨0, 0, 0⟩
  block := ⟨0, 0, 0⟩
  registersPerThread := 0
  sharedMemBytes := 0
  correlationId := eid

def gpuKernel (eid ts : ℤ) (name : String) : GpuEvent where
  base := base eid ts "KERNEL"
  deviceId := 0
  srcAddress := some 0
  dstAddress := some 0
  transferSizeBytes := some 0
  transferKind := "HOST_TO_DEVICE"
  umPageFaults := 0
  kernelName := name
  kernelDurationNs := 50000
  streamId := 0
  deviceMemUsedMb := 0
  umBytesHtod := 0
  umBytesDtoh := 0
  grid := ⟨128, 1, 1⟩
  block := ⟨256, 1, 1⟩
  registersPerThread := 32
  sharedMemBytes := 4096
  correlationId := eid

def baseAddr : ℤ := 0x10000000

def allocSize : ℤ := 4096

/-- The address of the allocation of a round. -/
def addrAt (i : ℕ) : ℤ := baseAddr + i * allocSize * 2

def kernels : List String := ["volta_sgemm_128x64", "relu_forward", "batch_norm_bwd"]

/-- The generator's local variables. -/
structure Mock (σ : Type*) where
  rng : σ
  eid : ℤ
  tsCpu : ℤ
  cpuEvents : List CpuEvent
  gpuEvents : List GpuEvent
  correlatedEvents : List CorrelatedEvent

section

variable {σ F : Type*} (rng : Rng σ F)

def start (seed : ℤ) : Mock σ where
  rng := rng.seeded seed
  eid := 1
  tsCpu := 1000000
  cpuEvents := []
  gpuEvents := []
  correlatedEvents := []

/-- The first half of a round: an allocation with a synthetic buffer pointer. -/
def addAlloc (s : Mock σ) (i : ℕ) : Mock σ :=
  { s with
    eid := s.eid + 1
    tsCpu := s.tsCpu + 5000
    cpuEvents := s.cpuEvents ++
      [cpuAlloc s.eid s.tsCpu (addrAt i) allocSize (addrAt i + 0x40000000) none "float32"] }

/-- The second half, for an allocation that gets a transfer: the transfer, and the hard
match that is known from it. -/
def addTransfer (s : Mock σ) (cpuEid : ℤ) (i : ℕ) : Mock σ :=
  let (delay, drawn) := rng.randint 100000 2000000 s.rng
  let tsGpu := s.tsCpu + delay
  { s with
    rng := drawn
    eid := s.eid + 1
    gpuEvents := s.gpuEvents ++
      [gpuTransfer s.eid tsGpu (addrAt i) allocSize "HOST_TO_DEVICE"]
    correlatedEvents := s.correlatedEvents ++
      [{ cpuEventId := cpuEid
         gpuEventId := s.eid
         confidence := .hard
         matchReason := .addressMatch
         latencyNs := tsGpu - s.tsCpu }] }

variable [LT F] [DecidableLT F]

def addPair (hardMatchRate : F) (s : Mock σ) (i : ℕ) : Mock σ :=
  let allocated := addAlloc s i
  let (draw, drawn) := rng.random allocated.rng
  if draw < hardMatchRate then addTransfer rng { allocated with rng := drawn } s.eid i
  else { allocated with rng := drawn }

omit [LT F] [DecidableLT F] in
def addKernel (s : Mock σ) (i : ℕ) : Mock σ :=
  { s with
    eid := s.eid + 1
    gpuEvents := s.gpuEvents ++
      [gpuKernel s.eid (1000000 + i * 100000)
        (kernels.get ⟨i % 3, Nat.mod_lt i (by decide)⟩)] }

/-- The loop over the allocations; a negative number of them is an empty range. -/
def pairLoop (nAllocPairs : ℤ) (hardMatchRate : F) (seed : ℤ) : Mock σ :=
  (List.range nAllocPairs.toNat).foldl (addPair rng hardMatchRate) (start rng seed)

/-- The loops over the allocations and the kernels. -/
def generated (nAllocPairs : ℤ) (hardMatchRate : F) (seed : ℤ) : Mock σ :=
  (List.range (min 20 (nAllocPairs / 5)).toNat).foldl addKernel
    (pairLoop rng nAllocPairs hardMatchRate seed)

def generateSession (nAllocPairs : ℤ) (hardMatchRate : F) (seed : ℤ) (sessionId : String)
    (now : ℕ) : ProfilingSession where
  sessionId := sessionId
  schemaVersion := "0.1"
  startTimeNs := now
  endTimeNs := now + 10000000
  cpuEvents := (generated rng nAllocPairs hardMatchRate seed).cpuEvents
  gpuEvents := (generated rng nAllocPairs hardMatchRate seed).gpuEvents
  correlatedEvents := (generated rng nAllocPairs hardMatchRate seed).correlatedEvents

end

/-! What the loops keep. -/

def recordIds (r : CorrelatedEvent) : ℤ × ℤ := (r.cpuEventId, r.gpuEventId)

def pairIds (p : CpuEvent × GpuEvent) : ℤ × ℤ := (cpuEventId p, gpuEventId p)

/-- Before a round: the events are staged below the address of the round, their ids have
been counted past, and the pairs are written down as hard matches. -/
structure Planted {σ : Type*} (i : ℕ) (s : Mock σ) (pairs : List (CpuEvent × GpuEvent)) :
    Prop where
  staged : Staged s.cpuEvents s.gpuEvents pairs
  below : ∀ a ∈ s.cpuEvents, a.allocAddress < addrAt i
  cpuCounted : ∀ p ∈ pairs, cpuEventId p < s.eid
  gpuCounted : ∀ p ∈ pairs, gpuEventId p < s.eid
  noted : s.correlatedEvents.map recordIds = pairs.map pairIds
  hard : ∀ r ∈ s.correlatedEvents, r.confidence = .hard

theorem allocSize_pos : 0 < allocSize := by decide

theorem addrAt_pos (i : ℕ) : 0 < addrAt i := by
  unfold addrAt baseAddr allocSize
  omega

theorem addrAt_lt_succ (i : ℕ) : addrAt i < addrAt (i + 1) := by
  unfold addrAt baseAddr allocSize
  omega

section

variable {σ F : Type*} (rng : Rng σ F) {i : ℕ} {s : Mock σ} {pairs : List (CpuEvent × GpuEvent)}

theorem start_planted (seed : ℤ) : Planted 0 (start rng seed) [] where
  staged := staged_nil
  below := by simp [start]
  cpuCounted := by simp
  gpuCounted := by simp
  noted := rfl
  hard := by simp [start]

/-- The random state is no part of what is planted. -/
theorem Planted.draw (h : Planted i s pairs) (drawn : σ) :
    Planted i { s with rng := drawn } pairs :=
  ⟨h.staged, h.below, h.cpuCounted, h.gpuCounted, h.noted, h.hard⟩

theorem Planted.addAlloc (h : Planted i s pairs) :
    Planted (i + 1) (MockSession.addAlloc s i) pairs where
  staged := h.staged.addAlloc rfl (addrAt_pos i) allocSize_pos h.below
  below := by
    have hnext := addrAt_lt_succ i
    intro a ha
    rcases List.mem_append.mp ha with hold | hnew
    · exact (h.below a hold).trans hnext
    · rw [List.mem_singleton.mp hnew]
      exact hnext
  cpuCounted := fun p hp => (h.cpuCounted p hp).trans (Int.lt_succ s.eid)
  gpuCounted := fun p hp => (h.gpuCounted p hp).trans (Int.lt_succ s.eid)
  noted := h.noted
  hard := h.hard

/-- An allocation that came after all the pairs can be given a transfer. -/
theorem Planted.addTransfer {j : ℕ} (h : Planted j s pairs) {a : CpuEvent}
    (ha : a ∈ s.cpuEvents) (haddr : a.allocAddress = addrAt i)
    (hcounted : a.base.eventId < s.eid) (hlast : ∀ p ∈ pairs, cpuEventId p < a.base.eventId) :
    ∃ g, Planted j (MockSession.addTransfer rng s a.base.eventId i) (pairs ++ [(a, g)]) := by
  have hcpu : ∀ p ∈ pairs, cpuEventId p ≠ a.base.eventId := fun p hp => ne_of_lt (hlast p hp)
  have hgpu : ∀ p ∈ pairs, gpuEventId p ≠ s.eid := fun p hp => ne_of_lt (h.gpuCounted p hp)
  refine ⟨_, h.staged.addTransfer rfl ha (congrArg some haddr.symm) hcpu hgpu, h.below, ?_, ?_,
    ?_, ?_⟩
  · intro p hp
    rcases List.mem_append.mp hp with hold | hnew
    · exact (h.cpuCounted p hold).trans (Int.lt_succ s.eid)
    · rw [List.mem_singleton.mp hnew]
      exact hcounted.trans (Int.lt_succ s.eid)
  · intro p hp
    rcases List.mem_append.mp hp with hold | hnew
    · exact (h.gpuCounted p hold).trans (Int.lt_succ s.eid)
    · rw [List.mem_singleton.mp hnew]
      exact Int.lt_succ s.eid
  · show (s.correlatedEvents ++ _).map recordIds = _
    rw [List.map_append, List.map_append, h.noted]
    rfl
  · intro r hr
    rcases List.mem_append.mp hr with hold | hnew
    · exact h.hard r hold
    · rw [List.mem_singleton.mp hnew]

theorem Planted.addKernel (h : Planted i s pairs) (k : ℕ) :
    Planted i (MockSession.addKernel s k) pairs where
  staged := h.staged.addOther rfl
  below := h.below
  cpuCounted := fun p hp => (h.cpuCounted p hp).trans (Int.lt_succ s.eid)
  gpuCounted := fun p hp => (h.gpuCounted p hp).trans (Int.lt_succ s.eid)
  noted := h.noted
  hard := h.hard

variable [LT F] [DecidableLT F]

/-- One round of the loop over the allocations. -/
theorem Planted.addPair (h : Planted i s pairs) (hardMatchRate : F) :
    ∃ pairs', Planted (i + 1) (MockSession.addPair rng hardMatchRate s i) pairs' := by
  have hdrawn := h.addAlloc.draw (rng.random (MockSession.addAlloc s i).rng).2
  unfold MockSession.addPair
  dsimp only
  by_cases hmatch : (rng.random (MockSession.addAlloc s i).rng).1 < hardMatchRate
  · rw [if_pos hmatch]
    obtain ⟨g, hpaired⟩ := hdrawn.addTransfer (i := i) rng
      (List.mem_append_right _ (List.mem_singleton.mpr rfl)) rfl (Int.lt_succ s.eid) h.cpuCounted
    exact ⟨_, hpaired⟩
  · rw [if_neg hmatch]
    exact ⟨pairs, hdrawn⟩

theorem pairLoop_planted (nAllocPairs : ℤ) (hardMatchRate : F) (seed : ℤ) :
    ∃ pairs, Planted nAllocPairs.toNat (pairLoop rng nAllocPairs hardMatchRate seed) pairs := by
  unfold pairLoop
  generalize nAllocPairs.toNat = n
  induction n with
  | zero => exact ⟨[], start_planted rng seed⟩
  | succ n ih =>
    obtain ⟨pairs, hplanted⟩ := ih
    rw [List.range_succ, List.foldl_append]
    exact hplanted.addPair rng hardMatchRate

theorem generated_planted (nAllocPairs : ℤ) (hardMatchRate : F) (seed : ℤ) :
    ∃ pairs, Planted nAllocPairs.toNat (generated rng nAllocPairs hardMatchRate seed) pairs := by
  obtain ⟨pairs, hplanted⟩ := pairLoop_planted rng nAllocPairs hardMatchRate seed
  refine ⟨pairs, ?_⟩
  unfold generated
  generalize (min 20 (nAllocPairs / 5)).toNat = n
  induction n with
  | zero => exact hplanted
  | succ n ih =>
    rw [List.range_succ, List.foldl_append]
    exact ih.addKernel n

/-- The hard matches of a list of records, by the ids of their events. -/
def hardPairs (records : List CorrelatedEvent) : List (ℤ × ℤ) :=
  (records.filter fun r => r.confidence = .hard).map recordIds

/-- The records that a transfer's address explains, by the ids of their events. -/
def addressPairs (records : List CorrelatedEvent) : List (ℤ × ℤ) :=
  (records.filter fun r => r.matchReason = .addressMatch).map recordIds

theorem Planted.hardPairs_eq (h : Planted i s pairs) :
    hardPairs s.correlatedEvents = pairs.map pairIds := by
  unfold hardPairs
  rw [List.filter_eq_self.mpr fun r hr => decide_eq_true (h.hard r hr), h.noted]

/-- The correlation of a session's events finds the hard matches that the session was made
with, in their order and by their addresses, and no other hard match. -/
structure Recovers (session : ProfilingSession) (timeWindowNs : ℤ) : Prop where
  pairs : addressPairs (runCorrelation session.cpuEvents session.gpuEvents timeWindowNs) =
    hardPairs session.correlatedEvents
  hard : ∀ r ∈ runCorrelation session.cpuEvents session.gpuEvents timeWindowNs,
    r.confidence = .hard ↔ r.matchReason = .addressMatch

theorem generated_recovered (nAllocPairs : ℤ) (hardMatchRate : F) (seed : ℤ)
    (sessionId : String) (now : ℕ) (timeWindowNs : ℤ) :
    Recovers (generateSession rng nAllocPairs hardMatchRate seed sessionId now)
      timeWindowNs := by
  obtain ⟨pairs, hplanted⟩ := generated_planted rng nAllocPairs hardMatchRate seed
  generalize hsession : generateSession rng nAllocPairs hardMatchRate seed sessionId now = session
  have hstaged : Staged session.cpuEvents session.gpuEvents pairs := by
    rw [← hsession]
    exact hplanted.staged
  have hknown : hardPairs session.correlatedEvents = pairs.map pairIds := by
    rw [← hsession]
    exact hplanted.hardPairs_eq
  constructor
  · rw [hknown, addressPairs, hstaged.address_records, List.map_map]
    rfl
  · intro r hr
    have hsame : (r ∈ (runCorrelation session.cpuEvents session.gpuEvents timeWindowNs).filter
        fun r => r.confidence = .hard) ↔
        r ∈ (runCorrelation session.cpuEvents session.gpuEvents timeWindowNs).filter
          fun r => r.matchReason = .addressMatch := by
      rw [hstaged.hard_records, hstaged.address_records]
    simpa only [List.mem_filter, hr, true_and, decide_eq_true_eq] using hsame

end

/-- Draws that count upwards. -/
def counting : Rng ℤ ℤ where
  seeded := id
  random := fun s => (s, s + 1)
  randint := fun lo _ s => (lo, s)

example : hardPairs (generateSession counting 3 2 0 "" 0).correlatedEvents =
    [(1, 2), (3, 4)] := rfl

end HpcProfiler.MockSession
