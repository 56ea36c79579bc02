import HpcProfiler.Events
import HpcProfiler.GreedyChoice
import HpcProfiler.RightmostSearch
import Mathlib.Data.Finset.Insert
import Mathlib.Data.List.Sort

/-!
The correlation engine: `_run_correlation` and its helpers. Four passes offer the GPU
events one after another and match each with an allocation through the pass's own
index; two sets remember which CPU and GPU event ids have been used. The model keeps
each match with its allocation and its GPU event, and turns the matches into records
at the end.
-/

namespace HpcProfiler.Correlation

open Events GreedyChoice RightmostSearch

structure LiveAlloc where
  eventId : ℤ
  timestampNs : ℤ
  address : ℤ
  size : ℤ
  endAddress : ℤ
  pinnedAddress : ℤ
  deriving DecidableEq

def LiveAlloc.ofEvent (event : CpuEvent) : LiveAlloc where
  eventId := event.base.eventId
  timestampNs := event.base.timestampNs
  address := event.allocAddress
  size := event.allocSizeBytes
  endAddress := event.allocAddress + event.allocSizeBytes
  pinnedAddress := event.pinnedAddress.getD 0

def LiveAlloc.contains (alloc : LiveAlloc) (addr : ℤ) : Bool :=
  alloc.address ≤ addr && addr < alloc.endAddress

inductive Confidence where
  | hard
  | weak
  deriving DecidableEq

inductive MatchReason where
  | addressMatch
  | sizeAndTimestamp
  | timestampOnly
  deriving DecidableEq

structure CorrelatedEvent where
  cpuEventId : ℤ
  gpuEventId : ℤ
  confidence : Confidence
  matchReason : MatchReason
  latencyNs : ℤ
  deriving DecidableEq

/-- The latency is clamped, since clock skew can make it negative. -/
def makeCorrelated (cpuEventId gpuEventId : ℤ) (confidence : Confidence)
    (matchReason : MatchReason) (latencyNs : ℤ) : CorrelatedEvent :=
  { cpuEventId, gpuEventId, confidence, matchReason, latencyNs := max 0 latencyNs }

/-- The passes 1a, 1b, 2 and 3. -/
inductive Pass where
  | address
  | pinned
  | size
  | timestamp
  deriving DecidableEq

def Pass.confidence : Pass → Confidence
  | .timestamp => .weak
  | _ => .hard

def Pass.matchReason : Pass → MatchReason
  | .address => .addressMatch
  | .pinned => .addressMatch
  | .size => .sizeAndTimestamp
  | .timestamp => .timestampOnly

/-- A match of a pass, before it is written down as a record. -/
structure Match where
  found : Pass
  alloc : LiveAlloc
  gpu : GpuEvent
  deriving DecidableEq

def Match.toRecord (m : Match) : CorrelatedEvent :=
  makeCorrelated m.alloc.eventId m.gpu.base.eventId m.found.confidence m.found.matchReason
    (m.gpu.base.timestampNs - m.alloc.timestampNs)

structure MatchState where
  correlated : List Match
  matchedCpu : Finset ℤ
  matchedGpu : Finset ℤ

def MatchState.empty : MatchState := ⟨[], ∅, ∅⟩

/-- Only hard matches use up the allocation. -/
def MatchState.add (st : MatchState) (m : Match) : MatchState where
  correlated := st.correlated ++ [m]
  matchedCpu :=
    if m.found.confidence = .hard then insert m.alloc.eventId st.matchedCpu else st.matchedCpu
  matchedGpu := insert m.gpu.base.eventId st.matchedGpu

def binarySearchInterval (sortedAllocs : List LiveAlloc) (addr : ℤ) : Option LiveAlloc :=
  (search (fun alloc => alloc.address ≤ addr) sortedAllocs).filter fun candidate =>
    candidate.contains addr

/-- The first hit of the source and the destination address, in this order. -/
def findAddressMatch (sortedAllocs : List LiveAlloc) (srcAddr dstAddr : ℤ) : Option LiveAlloc :=
  [srcAddr, dstAddr].findSome? fun addr =>
    if addr = 0 then none else binarySearchInterval sortedAllocs addr

/-- The distance of two timestamps. -/
def distance (gpuTs timestampNs : ℤ) : ℤ := (gpuTs - timestampNs).natAbs

/-- One round of the loop over the candidates, with the best one and its distance. -/
def closerOf (gpuTs windowNs : ℤ) (excludeIds : Finset ℤ) (best : Option LiveAlloc × ℤ)
    (alloc : LiveAlloc) : Option LiveAlloc × ℤ :=
  if alloc.eventId ∈ excludeIds then best
  else
    let delta := distance gpuTs alloc.timestampNs
    if delta ≤ windowNs ∧ delta < best.2 then (some alloc, delta) else best

def findClosestInWindow (allocs : List LiveAlloc) (gpuTs windowNs : ℤ) (excludeIds : Finset ℤ) :
    Option LiveAlloc :=
  (allocs.foldl (closerOf gpuTs windowNs excludeIds) (none, windowNs + 1)).1

def addPinned (index : ℤ → Option LiveAlloc) (alloc : LiveAlloc) : ℤ → Option LiveAlloc :=
  if alloc.pinnedAddress ≠ 0 ∧ (index alloc.pinnedAddress).isNone then
    Function.update index alloc.pinnedAddress (some alloc)
  else index

/-- The first allocation of every pinned address other than zero. -/
def pinnedIndex (liveAllocs : List LiveAlloc) : ℤ → Option LiveAlloc :=
  liveAllocs.foldl addPinned fun _ => none

def addSize (index : ℤ → Option (List LiveAlloc)) (alloc : LiveAlloc) :
    ℤ → Option (List LiveAlloc) :=
  Function.update index alloc.size (some ((index alloc.size).getD [] ++ [alloc]))

/-- The allocations of every size, in the order of the list. -/
def sizeIndex (liveAllocs : List LiveAlloc) : ℤ → Option (List LiveAlloc) :=
  liveAllocs.foldl addSize fun _ => none

/-- Pass 1a. -/
def chooseAddress (liveAllocs : List LiveAlloc) (st : MatchState) (gpu : GpuEvent) :
    Option Match :=
  match findAddressMatch liveAllocs (gpu.srcAddress.getD 0) (gpu.dstAddress.getD 0) with
  | none => none
  | some alloc =>
    if alloc.eventId ∈ st.matchedCpu ∨ gpu.base.eventId ∈ st.matchedGpu then none
    else some ⟨.address, alloc, gpu⟩

/-- Pass 1b. -/
def choosePinned (index : ℤ → Option LiveAlloc) (st : MatchState) (gpu : GpuEvent) :
    Option Match :=
  if gpu.base.eventId ∈ st.matchedGpu then none
  else
    match (index (gpu.srcAddress.getD 0)).or (index (gpu.dstAddress.getD 0)) with
    | none => none
    | some alloc =>
      if alloc.eventId ∈ st.matchedCpu then none else some ⟨.pinned, alloc, gpu⟩

/-- Pass 2. -/
def chooseSize (index : ℤ → Option (List LiveAlloc)) (timeWindowNs : ℤ) (st : MatchState)
    (gpu : GpuEvent) : Option Match :=
  let transferSize := gpu.transferSizeBytes.getD 0
  if gpu.base.eventId ∈ st.matchedGpu then none
  else if transferSize = 0 then none
  else
    let candidates := (index transferSize).getD []
    match findClosestInWindow candidates gpu.base.timestampNs timeWindowNs st.matchedCpu with
    | none => none
    | some best => some ⟨.size, best, gpu⟩

/-- Pass 3, which excludes no allocation. -/
def chooseTimestamp (liveAllocs : List LiveAlloc) (timeWindowNs : ℤ) (_ : MatchState)
    (gpu : GpuEvent) : Option Match :=
  match findClosestInWindow liveAllocs gpu.base.timestampNs timeWindowNs ∅ with
  | none => none
  | some best => some ⟨.timestamp, best, gpu⟩

def isAlloc (event : CpuEvent) : Bool := !event.isDealloc.getD false

def isTransfer (gpu : GpuEvent) : Bool := gpu.base.eventType = "TRANSFER"

/-- The allocations, sorted by address; the sort is stable. -/
def sortedAllocs (cpuEvents : List CpuEvent) : List LiveAlloc :=
  ((cpuEvents.filter isAlloc).map LiveAlloc.ofEvent).insertionSort
    fun a b => a.address ≤ b.address

section

variable (cpuEvents : List CpuEvent) (gpuEvents : List GpuEvent) (timeWindowNs : ℤ)

def afterAddress : MatchState :=
  pass (chooseAddress (sortedAllocs cpuEvents)) MatchState.add .empty (gpuEvents.filter isTransfer)

def afterPinned : MatchState :=
  pass (choosePinned (pinnedIndex (sortedAllocs cpuEvents))) MatchState.add
    (afterAddress cpuEvents gpuEvents) (gpuEvents.filter isTransfer)

def afterSize : MatchState :=
  pass (chooseSize (sizeIndex (sortedAllocs cpuEvents)) timeWindowNs) MatchState.add
    (afterPinned cpuEvents gpuEvents) (gpuEvents.filter isTransfer)

def unmatchedGpu : List GpuEvent :=
  gpuEvents.filter fun gpu =>
    gpu.base.eventId ∉ (afterSize cpuEvents gpuEvents timeWindowNs).matchedGpu

def afterTimestamp : MatchState :=
  pass (chooseTimestamp (sortedAllocs cpuEvents) timeWindowNs) MatchState.add
    (afterSize cpuEvents gpuEvents timeWindowNs) (unmatchedGpu cpuEvents gpuEvents timeWindowNs)

def runCorrelation : List CorrelatedEvent :=
  (afterTimestamp cpuEvents gpuEvents timeWindowNs).correlated.map Match.toRecord

end

/-! Events with nothing but what the correlation reads. -/

def allocAt (eventId timestampNs allocAddress allocSizeBytes pinnedAddress : ℤ) : CpuEvent where
  base := { eventId, timestampNs, processId := 1, threadId := 1, eventType := "ALLOC" }
  allocAddress := allocAddress
  allocSizeBytes := allocSizeBytes
  objectType := "ndarray"
  refCount := 1
  gcGeneration := -1
  isDealloc := some false
  callstack := []
  moduleName := none
  peakRssKb := none
  lifetimeNs := none
  isNumpyBuffer := none
  bufferNbytes := none
  parentAddress := none
  pinnedAddress := some pinnedAddress
  tracemallocSize := none
  arrayShape := none
  arrayDtype := none

def deallocAt (eventId timestampNs allocAddress : ℤ) : CpuEvent :=
  { allocAt eventId timestampNs allocAddress 0 0 with
    base := { eventId, timestampNs, processId := 1, threadId := 1, eventType := "DEALLOC" }
    isDealloc := some true }

def transferAt (eventId timestampNs srcAddress dstAddress transferSizeBytes : ℤ) : GpuEvent where
  base := { eventId, timestampNs, processId := 1, threadId := 0, eventType := "TRANSFER" }
  deviceId := 0
  srcAddress := some srcAddress
  dstAddress := some dstAddress
  transferSizeBytes := some transferSizeBytes
  transferKind := "HOST_TO_DEVICE"
  umPageFaults := 0
  kernelName := ""
  kernelDurationNs := 0
  streamId := 0
  deviceMemUsedMb := 0
  umBytesHtod := 0
  umBytesDtoh := 0
  grid := ⟨0, 0, 0⟩
  block := ⟨0, 0, 0⟩
  registersPerThread := 0
  sharedMemBytes := 0
  correlationId := 0

end HpcProfiler.Correlation
