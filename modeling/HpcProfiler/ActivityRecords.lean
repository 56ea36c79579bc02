import HpcProfiler.DrainLoops
import HpcProfiler.GpuEncoder
import HpcProfiler.StableSort
import HpcProfiler.StepSystem
import HpcProfiler.Utf8Replace

/-!
The CUPTI layer behind its callbacks: activity records are mapped to GPU events,
numbered, serialised and written to the ring. A world holds the shared object, the
layer, the counter of event ids, which survives a restart of the layer, and the
bridge that reads on the other side.
-/

namespace HpcProfiler.ActivityRecords

open Events SharedRing GpuEncoder DrainLoops StableSort Utf8Replace StepSystem

def MEMCPY_KIND_HTOD : UInt8 := 1

def MEMCPY_KIND_DTOH : UInt8 := 2

/-! The records of the CUDA 12 headers, with the fields that the layer reads. -/

structure Memcpy5 where
  copyKind : UInt8
  bytes : UInt64
  start : UInt64
  finish : UInt64
  deviceId : UInt32
  streamId : UInt32
  correlationId : UInt32

inductive CounterKind
  | bytesTransferHtod
  | bytesTransferDtoh
  | gpuPageFault
  | cpuPageFaultCount
  | other
  deriving DecidableEq

structure UnifiedMemoryCounter2 where
  counterKind : CounterKind
  value : UInt64
  finish : UInt64
  address : UInt64
  srcId : UInt32
  dstId : UInt32

structure Kernel9 where
  name : Option CString
  start : UInt64
  finish : UInt64
  deviceId : UInt32
  streamId : UInt32
  correlationId : UInt32
  gridX : Int32
  gridY : Int32
  gridZ : Int32
  blockX : Int32
  blockY : Int32
  blockZ : Int32
  registersPerThread : UInt16
  staticSharedMemory : Int32
  dynamicSharedMemory : Int32

inductive Activity
  | memcpy (r : Memcpy5)
  | unifiedMemoryCounter (r : UnifiedMemoryCounter2)
  | concurrentKernel (r : Kernel9)
  | other

/-- A string literal of the source. -/
def literal (s : String) (h : ∀ b ∈ encode s, b ≠ 0) : Option CString := some ⟨encode s, h⟩

def memcpyKind (cuptiKind : UInt8) : UInt8 :=
  if cuptiKind = MEMCPY_KIND_HTOD then XFER_H2D
  else if cuptiKind = MEMCPY_KIND_DTOH then XFER_D2H
  else XFER_D2D

def memcpyLabel (cuptiKind : UInt8) : Option CString :=
  if cuptiKind = MEMCPY_KIND_HTOD then literal "HOST_TO_DEVICE" (by decide +kernel)
  else if cuptiKind = MEMCPY_KIND_DTOH then literal "DEVICE_TO_HOST" (by decide +kernel)
  else literal "DEVICE_TO_DEVICE" (by decide +kernel)

structure TimestampSync where
  offsetNs : Int64 := 0

/-- One reading of CLOCK_MONOTONIC and of the GPU clock. -/
structure ClockSample where
  tvSec : Int64
  tvNsec : Int64
  gpu : UInt64

def ClockSample.difference (sample : ClockSample) : Int64 :=
  let wall := sample.tvSec * 1000000000 + sample.tvNsec
  wall - sample.gpu.toInt64

/-- The middle one of five sorted differences. -/
def calibrate (samples : Fin 5 → ClockSample) : TimestampSync where
  offsetNs := (sortBy Int64.toInt (List.ofFn fun i => (samples i).difference)).getD 2 0

def TimestampSync.toWallNs (sync : TimestampSync) (gpuTs : UInt64) : UInt64 :=
  let result := gpuTs.toInt64 + sync.offsetNs
  if result < 0 then 0 else result.toUInt64

/-- What cuMemGetInfo gives when it succeeds: the free and the total bytes. -/
abbrev MemInfo := Option (UInt64 × UInt64)

def deviceMemUsedMb : MemInfo → UInt32
  | some (freeBytes, totalBytes) =>
    if 0 < totalBytes then ((totalBytes - freeBytes) / (1024 * 1024)).toUInt32 else 0
  | none => 0

/-- A layer that has been started. One that has not has no ring and is deleted at once,
so the pointer to the layer is null exactly when nothing runs. -/
structure CuptiLayer where
  rb : RingBuffer
  pid : UInt32
  sync : TimestampSync
  written : UInt64

section

variable (layer : CuptiLayer) (mem : MemInfo)

def memcpyEvent (r : Memcpy5) : GpuEventData where
  tsNs := layer.sync.toWallNs r.start
  pid := layer.pid
  eventType := EVENT_TRANSFER
  label := memcpyLabel r.copyKind
  deviceId := r.deviceId
  srcAddress := 0
  dstAddress := 0
  transferSize := r.bytes
  transferKind := memcpyKind r.copyKind
  kernelDurationNs := r.finish - r.start
  streamId := r.streamId
  deviceMemUsedMb := deviceMemUsedMb mem
  correlationId := r.correlationId

def counterEvent (r : UnifiedMemoryCounter2) : Option GpuEventData :=
  match r.counterKind with
  | .bytesTransferHtod =>
    some {
      tsNs := layer.sync.toWallNs r.finish
      pid := layer.pid
      eventType := EVENT_TRANSFER
      label := literal "HOST_TO_DEVICE" (by decide +kernel)
      deviceId := r.dstId
      srcAddress := r.address
      transferSize := r.value
      transferKind := XFER_H2D
      deviceMemUsedMb := deviceMemUsedMb mem
      umBytesHtod := r.value }
  | .bytesTransferDtoh =>
    some {
      tsNs := layer.sync.toWallNs r.finish
      pid := layer.pid
      eventType := EVENT_TRANSFER
      label := literal "DEVICE_TO_HOST" (by decide +kernel)
      deviceId := r.srcId
      srcAddress := r.address
      transferSize := r.value
      transferKind := XFER_D2H
      deviceMemUsedMb := deviceMemUsedMb mem
      umBytesDtoh := r.value }
  | .gpuPageFault =>
    some {
      tsNs := layer.sync.toWallNs r.finish
      pid := layer.pid
      eventType := EVENT_PAGE_FAULT
      label := literal "page_fault" (by decide +kernel)
      deviceId := r.dstId
      srcAddress := r.address
      pageFaults := r.value.toUInt32
      deviceMemUsedMb := deviceMemUsedMb mem }
  | .cpuPageFaultCount =>
    some {
      tsNs := layer.sync.toWallNs r.finish
      pid := layer.pid
      eventType := EVENT_PAGE_FAULT
      label := literal "cpu_page_fault" (by decide +kernel)
      deviceId := 0
      srcAddress := r.address
      pageFaults := 1
      deviceMemUsedMb := deviceMemUsedMb mem }
  | .other => none

def kernelEvent (r : Kernel9) : GpuEventData where
  tsNs := layer.sync.toWallNs r.start
  pid := layer.pid
  eventType := EVENT_KERNEL
  label := r.name.or (literal "unknown_kernel" (by decide +kernel))
  deviceId := r.deviceId
  kernelDurationNs := r.finish - r.start
  streamId := r.streamId
  deviceMemUsedMb := deviceMemUsedMb mem
  correlationId := r.correlationId
  gridX := r.gridX.toUInt32
  gridY := r.gridY.toUInt32
  gridZ := r.gridZ.toUInt32
  blockX := r.blockX.toUInt32
  blockY := r.blockY.toUInt32
  blockZ := r.blockZ.toUInt32
  registersPerThread := r.registersPerThread.toUInt32
  sharedMemBytes := (r.staticSharedMemory + r.dynamicSharedMemory).toUInt32

/-- The event that a record is mapped to, if it is of a kind that the layer reports. -/
def eventOf : Activity → Option GpuEventData
  | .memcpy r => some (memcpyEvent layer mem r)
  | .unifiedMemoryCounter r => counterEvent layer mem r
  | .concurrentKernel r => some (kernelEvent layer mem r)
  | .other => none

end

/-- A record together with the event it was mapped to. -/
structure Issued where
  record : Activity
  event : GpuEventData

/-- The target process and the reader. `issued` lists the events serialised so far,
which no step reads. -/
structure World where
  shm : Option Segment
  gLayer : Option CuptiLayer
  gEventId : UInt64
  pending : List (Activity × MemInfo)
  bridge : Bridge
  delivered : List GpuEvent
  issued : List Issued

/-- Nothing has been started, and the name of the ring is free. -/
def World.init : World where
  shm := none
  gLayer := none
  gEventId := 1
  pending := []
  bridge := ⟨⟨0⟩, false⟩
  delivered := []
  issued := []

inductive Action
  | cuptiStart (os : OsCalls) (pid : UInt32) (samples : Fin 5 → ClockSample)
  | cuptiStop
  | bufComplete (records : List (Activity × MemInfo))
  | process
  | openBridge (os : OsCalls) (capacity : UInt32)
  | closeBridge
  | read

def CAPACITY : UInt32 := 8 * 1024 * 1024

def cuptiStart (w : World) (os : OsCalls) (pid : UInt32) (samples : Fin 5 → ClockSample) : World :=
  if w.gLayer.isSome then w
  else
    match rbCreate os w.shm CAPACITY true with
    | (some rb, shm) => { w with shm := shm, gLayer := some ⟨rb, pid, calibrate samples, 0⟩ }
    | (none, shm) => { w with shm := shm }

/-- The end of cupti_stop, after the flush has handed out the last buffers. -/
def cuptiStop (w : World) : Option World :=
  if w.pending = [] then some { w with gLayer := none } else none

/-- The buffer callback up to its loop. One buffer is drained at a time. -/
def bufComplete (w : World) (records : List (Activity × MemInfo)) : Option World :=
  if w.pending = [] then
    some (if w.gLayer.isSome then { w with pending := records } else w)
  else none

/-- `_write`, for a payload that has just been serialised. -/
def write (layer : CuptiLayer) (seg : Segment) (buf : List UInt8) :
    Option (CuptiLayer × Segment) :=
  (rbWrite layer.rb seg buf (UInt32.ofNat buf.length)).map fun (seg, ok) =>
    (if ok then { layer with written := layer.written + 1 } else layer, seg)

/-- One round of the loop of `_drain`. -/
def process (w : World) : Option World :=
  match w.pending, w.gLayer, w.shm with
  | (record, mem) :: pending, some layer, some seg =>
    match eventOf layer mem record with
    | none => some { w with pending := pending }
    | some ev =>
      let (buf, gEventId) := serialiseEvent w.gEventId ev
      (write layer seg buf).map fun (layer, seg) =>
        { w with
          shm := some seg
          gLayer := some layer
          gEventId := gEventId
          pending := pending
          issued := w.issued ++ [⟨record, ev⟩] }
  | _, _, _ => none

/-- GpuBridge.open, which raises and stays closed where the ring cannot be opened. -/
def openBridge (w : World) (os : OsCalls) (capacity : UInt32) : World :=
  match rbCreate os w.shm capacity false with
  | (some rb, _) => { w with bridge := ⟨rb, true⟩ }
  | (none, _) => w

/-- A payload that does not decode is skipped. -/
def collect (delivered : List GpuEvent) (payload : Option (List UInt8)) : List GpuEvent :=
  match payload.map GpuCodec.deserialize with
  | some (.ok event) => delivered ++ [event]
  | _ => delivered

/-- One round of a reader's loop. -/
def read (w : World) : Option World :=
  match w.shm with
  | none => if w.bridge.isOpen then none else some w
  | some seg =>
    (w.bridge.readGpu seg).map fun (seg, payload) =>
      { w with shm := some seg, delivered := collect w.delivered payload }

def step (w : World) : Action → Option World
  | .cuptiStart os pid samples => some (cuptiStart w os pid samples)
  | .cuptiStop => cuptiStop w
  | .bufComplete records => bufComplete w records
  | .process => process w
  | .openBridge os capacity => some (openBridge w os capacity)
  | .closeBridge => some { w with bridge := { w.bridge with isOpen := false } }
  | .read => read w

end HpcProfiler.ActivityRecords
