import Mathlib.Data.Int.Notation

/-!
The event records of the profiler as both bridges and the correlator see them.
Python integers are unbounded, so every numeric field is an integer. A field that
the code looks up with a default is optional.
-/

namespace HpcProfiler.Events

structure Base where
  eventId : ℤ
  timestampNs : ℤ
  processId : ℤ
  threadId : ℤ
  eventType : String
  deriving DecidableEq

structure CpuEvent where
  base : Base
  allocAddress : ℤ
  allocSizeBytes : ℤ
  objectType : String
  refCount : ℤ
  gcGeneration : ℤ
  isDealloc : Option Bool
  callstack : List String
  moduleName : Option String
  peakRssKb : Option ℤ
  lifetimeNs : Option ℤ
  isNumpyBuffer : Option Bool
  bufferNbytes : Option ℤ
  parentAddress : Option ℤ
  pinnedAddress : Option ℤ
  tracemallocSize : Option ℤ
  arrayShape : Option (List ℤ)
  arrayDtype : Option String
  deriving DecidableEq

structure Dim3 where
  x : ℤ
  y : ℤ
  z : ℤ
  deriving DecidableEq

structure GpuEvent where
  base : Base
  deviceId : ℤ
  srcAddress : Option ℤ
  dstAddress : Option ℤ
  transferSizeBytes : Option ℤ
  transferKind : String
  umPageFaults : ℤ
  kernelName : String
  kernelDurationNs : ℤ
  streamId : ℤ
  deviceMemUsedMb : ℤ
  umBytesHtod : ℤ
  umBytesDtoh : ℤ
  grid : Dim3
  block : Dim3
  registersPerThread : ℤ
  sharedMemBytes : ℤ
  correlationId : ℤ
  deriving DecidableEq

end HpcProfiler.Events
