import HpcProfiler.CpuCodec

/-!
The reading side of the wire format of GPU events: the function deserialize of the
GPU bridge. The header has the layout of the CPU header; behind the label stands a
full extension, an old one of nine fields, or none.
-/

namespace HpcProfiler.GpuCodec

open Events StructFormat CpuCodec

def transferKindMap : List (ℤ × String) :=
  [(0, "HOST_TO_DEVICE"), (1, "DEVICE_TO_HOST"), (2, "DEVICE_TO_DEVICE"), (3, "PREFETCH"),
    (4, "UNIFIED_MEMORY")]

def eventTypeNames : List (ℤ × String) := [(2, "TRANSFER"), (3, "PAGE_FAULT"), (4, "KERNEL")]

def hdrFmt : List Code := [.Q, .Q, .I, .Q, .B, .B, .Q, .Q, .I, .B, .H]

def hdrSize : ℕ := size hdrFmt

def extFmt : List Code :=
  [.I, .Q, .Q, .Q, .B, .I, .Q, .I, .I, .Q, .Q, .I, .I, .I, .I, .I, .I, .I, .I, .i]

def extSize : ℕ := size extFmt

/-- The extension of payloads written before the later fields were added. -/
def oldFmt : List Code := [.I, .Q, .Q, .Q, .B, .I, .Q, .i, .i]

/-- The local variables of deserialize that the extension fills in. -/
structure GpuExt where
  deviceId : ℤ := 0
  srcAddress : ℤ := 0
  dstAddress : ℤ := 0
  transferSize : ℤ := 0
  transferKindByte : ℤ := 0
  pageFaults : ℤ := 0
  kernelDurationNs : ℤ := 0
  streamId : ℤ := 0
  deviceMemUsedMb : ℤ := 0
  umBytesHtod : ℤ := 0
  umBytesDtoh : ℤ := 0
  grid : Dim3 := ⟨0, 0, 0⟩
  block : Dim3 := ⟨0, 0, 0⟩
  registersPerThread : ℤ := 0
  sharedMemBytes : ℤ := 0
  correlationId : ℤ := 0

def readFullExt (payload : List UInt8) (off : ℕ) : Except PyError GpuExt :=
  match unpackFrom extFmt payload off with
  | .ok [deviceId, srcAddress, dstAddress, transferSize, transferKindByte, pageFaults,
      kernelDurationNs, streamId, deviceMemUsedMb, umBytesHtod, umBytesDtoh, gridX, gridY, gridZ,
      blockX, blockY, blockZ, registersPerThread, sharedMemBytes, correlationId] =>
    .ok {
      deviceId, srcAddress, dstAddress, transferSize, transferKindByte, pageFaults,
      kernelDurationNs, streamId, deviceMemUsedMb, umBytesHtod, umBytesDtoh,
      grid := ⟨gridX, gridY, gridZ⟩, block := ⟨blockX, blockY, blockZ⟩
      registersPerThread, sharedMemBytes, correlationId }
  | .ok _ => .error .structError
  | .error e => .error e

def readOldExt (payload : List UInt8) (off : ℕ) : Except PyError GpuExt :=
  match unpackFrom oldFmt payload off with
  | .ok [deviceId, srcAddress, dstAddress, transferSize, transferKindByte, pageFaults,
      kernelDurationNs, streamId, deviceMemUsedMb] =>
    .ok {
      deviceId, srcAddress, dstAddress, transferSize, transferKindByte, pageFaults,
      kernelDurationNs, streamId, deviceMemUsedMb }
  | .ok _ => .error .structError
  | .error e => .error e

def readGpuExt (payload : List UInt8) (off : ℕ) : Except PyError GpuExt :=
  let extAvailable := payload.length - off
  if extSize ≤ extAvailable then readFullExt payload off
  else if 49 ≤ extAvailable then readOldExt payload off
  else .ok {}

def deserialize (payload : List UInt8) : Except PyError GpuEvent :=
  if payload.length < hdrSize then
    .error (.valueError s!"GPU payload too short for header: {payload.length} < {hdrSize}")
  else
    match unpackFrom hdrFmt payload 0 with
    | .ok [eventId, timestampNs, processId, _, eventTypeByte, _, _, _, _, _, labelLen] =>
      let off := hdrSize + labelLen.toNat
      if payload.length < off then
        .error (.valueError
          s!"GPU payload truncated at label: need {off}, have {payload.length}")
      else do
        let ext ← readGpuExt payload off
        return {
          base := {
            eventId, timestampNs, processId
            threadId := 0
            eventType := (eventTypeNames.lookup eventTypeByte).getD s!"UNKNOWN_{eventTypeByte}" }
          deviceId := ext.deviceId
          srcAddress := some ext.srcAddress
          dstAddress := some ext.dstAddress
          transferSizeBytes := some ext.transferSize
          transferKind := (transferKindMap.lookup ext.transferKindByte).getD "UNKNOWN"
          umPageFaults := ext.pageFaults
          kernelName := text payload hdrSize labelLen.toNat
          kernelDurationNs := ext.kernelDurationNs
          streamId := ext.streamId
          deviceMemUsedMb := ext.deviceMemUsedMb
          umBytesHtod := ext.umBytesHtod
          umBytesDtoh := ext.umBytesDtoh
          grid := ext.grid
          block := ext.block
          registersPerThread := ext.registersPerThread
          sharedMemBytes := ext.sharedMemBytes
          correlationId := ext.correlationId }
    | .ok _ => .error .structError
    | .error e => .error e

end HpcProfiler.GpuCodec
