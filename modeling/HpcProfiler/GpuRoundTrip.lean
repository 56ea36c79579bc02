import HpcProfiler.CpuRoundTrip
import HpcProfiler.GpuCodec
import HpcProfiler.GpuEncoder

/-!
The two ends of the GPU wire format. Every payload that the CUPTI layer writes is
read back by the bridge field by field, with one difference: the correlation id is
written as an unsigned number and read as a signed one, so it comes back only from
the lower half of its range.
-/

namespace HpcProfiler.GpuRoundTrip

open Events LittleEndian StructFormat Utf8Replace CpuRoundTrip GpuEncoder GpuCodec
open CpuCodec (text encodeCapped)

/-- The name of an event type code of the layer. -/
def eventTypeName (code : UInt8) : String :=
  if code = EVENT_TRANSFER then "TRANSFER"
  else if code = EVENT_PAGE_FAULT then "PAGE_FAULT"
  else "KERNEL"

/-- The name of a transfer kind code of the layer. -/
def transferKindName (code : UInt8) : String :=
  if code = XFER_H2D then "HOST_TO_DEVICE"
  else if code = XFER_D2H then "DEVICE_TO_HOST"
  else if code = XFER_D2D then "DEVICE_TO_DEVICE"
  else "PREFETCH"

/-- The numbers and names that the layer holds for an event. -/
def held (eventId : UInt64) (ev : GpuEventData) (name : String) : GpuEvent where
  base := {
    eventId := eventId.toNat
    timestampNs := ev.tsNs.toNat
    processId := ev.pid.toNat
    threadId := 0
    eventType := eventTypeName ev.eventType }
  deviceId := ev.deviceId.toNat
  srcAddress := some ev.srcAddress.toNat
  dstAddress := some ev.dstAddress.toNat
  transferSizeBytes := some ev.transferSize.toNat
  transferKind := transferKindName ev.transferKind
  umPageFaults := ev.pageFaults.toNat
  kernelName := onWire name
  kernelDurationNs := ev.kernelDurationNs.toNat
  streamId := ev.streamId.toNat
  deviceMemUsedMb := ev.deviceMemUsedMb.toNat
  umBytesHtod := ev.umBytesHtod.toNat
  umBytesDtoh := ev.umBytesDtoh.toNat
  grid := ⟨ev.gridX.toNat, ev.gridY.toNat, ev.gridZ.toNat⟩
  block := ⟨ev.blockX.toNat, ev.blockY.toNat, ev.blockZ.toNat⟩
  registersPerThread := ev.registersPerThread.toNat
  sharedMemBytes := ev.sharedMemBytes.toNat
  correlationId := ev.correlationId.toNat

/-- A 32-bit number under the signed reading of its bytes. -/
def asSigned (v : UInt32) : ℤ := if v.toNat < 2 ^ 31 then v.toNat else v.toNat - 2 ^ 32

theorem asSigned_eq_iff (v : UInt32) : asSigned v = v.toNat ↔ v.toNat < 2 ^ 31 := by
  unfold asSigned
  by_cases h : v.toNat < 2 ^ 31
  · rw [if_pos h]
    exact ⟨fun _ => h, fun _ => rfl⟩
  · rw [if_neg h]
    exact ⟨fun heq => by omega, fun hlt => absurd hlt h⟩

section

variable {fmt : List Code} {vs : List ℤ} {bytes : List UInt8}

theorem packed_u64 (v : UInt64) (h : Packed fmt vs bytes) :
    Packed (.Q :: fmt) ((v.toNat : ℤ) :: vs) (leBytes 8 v.toNat ++ bytes) :=
  h.unsigned rfl v.toNat_lt

theorem packed_u32 (v : UInt32) (h : Packed fmt vs bytes) :
    Packed (.I :: fmt) ((v.toNat : ℤ) :: vs) (leBytes 4 v.toNat ++ bytes) :=
  h.unsigned rfl v.toNat_lt

theorem packed_u8 (v : UInt8) (h : Packed fmt vs bytes) :
    Packed (.B :: fmt) ((v.toNat : ℤ) :: vs) (leBytes 1 v.toNat ++ bytes) :=
  h.unsigned rfl v.toNat_lt

/-- The bytes of an unsigned number are those of its signed reading. -/
theorem packed_asSigned (v : UInt32) (h : Packed fmt vs bytes) :
    Packed (.i :: fmt) (asSigned v :: vs) (leBytes 4 v.toNat ++ bytes) := by
  have hlt : v.toNat < 2 ^ 32 := v.toNat_lt
  have hmodulus : Code.i.modulus = 2 ^ 32 := by decide
  have hlow : Code.i.low = -2 ^ 31 := by decide
  have hfit : Code.i.Fits (asSigned v) := by
    unfold Code.Fits
    rw [hmodulus, hlow]
    unfold asSigned
    split <;> omega
  have hbytes : Code.i.bytes (asSigned v) = leBytes 4 v.toNat := by
    have hmod : (asSigned v % 2 ^ 32).toNat = v.toNat := by
      unfold asSigned
      split <;> omega
    rw [Code.bytes, hmodulus, hmod]
    rfl
  rw [← hbytes]
  exact Packed.cons hfit h

end

/-- The values in front of the label, its length the last of them. -/
def headerValues (eventId : UInt64) (ev : GpuEventData) (labelLen : ℕ) : List ℤ :=
  [eventId.toNat, ev.tsNs.toNat, ev.pid.toNat, 0, ev.eventType.toNat, 0, 0, 0, 0, 0, labelLen]

/-- The values behind the label, as the bridge reads them. -/
def extValues (ev : GpuEventData) : List ℤ :=
  [ev.deviceId.toNat, ev.srcAddress.toNat, ev.dstAddress.toNat, ev.transferSize.toNat,
    ev.transferKind.toNat, ev.pageFaults.toNat, ev.kernelDurationNs.toNat, ev.streamId.toNat,
    ev.deviceMemUsedMb.toNat, ev.umBytesHtod.toNat, ev.umBytesDtoh.toNat, ev.gridX.toNat,
    ev.gridY.toNat, ev.gridZ.toNat, ev.blockX.toNat, ev.blockY.toNat, ev.blockZ.toNat,
    ev.registersPerThread.toNat, ev.sharedMemBytes.toNat, asSigned ev.correlationId]

theorem pushI8_zero (b : List UInt8) : pushI8 b 0 = b ++ leBytes 1 0 := rfl

theorem packed_header (eventId : UInt64) (ev : GpuEventData) {n : ℕ} (hn : n ≤ 65535) :
    Packed hdrFmt (headerValues eventId ev n) (pushHeader eventId ev [] ++ leBytes 2 n) := by
  have hlen : Packed [.H] [(n : ℤ)] (leBytes 2 n ++ []) :=
    Packed.nil.unsigned rfl (show n < 256 ^ 2 by omega)
  have hfields : Packed hdrFmt (headerValues eventId ev n) _ :=
    packed_u64 eventId (packed_u64 ev.tsNs (packed_u32 ev.pid (packed_u64 0
      (packed_u8 ev.eventType (packed_u8 0 (packed_u64 0 (packed_u64 0 (packed_u32 0
        (packed_u8 0 hlen)))))))))
  rw [List.append_nil] at hfields
  simp only [pushHeader, pushU64_eq, pushU32_eq, pushU8_eq, pushI8_zero, List.nil_append,
    List.append_assoc]
  exact hfields

theorem exists_packed_extension (ev : GpuEventData) (b : List UInt8) :
    ∃ bytes, pushExtension ev b = b ++ bytes ∧ Packed extFmt (extValues ev) bytes := by
  have hfields := packed_u32 ev.deviceId (packed_u64 ev.srcAddress (packed_u64 ev.dstAddress
    (packed_u64 ev.transferSize (packed_u8 ev.transferKind (packed_u32 ev.pageFaults
    (packed_u64 ev.kernelDurationNs (packed_u32 ev.streamId (packed_u32 ev.deviceMemUsedMb
    (packed_u64 ev.umBytesHtod (packed_u64 ev.umBytesDtoh (packed_u32 ev.gridX
    (packed_u32 ev.gridY (packed_u32 ev.gridZ (packed_u32 ev.blockX (packed_u32 ev.blockY
    (packed_u32 ev.blockZ (packed_u32 ev.registersPerThread (packed_u32 ev.sharedMemBytes
    (packed_asSigned ev.correlationId Packed.nil)))))))))))))))))))
  refine ⟨_, ?_, hfields⟩
  simp only [pushExtension, pushU64_eq, pushU32_eq, pushU8_eq, List.append_assoc, List.append_nil]

/-- The codes that the layer gives to an event have their names in the tables of the
bridge. -/
theorem eventTypeNames_lookup {code : UInt8}
    (h : code ∈ [EVENT_TRANSFER, EVENT_PAGE_FAULT, EVENT_KERNEL]) :
    eventTypeNames.lookup (code.toNat : ℤ) = some (eventTypeName code) := by
  simp only [List.mem_cons, List.not_mem_nil, or_false] at h
  rcases h with rfl | rfl | rfl <;> decide

theorem transferKindMap_lookup {code : UInt8}
    (h : code ∈ [XFER_H2D, XFER_D2H, XFER_D2D, XFER_PREFETCH]) :
    transferKindMap.lookup (code.toNat : ℤ) = some (transferKindName code) := by
  simp only [List.mem_cons, List.not_mem_nil, or_false] at h
  rcases h with rfl | rfl | rfl | rfl <;> decide

/-- The extension block as the bridge reads it. -/
def extOf (ev : GpuEventData) : GpuExt where
  deviceId := ev.deviceId.toNat
  srcAddress := ev.srcAddress.toNat
  dstAddress := ev.dstAddress.toNat
  transferSize := ev.transferSize.toNat
  transferKindByte := ev.transferKind.toNat
  pageFaults := ev.pageFaults.toNat
  kernelDurationNs := ev.kernelDurationNs.toNat
  streamId := ev.streamId.toNat
  deviceMemUsedMb := ev.deviceMemUsedMb.toNat
  umBytesHtod := ev.umBytesHtod.toNat
  umBytesDtoh := ev.umBytesDtoh.toNat
  grid := ⟨ev.gridX.toNat, ev.gridY.toNat, ev.gridZ.toNat⟩
  block := ⟨ev.blockX.toNat, ev.blockY.toNat, ev.blockZ.toNat⟩
  registersPerThread := ev.registersPerThread.toNat
  sharedMemBytes := ev.sharedMemBytes.toNat
  correlationId := asSigned ev.correlationId

theorem readGpuExt_eq {payload ext : List UInt8} {off : ℕ} {ev : GpuEventData}
    (hext : Packed extFmt (extValues ev) ext) (hat : Remains payload off ext) :
    readGpuExt payload off = .ok (extOf ev) := by
  have hlen := hat.length_eq
  have hsize : ext.length = extSize := hext.length_eq
  rw [← List.append_nil ext] at hat
  unfold readGpuExt
  dsimp only
  rw [if_pos (by omega), readFullExt, hext.unpackFrom hat]
  rfl

/-- The parts of a written payload: the header with the label's length, the label and
the extension. -/
theorem serialiseEvent_parts (eventId : UInt64) (ev : GpuEventData) :
    ∃ ext, Packed hdrFmt (headerValues eventId ev ((charsOf ev.label).take 65535).length)
        (pushHeader eventId ev [] ++ leBytes 2 ((charsOf ev.label).take 65535).length) ∧
      Packed extFmt (extValues ev) ext ∧
      (serialiseEvent eventId ev).1 =
        (pushHeader eventId ev [] ++ leBytes 2 ((charsOf ev.label).take 65535).length) ++
          ((charsOf ev.label).take 65535 ++ ext) := by
  obtain ⟨ext, hbytes, hext⟩ := exists_packed_extension ev
    (pushStr (pushHeader eventId ev []) ev.label)
  refine ⟨ext, packed_header eventId ev (List.length_take_le _ _), hext, ?_⟩
  show pushExtension ev (pushStr (pushHeader eventId ev []) ev.label) = _
  rw [hbytes, pushStr_eq]
  simp only [List.append_assoc]

/-- Reading a written payload gives what the layer holds, with the signed reading of
the correlation id. -/
theorem deserialize_payload (eventId : UInt64) (ev : GpuEventData) (name : String)
    (hlabel : charsOf ev.label = encode name)
    (htype : ev.eventType ∈ [EVENT_TRANSFER, EVENT_PAGE_FAULT, EVENT_KERNEL])
    (hkind : ev.transferKind ∈ [XFER_H2D, XFER_D2H, XFER_D2D, XFER_PREFETCH]) :
    deserialize (serialiseEvent eventId ev).1 =
      .ok { held eventId ev name with correlationId := asSigned ev.correlationId } := by
  obtain ⟨ext, hheader, hext, hpayload⟩ := serialiseEvent_parts eventId ev
  rw [hlabel] at hheader hpayload
  change Packed hdrFmt (headerValues eventId ev (encodeCapped name).length)
    (pushHeader eventId ev [] ++ leBytes 2 (encodeCapped name).length) at hheader
  change (serialiseEvent eventId ev).1 =
    (pushHeader eventId ev [] ++ leBytes 2 (encodeCapped name).length) ++
      (encodeCapped name ++ ext) at hpayload
  generalize pushHeader eventId ev [] ++ leBytes 2 (encodeCapped name).length = header at *
  generalize (serialiseEvent eventId ev).1 = payload at *
  have hsize : header.length = hdrSize := hheader.length_eq
  have hstart : Remains payload 0 (header ++ (encodeCapped name ++ ext)) := by
    rw [hpayload]
    exact ⟨Nat.zero_le _, rfl⟩
  have hat := hstart.next hsize
  rw [Nat.zero_add] at hat
  have hend := hat.next rfl
  have hlen := hat.length_eq
  have htext := text_eq hat
  rw [decodeReplace_encodeCapped] at htext
  have hread : readGpuExt payload (hdrSize + (encodeCapped name).length) = .ok (extOf ev) :=
    readGpuExt_eq hext hend
  unfold deserialize
  rw [if_neg (by omega), hheader.unpackFrom hstart]
  dsimp only [headerValues]
  rw [Int.toNat_natCast, if_neg (by rw [List.length_append] at hlen; omega), hread, htext,
    eventTypeNames_lookup htype]
  simp only [ok_bind, extOf, transferKindMap_lookup hkind]
  rfl

/-- The bridge gives back every number and name of an event exactly when its
correlation id is below 2^31. -/
theorem deserialize_serialiseEvent_iff (eventId : UInt64) (ev : GpuEventData) (name : String)
    (hlabel : charsOf ev.label = encode name)
    (htype : ev.eventType ∈ [EVENT_TRANSFER, EVENT_PAGE_FAULT, EVENT_KERNEL])
    (hkind : ev.transferKind ∈ [XFER_H2D, XFER_D2H, XFER_D2D, XFER_PREFETCH]) :
    deserialize (serialiseEvent eventId ev).1 = .ok (held eventId ev name) ↔
      ev.correlationId.toNat < 2 ^ 31 := by
  rw [deserialize_payload eventId ev name hlabel htype hkind, ← asSigned_eq_iff]
  constructor
  · intro h
    exact congrArg GpuEvent.correlationId (Except.ok.inj h)
  · intro h
    rw [h]
    rfl

/-- A kernel record with the least correlation id whose sign bit is set. -/
def lateKernel : GpuEventData where
  tsNs := 1000
  pid := 42
  eventType := EVENT_KERNEL
  label := some ⟨[0x67], by simp⟩
  gridX := 128
  blockX := 256
  correlationId := 0x80000000

theorem deserialize_serialiseEvent_iff_lateKernel :
    deserialize (serialiseEvent 7 lateKernel).1 = .ok (held 7 lateKernel "g") ↔
      lateKernel.correlationId.toNat < 2 ^ 31 :=
  deserialize_serialiseEvent_iff 7 lateKernel "g" (by decide) (by decide) (by decide)

/-- The bridge reports another correlation id for this record than the layer holds. -/
theorem lateKernel_misread :
    ¬ ∀ (eventId : UInt64) (ev : GpuEventData) (name : String),
      charsOf ev.label = encode name →
      ev.eventType ∈ [EVENT_TRANSFER, EVENT_PAGE_FAULT, EVENT_KERNEL] →
      ev.transferKind ∈ [XFER_H2D, XFER_D2H, XFER_D2D, XFER_PREFETCH] →
      deserialize (serialiseEvent eventId ev).1 = .ok (held eventId ev name) := by
  intro h
  have hread := h 7 lateKernel "g" (by decide) (by decide) (by decide)
  rw [deserialize_payload 7 lateKernel "g" (by decide) (by decide) (by decide)] at hread
  have hid := congrArg GpuEvent.correlationId (Except.ok.inj hread)
  revert hid
  decide

end HpcProfiler.GpuRoundTrip
