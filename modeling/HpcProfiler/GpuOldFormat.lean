import HpcProfiler.DecoderSafety
import HpcProfiler.GpuRoundTrip

/-!
The two formats of the GPU extension. A payload that ends behind the nine original
fields is read on a branch of its own, whose format takes the stream and the device
memory for signed numbers. The full format takes them for unsigned ones, so the two
readings agree exactly where the upper bit of both is clear.
-/

namespace HpcProfiler.GpuOldFormat

open Events LittleEndian StructFormat CpuRoundTrip GpuEncoder GpuCodec GpuRoundTrip DecoderSafety
open CpuCodec (text encodeCapped)

/-- A payload that holds the label and all 101 bytes of the extension. -/
def Complete (payload : List UInt8) : Prop :=
  53 ≤ payload.length ∧ 53 + storedLabelLen payload + 101 ≤ payload.length

/-- What is left of a payload behind the first 49 bytes of the extension. -/
def oldPayload (payload : List UInt8) : List UInt8 :=
  payload.take (53 + storedLabelLen payload + 49)

/-- An event without the fields that were added to the format. -/
def withoutNewFields (event : GpuEvent) : GpuEvent :=
  { event with
    umBytesHtod := 0
    umBytesDtoh := 0
    grid := ⟨0, 0, 0⟩
    block := ⟨0, 0, 0⟩
    registersPerThread := 0
    sharedMemBytes := 0
    correlationId := 0 }

/-- The number that four bytes of the extension store. -/
def storedWord (payload : List UInt8) (place : ℕ) : ℕ :=
  leNat ((payload.drop (53 + storedLabelLen payload + place)).take 4)

def storedStreamId (payload : List UInt8) : ℕ := storedWord payload 41

def storedDeviceMem (payload : List UInt8) : ℕ := storedWord payload 45

theorem leNat_word_lt (bytes : List UInt8) : leNat (bytes.take 4) < 2 ^ 32 := by
  have hlt := leNat_lt (bytes.take 4)
  have hle : 256 ^ (bytes.take 4).length ≤ 256 ^ 4 :=
    Nat.pow_le_pow_right (by norm_num) (List.length_take_le 4 bytes)
  omega

theorem value_I (bytes : List UInt8) : Code.I.value (bytes.take 4) = leNat (bytes.take 4) := by
  have hlt := leNat_word_lt bytes
  have hlow : Code.I.low = 0 := rfl
  have hmodulus : Code.I.modulus = 2 ^ 32 := rfl
  rw [Code.value, hlow, hmodulus]
  omega

/-- Four bytes stand for the same number under both signs below 2^31. -/
theorem value_i_eq_value_I_iff (bytes : List UInt8) :
    Code.i.value (bytes.take 4) = Code.I.value (bytes.take 4) ↔ leNat (bytes.take 4) < 2 ^ 31 := by
  have hlt := leNat_word_lt bytes
  have hlow : Code.i.low = -2 ^ 31 := rfl
  have hmodulus : Code.i.modulus = 2 ^ 32 := rfl
  rw [value_I, Code.value, hlow, hmodulus]
  omega

/-- An extension block without the fields that were added to it. -/
def oldFields (ext : GpuExt) : GpuExt where
  deviceId := ext.deviceId
  srcAddress := ext.srcAddress
  dstAddress := ext.dstAddress
  transferSize := ext.transferSize
  transferKindByte := ext.transferKindByte
  pageFaults := ext.pageFaults
  kernelDurationNs := ext.kernelDurationNs
  streamId := ext.streamId
  deviceMemUsedMb := ext.deviceMemUsedMb

/-- The two readings of one extension block: the full one, and the old one, which
differs in the signs of its last two fields. -/
theorem readGpuExt_both {payload : List UInt8} {off : ℕ} (h : off + 101 ≤ payload.length) :
    ∃ ext, readGpuExt payload off = .ok ext ∧
      ext.streamId = Code.I.value ((payload.drop (off + 41)).take 4) ∧
      ext.deviceMemUsedMb = Code.I.value ((payload.drop (off + 45)).take 4) ∧
      readGpuExt (payload.take (off + 49)) off = .ok { oldFields ext with
        streamId := Code.i.value ((payload.drop (off + 41)).take 4)
        deviceMemUsedMb := Code.i.value ((payload.drop (off + 45)).take 4) } := by
  have hfullSize : extSize = 101 := rfl
  have hcut : (payload.take (off + 49)).length = off + 49 := by
    exact List.length_take_of_le (by omega)
  have hfull : unpackFrom extFmt payload off = .ok (values extFmt (payload.drop off)) :=
    unpackFrom_ok (by change off + 101 ≤ _; omega)
  have hold : unpackFrom oldFmt (payload.take (off + 49)) off =
      .ok (values oldFmt (payload.drop off)) := by
    rw [unpackFrom_take (by omega) (le_refl (off + 49))]
    exact unpackFrom_ok (by change off + 49 ≤ _; omega)
  unfold readGpuExt
  dsimp only
  rw [hcut, if_pos (by omega), if_neg (by omega), if_pos (by omega), readFullExt, readOldExt,
    hfull, hold]
  dsimp only [extFmt, oldFmt, values, Code.size]
  simp only [List.drop_drop]
  exact ⟨_, rfl, rfl, rfl, rfl⟩

/-- The event that a header, a label and an extension block make up. -/
def eventWith (base : Base) (label : String) (ext : GpuExt) : GpuEvent where
  base := base
  deviceId := ext.deviceId
  srcAddress := some ext.srcAddress
  dstAddress := some ext.dstAddress
  transferSizeBytes := some ext.transferSize
  transferKind := (transferKindMap.lookup ext.transferKindByte).getD "UNKNOWN"
  umPageFaults := ext.pageFaults
  kernelName := label
  kernelDurationNs := ext.kernelDurationNs
  streamId := ext.streamId
  deviceMemUsedMb := ext.deviceMemUsedMb
  umBytesHtod := ext.umBytesHtod
  umBytesDtoh := ext.umBytesDtoh
  grid := ext.grid
  block := ext.block
  registersPerThread := ext.registersPerThread
  sharedMemBytes := ext.sharedMemBytes
  correlationId := ext.correlationId

/-- A cut behind the label leaves the header and the label as they are. -/
theorem exists_eventWith {payload : List UInt8} (h : 53 ≤ payload.length) :
    ∃ base label, ∀ n ≤ payload.length, 53 + storedLabelLen payload ≤ n →
      deserialize (payload.take n) =
        (readGpuExt (payload.take n) (53 + storedLabelLen payload)).map (eventWith base label) := by
  obtain ⟨eventId, timestampNs, processId, threadId, eventTypeByte, isDealloc, allocAddr,
    allocSize, refCount, gcGen, hheader⟩ := exists_header payload h
  refine ⟨{
    eventId, timestampNs, processId
    threadId := 0
    eventType := (eventTypeNames.lookup eventTypeByte).getD s!"UNKNOWN_{eventTypeByte}" },
    text payload hdrSize (storedLabelLen payload), ?_⟩
  intro n hn hlabel
  have hsize : hdrSize = 53 := rfl
  have hcut : (payload.take n).length = n := by
    exact List.length_take_of_le hn
  have htake : unpackFrom hdrFmt (payload.take n) 0 = unpackFrom hdrFmt payload 0 :=
    unpackFrom_take hn (by change 0 + hdrSize ≤ n; omega)
  unfold deserialize
  rw [if_neg (by omega), htake, hheader]
  dsimp only
  rw [Int.toNat_natCast, if_neg (by omega), text_take (by omega)]
  rfl

theorem complete_readings {payload : List UInt8} (h : Complete payload) :
    ∃ base label ext, deserialize payload = .ok (eventWith base label ext) ∧
      deserialize (oldPayload payload) = .ok (eventWith base label { oldFields ext with
        streamId :=
          Code.i.value ((payload.drop (53 + storedLabelLen payload + 41)).take 4)
        deviceMemUsedMb :=
          Code.i.value ((payload.drop (53 + storedLabelLen payload + 45)).take 4) }) ∧
      ext.streamId =
        Code.I.value ((payload.drop (53 + storedLabelLen payload + 41)).take 4) ∧
      ext.deviceMemUsedMb =
        Code.I.value ((payload.drop (53 + storedLabelLen payload + 45)).take 4) := by
  obtain ⟨hlong, hcomplete⟩ := h
  obtain ⟨base, label, hdecode⟩ := exists_eventWith hlong
  obtain ⟨ext, hext, hstream, hmem, hold⟩ := readGpuExt_both hcomplete
  have hfull := hdecode payload.length (le_refl _) (by omega)
  have hcut := hdecode (53 + storedLabelLen payload + 49) (by omega) (by omega)
  rw [List.take_length, hext] at hfull
  rw [hold] at hcut
  exact ⟨base, label, ext, hfull, hcut, hstream, hmem⟩

/-! The payloads that the CUPTI layer writes. -/

theorem storedLabelLen_serialiseEvent (eventId : UInt64) (ev : GpuEventData) :
    storedLabelLen (serialiseEvent eventId ev).1 = ((charsOf ev.label).take 65535).length := by
  obtain ⟨ext, hheader, -, hpayload⟩ := serialiseEvent_parts eventId ev
  have hlen : ((charsOf ev.label).take 65535).length ≤ 65535 := List.length_take_le _ _
  generalize (charsOf ev.label).take 65535 = label at *
  have hsize : (pushHeader eventId ev [] ++ leBytes 2 label.length).length = 53 :=
    hheader.length_eq
  rw [List.length_append, leBytes_length] at hsize
  unfold storedLabelLen
  rw [hpayload, List.append_assoc, List.drop_left' (by omega), List.take_left' (leBytes_length _ _)]
  exact leNat_leBytes (by omega)

theorem serialiseEvent_stored (eventId : UInt64) (ev : GpuEventData) :
    Complete (serialiseEvent eventId ev).1 ∧
      storedStreamId (serialiseEvent eventId ev).1 = ev.streamId.toNat ∧
      storedDeviceMem (serialiseEvent eventId ev).1 = ev.deviceMemUsedMb.toNat := by
  have hlabel := storedLabelLen_serialiseEvent eventId ev
  obtain ⟨ext, hheader, hext, hpayload⟩ := serialiseEvent_parts eventId ev
  unfold Complete storedStreamId storedDeviceMem storedWord
  generalize (charsOf ev.label).take 65535 = label at *
  have hheaderLen : (pushHeader eventId ev [] ++ leBytes 2 label.length).length = 53 :=
    hheader.length_eq
  have hextLen : ext.length = 101 := hext.length_eq
  have hat : Remains (serialiseEvent eventId ev).1 (53 + label.length) ext := by
    have hstart := Remains.start (pushHeader eventId ev [] ++ leBytes 2 label.length) (label ++ ext)
    rw [hheaderLen, ← hpayload] at hstart
    exact hstart.next rfl
  have hlen := hat.length_eq
  have hlong : 53 + label.length + 101 ≤ (serialiseEvent eventId ev).1.length := by omega
  obtain ⟨read, hread, hstream, hmem, -⟩ := readGpuExt_both hlong
  rw [readGpuExt_eq hext hat] at hread
  cases hread
  rw [value_I] at hstream hmem
  rw [hlabel]
  refine ⟨⟨by omega, by omega⟩, ?_, ?_⟩
  · exact Int.ofNat.inj hstream.symm
  · exact Int.ofNat.inj hmem.symm

/-- Decoding the old part of a complete payload gives what decoding all of it gives,
without the new fields, exactly if the stored stream and device memory are both
below 2^31. -/
theorem old_agrees_iff (payload : List UInt8) (h : Complete payload) :
    ∃ full old, deserialize payload = .ok full ∧ deserialize (oldPayload payload) = .ok old ∧
      (old = withoutNewFields full ↔
        storedStreamId payload < 2 ^ 31 ∧ storedDeviceMem payload < 2 ^ 31) := by
  obtain ⟨base, label, ext, hfull, hold, hstream, hmem⟩ := complete_readings h
  refine ⟨_, _, hfull, hold, ?_⟩
  unfold storedStreamId storedDeviceMem storedWord
  rw [← value_i_eq_value_I_iff, ← value_i_eq_value_I_iff, ← hstream, ← hmem]
  constructor
  · intro heq
    have hsameStream := congrArg GpuEvent.streamId heq
    have hsameMem := congrArg GpuEvent.deviceMemUsedMb heq
    exact ⟨hsameStream, hsameMem⟩
  · rintro ⟨hsameStream, hsameMem⟩
    simp only [eventWith, withoutNewFields, oldFields, hsameStream, hsameMem]

/-- A kernel on a stream whose number has its upper bit set. -/
def farStream : GpuEventData where
  tsNs := 1000
  pid := 42
  eventType := EVENT_KERNEL
  label := some ⟨[0x67], List.forall_mem_singleton.mpr (by decide)⟩
  streamId := 0x80000000
  deviceMemUsedMb := 512

theorem old_agrees_iff_farStream :
    ∃ full old, deserialize (serialiseEvent 7 farStream).1 = .ok full ∧
      deserialize (oldPayload (serialiseEvent 7 farStream).1) = .ok old ∧
      (old = withoutNewFields full ↔
        storedStreamId (serialiseEvent 7 farStream).1 < 2 ^ 31 ∧
        storedDeviceMem (serialiseEvent 7 farStream).1 < 2 ^ 31) :=
  old_agrees_iff _ (serialiseEvent_stored 7 farStream).1

/-- The old format reports another stream for this payload than the full one. -/
theorem farStream_disagrees :
    ¬ ∀ payload : List UInt8, Complete payload →
      ∃ full old, deserialize payload = .ok full ∧ deserialize (oldPayload payload) = .ok old ∧
        old = withoutNewFields full := by
  intro h
  obtain ⟨hcomplete, hstored, -⟩ := serialiseEvent_stored 7 farStream
  obtain ⟨full, old, hfull, hold, hagree⟩ := h _ hcomplete
  obtain ⟨base, label, ext, hfull', hold', hstream, -⟩ := complete_readings hcomplete
  cases Except.ok.inj (hfull.symm.trans hfull')
  cases Except.ok.inj (hold.symm.trans hold')
  have hsame := congrArg GpuEvent.streamId hagree
  change Code.i.value _ = ext.streamId at hsame
  rw [hstream, value_i_eq_value_I_iff] at hsame
  change storedStreamId (serialiseEvent 7 farStream).1 < 2 ^ 31 at hsame
  rw [hstored] at hsame
  exact absurd hsame (by decide)

end HpcProfiler.GpuOldFormat
