import HpcProfiler.CpuRoundTrip
import HpcProfiler.Utf8Cut

/-!
Events that have been through the CPU wire format. Serializing succeeds exactly for
the events whose numbers fit their widths; an unknown event type is sent as the first
one and a long shape is cut. What is read back fits the wire again and comes back
from a second passage unchanged.
-/

namespace HpcProfiler.WireFixpoint

open Events StructFormat Utf8Replace CpuCodec CpuRoundTrip

/-- The numbers of an event fit their wire widths and the key that is looked up
without a default is there. The event type, the strings and the number of dimensions
are arbitrary; a dimension past the last one that is sent may be any number. -/
structure NumbersFit (event : CpuEvent) : Prop where
  eventId : U64 event.base.eventId
  timestampNs : U64 event.base.timestampNs
  processId : U32 event.base.processId
  threadId : U64 event.base.threadId
  isDealloc : event.isDealloc.isSome
  allocAddress : U64 event.allocAddress
  allocSizeBytes : U64 event.allocSizeBytes
  refCount : U32 event.refCount
  gcGeneration : I8 event.gcGeneration
  peakRssKb : U64 (event.peakRssKb.getD 0)
  lifetimeNs : U64 (event.lifetimeNs.getD 0)
  bufferNbytes : U64 (event.bufferNbytes.getD 0)
  parentAddress : U64 (event.parentAddress.getD 0)
  pinnedAddress : U64 (event.pinnedAddress.getD 0)
  tracemallocSize : U64 (event.tracemallocSize.getD 0)
  shapeDims : ∀ d ∈ shapeDims event, U64 d

def wireType (eventType : String) : String :=
  if eventType ∈ eventTypeMap.map Prod.fst then eventType else "ALLOC"

/-- An event as its payload presents it: a known event type and a shape that fits. -/
def carried (event : CpuEvent) : CpuEvent :=
  { event with
    base := { event.base with eventType := wireType event.base.eventType }
    arrayShape := some (shapeDims event) }

theorem wireType_mem (eventType : String) : wireType eventType ∈ eventTypeMap.map Prod.fst := by
  unfold wireType
  by_cases h : eventType ∈ eventTypeMap.map Prod.fst
  · rwa [if_pos h]
  · rw [if_neg h]
    decide

theorem lookup_wireType (eventType : String) :
    (eventTypeMap.lookup (wireType eventType)).getD 0 =
      (eventTypeMap.lookup eventType).getD 0 := by
  unfold wireType
  by_cases h : eventType ∈ eventTypeMap.map Prod.fst
  · rw [if_pos h]
  · have hnone : eventTypeMap.lookup eventType = none := by
      rw [List.lookup_eq_none_iff]
      intro p hp
      rw [bne_iff_ne]
      rintro rfl
      exact h (List.mem_map_of_mem hp)
    rw [if_neg h, hnone]
    rfl

theorem shapeDims_carried (event : CpuEvent) : shapeDims (carried event) = shapeDims event := by
  unfold carried shapeDims
  rw [Option.getD_some, List.take_take, Nat.min_self]

theorem serialize_carried (event : CpuEvent) : serialize (carried event) = serialize event := by
  unfold serialize
  rw [shapeDims_carried]
  dsimp only [carried]
  rw [lookup_wireType]
  rfl

theorem u64_of_mem {field : Option ℤ} (h : U64 (field.getD 0)) : ∀ v ∈ field, U64 v := by
  intro v hv
  rwa [Option.mem_def.mp hv] at h

theorem NumbersFit.fitsWire_carried {event : CpuEvent} (h : NumbersFit event) :
    FitsWire (carried event) where
  eventId := h.eventId
  timestampNs := h.timestampNs
  processId := h.processId
  threadId := h.threadId
  eventType := wireType_mem _
  isDealloc := h.isDealloc
  allocAddress := h.allocAddress
  allocSizeBytes := h.allocSizeBytes
  refCount := h.refCount
  gcGeneration := h.gcGeneration
  peakRssKb := u64_of_mem h.peakRssKb
  lifetimeNs := u64_of_mem h.lifetimeNs
  bufferNbytes := u64_of_mem h.bufferNbytes
  parentAddress := u64_of_mem h.parentAddress
  pinnedAddress := u64_of_mem h.pinnedAddress
  tracemallocSize := u64_of_mem h.tracemallocSize
  arrayShape := by
    intro dims hdims
    cases hdims
    exact h.shapeDims

/-- What an event whose numbers fit the wire is read back as. -/
theorem NumbersFit.readBack {event : CpuEvent} (h : NumbersFit event) :
    ∃ payload, serialize event = .ok payload ∧
      deserialize payload = .ok (received (carried event)) := by
  obtain ⟨eventType, isDealloc, fixed, nameLen, core, shapeBytes, dtypeLen, -, -, -, -,
    hserialize⟩ := serialize_parts h.fitsWire_carried
  have hread := deserialize_of_serialize h.fitsWire_carried hserialize
  rw [serialize_carried] at hserialize
  exact ⟨_, hserialize, hread⟩

theorem u64_of_fits {v : ℤ} (h : Code.Q.Fits v) : U64 v := by
  have hmodulus : Code.Q.low + Code.Q.modulus = 2 ^ 64 := by decide
  exact ⟨h.1, hmodulus ▸ h.2⟩

theorem u32_of_fits {v : ℤ} (h : Code.I.Fits v) : U32 v := by
  have hmodulus : Code.I.low + Code.I.modulus = 2 ^ 32 := by decide
  exact ⟨h.1, hmodulus ▸ h.2⟩

theorem i8_of_fits {v : ℤ} (h : Code.b.Fits v) : I8 v := by
  have hlow : Code.b.low = -128 := by decide
  have hmodulus : Code.b.low + Code.b.modulus = 128 := by decide
  exact ⟨hlow ▸ h.1, hmodulus ▸ h.2⟩

theorem shapeDims_u64_of_pack {dims : List ℤ} {bytes : List UInt8}
    (h : packShape dims = .ok bytes) : ∀ d ∈ dims, U64 d := by
  unfold packShape at h
  by_cases hnil : dims.length = 0
  · simp [List.length_eq_zero_iff.mp hnil]
  · rw [if_neg hnil] at h
    have hfits := forall₂_fits_of_pack h
    rw [List.forall₂_iff_get] at hfits
    intro d hd
    obtain ⟨k, hk, rfl⟩ := List.mem_iff_getElem.mp hd
    have hfit := hfits.2 k (by rwa [List.length_replicate]) hk
    rw [List.get_eq_getElem, List.getElem_replicate] at hfit
    exact u64_of_fits hfit

/-- Every event that can be serialized has numbers that fit. -/
theorem numbersFit_of_serialize {event : CpuEvent} {payload : List UInt8}
    (h : serialize event = .ok payload) : NumbersFit event := by
  unfold serialize at h
  obtain ⟨isDealloc, hdealloc, h⟩ := ok_of_bind h
  obtain ⟨fixed, hfixed, h⟩ := ok_of_bind h
  obtain ⟨shapeBytes, hshape, h⟩ := ok_of_bind h
  obtain ⟨nameLen, -, h⟩ := ok_of_bind h
  obtain ⟨core, hcore, -⟩ := ok_of_bind h
  have hpresent : event.isDealloc.isSome := by
    unfold isDeallocOf at hdealloc
    cases hflag : event.isDealloc with
    | none =>
      rw [hflag] at hdealloc
      cases hdealloc
    | some flag => rfl
  rcases forall₂_fits_of_pack hfixed with _ | ⟨eventId, _ | ⟨timestampNs, _ | ⟨processId,
    _ | ⟨threadId, _ | ⟨-, _ | ⟨-, _ | ⟨allocAddress, _ | ⟨allocSizeBytes, _ | ⟨refCount,
    _ | ⟨gcGeneration, -⟩⟩⟩⟩⟩⟩⟩⟩⟩⟩
  rcases forall₂_fits_of_pack hcore with _ | ⟨peakRssKb, _ | ⟨lifetimeNs, _ | ⟨-,
    _ | ⟨bufferNbytes, _ | ⟨parentAddress, _ | ⟨pinnedAddress, _ | ⟨tracemallocSize, -⟩⟩⟩⟩⟩⟩⟩
  exact {
    eventId := u64_of_fits eventId
    timestampNs := u64_of_fits timestampNs
    processId := u32_of_fits processId
    threadId := u64_of_fits threadId
    isDealloc := hpresent
    allocAddress := u64_of_fits allocAddress
    allocSizeBytes := u64_of_fits allocSizeBytes
    refCount := u32_of_fits refCount
    gcGeneration := i8_of_fits gcGeneration
    peakRssKb := u64_of_fits peakRssKb
    lifetimeNs := u64_of_fits lifetimeNs
    bufferNbytes := u64_of_fits bufferNbytes
    parentAddress := u64_of_fits parentAddress
    pinnedAddress := u64_of_fits pinnedAddress
    tracemallocSize := u64_of_fits tracemallocSize
    shapeDims := shapeDims_u64_of_pack hshape }

theorem serialize_ok_iff (event : CpuEvent) :
    (∃ payload, serialize event = .ok payload) ↔ NumbersFit event := by
  constructor
  · rintro ⟨payload, hpayload⟩
    exact numbersFit_of_serialize hpayload
  · intro h
    obtain ⟨payload, hpayload, -⟩ := h.readBack
    exact ⟨payload, hpayload⟩

theorem onWire_onWire (s : String) : onWire (onWire s) = onWire s := by
  rw [← decodeReplace_encodeCapped s, ← decodeReplace_encodeCapped]
  exact Utf8Cut.decodeReplace_take_decodeReplace_take 65535 s

theorem received_received (event : CpuEvent) : received (received event) = received event := by
  unfold received
  simp only [Option.getD_some, onWire_onWire, List.take_take, Nat.min_self]

theorem u64_some {field : Option ℤ} (h : ∀ v ∈ field, U64 v) :
    ∀ v ∈ some (field.getD 0), U64 v := by
  intro v hv
  cases hv
  exact u64_getD h

theorem fitsWire_received {event : CpuEvent} (h : FitsWire event) :
    FitsWire (received event) where
  eventId := h.eventId
  timestampNs := h.timestampNs
  processId := h.processId
  threadId := h.threadId
  eventType := h.eventType
  isDealloc := h.isDealloc
  allocAddress := h.allocAddress
  allocSizeBytes := h.allocSizeBytes
  refCount := h.refCount
  gcGeneration := h.gcGeneration
  peakRssKb := u64_some h.peakRssKb
  lifetimeNs := u64_some h.lifetimeNs
  bufferNbytes := u64_some h.bufferNbytes
  parentAddress := u64_some h.parentAddress
  pinnedAddress := u64_some h.pinnedAddress
  tracemallocSize := u64_some h.tracemallocSize
  arrayShape := by
    intro dims hdims
    cases hdims
    exact shapeDims_u64 h

/-- What an event whose numbers fit is read back as can be serialized again, and is
read back as itself. -/
theorem deserialize_serialize_fixpoint (event : CpuEvent) (h : NumbersFit event) :
    ∃ payload r, serialize event = .ok payload ∧ deserialize payload = .ok r ∧
      ∃ payload', serialize r = .ok payload' ∧ deserialize payload' = .ok r := by
  obtain ⟨payload, hpayload, hread⟩ := h.readBack
  have hfits := fitsWire_received h.fitsWire_carried
  obtain ⟨eventType, isDealloc, fixed, nameLen, core, shapeBytes, dtypeLen, -, -, -, -,
    hserialize⟩ := serialize_parts hfits
  have hagain := deserialize_of_serialize hfits hserialize
  rw [received_received] at hagain
  exact ⟨payload, _, hpayload, hread, _, hserialize, hagain⟩

/-- An event of an unknown type, with more dimensions than are sent and a name whose
last character lies across the limit. -/
def oversized : CpuEvent where
  base :=
    { eventId := 7, timestampNs := 1000, processId := 42, threadId := 140, eventType := "FREE" }
  allocAddress := 4096
  allocSizeBytes := 1024
  objectType := String.ofList (List.replicate 65534 'a' ++ ['é'])
  refCount := 2
  gcGeneration := -1
  isDealloc := some true
  callstack := []
  moduleName := none
  peakRssKb := none
  lifetimeNs := some 5
  isNumpyBuffer := some true
  bufferNbytes := none
  parentAddress := none
  pinnedAddress := none
  tracemallocSize := none
  arrayShape := some (List.replicate 300 8)
  arrayDtype := some "float64"

theorem oversized_fits : NumbersFit oversized := by
  constructor
  case isDealloc => rfl
  case shapeDims =>
    intro d hd
    rw [List.eq_of_mem_replicate (List.mem_of_mem_take hd)]
    exact ⟨by decide, by decide⟩
  all_goals exact ⟨by decide, by decide⟩

theorem deserialize_serialize_fixpoint_oversized :
    ∃ payload r, serialize oversized = .ok payload ∧ deserialize payload = .ok r ∧
      ∃ payload', serialize r = .ok payload' ∧ deserialize payload' = .ok r :=
  deserialize_serialize_fixpoint oversized oversized_fits

end HpcProfiler.WireFixpoint
