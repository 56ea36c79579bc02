import HpcProfiler.CpuCodec
import Mathlib.Tactic.NormNum

/-!
A CPU event whose numbers fit their widths comes back from the wire as it was, but
for its call stack, the defaults of absent fields and what the length fields cut
off. Each reading stage is followed from the place where its bytes start, so the
length of one field never moves another.
-/

namespace HpcProfiler.CpuRoundTrip

open Events StructFormat Utf8Replace CpuCodec

def U64 (v : ℤ) : Prop := 0 ≤ v ∧ v < 2 ^ 64

def U32 (v : ℤ) : Prop := 0 ≤ v ∧ v < 2 ^ 32

def I8 (v : ℤ) : Prop := -128 ≤ v ∧ v < 128

/-- The events that _serialize is meant for: numbers within their wire widths, a
known event type and the one key that is looked up without a default. -/
structure FitsWire (event : CpuEvent) : Prop where
  eventId : U64 event.base.eventId
  timestampNs : U64 event.base.timestampNs
  processId : U32 event.base.processId
  threadId : U64 event.base.threadId
  eventType : event.base.eventType ∈ eventTypeMap.map Prod.fst
  isDealloc : event.isDealloc.isSome
  allocAddress : U64 event.allocAddress
  allocSizeBytes : U64 event.allocSizeBytes
  refCount : U32 event.refCount
  gcGeneration : I8 event.gcGeneration
  peakRssKb : ∀ v ∈ event.peakRssKb, U64 v
  lifetimeNs : ∀ v ∈ event.lifetimeNs, U64 v
  bufferNbytes : ∀ v ∈ event.bufferNbytes, U64 v
  parentAddress : ∀ v ∈ event.parentAddress, U64 v
  pinnedAddress : ∀ v ∈ event.pinnedAddress, U64 v
  tracemallocSize : ∀ v ∈ event.tracemallocSize, U64 v
  arrayShape : ∀ dims ∈ event.arrayShape, ∀ d ∈ dims, U64 d

/-- What the wire keeps of a string. -/
def onWire (s : String) : String :=
  if (encode s).length ≤ 65535 then s else decodeReplace ((encode s).take 65535)

/-- What the reader gets of an event. -/
def received (event : CpuEvent) : CpuEvent :=
  { event with
    callstack := []
    objectType := onWire event.objectType
    moduleName := some (onWire (event.moduleName.getD ""))
    peakRssKb := some (event.peakRssKb.getD 0)
    lifetimeNs := some (event.lifetimeNs.getD 0)
    isNumpyBuffer := some (event.isNumpyBuffer.getD false)
    bufferNbytes := some (event.bufferNbytes.getD 0)
    parentAddress := some (event.parentAddress.getD 0)
    pinnedAddress := some (event.pinnedAddress.getD 0)
    tracemallocSize := some (event.tracemallocSize.getD 0)
    arrayShape := some ((event.arrayShape.getD []).take 255)
    arrayDtype := some (onWire (event.arrayDtype.getD "")) }

theorem fits_of_u64 {v : ℤ} (h : U64 v) : Code.Q.Fits v := by
  obtain ⟨h0, h1⟩ := h
  refine ⟨h0, lt_of_lt_of_le h1 ?_⟩
  decide

theorem fits_of_u32 {v : ℤ} (h : U32 v) : Code.I.Fits v := by
  obtain ⟨h0, h1⟩ := h
  refine ⟨h0, lt_of_lt_of_le h1 ?_⟩
  decide

theorem fits_of_i8 {v : ℤ} (h : I8 v) : Code.b.Fits v := by
  obtain ⟨h0, h1⟩ := h
  refine ⟨le_trans ?_ h0, lt_of_lt_of_le h1 ?_⟩ <;> decide

theorem fits_of_byte {v : ℤ} (h0 : 0 ≤ v) (h1 : v < 256) : Code.B.Fits v := by
  refine ⟨h0, lt_of_lt_of_le h1 ?_⟩
  decide

theorem fits_of_len {n : ℕ} (h : n ≤ 65535) : Code.H.Fits (n : ℤ) := by
  have hlt : (n : ℤ) < 65536 := by omega
  refine ⟨Int.natCast_nonneg n, lt_of_lt_of_le hlt ?_⟩
  decide

theorem u64_getD {field : Option ℤ} (h : ∀ v ∈ field, U64 v) : U64 (field.getD 0) := by
  cases field with
  | none => exact ⟨le_refl 0, by norm_num⟩
  | some v => exact h v rfl

theorem fits_byteOfBool (flag : Bool) : Code.B.Fits (byteOfBool flag) := by
  cases flag <;> decide

theorem byteOfBool_ne_zero (flag : Bool) : (byteOfBool flag != 0) = flag := by
  cases flag <;> decide

/-- Every event type has a number of its own, which a byte holds. -/
theorem eventType_lookup {name : String} (h : name ∈ eventTypeMap.map Prod.fst) :
    ∃ n : ℤ, eventTypeMap.lookup name = some n ∧ Code.B.Fits n ∧
      typeMapRev.lookup n = some name := by
  simp only [eventTypeMap, List.map_cons, List.map_nil, List.mem_cons, List.not_mem_nil,
    or_false] at h
  rcases h with rfl | rfl | rfl | rfl | rfl
  · exact ⟨0, by decide, by decide, by decide⟩
  · exact ⟨1, by decide, by decide, by decide⟩
  · exact ⟨2, by decide, by decide, by decide⟩
  · exact ⟨3, by decide, by decide, by decide⟩
  · exact ⟨4, by decide, by decide, by decide⟩

theorem encodeCapped_length_le (s : String) : (encodeCapped s).length ≤ 65535 := by
  unfold encodeCapped
  rw [List.length_take]
  exact Nat.min_le_left _ _

theorem decodeReplace_encodeCapped (s : String) : decodeReplace (encodeCapped s) = onWire s := by
  unfold encodeCapped onWire
  by_cases h : (encode s).length ≤ 65535
  · rw [if_pos h, List.take_of_length_le h, decodeReplace_encode]
  · rw [if_neg h]

theorem text_eq {payload bytes rest : List UInt8} {off : ℕ}
    (hat : Remains payload off (bytes ++ rest)) :
    text payload off bytes.length = decodeReplace bytes := by
  unfold text
  rw [hat.2, List.take_left]

theorem text_take {payload : List UInt8} {off len n : ℕ} (h : off + len ≤ n) :
    text (payload.take n) off len = text payload off len := by
  unfold text
  rw [List.drop_take, List.take_take, Nat.min_eq_left (by omega)]

theorem unpackLen_eq {payload lenBytes rest : List UInt8} {off n : ℕ}
    (hpacked : Packed [.H] [(n : ℤ)] lenBytes)
    (hat : Remains payload off (lenBytes ++ rest)) : unpackLen payload off = .ok n := by
  unfold unpackLen
  rw [hpacked.unpackFrom hat]
  rfl

theorem readDtype_eq {payload lenBytes enc : List UInt8} {off : ℕ} (ext : CpuExt)
    (hpacked : Packed [.H] [(enc.length : ℤ)] lenBytes)
    (hat : Remains payload off (lenBytes ++ enc)) :
    readDtype payload off ext = .ok { ext with arrayDtype := decodeReplace enc } := by
  have hnext : Remains payload (off + 2) enc := hat.next hpacked.length_eq
  have hlen := hnext.length_eq
  rw [← List.append_nil enc] at hnext
  unfold readDtype
  rw [if_pos (by omega), unpackLen_eq hpacked hat]
  change (if off + 2 + enc.length ≤ payload.length then _ else _) = _
  rw [if_pos (by omega), text_eq hnext]
  rfl

theorem fits_shape {dims : List ℤ} (h : ∀ d ∈ dims, U64 d) :
    List.Forall₂ Code.Fits (List.replicate dims.length Code.Q) dims := by
  rw [List.forall₂_iff_get]
  refine ⟨List.length_replicate, ?_⟩
  intro k hk hk'
  rw [List.get_eq_getElem, List.getElem_replicate]
  exact fits_of_u64 (h _ (List.get_mem dims _))

/-- Any shape is written and read back, the empty one without a byte. -/
theorem readShape_eq {payload shapeBytes lenBytes enc : List UInt8} {off : ℕ}
    {dims : List ℤ} (ext : CpuExt) (hext : ext.arrayShape = [])
    (hdims : ∀ d ∈ dims, U64 d) (hshape : packShape dims = .ok shapeBytes)
    (hpacked : Packed [.H] [(enc.length : ℤ)] lenBytes)
    (hat : Remains payload off (shapeBytes ++ (lenBytes ++ enc))) :
    readShape payload off dims.length ext =
      .ok { ext with arrayShape := dims, arrayDtype := decodeReplace enc } := by
  unfold packShape at hshape
  unfold readShape
  by_cases hnil : dims.length = 0
  · have hempty : dims = [] := List.length_eq_zero_iff.mp hnil
    rw [if_pos hnil] at hshape
    have hbytes : [] = shapeBytes := Except.ok.inj hshape
    rw [← hbytes, List.nil_append] at hat
    rw [if_neg (by omega), readDtype_eq ext hpacked hat, hempty, ← hext]
  · obtain ⟨bytes, hbytes⟩ := exists_packed (fits_shape hdims)
    rw [if_neg hnil, hbytes.packs] at hshape
    have hsame : bytes = shapeBytes := Except.ok.inj hshape
    subst hsame
    have hsize : bytes.length = dims.length * 8 := by
      rw [hbytes.length_eq, size_replicate]
      rfl
    have hnext := hat.next hsize
    have hlen := hnext.length_eq
    rw [if_pos ⟨by omega, by omega⟩, hbytes.unpackFrom hat]
    exact readDtype_eq { ext with arrayShape := dims } hpacked hnext

/-- The values between the module name and the shape. -/
def coreValues (ext : CpuExt) : List ℤ :=
  [ext.peakRssKb, ext.lifetimeNs, byteOfBool ext.isNumpy, ext.bufferNbytes, ext.parentAddress,
    ext.pinnedAddress, ext.tracemallocSize, (ext.arrayShape.length : ℤ)]

/-- The parts of an extension block and the values they stand for. -/
structure ExtParts (ext : CpuExt) (nameLen nameEnc core shapeBytes dtypeLen dtypeEnc : List UInt8) :
    Prop where
  nameLen : Packed [.H] [(nameEnc.length : ℤ)] nameLen
  name : decodeReplace nameEnc = ext.moduleName
  core : Packed cpuExtFmt (coreValues ext) core
  dims : ∀ d ∈ ext.arrayShape, U64 d
  shape : packShape ext.arrayShape = .ok shapeBytes
  dtypeLen : Packed [.H] [(dtypeEnc.length : ℤ)] dtypeLen
  dtype : decodeReplace dtypeEnc = ext.arrayDtype

section

variable {payload nameLen nameEnc core shapeBytes dtypeLen dtypeEnc : List UInt8} {off : ℕ}
  {ext : CpuExt}

theorem readCore_eq (h : ExtParts ext nameLen nameEnc core shapeBytes dtypeLen dtypeEnc)
    (hat : Remains payload off (core ++ (shapeBytes ++ (dtypeLen ++ dtypeEnc)))) :
    readCore payload off { moduleName := ext.moduleName } = .ok ext := by
  have hnext : Remains payload (off + cpuExtSize) (shapeBytes ++ (dtypeLen ++ dtypeEnc)) :=
    hat.next h.core.length_eq
  unfold readCore
  rw [if_pos hnext.1, h.core.unpackFrom hat]
  dsimp only [coreValues]
  rw [Int.toNat_natCast, readShape_eq _ rfl h.dims h.shape h.dtypeLen hnext, h.dtype,
    byteOfBool_ne_zero]

theorem readExt_eq (h : ExtParts ext nameLen nameEnc core shapeBytes dtypeLen dtypeEnc)
    (hat : Remains payload off
      (nameLen ++ (nameEnc ++ (core ++ (shapeBytes ++ (dtypeLen ++ dtypeEnc)))))) :
    readExt payload off = .ok ext := by
  have htwo : nameLen.length = 2 := h.nameLen.length_eq
  have hname := hat.next htwo
  have hcore := hname.next rfl
  have htext := text_eq hname
  rw [h.name] at htext
  unfold readExt
  rw [if_pos hname.1, unpackLen_eq h.nameLen hat]
  change (if off + 2 + nameEnc.length ≤ payload.length then _ else _) = _
  rw [if_pos hcore.1]
  rw [htext]
  exact readCore_eq h hcore

end

/-- The extension block that _serialize writes for an event. -/
def sentExt (event : CpuEvent) : CpuExt where
  moduleName := onWire (event.moduleName.getD "")
  peakRssKb := event.peakRssKb.getD 0
  lifetimeNs := event.lifetimeNs.getD 0
  isNumpy := event.isNumpyBuffer.getD false
  bufferNbytes := event.bufferNbytes.getD 0
  parentAddress := event.parentAddress.getD 0
  pinnedAddress := event.pinnedAddress.getD 0
  tracemallocSize := event.tracemallocSize.getD 0
  arrayShape := shapeDims event
  arrayDtype := onWire (event.arrayDtype.getD "")

/-- The values that _serialize writes into the fixed header. -/
def fixedValues (event : CpuEvent) (eventType : ℤ) (isDealloc : Bool) : List ℤ :=
  [event.base.eventId, event.base.timestampNs, event.base.processId, event.base.threadId,
    eventType, byteOfBool isDealloc, event.allocAddress, event.allocSizeBytes, event.refCount,
    event.gcGeneration, ((encodeCapped event.objectType).length : ℤ)]

theorem shapeDims_u64 {event : CpuEvent} (h : FitsWire event) :
    ∀ d ∈ shapeDims event, U64 d := by
  intro d hd
  have hmem : d ∈ event.arrayShape.getD [] := List.mem_of_mem_take hd
  cases hshape : event.arrayShape with
  | none =>
    rw [hshape] at hmem
    simp at hmem
  | some dims =>
    rw [hshape] at hmem
    exact h.arrayShape dims hshape d hmem

theorem shapeDims_length_le (event : CpuEvent) : (shapeDims event).length ≤ 255 := by
  unfold shapeDims
  rw [List.length_take]
  exact Nat.min_le_left _ _

theorem exists_packShape {dims : List ℤ} (h : ∀ d ∈ dims, U64 d) :
    ∃ bytes, packShape dims = .ok bytes := by
  unfold packShape
  by_cases hnil : dims.length = 0
  · exact ⟨[], if_pos hnil⟩
  · obtain ⟨bytes, hbytes⟩ := exists_packed (fits_shape h)
    exact ⟨bytes, by rw [if_neg hnil, hbytes.packs]⟩

theorem fits_fixed {event : CpuEvent} (h : FitsWire event) {eventType : ℤ}
    (htype : Code.B.Fits eventType) (isDealloc : Bool) :
    List.Forall₂ Code.Fits fixedFmt (fixedValues event eventType isDealloc) := by
  unfold fixedFmt fixedValues
  refine .cons (fits_of_u64 h.eventId) (.cons (fits_of_u64 h.timestampNs)
    (.cons (fits_of_u32 h.processId) (.cons (fits_of_u64 h.threadId) (.cons htype
    (.cons (fits_byteOfBool isDealloc) (.cons (fits_of_u64 h.allocAddress)
    (.cons (fits_of_u64 h.allocSizeBytes) (.cons (fits_of_u32 h.refCount)
    (.cons (fits_of_i8 h.gcGeneration) (.cons ?_ .nil))))))))))
  exact fits_of_len (encodeCapped_length_le event.objectType)

theorem fits_core {event : CpuEvent} (h : FitsWire event) :
    List.Forall₂ Code.Fits cpuExtFmt (coreValues (sentExt event)) := by
  have hndim := shapeDims_length_le event
  unfold cpuExtFmt coreValues
  refine .cons (fits_of_u64 (u64_getD h.peakRssKb)) (.cons (fits_of_u64 (u64_getD h.lifetimeNs))
    (.cons (fits_byteOfBool _) (.cons (fits_of_u64 (u64_getD h.bufferNbytes))
    (.cons (fits_of_u64 (u64_getD h.parentAddress))
    (.cons (fits_of_u64 (u64_getD h.pinnedAddress))
    (.cons (fits_of_u64 (u64_getD h.tracemallocSize)) (.cons ?_ .nil)))))))
  apply fits_of_byte
  · exact Int.natCast_nonneg _
  · change ((shapeDims event).length : ℤ) < 256
    omega

theorem exists_packLen {s : String} :
    ∃ bytes, Packed [.H] [((encodeCapped s).length : ℤ)] bytes :=
  exists_packed (.cons (fits_of_len (encodeCapped_length_le s)) .nil)

theorem serialize_eq {event : CpuEvent} {eventType : ℤ} {isDealloc : Bool}
    {fixed nameLen core shapeBytes dtypeLen : List UInt8}
    (hlookup : eventTypeMap.lookup event.base.eventType = some eventType)
    (hdealloc : event.isDealloc = some isDealloc)
    (hfixed : pack fixedFmt (fixedValues event eventType isDealloc) = .ok fixed)
    (hname : packLen (encodeCapped (event.moduleName.getD "")).length = .ok nameLen)
    (hcore : pack cpuExtFmt (coreValues (sentExt event)) = .ok core)
    (hshape : packShape (shapeDims event) = .ok shapeBytes)
    (hdtype : packLen (encodeCapped (event.arrayDtype.getD "")).length = .ok dtypeLen) :
    serialize event = .ok (fixed ++ (encodeCapped event.objectType ++ (nameLen ++
      (encodeCapped (event.moduleName.getD "") ++ (core ++ (shapeBytes ++ (dtypeLen ++
        encodeCapped (event.arrayDtype.getD "")))))))) := by
  unfold fixedValues at hfixed
  unfold coreValues sentExt at hcore
  unfold serialize isDeallocOf
  rw [hdealloc, hlookup]
  simp only [ok_bind, Option.getD_some, hfixed, hshape, hname, hcore, hdtype]
  rfl

theorem packShape_length {dims : List ℤ} {bytes : List UInt8} (h : packShape dims = .ok bytes) :
    bytes.length = dims.length * 8 := by
  unfold packShape at h
  by_cases hnil : dims.length = 0
  · rw [if_pos hnil] at h
    cases h
    rw [hnil]
    rfl
  · rw [if_neg hnil] at h
    rw [pack_length h, size_replicate]
    rfl

/-- A payload is as long as its fixed parts, its names and its shape. -/
theorem serialize_length {event : CpuEvent} {payload : List UInt8}
    (h : serialize event = .ok payload) :
    payload.length = 107 + (encodeCapped event.objectType).length +
      (encodeCapped (event.moduleName.getD "")).length +
      (encodeCapped (event.arrayDtype.getD "")).length + (shapeDims event).length * 8 := by
  unfold serialize packLen at h
  obtain ⟨isDealloc, -, h⟩ := ok_of_bind h
  obtain ⟨fixed, hfixed, h⟩ := ok_of_bind h
  obtain ⟨shapeBytes, hshape, h⟩ := ok_of_bind h
  obtain ⟨nameLen, hname, h⟩ := ok_of_bind h
  obtain ⟨core, hcore, h⟩ := ok_of_bind h
  obtain ⟨dtypeLen, hdtype, h⟩ := ok_of_bind h
  have hpayload := Except.ok.inj h
  have hfixedSize : fixed.length = 53 := pack_length hfixed
  have hnameSize : nameLen.length = 2 := pack_length hname
  have hcoreSize : core.length = 50 := pack_length hcore
  have hdtypeSize : dtypeLen.length = 2 := pack_length hdtype
  have hshapeSize := packShape_length hshape
  rw [← hpayload]
  simp only [List.length_append]
  omega

/-- The bytes of a serialized event, part by part. -/
theorem serialize_parts {event : CpuEvent} (h : FitsWire event) :
    ∃ eventType isDealloc fixed nameLen core shapeBytes dtypeLen,
      typeMapRev.lookup eventType = some event.base.eventType ∧
      event.isDealloc = some isDealloc ∧
      Packed fixedFmt (fixedValues event eventType isDealloc) fixed ∧
      ExtParts (sentExt event) nameLen (encodeCapped (event.moduleName.getD "")) core shapeBytes
        dtypeLen (encodeCapped (event.arrayDtype.getD "")) ∧
      serialize event = .ok (fixed ++ (encodeCapped event.objectType ++ (nameLen ++
        (encodeCapped (event.moduleName.getD "") ++ (core ++ (shapeBytes ++ (dtypeLen ++
          encodeCapped (event.arrayDtype.getD "")))))))) := by
  obtain ⟨eventType, hlookup, htype, hrev⟩ := eventType_lookup h.eventType
  obtain ⟨isDealloc, hdealloc⟩ := Option.isSome_iff_exists.mp h.isDealloc
  obtain ⟨fixed, hfixed⟩ := exists_packed (fits_fixed h htype isDealloc)
  obtain ⟨nameLen, hname⟩ := exists_packLen (s := event.moduleName.getD "")
  obtain ⟨core, hcore⟩ := exists_packed (fits_core h)
  obtain ⟨shapeBytes, hshape⟩ := exists_packShape (shapeDims_u64 h)
  obtain ⟨dtypeLen, hdtype⟩ := exists_packLen (s := event.arrayDtype.getD "")
  refine ⟨eventType, isDealloc, fixed, nameLen, core, shapeBytes, dtypeLen, hrev, hdealloc,
    hfixed, ?_, ?_⟩
  · exact {
      nameLen := hname
      name := decodeReplace_encodeCapped _
      core := hcore
      dims := shapeDims_u64 h
      shape := hshape
      dtypeLen := hdtype
      dtype := decodeReplace_encodeCapped _ }
  · exact serialize_eq hlookup hdealloc hfixed.packs hname.packs hcore.packs hshape hdtype.packs

/-- The bytes of an event that fits the wire are read as what the wire keeps of it. -/
theorem deserialize_of_serialize {event : CpuEvent} (h : FitsWire event) {payload : List UInt8}
    (hpayload : serialize event = .ok payload) : deserialize payload = .ok (received event) := by
  obtain ⟨eventType, isDealloc, fixed, nameLen, core, shapeBytes, dtypeLen, hrev, hdealloc,
    hfixed, hext, hserialize⟩ := serialize_parts h
  rw [hserialize] at hpayload
  cases hpayload
  generalize hrest : encodeCapped event.objectType ++ (nameLen ++
    (encodeCapped (event.moduleName.getD "") ++ (core ++ (shapeBytes ++ (dtypeLen ++
      encodeCapped (event.arrayDtype.getD "")))))) = rest
  have hsize : fixed.length = fixedSize := hfixed.length_eq
  have hat := Remains.start fixed rest
  rw [hsize] at hat
  have hlen := hat.length_eq
  rw [← hrest] at hat
  have htext := text_eq hat
  have hread := readExt_eq hext (hat.next rfl)
  rw [hrest] at htext hread
  rw [decodeReplace_encodeCapped] at htext
  unfold deserialize
  rw [if_neg (by omega), List.take_left' hsize, hfixed.unpack]
  dsimp only [fixedValues]
  rw [Int.toNat_natCast, hread, htext, hrev, byteOfBool_ne_zero, ← hdealloc]
  rfl

/-- An event that fits the wire is written, and reading it back gives the event with
the empty call stack, the defaults of its absent fields, the first 255 dimensions of
its shape and what the wire keeps of its strings. -/
theorem deserialize_serialize (event : CpuEvent) (h : FitsWire event) :
    ∃ payload, serialize event = .ok payload ∧ deserialize payload = .ok (received event) := by
  obtain ⟨eventType, isDealloc, fixed, nameLen, core, shapeBytes, dtypeLen, -, -, -, -,
    hserialize⟩ := serialize_parts h
  exact ⟨_, hserialize, deserialize_of_serialize h hserialize⟩

/-- A NumPy buffer of two rows, with fields present, absent and at their bounds. -/
def sampleBuffer : CpuEvent where
  base := {
    eventId := 7, timestampNs := 2 ^ 64 - 1, processId := 42, threadId := 140
    eventType := "ALLOC" }
  allocAddress := 4096
  allocSizeBytes := 1024
  objectType := "numpy.ndarray"
  refCount := 2
  gcGeneration := -1
  isDealloc := some false
  callstack := ["main.py:3"]
  moduleName := some "numpy"
  peakRssKb := none
  lifetimeNs := none
  isNumpyBuffer := some true
  bufferNbytes := some 1024
  parentAddress := none
  pinnedAddress := some 8192
  tracemallocSize := none
  arrayShape := some [2, 64]
  arrayDtype := some "float64"

theorem sampleBuffer_fits : FitsWire sampleBuffer := by
  constructor <;> simp [sampleBuffer, U64, U32, I8, eventTypeMap]

theorem deserialize_serialize_sampleBuffer :
    ∃ payload, serialize sampleBuffer = .ok payload ∧
      deserialize payload = .ok (received sampleBuffer) :=
  deserialize_serialize sampleBuffer sampleBuffer_fits

end HpcProfiler.CpuRoundTrip
