import HpcProfiler.ActivityDelivery
import HpcProfiler.CorrelatorLifecycle
import HpcProfiler.DecoderSafety

/-!
The schema of a session file, and which sessions conform to it. The decoders can only
produce numbers of their codes' ranges, so of all the constraints of the schema few can
fail: the generation of a CPU event, and in a GPU event the two names and the three
numbers that one of the formats takes for signed ones.
-/

namespace HpcProfiler.SessionSchema

open Events StructFormat Correlation CorrelatorLifecycle StepSystem

/-! The definitions of the schema, for records whose fields have the types it asks for. -/

def eventTypeEnum : List String := ["ALLOC", "DEALLOC", "TRANSFER", "PAGE_FAULT", "KERNEL"]

def transferKindEnum : List String := ["HOST_TO_DEVICE", "DEVICE_TO_HOST", "DEVICE_TO_DEVICE"]

/-- A required field is there. -/
def Present {α : Type} (field : Option α) : Prop := field.isSome

/-- A required field is there and is no negative number. -/
def Minimum0 (field : Option ℤ) : Prop := ∃ v, field = some v ∧ 0 ≤ v

structure BaseEvent (base : Base) : Prop where
  eventId : 0 ≤ base.eventId
  timestampNs : 0 ≤ base.timestampNs
  processId : 0 ≤ base.processId
  threadId : 0 ≤ base.threadId
  eventType : base.eventType ∈ eventTypeEnum

structure CpuConforms (event : CpuEvent) : Prop where
  base : BaseEvent event.base
  allocAddress : 0 ≤ event.allocAddress
  allocSizeBytes : 0 ≤ event.allocSizeBytes
  moduleName : Present event.moduleName
  refCount : 0 ≤ event.refCount
  gcGeneration : -1 ≤ event.gcGeneration ∧ event.gcGeneration ≤ 2
  isDealloc : Present event.isDealloc
  peakRssKb : Minimum0 event.peakRssKb
  lifetimeNs : Minimum0 event.lifetimeNs
  isNumpyBuffer : Present event.isNumpyBuffer
  bufferNbytes : Minimum0 event.bufferNbytes
  parentAddress : Minimum0 event.parentAddress
  pinnedAddress : Minimum0 event.pinnedAddress
  tracemallocSize : Minimum0 event.tracemallocSize
  arrayShape : ∃ dims, event.arrayShape = some dims ∧ ∀ v ∈ dims, 0 ≤ v
  arrayDtype : Present event.arrayDtype

structure DimConforms (dim : Dim3) : Prop where
  x : 0 ≤ dim.x
  y : 0 ≤ dim.y
  z : 0 ≤ dim.z

structure GpuConforms (event : GpuEvent) : Prop where
  base : BaseEvent event.base
  deviceId : 0 ≤ event.deviceId
  srcAddress : Minimum0 event.srcAddress
  dstAddress : Minimum0 event.dstAddress
  transferSizeBytes : Minimum0 event.transferSizeBytes
  transferKind : event.transferKind ∈ transferKindEnum
  umPageFaults : 0 ≤ event.umPageFaults
  kernelDurationNs : 0 ≤ event.kernelDurationNs
  streamId : 0 ≤ event.streamId
  deviceMemUsedMb : 0 ≤ event.deviceMemUsedMb
  umBytesHtod : 0 ≤ event.umBytesHtod
  umBytesDtoh : 0 ≤ event.umBytesDtoh
  grid : DimConforms event.grid
  block : DimConforms event.block
  registersPerThread : 0 ≤ event.registersPerThread
  sharedMemBytes : 0 ≤ event.sharedMemBytes
  correlationId : 0 ≤ event.correlationId

structure SessionConforms (session : ProfilingSession) : Prop where
  cpuEvents : ∀ event ∈ session.cpuEvents, CpuConforms event
  gpuEvents : ∀ event ∈ session.gpuEvents, GpuConforms event
  correlatedEvents : ∀ r ∈ session.correlatedEvents, 0 ≤ r.latencyNs

/-! What the codes of a format bring about. -/

theorem value_fits (c : Code) (bytes : List UInt8) : c.Fits (c.value bytes) := by
  have hpos := c.modulus_pos
  have hnonneg := Int.emod_nonneg ((LittleEndian.leNat bytes : ℤ) - c.low)
    (by omega : c.modulus ≠ 0)
  have hlt := Int.emod_lt_of_pos ((LittleEndian.leNat bytes : ℤ) - c.low) hpos
  unfold Code.Fits Code.value
  omega

theorem value_nonneg {c : Code} (h : c.signed = false) (bytes : List UInt8) :
    0 ≤ c.value bytes := by
  have hlow : c.low = 0 := by
    rw [Code.low, h]
    rfl
  have hfits := (value_fits c bytes).1
  omega

theorem values_nonneg {fmt : List Code} (h : ∀ c ∈ fmt, c.signed = false) (bytes : List UInt8) :
    ∀ v ∈ values fmt bytes, 0 ≤ v := by
  induction fmt generalizing bytes with
  | nil =>
    intro v hv
    cases hv
  | cons c fmt ih =>
    obtain ⟨hc, hrest⟩ := List.forall_mem_cons.mp h
    exact List.forall_mem_cons.mpr ⟨value_nonneg hc _, ih hrest _⟩

theorem unpackFrom_nonneg {fmt : List Code} (h : ∀ c ∈ fmt, c.signed = false)
    {payload : List UInt8} {off : ℕ} {vs : List ℤ} (hread : unpackFrom fmt payload off = .ok vs) :
    ∀ v ∈ vs, 0 ≤ v := by
  unfold unpackFrom at hread
  split at hread
  · cases hread
    exact values_nonneg h _
  · cases hread

/-! CPU events. -/

/-- The numbers of an extension block. -/
structure CpuExtNatural (ext : CpuCodec.CpuExt) : Prop where
  peakRssKb : 0 ≤ ext.peakRssKb
  lifetimeNs : 0 ≤ ext.lifetimeNs
  bufferNbytes : 0 ≤ ext.bufferNbytes
  parentAddress : 0 ≤ ext.parentAddress
  pinnedAddress : 0 ≤ ext.pinnedAddress
  tracemallocSize : 0 ≤ ext.tracemallocSize
  arrayShape : ∀ v ∈ ext.arrayShape, 0 ≤ v

/-- A block that only its name has been read of. -/
theorem cpuExtNatural_named (name : String) : CpuExtNatural { moduleName := name } :=
  ⟨le_refl _, le_refl _, le_refl _, le_refl _, le_refl _, le_refl _, List.forall_mem_nil _⟩

section

variable {payload : List UInt8} {off : ℕ} {ext found : CpuCodec.CpuExt}

theorem readDtype_natural (h : CpuExtNatural ext)
    (hread : CpuCodec.readDtype payload off ext = .ok found) : CpuExtNatural found := by
  unfold CpuCodec.readDtype at hread
  split at hread
  · obtain ⟨dtypeLen, -, hrest⟩ := ok_of_bind hread
    split at hrest
    · cases hrest
      exact ⟨h.1, h.2, h.3, h.4, h.5, h.6, h.7⟩
    · cases hrest
      exact h
  · cases hread
    exact h

theorem readShape_natural {arrayNdim : ℕ} (h : CpuExtNatural ext)
    (hread : CpuCodec.readShape payload off arrayNdim ext = .ok found) :
    CpuExtNatural found := by
  unfold CpuCodec.readShape at hread
  split at hread
  · obtain ⟨shapeVals, hshape, hrest⟩ := ok_of_bind hread
    have hunsigned : ∀ c ∈ List.replicate arrayNdim Code.Q, c.signed = false := by
      intro c hc
      rw [List.eq_of_mem_replicate hc]
      rfl
    have hnext : CpuExtNatural { ext with arrayShape := shapeVals } :=
      ⟨h.1, h.2, h.3, h.4, h.5, h.6, unpackFrom_nonneg hunsigned hshape⟩
    exact readDtype_natural hnext hrest
  · exact readDtype_natural h hread

theorem readCore_natural (h : CpuExtNatural ext)
    (hread : CpuCodec.readCore payload off ext = .ok found) : CpuExtNatural found := by
  unfold CpuCodec.readCore at hread
  split at hread
  · split at hread
    case h_1 peakRssKb lifetimeNs isNumpyByte bufferNbytes parentAddress pinnedAddress
        tracemallocSize arrayNdim hvalues =>
      have hunsigned : ∀ c ∈ CpuCodec.cpuExtFmt, c.signed = false := by decide
      have hnonneg := unpackFrom_nonneg hunsigned hvalues
      simp only [List.forall_mem_cons] at hnonneg
      obtain ⟨hrss, hlifetime, -, hbuffer, hparent, hpinned, htracemalloc, -⟩ := hnonneg
      have hnext : CpuExtNatural { ext with
          peakRssKb, lifetimeNs, isNumpy := isNumpyByte != 0, bufferNbytes, parentAddress,
          pinnedAddress, tracemallocSize } :=
        ⟨hrss, hlifetime, hbuffer, hparent, hpinned, htracemalloc, h.7⟩
      exact readShape_natural hnext hread
    case h_2 => cases hread
    case h_3 => cases hread
  · cases hread
    exact h

theorem readExt_natural (hread : CpuCodec.readExt payload off = .ok found) :
    CpuExtNatural found := by
  unfold CpuCodec.readExt at hread
  split at hread
  · obtain ⟨moduleNameLen, -, hrest⟩ := ok_of_bind hread
    split at hrest
    · exact readCore_natural (cpuExtNatural_named _) hrest
    · exact readCore_natural (cpuExtNatural_named _) hrest
  · cases hread
    exact cpuExtNatural_named _

end

theorem typeMapRev_getD_mem (n : ℤ) :
    (CpuCodec.typeMapRev.lookup n).getD "ALLOC" ∈ eventTypeEnum := by
  cases hlookup : CpuCodec.typeMapRev.lookup n with
  | none => decide
  | some name =>
    obtain ⟨before, after, hsplit, -⟩ := List.lookup_eq_some_iff.mp hlookup
    have hmem : name ∈ CpuCodec.typeMapRev.map Prod.snd := by
      rw [hsplit, List.map_append, List.map_cons]
      exact List.mem_append_right _ List.mem_cons_self
    exact hmem

/-- Of the fixed header, only the generation is signed. -/
theorem fixed_nonneg {bytes : List UInt8}
    {eventId timestampNs processId threadId eventTypeInt isDealloc allocAddress allocSize
      refCount gcGeneration objectTypeLen : ℤ}
    (h : unpack CpuCodec.fixedFmt bytes = .ok [eventId, timestampNs, processId, threadId,
      eventTypeInt, isDealloc, allocAddress, allocSize, refCount, gcGeneration, objectTypeLen]) :
    0 ≤ eventId ∧ 0 ≤ timestampNs ∧ 0 ≤ processId ∧ 0 ≤ threadId ∧ 0 ≤ allocAddress ∧
      0 ≤ allocSize ∧ 0 ≤ refCount := by
  unfold unpack at h
  split at h
  · have hvalues := Except.ok.inj h
    simp only [CpuCodec.fixedFmt, values, List.cons.injEq] at hvalues
    obtain ⟨rfl, rfl, rfl, rfl, -, -, rfl, rfl, rfl, -⟩ := hvalues
    exact ⟨value_nonneg rfl _, value_nonneg rfl _, value_nonneg rfl _, value_nonneg rfl _,
      value_nonneg rfl _, value_nonneg rfl _, value_nonneg rfl _⟩
  · cases h

/-- A CPU event that was decoded from any payload conforms unless its generation is out
of range. -/
theorem deserialize_cpuConforms {payload : List UInt8} {event : CpuEvent}
    (h : CpuCodec.deserialize payload = .ok event) :
    CpuConforms event ↔ -1 ≤ event.gcGeneration ∧ event.gcGeneration ≤ 2 := by
  refine ⟨fun hconforms => hconforms.gcGeneration, ?_⟩
  intro hgeneration
  unfold CpuCodec.deserialize at h
  split at h
  · cases h
  · split at h
    case h_1 eventId timestampNs processId threadId eventTypeInt isDealloc allocAddress allocSize
        refCount gcGeneration objectTypeLen hvalues =>
      obtain ⟨hid, htime, hpid, htid, haddress, hsize, href⟩ := fixed_nonneg hvalues
      obtain ⟨ext, hext, hevent⟩ := ok_of_bind h
      have hnatural := readExt_natural hext
      cases hevent
      exact {
        base := ⟨hid, htime, hpid, htid, typeMapRev_getD_mem eventTypeInt⟩
        allocAddress := haddress
        allocSizeBytes := hsize
        moduleName := rfl
        refCount := href
        gcGeneration := hgeneration
        isDealloc := rfl
        peakRssKb := ⟨_, rfl, hnatural.peakRssKb⟩
        lifetimeNs := ⟨_, rfl, hnatural.lifetimeNs⟩
        isNumpyBuffer := rfl
        bufferNbytes := ⟨_, rfl, hnatural.bufferNbytes⟩
        parentAddress := ⟨_, rfl, hnatural.parentAddress⟩
        pinnedAddress := ⟨_, rfl, hnatural.pinnedAddress⟩
        tracemallocSize := ⟨_, rfl, hnatural.tracemallocSize⟩
        arrayShape := ⟨_, rfl, hnatural.arrayShape⟩
        arrayDtype := rfl }
    case h_2 => cases h
    case h_3 => cases h

/-! GPU events. -/

/-- The numbers of an extension block that no format takes for signed ones. -/
structure GpuExtNatural (ext : GpuCodec.GpuExt) : Prop where
  deviceId : 0 ≤ ext.deviceId
  srcAddress : 0 ≤ ext.srcAddress
  dstAddress : 0 ≤ ext.dstAddress
  transferSize : 0 ≤ ext.transferSize
  pageFaults : 0 ≤ ext.pageFaults
  kernelDurationNs : 0 ≤ ext.kernelDurationNs
  umBytesHtod : 0 ≤ ext.umBytesHtod
  umBytesDtoh : 0 ≤ ext.umBytesDtoh
  grid : DimConforms ext.grid
  block : DimConforms ext.block
  registersPerThread : 0 ≤ ext.registersPerThread
  sharedMemBytes : 0 ≤ ext.sharedMemBytes

theorem dimConforms_zero : DimConforms ⟨0, 0, 0⟩ := ⟨le_refl _, le_refl _, le_refl _⟩

section

variable {payload : List UInt8} {off : ℕ} {found : GpuCodec.GpuExt}

theorem readFullExt_natural (h : GpuCodec.readFullExt payload off = .ok found) :
    GpuExtNatural found := by
  unfold GpuCodec.readFullExt unpackFrom at h
  split at h
  case h_1 hvalues =>
    split at hvalues
    · have hlist := Except.ok.inj hvalues
      simp only [GpuCodec.extFmt, values, List.cons.injEq] at hlist
      obtain ⟨rfl, rfl, rfl, rfl, -, rfl, rfl, -, -, rfl, rfl, rfl, rfl, rfl, rfl, rfl, rfl, rfl,
        rfl, -⟩ := hlist
      cases h
      exact ⟨value_nonneg rfl _, value_nonneg rfl _, value_nonneg rfl _, value_nonneg rfl _,
        value_nonneg rfl _, value_nonneg rfl _, value_nonneg rfl _, value_nonneg rfl _,
        ⟨value_nonneg rfl _, value_nonneg rfl _, value_nonneg rfl _⟩,
        ⟨value_nonneg rfl _, value_nonneg rfl _, value_nonneg rfl _⟩,
        value_nonneg rfl _, value_nonneg rfl _⟩
    · cases hvalues
  case h_2 => cases h
  case h_3 => cases h

theorem readOldExt_natural (h : GpuCodec.readOldExt payload off = .ok found) :
    GpuExtNatural found := by
  unfold GpuCodec.readOldExt unpackFrom at h
  split at h
  case h_1 hvalues =>
    split at hvalues
    · have hlist := Except.ok.inj hvalues
      simp only [GpuCodec.oldFmt, values, List.cons.injEq] at hlist
      obtain ⟨rfl, rfl, rfl, rfl, -, rfl, rfl, -⟩ := hlist
      cases h
      exact ⟨value_nonneg rfl _, value_nonneg rfl _, value_nonneg rfl _, value_nonneg rfl _,
        value_nonneg rfl _, value_nonneg rfl _, le_refl _, le_refl _, dimConforms_zero,
        dimConforms_zero, le_refl _, le_refl _⟩
    · cases hvalues
  case h_2 => cases h
  case h_3 => cases h

theorem readGpuExt_natural (h : GpuCodec.readGpuExt payload off = .ok found) :
    GpuExtNatural found := by
  unfold GpuCodec.readGpuExt at h
  dsimp only at h
  split at h
  · exact readFullExt_natural h
  · split at h
    · exact readOldExt_natural h
    · cases h
      exact ⟨le_refl _, le_refl _, le_refl _, le_refl _, le_refl _, le_refl _, le_refl _,
        le_refl _, dimConforms_zero, dimConforms_zero, le_refl _, le_refl _⟩

end

/-- What the decoder of GPU events leaves open of the schema. -/
structure NamedAndUnsigned (event : GpuEvent) : Prop where
  eventType : event.base.eventType ∈ eventTypeEnum
  transferKind : event.transferKind ∈ transferKindEnum
  streamId : 0 ≤ event.streamId
  deviceMemUsedMb : 0 ≤ event.deviceMemUsedMb
  correlationId : 0 ≤ event.correlationId

/-- A GPU event that was decoded from any payload conforms exactly if its names are names
of the schema and none of three of its numbers has been taken for a negative one. -/
theorem deserialize_gpuConforms {payload : List UInt8} {event : GpuEvent}
    (h : GpuCodec.deserialize payload = .ok event) :
    GpuConforms event ↔ NamedAndUnsigned event := by
  constructor
  · intro hconforms
    exact ⟨hconforms.base.eventType, hconforms.transferKind, hconforms.streamId,
      hconforms.deviceMemUsedMb, hconforms.correlationId⟩
  intro hopen
  unfold GpuCodec.deserialize at h
  split at h
  · cases h
  · split at h
    case h_1 eventId timestampNs processId threadId eventTypeByte isDealloc allocAddress allocSize
        refCount gcGeneration labelLen hvalues =>
      have hunsigned : ∀ c ∈ GpuCodec.hdrFmt, c.signed = false := by decide
      have hnonneg := unpackFrom_nonneg hunsigned hvalues
      simp only [List.forall_mem_cons] at hnonneg
      obtain ⟨hid, htime, hpid, -⟩ := hnonneg
      dsimp only at h
      split at h
      · cases h
      · obtain ⟨ext, hext, hevent⟩ := ok_of_bind h
        have hnatural := readGpuExt_natural hext
        cases hevent
        exact {
          base := ⟨hid, htime, hpid, le_refl _, hopen.eventType⟩
          deviceId := hnatural.deviceId
          srcAddress := ⟨_, rfl, hnatural.srcAddress⟩
          dstAddress := ⟨_, rfl, hnatural.dstAddress⟩
          transferSizeBytes := ⟨_, rfl, hnatural.transferSize⟩
          transferKind := hopen.transferKind
          umPageFaults := hnatural.pageFaults
          kernelDurationNs := hnatural.kernelDurationNs
          streamId := hopen.streamId
          deviceMemUsedMb := hopen.deviceMemUsedMb
          umBytesHtod := hnatural.umBytesHtod
          umBytesDtoh := hnatural.umBytesDtoh
          grid := hnatural.grid
          block := hnatural.block
          registersPerThread := hnatural.registersPerThread
          sharedMemBytes := hnatural.sharedMemBytes
          correlationId := hopen.correlationId }
    case h_2 => cases h
    case h_3 => cases h

/-! Sessions. -/

theorem latencyNs_nonneg {cpuEvents : List CpuEvent} {gpuEvents : List GpuEvent}
    {timeWindowNs : ℤ} :
    ∀ r ∈ runCorrelation cpuEvents gpuEvents timeWindowNs, 0 ≤ r.latencyNs := by
  intro r hr
  obtain ⟨m, -, rfl⟩ := List.mem_map.mp hr
  exact le_max_left 0 _

/-- The events were all decoded from payloads. -/
structure Decoded (cpuEvents : List CpuEvent) (gpuEvents : List GpuEvent) : Prop where
  cpu : ∀ event ∈ cpuEvents, ∃ payload, CpuCodec.deserialize payload = .ok event
  gpu : ∀ event ∈ gpuEvents, ∃ payload, GpuCodec.deserialize payload = .ok event

/-- The events that a call brings in were decoded from payloads. -/
def BringsDecoded (t : Timed) : Prop :=
  match t.action with
  | .ingest cpuEvents gpuEvents => Decoded cpuEvents gpuEvents
  | .drainCpu event => Decoded [event] []
  | .drainGpu event => Decoded [] [event]
  | _ => True

theorem Decoded.append {cpuEvents cpuEvents' : List CpuEvent} {gpuEvents gpuEvents' : List GpuEvent}
    (h : Decoded cpuEvents gpuEvents) (h' : Decoded cpuEvents' gpuEvents') :
    Decoded (cpuEvents ++ cpuEvents') (gpuEvents ++ gpuEvents') where
  cpu := List.forall_mem_append.mpr ⟨h.cpu, h'.cpu⟩
  gpu := List.forall_mem_append.mpr ⟨h.gpu, h'.gpu⟩

/-- Everything that the correlator holds or has built a session of was decoded. -/
structure AllDecoded (w : World) : Prop where
  held : Decoded w.correlator.cpuEvents w.correlator.gpuEvents
  built : ∀ session ∈ w.sessions, Decoded session.cpuEvents session.gpuEvents ∧
    ∀ r ∈ session.correlatedEvents, 0 ≤ r.latencyNs

theorem allDecoded_init (timeWindow : ℤ) : AllDecoded (.init timeWindow) where
  held := ⟨List.forall_mem_nil _, List.forall_mem_nil _⟩
  built := List.forall_mem_nil _

theorem apply_decoded {c : Correlator} {t : Timed} (h : Decoded c.cpuEvents c.gpuEvents)
    (ht : BringsDecoded t) : Decoded (apply c t).cpuEvents (apply c t).gpuEvents := by
  obtain ⟨action, now⟩ := t
  cases action with
  | start => exact h
  | stop => exact h
  | ingest cpuEvents gpuEvents => exact ht
  | buildSession sessionId => exact h
  | drainCpu event =>
    have happend := h.append ht
    rw [List.append_nil] at happend
    exact happend
  | drainGpu event =>
    have happend := h.append ht
    rw [List.append_nil] at happend
    exact happend

theorem AllDecoded.step {w w' : World} {t : Timed} (h : AllDecoded w) (ht : BringsDecoded t)
    (hstep : CorrelatorLifecycle.step w t = some w') : AllDecoded w' := by
  unfold CorrelatorLifecycle.step at hstep
  split at hstep
  · cases hstep
    refine ⟨apply_decoded h.held ht, ?_⟩
    intro session hsession
    rcases List.mem_append.mp hsession with hold | hnew
    · exact h.built session hold
    · obtain ⟨action, now⟩ := t
      cases action with
      | buildSession sessionId =>
        rw [List.mem_singleton.mp hnew]
        exact ⟨h.held, latencyNs_nonneg⟩
      | _ => cases hnew
  · cases hstep

theorem sessionConforms_iff {session : ProfilingSession}
    (hdecoded : Decoded session.cpuEvents session.gpuEvents)
    (hlatency : ∀ r ∈ session.correlatedEvents, 0 ≤ r.latencyNs) :
    SessionConforms session ↔
      (∀ event ∈ session.cpuEvents, -1 ≤ event.gcGeneration ∧ event.gcGeneration ≤ 2) ∧
        ∀ event ∈ session.gpuEvents, NamedAndUnsigned event := by
  have hcpu : ∀ event ∈ session.cpuEvents,
      (CpuConforms event ↔ -1 ≤ event.gcGeneration ∧ event.gcGeneration ≤ 2) := by
    intro event hevent
    obtain ⟨payload, hpayload⟩ := hdecoded.cpu event hevent
    exact deserialize_cpuConforms hpayload
  have hgpu : ∀ event ∈ session.gpuEvents, (GpuConforms event ↔ NamedAndUnsigned event) := by
    intro event hevent
    obtain ⟨payload, hpayload⟩ := hdecoded.gpu event hevent
    exact deserialize_gpuConforms hpayload
  constructor
  · intro h
    exact ⟨fun event hevent => (hcpu event hevent).mp (h.cpuEvents event hevent),
      fun event hevent => (hgpu event hevent).mp (h.gpuEvents event hevent)⟩
  · intro ⟨h, h'⟩
    exact ⟨fun event hevent => (hcpu event hevent).mpr (h event hevent),
      fun event hevent => (hgpu event hevent).mpr (h' event hevent), hlatency⟩

/-- In every run of a correlator whose events come from payloads, whatever these hold: a
session that it has built conforms to the schema exactly if the generation of each CPU
event is one of the four that there are, and each GPU event has names of the schema and no
number that was taken for a negative one. -/
theorem sessions_conform_iff (timeWindow : ℤ) (calls : List Timed) (w : World)
    (hdecoded : ∀ t ∈ calls, BringsDecoded t)
    (hrun : run CorrelatorLifecycle.step (.init timeWindow) calls = some w) :
    ∀ session ∈ w.sessions, SessionConforms session ↔
      (∀ event ∈ session.cpuEvents, -1 ≤ event.gcGeneration ∧ event.gcGeneration ≤ 2) ∧
        ∀ event ∈ session.gpuEvents, NamedAndUnsigned event := by
  have hstep : ∀ v t v', AllDecoded v → BringsDecoded t →
      CorrelatorLifecycle.step v t = some v' → AllDecoded v' :=
    fun _ _ _ h ht hnext => h.step ht hnext
  have hall := run_invariant hstep (allDecoded_init timeWindow) hdecoded hrun
  intro session hsession
  obtain ⟨hevents, hlatency⟩ := hall.built session hsession
  exact sessionConforms_iff hevents hlatency

/-- An event of each kind is drained. -/
def drainedOnce (cpu : CpuEvent) (gpu : GpuEvent) : List Timed :=
  [⟨.start, 10⟩, ⟨.drainCpu cpu, 20⟩, ⟨.drainGpu gpu, 30⟩, ⟨.buildSession "s", 40⟩]

theorem sessions_conform_iff_zeros : ∃ cpu gpu w,
    run CorrelatorLifecycle.step (.init 100) (drainedOnce cpu gpu) = some w ∧
      ∀ session ∈ w.sessions, SessionConforms session ↔
        (∀ event ∈ session.cpuEvents, -1 ≤ event.gcGeneration ∧ event.gcGeneration ≤ 2) ∧
          ∀ event ∈ session.gpuEvents, NamedAndUnsigned event := by
  have hcpu : (CpuCodec.deserialize (List.replicate 53 0)).isOk = true := rfl
  have hgpu : (GpuCodec.deserialize (List.replicate 53 0)).isOk = true := rfl
  cases hcpuEvent : CpuCodec.deserialize (List.replicate 53 0) with
  | error e =>
    rw [hcpuEvent] at hcpu
    cases hcpu
  | ok cpu =>
    cases hgpuEvent : GpuCodec.deserialize (List.replicate 53 0) with
    | error e =>
      rw [hgpuEvent] at hgpu
      cases hgpu
    | ok gpu =>
      have hone : Decoded [cpu] [] :=
        ⟨List.forall_mem_singleton.mpr ⟨_, hcpuEvent⟩, List.forall_mem_nil _⟩
      have hother : Decoded [] [gpu] :=
        ⟨List.forall_mem_nil _, List.forall_mem_singleton.mpr ⟨_, hgpuEvent⟩⟩
      have hdrained : ∀ t ∈ drainedOnce cpu gpu, BringsDecoded t := by
        unfold drainedOnce
        simp only [List.forall_mem_cons]
        exact ⟨trivial, hone, hother, trivial, List.forall_mem_nil _⟩
      exact ⟨cpu, gpu, _, rfl, sessions_conform_iff 100 (drainedOnce cpu gpu) _ hdrained rfl⟩

/-! The session of what a layer has delivered. -/

theorem asSigned_nonneg_iff (v : UInt32) : 0 ≤ GpuRoundTrip.asSigned v ↔ v.toNat < 2 ^ 31 := by
  have hlt := v.toNat_lt
  unfold GpuRoundTrip.asSigned
  split
  · omega
  · omega

theorem eventTypeName_mem {code : UInt8} (h : code ∈ [GpuEncoder.EVENT_TRANSFER,
    GpuEncoder.EVENT_PAGE_FAULT, GpuEncoder.EVENT_KERNEL]) :
    GpuRoundTrip.eventTypeName code ∈ eventTypeEnum := by
  simp only [List.mem_cons, List.not_mem_nil, or_false] at h
  rcases h with rfl | rfl | rfl
  · decide
  · decide
  · decide

theorem transferKindName_mem {code : UInt8} (h : code ∈ [GpuEncoder.XFER_H2D,
    GpuEncoder.XFER_D2H, GpuEncoder.XFER_D2D]) :
    GpuRoundTrip.transferKindName code ∈ transferKindEnum := by
  simp only [List.mem_cons, List.not_mem_nil, or_false] at h
  rcases h with rfl | rfl | rfl
  · decide
  · decide
  · decide

open ActivityRecords ActivityDelivery

theorem Mapped.coded {x : Issued} (h : Mapped x) : Coded x.event := by
  obtain ⟨layer, mem, hevent⟩ := h
  exact eventOf_coded hevent

theorem receivedOf_decoded {x : Issued × ℕ} (h : Mapped x.1) :
    ∃ payload, GpuCodec.deserialize payload = .ok (receivedOf x) :=
  ⟨payloadOf x, deserialize_serialise (UInt64.ofNat x.2) (Mapped.coded h)⟩

theorem receivedOf_namedAndUnsigned_iff {x : Issued × ℕ} (h : Mapped x.1) :
    NamedAndUnsigned (receivedOf x) ↔ x.1.event.correlationId.toNat < 2 ^ 31 := by
  have hcoded := Mapped.coded h
  rw [← asSigned_nonneg_iff]
  constructor
  · intro hnamed
    exact hnamed.correlationId
  · intro hcorrelation
    exact ⟨eventTypeName_mem hcoded.type, transferKindName_mem hcoded.kind,
      Int.natCast_nonneg _, Int.natCast_nonneg _, hcorrelation⟩

/-- For every run of the layer and its reader, with CPU events from any payloads: the
session that a correlator builds after it has ingested both conforms to the schema exactly
if the generations of the CPU events do and each record that has come through has a
correlation id whose upper bit is clear. -/
theorem layer_conforms {actions : List ActivityRecords.Action} {w : ActivityRecords.World}
    (hrun : run ActivityRecords.step .init actions = some w) {cpuEvents : List CpuEvent}
    (hcpu : ∀ event ∈ cpuEvents, ∃ payload, CpuCodec.deserialize payload = .ok event)
    (c : Correlator) (sessionId : String) (ingested now : ℕ) :
    ∃ done : List (Issued × ℕ), done.Sublist (w.issued.zipIdx 1) ∧
      w.delivered = done.map receivedOf ∧
      (SessionConforms ((c.ingest cpuEvents w.delivered ingested).buildSession sessionId now) ↔
        (∀ event ∈ cpuEvents, -1 ≤ event.gcGeneration ∧ event.gcGeneration ≤ 2) ∧
          ∀ x ∈ done, x.1.event.correlationId.toNat < 2 ^ 31) := by
  obtain ⟨done, queued, h⟩ := delivery_run hrun
  have hdelivered : w.delivered = done.map receivedOf := h.delivered
  have hdone : done.Sublist (w.issued.zipIdx 1) :=
    (List.sublist_append_left done queued).trans h.numbered
  have hmapped : ∀ x ∈ done, Mapped x.1 := by
    intro x hx
    exact h.mapped x.1 (List.fst_mem_of_mem_zipIdx (hdone.subset hx))
  refine ⟨done, hdone, hdelivered, ?_⟩
  have hgpu : ∀ event ∈ w.delivered, ∃ payload, GpuCodec.deserialize payload = .ok event := by
    intro event hevent
    rw [hdelivered] at hevent
    obtain ⟨x, hx, rfl⟩ := List.mem_map.mp hevent
    exact receivedOf_decoded (hmapped x hx)
  have hopen : (∀ event ∈ w.delivered, NamedAndUnsigned event) ↔
      ∀ x ∈ done, x.1.event.correlationId.toNat < 2 ^ 31 := by
    rw [hdelivered, List.forall_mem_map]
    exact forall₂_congr fun x hx => receivedOf_namedAndUnsigned_iff (hmapped x hx)
  rw [← hopen]
  exact sessionConforms_iff ⟨hcpu, hgpu⟩ latencyNs_nonneg

end HpcProfiler.SessionSchema
