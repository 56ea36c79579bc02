import HpcProfiler.ActivityRecords
import HpcProfiler.DrainResults
import HpcProfiler.GpuRoundTrip

/-!
From activity records to delivered events. Every payload that the layer writes
decodes, whatever bytes a kernel's name has, so in every reachable state the records
split into delivered, queued and lost ones, and a delivered event carries the number
of its record as its id.
-/

namespace HpcProfiler.ActivityDelivery

open Events LittleEndian StructFormat WrappingCounter SharedRing RingRecords RingFifo RingMapping
  Utf8Replace GpuEncoder GpuCodec GpuRoundTrip CpuRoundTrip DrainResults
  ActivityRecords StepSystem

/-- The event that the bridge makes of a written payload. -/
def received (eventId : UInt64) (ev : GpuEventData) : GpuEvent :=
  { held eventId ev "" with
    kernelName := decodeReplace ((charsOf ev.label).take 65535)
    correlationId := asSigned ev.correlationId }

/-- An event of the layer has codes that the tables of the bridge know. -/
structure Coded (ev : GpuEventData) : Prop where
  type : ev.eventType ∈ [EVENT_TRANSFER, EVENT_PAGE_FAULT, EVENT_KERNEL]
  kind : ev.transferKind ∈ [XFER_H2D, XFER_D2H, XFER_D2D]

theorem memcpyKind_mem (cuptiKind : UInt8) :
    memcpyKind cuptiKind ∈ [XFER_H2D, XFER_D2H, XFER_D2D] := by
  unfold memcpyKind
  split
  · decide
  · split <;> decide

theorem counterEvent_coded {layer : CuptiLayer} {mem : MemInfo} {r : UnifiedMemoryCounter2}
    {ev : GpuEventData} (h : counterEvent layer mem r = some ev) : Coded ev := by
  unfold counterEvent at h
  split at h
  · cases h
    exact ⟨by simp, by simp⟩
  · cases h
    exact ⟨by simp, by simp⟩
  · cases h
    exact ⟨by simp, by simp⟩
  · cases h
    exact ⟨by simp, by simp⟩
  · cases h

theorem eventOf_coded {layer : CuptiLayer} {mem : MemInfo} {record : Activity}
    {ev : GpuEventData} (h : eventOf layer mem record = some ev) : Coded ev := by
  cases record with
  | memcpy r =>
    cases h
    exact ⟨by simp [memcpyEvent], memcpyKind_mem r.copyKind⟩
  | unifiedMemoryCounter r => exact counterEvent_coded h
  | concurrentKernel r =>
    cases h
    exact ⟨by simp [kernelEvent], by simp [kernelEvent]⟩
  | other => cases h

/-- The header of a payload, the bytes of its label and its extension. -/
theorem serialiseEvent_split (eventId : UInt64) (ev : GpuEventData) :
    ∃ header ext, Packed hdrFmt
        (headerValues eventId ev ((charsOf ev.label).take 65535).length) header ∧
      Packed extFmt (extValues ev) ext ∧
      (serialiseEvent eventId ev).1 = header ++ ((charsOf ev.label).take 65535 ++ ext) := by
  obtain ⟨ext, hheader, hext, hpayload⟩ := serialiseEvent_parts eventId ev
  exact ⟨_, ext, hheader, hext, hpayload⟩

theorem deserialize_serialise (eventId : UInt64) {ev : GpuEventData} (h : Coded ev) :
    deserialize (serialiseEvent eventId ev).1 = .ok (received eventId ev) := by
  obtain ⟨header, ext, hheader, hext, hpayload⟩ := serialiseEvent_split eventId ev
  rw [hpayload]
  have hkind : ev.transferKind ∈ [XFER_H2D, XFER_D2H, XFER_D2D, XFER_PREFETCH] := by
    have hmem := h.kind
    simp only [List.mem_cons, List.not_mem_nil, or_false] at hmem ⊢
    rcases hmem with h1 | h2 | h3
    · exact Or.inl h1
    · exact Or.inr (Or.inl h2)
    · exact Or.inr (Or.inr (Or.inl h3))
  generalize hlabel : (charsOf ev.label).take 65535 = label at hheader ⊢
  generalize hwhole : header ++ (label ++ ext) = payload
  have hsize : header.length = hdrSize := hheader.length_eq
  have hstart : Remains payload 0 (header ++ (label ++ ext)) := ⟨Nat.zero_le _, hwhole.symm⟩
  have hat := hstart.next hsize
  rw [Nat.zero_add] at hat
  have hend := hat.next rfl
  have hlen := hat.length_eq
  have htext := text_eq hat
  have hread : readGpuExt payload (hdrSize + label.length) = .ok (extOf ev) :=
    readGpuExt_eq hext hend
  unfold deserialize
  rw [if_neg (by omega), hheader.unpackFrom hstart]
  dsimp only [headerValues]
  rw [Int.toNat_natCast, if_neg (by rw [List.length_append] at hlen; omega), hread, htext,
    eventTypeNames_lookup h.type]
  simp only [ok_bind, extOf, transferKindMap_lookup hkind, received, hlabel]
  rfl

theorem serialiseEvent_length (eventId : UInt64) (ev : GpuEventData) :
    (serialiseEvent eventId ev).1.length = 154 + ((charsOf ev.label).take 65535).length := by
  obtain ⟨header, ext, hheader, hext, hpayload⟩ := serialiseEvent_split eventId ev
  have hsize : header.length = 53 := hheader.length_eq
  have hextSize : ext.length = 101 := hext.length_eq
  rw [hpayload, List.length_append, List.length_append]
  omega

theorem serialiseEvent_storable (eventId : UInt64) (ev : GpuEventData) :
    Storable (serialiseEvent eventId ev).1 := by
  have hlen := serialiseEvent_length eventId ev
  have hlabel : ((charsOf ev.label).take 65535).length ≤ 65535 := List.length_take_le _ _
  constructor
  · omega
  · omega

/-! A record together with its number. -/

def payloadOf (x : Issued × ℕ) : List UInt8 := (serialiseEvent (UInt64.ofNat x.2) x.1.event).1

def receivedOf (x : Issued × ℕ) : GpuEvent := received (UInt64.ofNat x.2) x.1.event

/-- The event is what the record was mapped to. -/
def Mapped (x : Issued) : Prop := ∃ layer mem, eventOf layer mem x.record = some x.event

/-- What has happened since the state `base`: the events `new` were issued, the reader
has been given those of the records `done`, and the ring holds those of `queued`, both
in the order of the records. -/
structure Delivery (base w : World) (new : List Issued) (done queued : List (Issued × ℕ)) :
    Prop where
  issued : w.issued = base.issued ++ new
  counter : w.gEventId = UInt64.ofNat (w.issued.length + 1)
  mapped : ∀ x ∈ new, Mapped x
  numbered : (done ++ queued).Sublist (new.zipIdx (base.issued.length + 1))
  ring : ∀ seg, w.shm = some seg → ∃ head, Represents seg head (queued.map payloadOf)
  delivered : w.delivered = base.delivered ++ done.map receivedOf

theorem delivery_init : Delivery .init .init [] [] [] where
  issued := rfl
  counter := rfl
  mapped := by simp
  numbered := by simp
  ring := by simp [World.init]
  delivered := rfl

/-- A creation that fails leaves the object as it was or removes its name. -/
theorem rbCreate_none {os : OsCalls} {found after : Option Segment} {capacity : UInt32}
    {create : Bool} (h : rbCreate os found capacity create = (none, after)) :
    after = found ∨ after = none := by
  unfold rbCreate at h
  dsimp only at h
  split at h
  · cases h
    exact Or.inl rfl
  split at h
  · cases h
    exact Or.inl rfl
  split at h
  · cases h
    exact Or.inr rfl
  split at h
  · cases h
    split
    · exact Or.inr rfl
    · exact Or.inl rfl
  · split at h <;> cases h

section

variable {base w w' : World} {new : List Issued} {done queued : List (Issued × ℕ)}

/-- A start that takes effect makes the ring empty: what was still queued is lost. -/
theorem cuptiStart_cases (w : World) (os : OsCalls) (pid : UInt32) (samples : Fin 5 → ClockSample) :
    (w.gLayer.isSome ∧ cuptiStart w os pid samples = w) ∨
      (w.gLayer = none ∧ ∃ shm, (shm = w.shm ∨ shm = none) ∧
        cuptiStart w os pid samples = { w with shm := shm }) ∨
      (w.gLayer = none ∧ ∃ rb, WrappingCounter.PowerOfTwo CAPACITY ∧
        cuptiStart w os pid samples = { w with
          shm := some (freshSegment CAPACITY)
          gLayer := some ⟨rb, pid, calibrate samples, 0⟩ }) := by
  unfold cuptiStart
  cases hlayer : w.gLayer with
  | some layer => exact Or.inl ⟨rfl, if_pos rfl⟩
  | none =>
    rw [Option.isSome_none, if_neg Bool.false_ne_true]
    cases hcreate : rbCreate os w.shm CAPACITY true with
    | mk rb after =>
      cases rb with
      | none => exact Or.inr (Or.inl ⟨rfl, after, rbCreate_none hcreate, rfl⟩)
      | some rb =>
        obtain ⟨hcap, -, hafter⟩ := rbCreate_some hcreate
        cases hafter
        exact Or.inr (Or.inr ⟨rfl, rb, hcap, rfl⟩)

theorem Delivery.cuptiStart (h : Delivery base w new done queued) (os : OsCalls) (pid : UInt32)
    (samples : Fin 5 → ClockSample) :
    ∃ queued', Delivery base (cuptiStart w os pid samples) new done queued' := by
  rcases cuptiStart_cases w os pid samples with
    ⟨-, hsame⟩ | ⟨-, shm, hshm, hfailed⟩ | ⟨-, rb, hcap, hstarted⟩
  · rw [hsame]
    exact ⟨queued, h⟩
  · rw [hfailed]
    refine ⟨queued, h.issued, h.counter, h.mapped, h.numbered, ?_, h.delivered⟩
    intro seg hseg
    change shm = some seg at hseg
    rcases hshm with rfl | rfl
    · exact h.ring seg hseg
    · cases hseg
  · rw [hstarted]
    refine ⟨[], h.issued, h.counter, h.mapped, ?_, ?_, h.delivered⟩
    · rw [List.append_nil]
      exact (List.sublist_append_left done queued).trans h.numbered
    · intro seg hseg
      cases hseg
      exact ⟨0, .fresh hcap⟩

/-- What a round of the loop does: it skips the record, or it writes the record's event
to the ring. -/
theorem process_cases (hstep : process w = some w') :
    (∃ pending, w' = { w with pending := pending }) ∨
      ∃ record mem pending layer seg ev seg' ok, w.gLayer = some layer ∧ w.shm = some seg ∧
        eventOf layer mem record = some ev ∧
        rbWrite layer.rb seg (serialiseEvent w.gEventId ev).1
          (UInt32.ofNat (serialiseEvent w.gEventId ev).1.length) = some (seg', ok) ∧
        w' = { w with
          shm := some seg'
          gLayer := some (if ok then { layer with written := layer.written + 1 } else layer)
          gEventId := w.gEventId + 1
          pending := pending
          issued := w.issued ++ [⟨record, ev⟩] } := by
  unfold process at hstep
  split at hstep
  case h_2 => cases hstep
  rename_i record mem pending layer seg _ hlayer hshm
  split at hstep
  case h_1 =>
    cases hstep
    exact Or.inl ⟨pending, rfl⟩
  rename_i ev hev
  obtain ⟨⟨layer', seg'⟩, hwrite, rfl⟩ := Option.map_eq_some_iff.mp hstep
  obtain ⟨⟨seg'', ok⟩, hring, hpair⟩ := Option.map_eq_some_iff.mp hwrite
  cases hpair
  exact Or.inr ⟨record, mem, pending, layer, seg, ev, seg', ok, hlayer, hshm, hev, hring, rfl⟩

theorem cuptiStop_layer (hstep : cuptiStop w = some w') : w' = { w with gLayer := none } := by
  unfold cuptiStop at hstep
  split at hstep
  · cases hstep
    rfl
  · cases hstep

theorem bufComplete_pending {records : List (Activity × MemInfo)}
    (hstep : bufComplete w records = some w') : ∃ pending, w' = { w with pending := pending } := by
  unfold bufComplete at hstep
  split at hstep
  · cases hstep
    split
    · exact ⟨records, rfl⟩
    · exact ⟨w.pending, rfl⟩
  · cases hstep

theorem openBridge_bridge (w : World) (os : OsCalls) (capacity : UInt32) :
    ∃ bridge, openBridge w os capacity = { w with bridge := bridge } := by
  unfold openBridge
  split
  · exact ⟨_, rfl⟩
  · exact ⟨w.bridge, rfl⟩

theorem zipIdx_concat (new : List Issued) (x : Issued) (n : ℕ) :
    (new ++ [x]).zipIdx n = new.zipIdx n ++ [(x, new.length + n)] := by
  rw [List.zipIdx_append, Nat.add_comm]
  rfl

/-- An issued event gets the next number, and is queued if the ring takes it. -/
theorem Delivery.issue (h : Delivery base w new done queued) {record : Activity} {mem : MemInfo}
    {layer : CuptiLayer} {ev : GpuEventData} {seg seg' : Segment} {ok : Bool}
    (hshm : w.shm = some seg) (hev : eventOf layer mem record = some ev) {rb : RingBuffer}
    (hring : rbWrite rb seg (serialiseEvent w.gEventId ev).1
      (UInt32.ofNat (serialiseEvent w.gEventId ev).1.length) = some (seg', ok))
    (gLayer : Option CuptiLayer) (pending : List (Activity × MemInfo)) :
    Delivery base
      { w with
        shm := some seg'
        gLayer := gLayer
        gEventId := w.gEventId + 1
        pending := pending
        issued := w.issued ++ [⟨record, ev⟩] }
      (new ++ [⟨record, ev⟩]) done
      (queued ++ if ok then [(⟨record, ev⟩, w.issued.length + 1)] else []) := by
  obtain ⟨head, hrep⟩ := h.ring seg hshm
  have hnew := write_result hrep (serialiseEvent_storable w.gEventId ev) hring
  have hpayload : (serialiseEvent w.gEventId ev).1 =
      payloadOf (⟨record, ev⟩, w.issued.length + 1) := by
    rw [h.counter]
    rfl
  have hnumber : new.length + (base.issued.length + 1) = w.issued.length + 1 := by
    rw [h.issued, List.length_append]
    omega
  refine
    { issued := ?_
      counter := ?_
      mapped := ?_
      numbered := ?_
      ring := ?_
      delivered := h.delivered }
  · rw [h.issued, List.append_assoc]
  · rw [h.counter, List.length_append]
    exact (UInt64.ofNat_add _ 1).symm
  · intro x hx
    rcases List.mem_append.mp hx with hold | hlast
    · exact h.mapped x hold
    · rw [List.mem_singleton.mp hlast]
      exact ⟨layer, mem, hev⟩
  · rw [zipIdx_concat, hnumber, ← List.append_assoc]
    refine h.numbered.append ?_
    cases ok with
    | true => exact List.Sublist.refl _
    | false => exact List.nil_sublist _
  · intro s hs
    cases hs
    refine ⟨head, ?_⟩
    cases ok with
    | true =>
      rw [hpayload] at hnew
      rw [List.map_append]
      exact hnew
    | false =>
      rw [List.map_append]
      simpa using hnew

theorem Delivery.process (h : Delivery base w new done queued)
    (hstep : ActivityRecords.process w = some w') :
    ∃ new' queued', Delivery base w' new' done queued' := by
  rcases process_cases hstep with
    ⟨pending, rfl⟩ | ⟨record, mem, pending, layer, seg, ev, seg', ok, -, hshm, hev, hring, rfl⟩
  · exact ⟨new, queued, h.issued, h.counter, h.mapped, h.numbered, h.ring, h.delivered⟩
  · exact ⟨_, _, h.issue hshm hev hring _ _⟩

/-- A read delivers the event of the oldest queued record, if it fits the buffer. -/
theorem Delivery.read (h : Delivery base w new done queued)
    (hstep : ActivityRecords.read w = some w') :
    ∃ done' queued', done' ++ queued' = done ++ queued ∧ Delivery base w' new done' queued' := by
  unfold ActivityRecords.read at hstep
  cases hshm : w.shm with
  | none =>
    rw [hshm] at hstep
    dsimp only at hstep
    split at hstep
    · cases hstep
    · cases hstep
      exact ⟨done, queued, rfl, h⟩
  | some seg =>
    rw [hshm] at hstep
    obtain ⟨⟨seg', payload⟩, hread, hnext⟩ := Option.map_eq_some_iff.mp hstep
    obtain ⟨head, hrep⟩ := h.ring seg hshm
    by_cases hopen : w.bridge.isOpen = true
    · rcases drain_read_result (d := .runnerGpu) hrep hopen hread with
        ⟨rfl, rfl, -⟩ | ⟨bytes, rest, head', hitems, rfl, -, hrest⟩
      · cases hnext
        refine ⟨done, queued, rfl, h.issued, h.counter, h.mapped, h.numbered, ?_, h.delivered⟩
        intro s hs
        cases hs
        exact ⟨head, hrep⟩
      · cases queued with
        | nil => cases hitems
        | cons x queued =>
          have hmem : x ∈ new.zipIdx (base.issued.length + 1) := h.numbered.subset (by simp)
          obtain ⟨layer, mem, hev⟩ := h.mapped x.1 (List.fst_mem_of_mem_zipIdx hmem)
          have hbytes : payloadOf x = bytes := (List.cons.inj hitems).1
          have hdecoded : deserialize bytes = .ok (receivedOf x) := by
            rw [← hbytes]
            exact deserialize_serialise _ (eventOf_coded hev)
          have hcollect : collect w.delivered (some bytes) = w.delivered ++ [receivedOf x] := by
            rw [collect, Option.map_some, hdecoded]
          dsimp only at hnext
          rw [hcollect] at hnext
          cases hnext
          refine ⟨done ++ [x], queued, by simp, h.issued, h.counter, h.mapped, ?_, ?_, ?_⟩
          · rw [List.append_assoc]
            exact h.numbered
          · intro s hs
            cases hs
            exact ⟨head', (List.cons.inj hitems).2 ▸ hrest⟩
          · rw [List.map_append, ← List.append_assoc, ← h.delivered]
            rfl
    · rw [DrainLoops.Bridge.readGpu, if_neg hopen] at hread
      cases hread
      cases hnext
      refine ⟨done, queued, rfl, h.issued, h.counter, h.mapped, h.numbered, ?_, h.delivered⟩
      intro s hs
      cases hs
      exact ⟨head, hrep⟩

theorem Delivery.step (h : Delivery base w new done queued) {action : Action}
    (hstep : ActivityRecords.step w action = some w') :
    ∃ new' done' queued', Delivery base w' new' done' queued' := by
  cases action with
  | cuptiStart os pid samples =>
    cases hstep
    obtain ⟨queued', hnext⟩ := h.cuptiStart os pid samples
    exact ⟨new, done, queued', hnext⟩
  | cuptiStop =>
    cases cuptiStop_layer hstep
    exact ⟨new, done, queued, h.issued, h.counter, h.mapped, h.numbered, h.ring, h.delivered⟩
  | bufComplete records =>
    obtain ⟨pending, rfl⟩ := bufComplete_pending hstep
    exact ⟨new, done, queued, h.issued, h.counter, h.mapped, h.numbered, h.ring, h.delivered⟩
  | process =>
    obtain ⟨new', queued', hnext⟩ := h.process hstep
    exact ⟨new', done, queued', hnext⟩
  | openBridge os capacity =>
    cases hstep
    obtain ⟨bridge, hbridge⟩ := openBridge_bridge w os capacity
    rw [hbridge]
    exact ⟨new, done, queued, h.issued, h.counter, h.mapped, h.numbered, h.ring, h.delivered⟩
  | closeBridge =>
    cases hstep
    exact ⟨new, done, queued, h.issued, h.counter, h.mapped, h.numbered, h.ring, h.delivered⟩
  | read =>
    obtain ⟨done', queued', -, hnext⟩ := h.read hstep
    exact ⟨new, done', queued', hnext⟩

theorem delivery_run {actions : List Action}
    (hrun : run ActivityRecords.step .init actions = some w) :
    ∃ done queued, Delivery .init w w.issued done queued := by
  have hstep : ∀ (w : World) (action : Action) (w' : World),
      (∃ new done queued, Delivery .init w new done queued) →
      ActivityRecords.step w action = some w' →
      ∃ new done queued, Delivery .init w' new done queued := by
    rintro w action w' ⟨new, done, queued, h⟩ hnext
    exact h.step hnext
  obtain ⟨new, done, queued, h⟩ := run_keeps hstep ⟨[], [], [], delivery_init⟩ hrun
  have hnew : w.issued = new := h.issued
  exact ⟨done, queued, hnew ▸ h⟩

theorem receivedOf_eventId {x : Issued × ℕ} (h : x.2 < 2 ^ 64) :
    (receivedOf x).base.eventId = x.2 := by
  show (((UInt64.ofNat x.2).toNat : ℕ) : ℤ) = x.2
  rw [UInt64.toNat_ofNat', Nat.mod_eq_of_lt h]

theorem zipIdx_numbers (issued : List Issued) (n : ℕ) :
    (issued.zipIdx n).Pairwise fun x y => x.2 < y.2 := by
  have hnumbers : ((issued.zipIdx n).map Prod.snd).Pairwise (· < ·) := by
    rw [List.zipIdx_map_snd]
    exact List.pairwise_lt_range'
  exact List.pairwise_map.mp hnumbers

/-- The ids of the events that have been delivered since then. -/
theorem Delivery.eventIds (h : Delivery base w new done queued)
    (hbound : w.issued.length < 2 ^ 64) :
    (done.map receivedOf).map (fun g => g.base.eventId) = done.map fun x => (x.2 : ℤ) := by
  rw [List.map_map]
  apply List.map_congr_left
  intro x hx
  have hmem : x ∈ new.zipIdx (base.issued.length + 1) :=
    h.numbered.subset (List.mem_append_left _ hx)
  have hlt := List.snd_lt_of_mem_zipIdx hmem
  have hlen := congrArg List.length h.issued
  rw [List.length_append] at hlen
  exact receivedOf_eventId (by omega)

theorem Delivery.numbers (h : Delivery base w new done queued) :
    done.Pairwise fun x y => x.2 < y.2 := by
  have hdone : done.Sublist (new.zipIdx (base.issued.length + 1)) :=
    (List.sublist_append_left done queued).trans h.numbered
  exact (zipIdx_numbers new _).sublist hdone

end

/-- In every run of a target that starts and stops its layer, of the buffers that come
in and of a reader, through any number of restarts: the reader has been given the events
of some of the records, each of them once, in the order of the records and with
increasing ids, as long as the counter of the ids has not wrapped. -/
theorem delivered_in_record_order (actions : List ActivityRecords.Action) (w : World)
    (hrun : run ActivityRecords.step .init actions = some w)
    (hbound : w.issued.length < 2 ^ 64) :
    ∃ done : List (Issued × ℕ), done.Sublist (w.issued.zipIdx 1) ∧
      w.delivered = done.map receivedOf ∧
      (w.delivered.map fun g => g.base.eventId).Pairwise (· < ·) := by
  obtain ⟨done, queued, h⟩ := delivery_run hrun
  have hdelivered : w.delivered = done.map receivedOf := h.delivered
  refine ⟨done, (List.sublist_append_left done queued).trans h.numbered, hdelivered, ?_⟩
  rw [hdelivered, h.eventIds hbound, List.pairwise_map]
  exact h.numbers.imp Int.ofNat_lt.mpr

/-- A copy from the host is reported and read. -/
def smallCopy : Memcpy5 where
  copyKind := MEMCPY_KIND_HTOD
  bytes := 64
  start := 100
  finish := 130
  deviceId := 0
  streamId := 7
  correlationId := 3

/-- A page moves to the device. -/
def smallMigration : UnifiedMemoryCounter2 where
  counterKind := .bytesTransferHtod
  value := 64
  finish := 140
  address := 4100
  srcId := 0
  dstId := 0

/-- Two records between which the reader comes, and one more after a restart. -/
def smallRun : List ActivityRecords.Action :=
  [.cuptiStart ⟨true, true, true⟩ 42 (fun _ => ⟨0, 50, 40⟩),
    .openBridge ⟨true, true, true⟩ CAPACITY,
    .bufComplete [(.memcpy smallCopy, none), (.other, none),
      (.unifiedMemoryCounter smallMigration, none)], .process, .read, .process, .process, .read,
    .closeBridge, .cuptiStop, .cuptiStart ⟨true, true, true⟩ 42 (fun _ => ⟨0, 60, 40⟩),
    .openBridge ⟨true, true, true⟩ CAPACITY, .bufComplete [(.memcpy smallCopy, none)], .process,
    .read, .cuptiStop]

theorem smallRun_ends : ∃ w, run ActivityRecords.step .init smallRun = some w ∧
    w.issued.length < 2 ^ 64 ∧ w.delivered.length = 3 := by
  have hsome : (run ActivityRecords.step .init smallRun).isSome := by decide +kernel
  have hend : ∀ w ∈ run ActivityRecords.step .init smallRun,
      w.issued.length < 2 ^ 64 ∧ w.delivered.length = 3 := by decide +kernel
  obtain ⟨w, hrun⟩ := Option.isSome_iff_exists.mp hsome
  exact ⟨w, hrun, hend w hrun⟩

theorem delivered_in_record_order_small :
    ∃ w, run ActivityRecords.step .init smallRun = some w ∧ w.delivered.length = 3 ∧
      ∃ done : List (Issued × ℕ), done.Sublist (w.issued.zipIdx 1) ∧
        w.delivered = done.map receivedOf ∧
        (w.delivered.map fun g => g.base.eventId).Pairwise (· < ·) := by
  obtain ⟨w, hrun, hbound, hlength⟩ := smallRun_ends
  exact ⟨w, hrun, hlength, delivered_in_record_order smallRun w hrun hbound⟩

end HpcProfiler.ActivityDelivery
