import HpcProfiler.ActivityDelivery

/-!
The counters of the layer and of its ring. Between a start and the next one every
record that became an event is counted once, as written or as dropped, and a reader
that has emptied the ring finds the dropped ones as gaps in the ids it was given.
-/

namespace HpcProfiler.ActivityAccounts

open SharedRing RingRecords RingFifo RingMapping WrappingCounter GpuEncoder ActivityRecords
  ActivityDelivery StepSystem

theorem storeBytes_hdr (rb : RingBuffer) (cap : UInt32) (bytes : List UInt8) {seg seg' : Segment}
    {tail tail' : UInt32} (h : storeBytes rb cap seg tail bytes = some (seg', tail')) :
    seg'.hdr = seg.hdr := by
  induction bytes generalizing seg tail with
  | nil =>
    cases h
    rfl
  | cons b bs ih =>
    obtain ⟨mid, hstore, hrest⟩ := Option.bind_eq_some_iff.mp h
    rw [ih hrest]
    unfold RingBuffer.store at hstore
    split at hstore
    · cases hstore
      rfl
    · cases hstore

/-- A write counts as dropped exactly when it is refused for lack of room. -/
theorem rbWrite_dropped {rb : RingBuffer} {seg seg' : Segment} {data : List UInt8} {len : UInt32}
    {ok : Bool} (hlen : len ≠ 0) (h : rbWrite rb seg data len = some (seg', ok)) :
    seg'.hdr.dropped = if ok then seg.hdr.dropped else seg.hdr.dropped + 1 := by
  unfold rbWrite at h
  rw [if_neg hlen] at h
  dsimp only at h
  split at h
  · cases h
    rfl
  · obtain ⟨payload, -, h⟩ := Option.bind_eq_some_iff.mp h
    obtain ⟨⟨mid, tail⟩, hprefix, h⟩ := Option.bind_eq_some_iff.mp h
    obtain ⟨⟨last, tail'⟩, hbytes, h⟩ := Option.map_eq_some_iff.mp h
    cases h
    show last.hdr.dropped = seg.hdr.dropped
    rw [storeBytes_hdr rb _ _ hbytes, storeBytes_hdr rb _ _ hprefix]

theorem rbRead_dropped {rb : RingBuffer} {seg seg' : Segment} {bufLen : UInt32}
    {result : Option (List UInt8)} (h : rbRead rb seg bufLen = some (seg', result)) :
    seg'.hdr.dropped = seg.hdr.dropped := by
  unfold rbRead at h
  dsimp only at h
  split at h
  · cases h
    rfl
  obtain ⟨peeked, -, h⟩ := Option.bind_eq_some_iff.mp h
  split at h
  · cases h
    rfl
  split at h
  · cases h
    rfl
  obtain ⟨payload, -, h⟩ := Option.map_eq_some_iff.mp h
  cases h
  rfl

theorem items_eq_nil {seg : Segment} {head : ℕ} {items : List (List UInt8)}
    (h : Represents seg head items) (hempty : rbUsed seg.hdr = 0) : items = [] := by
  have hused := h.toNat_rbUsed
  cases items with
  | nil => rfl
  | cons first rest =>
    rw [hempty, stream_cons, List.length_append, record_length] at hused
    have hzero : (0 : UInt32).toNat = 0 := rfl
    omega

/-- Of `total` events that a layer has issued since its start, the ring has taken
`accepted`. -/
structure Accounted (w : World) (total accepted : ℕ) : Prop where
  le : accepted ≤ total
  written : ∀ layer, w.gLayer = some layer → layer.written = UInt64.ofNat accepted
  dropped : ∀ seg, w.shm = some seg → seg.hdr.dropped = UInt32.ofNat (total - accepted)

section

variable {base w w' : World} {new : List Issued} {done queued : List (Issued × ℕ)}

theorem Accounted.issue {total accepted : ℕ} (h : Accounted w total accepted) {layer : CuptiLayer}
    {seg seg' : Segment} {payload : List UInt8} {ok : Bool} (hlayer : w.gLayer = some layer)
    (hshm : w.shm = some seg) (hpayload : Storable payload)
    (hring : rbWrite layer.rb seg payload (UInt32.ofNat payload.length) = some (seg', ok))
    (gEventId : UInt64) (pending : List (Activity × MemInfo)) (issued : List Issued) :
    Accounted
      { w with
        shm := some seg'
        gLayer := some (if ok then { layer with written := layer.written + 1 } else layer)
        gEventId := gEventId
        pending := pending
        issued := issued }
      (total + 1) (if ok then accepted + 1 else accepted) := by
  have hle := h.le
  have hwritten := h.written layer hlayer
  have hdropped := h.dropped seg hshm
  have hcount := rbWrite_dropped (ofNat_length_ne_zero hpayload) hring
  cases ok with
  | true =>
    refine ⟨Nat.succ_le_succ hle, ?_, ?_⟩
    · intro l hl
      cases hl
      show layer.written + 1 = UInt64.ofNat (accepted + 1)
      rw [hwritten]
      exact (UInt64.ofNat_add _ 1).symm
    · intro s hs
      cases hs
      rw [hcount, if_pos rfl, hdropped, if_pos rfl, Nat.add_sub_add_right]
  | false =>
    refine ⟨Nat.le_succ_of_le hle, ?_, ?_⟩
    · intro l hl
      cases hl
      exact hwritten
    · intro s hs
      cases hs
      rw [hcount, if_neg Bool.false_ne_true, if_neg Bool.false_ne_true, hdropped,
        Nat.sub_add_comm hle]
      exact (UInt32.ofNat_add _ 1).symm

/-- A read changes neither of the counters. -/
theorem Accounted.read {total accepted : ℕ} (h : Accounted w total accepted)
    (hstep : ActivityRecords.read w = some w') : Accounted w' total accepted := by
  unfold ActivityRecords.read at hstep
  cases hshm : w.shm with
  | none =>
    rw [hshm] at hstep
    dsimp only at hstep
    split at hstep
    · cases hstep
    · cases hstep
      exact h
  | some seg =>
    rw [hshm] at hstep
    obtain ⟨⟨seg', payload⟩, hread, rfl⟩ := Option.map_eq_some_iff.mp hstep
    have hkept : seg'.hdr.dropped = seg.hdr.dropped := by
      unfold DrainLoops.Bridge.readGpu at hread
      split at hread
      · obtain ⟨⟨mid, found⟩, hfound, hpair⟩ := Option.map_eq_some_iff.mp hread
        cases hpair
        exact rbRead_dropped hfound
      · cases hread
        rfl
    refine ⟨h.le, h.written, ?_⟩
    intro s hs
    cases hs
    rw [hkept]
    exact h.dropped seg hshm

/-- The invariant of a run without a further start. -/
def Kept (base w : World) : Prop :=
  ∃ new done queued, Delivery base w new done queued ∧
    Accounted w new.length (done ++ queued).length

def isStart : ActivityRecords.Action → Bool
  | .cuptiStart .. => true
  | _ => false

theorem Kept.step (h : Kept base w) {action : ActivityRecords.Action}
    (hno : isStart action = false) (hstep : ActivityRecords.step w action = some w') :
    Kept base w' := by
  obtain ⟨new, done, queued, hdelivery, hcount⟩ := h
  have hsame := hdelivery
  obtain ⟨hissued, hcounter, hmapped, hnumbered, hring, hdelivered⟩ := hsame
  cases action with
  | cuptiStart os pid samples => cases hno
  | cuptiStop =>
    cases cuptiStop_layer hstep
    refine ⟨new, done, queued, ⟨hissued, hcounter, hmapped, hnumbered, hring, hdelivered⟩,
      hcount.le, ?_, hcount.dropped⟩
    intro layer hlayer
    cases hlayer
  | bufComplete records =>
    obtain ⟨pending, rfl⟩ := bufComplete_pending hstep
    exact ⟨new, done, queued, ⟨hissued, hcounter, hmapped, hnumbered, hring, hdelivered⟩,
      hcount.le, hcount.written, hcount.dropped⟩
  | process =>
    rcases process_cases hstep with ⟨pending, rfl⟩ |
      ⟨record, mem, pending, layer, seg, ev, seg', ok, hlayer, hshm, hev, hwrite, rfl⟩
    · exact ⟨new, done, queued, ⟨hissued, hcounter, hmapped, hnumbered, hring, hdelivered⟩,
        hcount.le, hcount.written, hcount.dropped⟩
    · have hnext := hcount.issue hlayer hshm (serialiseEvent_storable w.gEventId ev) hwrite
        (w.gEventId + 1) pending (w.issued ++ [⟨record, ev⟩])
      refine ⟨_, _, _, hdelivery.issue hshm hev hwrite _ _, ?_⟩
      cases ok with
      | true => simpa [Nat.add_assoc] using hnext
      | false => simpa [Nat.add_assoc] using hnext
  | openBridge os capacity =>
    cases hstep
    obtain ⟨bridge, hbridge⟩ := openBridge_bridge w os capacity
    rw [hbridge]
    exact ⟨new, done, queued, ⟨hissued, hcounter, hmapped, hnumbered, hring, hdelivered⟩,
      hcount.le, hcount.written, hcount.dropped⟩
  | closeBridge =>
    cases hstep
    exact ⟨new, done, queued, ⟨hissued, hcounter, hmapped, hnumbered, hring, hdelivered⟩,
      hcount.le, hcount.written, hcount.dropped⟩
  | read =>
    obtain ⟨done', queued', hsplit, hnext⟩ := hdelivery.read hstep
    rw [← hsplit] at hcount
    exact ⟨new, done', queued', hnext, hcount.read hstep⟩

/-- A start that takes effect opens a new account. -/
theorem kept_start {pid : UInt32} {samples : Fin 5 → ClockSample} {os : OsCalls}
    (hcounter : w.gEventId = UInt64.ofNat (w.issued.length + 1)) (hstopped : w.gLayer = none)
    (hstarted : (cuptiStart w os pid samples).gLayer.isSome) :
    Kept w (cuptiStart w os pid samples) := by
  rcases cuptiStart_cases w os pid samples with
    ⟨hsome, -⟩ | ⟨-, shm, -, hfailed⟩ | ⟨-, rb, hcap, hnew⟩
  · rw [hstopped] at hsome
    cases hsome
  · rw [hfailed, hstopped] at hstarted
    cases hstarted
  · rw [hnew]
    refine ⟨[], [], [], ⟨by simp, hcounter, by simp, by simp, ?_, by simp⟩, le_refl _, ?_, ?_⟩
    · intro seg hseg
      cases hseg
      exact ⟨0, .fresh hcap⟩
    · intro layer hlayer
      cases hlayer
      rfl
    · intro seg hseg
      cases hseg
      rfl

theorem kept_run {actions : List ActivityRecords.Action} (h : Kept base w)
    (hno : ∀ action ∈ actions, isStart action = false)
    (hrun : run ActivityRecords.step w actions = some w') : Kept base w' := by
  have hstep : ∀ v action v', Kept base v → isStart action = false →
      ActivityRecords.step v action = some v' → Kept base v' :=
    fun _ _ _ hkept hallowed hnext => hkept.step hallowed hnext
  exact run_invariant hstep h hno hrun

end

/-- The ids of a range that no event of the list has. -/
def gaps (first count : ℕ) (events : List Events.GpuEvent) : List ℕ :=
  (List.range' first count).filter fun n => (n : ℤ) ∉ events.map fun g => g.base.eventId

/-- Distinct numbers of a range leave the others out. -/
theorem length_range_filter {ns : List ℕ} {first count : ℕ} (hnodup : ns.Nodup)
    (hrange : ∀ n ∈ ns, first ≤ n ∧ n < first + count) :
    ((List.range' first count).filter fun n => n ∉ ns).length + ns.length = count := by
  have hperm : ((List.range' first count).filter fun n => n ∈ ns).Perm ns := by
    apply (List.perm_ext_iff_of_nodup (List.Nodup.filter _ List.nodup_range') hnodup).mpr
    intro n
    rw [List.mem_filter, decide_eq_true_iff, List.mem_range'_1]
    exact ⟨fun h => h.2, fun h => ⟨hrange n h, h⟩⟩
  have hsplit := List.length_eq_length_filter_add (l := List.range' first count) fun n => n ∈ ns
  have hcongr : ((List.range' first count).filter fun n => n ∉ ns) =
      (List.range' first count).filter fun n => !decide (n ∈ ns) := by
    apply List.filter_congr
    intro n _
    exact decide_not
  rw [List.length_range', hperm.length_eq] at hsplit
  rw [hcongr]
  omega

/-- From a start of the layer to any later moment before the next start: every event
issued is written or lost, the ring counts the lost ones in 32 bits, and when the reader
has emptied the ring they are the gaps in the ids that it was given. -/
theorem dropped_events_are_gaps (before after : List ActivityRecords.Action) (w₀ w : World)
    (os : OsCalls) (pid : UInt32) (samples : Fin 5 → ClockSample) (seg : Segment)
    (hbefore : run ActivityRecords.step .init before = some w₀) (hstopped : w₀.gLayer = none)
    (hstarted : (cuptiStart w₀ os pid samples).gLayer.isSome)
    (hafter : ∀ action ∈ after, isStart action = false)
    (hrun : run ActivityRecords.step (cuptiStart w₀ os pid samples) after = some w)
    (hseg : w.shm = some seg) (hbound : w.issued.length < 2 ^ 64) :
    ∃ lost, seg.hdr.dropped.toNat = lost % 2 ^ 32 ∧
      (∀ layer, w.gLayer = some layer →
        layer.written.toNat + lost = w.issued.length - w₀.issued.length) ∧
      (rbUsed seg.hdr = 0 →
        (gaps (w₀.issued.length + 1) (w.issued.length - w₀.issued.length)
          (w.delivered.drop w₀.delivered.length)).length = lost) := by
  obtain ⟨done₀, queued₀, hdelivery₀⟩ := delivery_run hbefore
  have hkept := kept_run (kept_start hdelivery₀.counter hstopped hstarted) hafter hrun
  obtain ⟨new, done, queued, h, hcount⟩ := hkept
  have hlen := congrArg List.length h.issued
  rw [List.length_append] at hlen
  have hle := hcount.le
  refine ⟨new.length - (done ++ queued).length, ?_, ?_, ?_⟩
  · rw [hcount.dropped seg hseg, UInt32.toNat_ofNat']
  · intro layer hlayer
    have hwritten : layer.written.toNat = (done ++ queued).length := by
      rw [hcount.written layer hlayer, UInt64.toNat_ofNat']
      exact Nat.mod_eq_of_lt (by omega)
    omega
  · intro hempty
    obtain ⟨head, hrep⟩ := h.ring seg hseg
    have hqueued : queued = [] := List.map_eq_nil_iff.mp (items_eq_nil hrep hempty)
    have hids : (w.delivered.drop w₀.delivered.length).map (fun g => g.base.eventId) =
        (done.map Prod.snd).map (Nat.cast : ℕ → ℤ) := by
      rw [h.delivered, List.drop_left, h.eventIds (by omega), List.map_map]
      rfl
    have hrange : ∀ n ∈ done.map Prod.snd,
        w₀.issued.length + 1 ≤ n ∧ n < w₀.issued.length + 1 + new.length := by
      intro n hn
      obtain ⟨x, hx, rfl⟩ := List.mem_map.mp hn
      have hmem : x ∈ new.zipIdx (w₀.issued.length + 1) :=
        h.numbered.subset (List.mem_append_left _ hx)
      have hlow := List.le_snd_of_mem_zipIdx hmem
      have hhigh := List.snd_lt_of_mem_zipIdx hmem
      omega
    have hnodup : (done.map Prod.snd).Nodup :=
      List.pairwise_map.mpr (h.numbers.imp fun hlt => Nat.ne_of_lt hlt)
    have hmissing := length_range_filter hnodup hrange
    have hgaps : gaps (w₀.issued.length + 1) (w.issued.length - w₀.issued.length)
          (w.delivered.drop w₀.delivered.length) =
        (List.range' (w₀.issued.length + 1) new.length).filter
          fun n => n ∉ done.map Prod.snd := by
      unfold gaps
      rw [hids, hlen, Nat.add_sub_cancel_left]
      apply List.filter_congr
      intro n _
      rw [decide_eq_decide, List.mem_map_of_injective Nat.cast_injective]
    rw [hgaps, hqueued, List.append_nil]
    rw [List.length_map] at hmissing
    omega

theorem length_stream_of_le {payloads : List (List UInt8)} {size : ℕ}
    (h : ∀ payload ∈ payloads, size ≤ payload.length) :
    payloads.length * (4 + size) ≤ (stream payloads).length := by
  induction payloads with
  | nil => simp
  | cons first rest ih =>
    have hrest := ih fun payload hpayload => h payload (List.mem_cons_of_mem _ hpayload)
    have hfirst := h first List.mem_cons_self
    rw [stream_cons, List.length_append, record_length, List.length_cons, Nat.succ_mul]
    omega

/-- A write to a ring that is mapped in full does not fault. -/
theorem rbWrite_mapped {rb : RingBuffer} {seg : Segment} {head : ℕ} {items : List (List UInt8)}
    (h : Represents seg head items) (hmap : seg.hdr.capacity.toNat ≤ rb.dataLength)
    {payload : List UInt8} (hp : Storable payload) :
    ∃ seg' ok items', rbWrite rb seg payload (UInt32.ofNat payload.length) = some (seg', ok) ∧
      seg'.hdr.capacity = seg.hdr.capacity ∧ Represents seg' head items' := by
  by_cases hfits : recordCost payload + (stream items).length ≤ seg.hdr.capacity.toNat - 1
  · exact ⟨_, _, _, h.rbWrite_fits hp hmap hfits, rfl, h.append hp hfits⟩
  · have hfull : rbWrite rb seg payload (UInt32.ofNat payload.length) =
        some ({ seg with hdr := { seg.hdr with dropped := seg.hdr.dropped + 1 } }, false) :=
      h.rbWrite_full hp (by omega)
    exact ⟨_, _, items, hfull, rfl, write_result h hp hfull⟩

theorem process_eq {w : World} {record : Activity} {mem : MemInfo}
    {pending : List (Activity × MemInfo)} {layer : CuptiLayer} {seg seg' : Segment}
    {ev : GpuEventData} {ok : Bool} (hpending : w.pending = (record, mem) :: pending)
    (hlayer : w.gLayer = some layer) (hshm : w.shm = some seg)
    (hev : eventOf layer mem record = some ev)
    (hring : rbWrite layer.rb seg (serialiseEvent w.gEventId ev).1
      (UInt32.ofNat (serialiseEvent w.gEventId ev).1.length) = some (seg', ok)) :
    process w = some { w with
      shm := some seg'
      gLayer := some (if ok then { layer with written := layer.written + 1 } else layer)
      gEventId := w.gEventId + 1
      pending := pending
      issued := w.issued ++ [⟨record, ev⟩] } := by
  unfold process write
  rw [hpending, hlayer, hshm]
  dsimp only
  rw [hev]
  dsimp only
  rw [hring]
  rfl

/-- A layer that is given one record again and again, with nobody reading. -/
structure Flooded (ev : GpuEventData) (record : Activity) (mem : MemInfo) (n : ℕ) (w : World) :
    Prop where
  layer : ∃ layer, w.gLayer = some layer ∧ CAPACITY.toNat ≤ layer.rb.dataLength ∧
    ∀ written, eventOf { layer with written := written } mem record = some ev
  shm : ∃ seg head items, w.shm = some seg ∧ seg.hdr.capacity = CAPACITY ∧ Represents seg head items
  issued : w.issued = List.replicate n ⟨record, ev⟩
  delivered : w.delivered = []

/-- Each round takes one more record, also when the ring has no room for its event. -/
theorem Flooded.process {ev : GpuEventData} {record : Activity} {mem : MemInfo} {n : ℕ}
    {w : World} (h : Flooded ev record mem n w) {pending : List (Activity × MemInfo)}
    (hpending : w.pending = (record, mem) :: pending) :
    ∃ w', process w = some w' ∧ w'.pending = pending ∧ Flooded ev record mem (n + 1) w' := by
  obtain ⟨layer, hlayer, hmap, hev⟩ := h.layer
  obtain ⟨seg, head, items, hshm, hcap, hrep⟩ := h.shm
  have hmapped : seg.hdr.capacity.toNat ≤ layer.rb.dataLength := by
    rw [hcap]
    exact hmap
  obtain ⟨seg', ok, items', hring, hcap', hrep'⟩ :=
    rbWrite_mapped hrep hmapped (serialiseEvent_storable w.gEventId ev)
  refine ⟨_, process_eq hpending hlayer hshm (hev layer.written) hring, rfl, ?_, ?_, ?_,
    h.delivered⟩
  · cases ok with
    | true => exact ⟨_, rfl, hmap, hev⟩
    | false => exact ⟨_, rfl, hmap, hev⟩
  · exact ⟨seg', head, items', rfl, hcap'.trans hcap, hrep'⟩
  · dsimp only
    rw [h.issued, List.replicate_succ']

theorem Flooded.run {ev : GpuEventData} {record : Activity} {mem : MemInfo} {k n : ℕ} {w : World}
    (h : Flooded ev record mem n w) (hpending : w.pending = List.replicate k (record, mem)) :
    ∃ w', StepSystem.run ActivityRecords.step w (List.replicate k .process) = some w' ∧
      Flooded ev record mem (n + k) w' := by
  induction k generalizing n w with
  | zero => exact ⟨w, rfl, h⟩
  | succ k ih =>
    obtain ⟨mid, hstep, hrest, hmid⟩ := h.process hpending
    obtain ⟨w', hrun, hend⟩ := ih hmid hrest
    refine ⟨w', run_cons_eq_some.mpr ⟨mid, hstep, hrun⟩, ?_⟩
    rw [Nat.add_comm k 1, ← Nat.add_assoc]
    exact hend

/-- A kernel whose name is so long that 139 of its events fill the ring. -/
def longName : CString := ⟨List.replicate 60000 107, fun b hb => by
  rw [List.eq_of_mem_replicate hb]
  decide⟩

def longKernel : Kernel9 where
  name := some longName
  start := 100
  finish := 130
  deviceId := 0
  streamId := 7
  correlationId := 3
  gridX := 1
  gridY := 1
  gridZ := 1
  blockX := 1
  blockY := 1
  blockZ := 1
  registersPerThread := 32
  staticSharedMemory := 0
  dynamicSharedMemory := 0

def flood : List ActivityRecords.Action :=
  .bufComplete (List.replicate 140 (.concurrentKernel longKernel, none)) ::
    List.replicate 140 .process

/-- The layer as it has just been started. -/
def started : World := cuptiStart .init ⟨true, true, true⟩ 42 fun _ => ⟨0, 50, 40⟩

theorem length_longName : ((charsOf (some longName)).take 65535).length = 60000 := by
  show ((List.replicate 60000 (107 : UInt8)).take 65535).length = 60000
  rw [List.take_replicate, List.length_replicate]
  rfl

def startedLayer : CuptiLayer :=
  ⟨⟨HEADER_SIZE + CAPACITY.toNat⟩, 42, calibrate fun _ => ⟨0, 50, 40⟩, 0⟩

theorem started_eq : started =
    { World.init with shm := some (freshSegment CAPACITY), gLayer := some startedLayer } := rfl

def longEvent : GpuEventData := kernelEvent startedLayer none longKernel

theorem length_longEvent (gEventId : UInt64) :
    60154 ≤ (serialiseEvent gEventId longEvent).1.length := by
  have hlength := serialiseEvent_length gEventId longEvent
  have hlabel : longEvent.label = some longName := rfl
  rw [hlabel, length_longName] at hlength
  omega

/-- The ring has no room for all the events. -/
theorem queued_le {base w : World} {done queued : List (Issued × ℕ)} {n : ℕ} {seg : Segment}
    (h : Delivery base w (List.replicate n ⟨.concurrentKernel longKernel, longEvent⟩) done queued)
    (hshm : w.shm = some seg) (hcap : seg.hdr.capacity = CAPACITY) : queued.length ≤ 139 := by
  have hsize : ∀ payload ∈ queued.map payloadOf, 60154 ≤ payload.length := by
    intro payload hpayload
    obtain ⟨x, hx, rfl⟩ := List.mem_map.mp hpayload
    have hmem := List.fst_mem_of_mem_zipIdx (h.numbered.subset (List.mem_append_right _ hx))
    rw [payloadOf, List.eq_of_mem_replicate hmem]
    exact length_longEvent _
  obtain ⟨head, hrep⟩ := h.ring seg hshm
  have hroom := hrep.bounded
  have hstream := length_stream_of_le hsize
  have hcapacity : seg.hdr.capacity.toNat = 8388608 := by
    rw [hcap]
    rfl
  rw [List.length_map] at hstream
  omega

theorem flooded_started : ∃ w, ActivityRecords.step started
      (.bufComplete (List.replicate 140 (.concurrentKernel longKernel, none))) = some w ∧
    w.pending = List.replicate 140 (.concurrentKernel longKernel, none) ∧
    Flooded longEvent (.concurrentKernel longKernel) none 0 w := by
  have hcap : PowerOfTwo CAPACITY := ⟨23, rfl⟩
  have hmap : CAPACITY.toNat ≤ startedLayer.rb.dataLength := by decide
  rw [started_eq]
  refine ⟨_, rfl, rfl, ⟨startedLayer, rfl, hmap, fun written => rfl⟩, ?_, rfl, rfl⟩
  exact ⟨_, 0, [], rfl, rfl, .fresh hcap⟩

/-- Of 140 events at least one is lost. -/
theorem dropped_events_are_gaps_flood :
    ∃ w seg lost, run ActivityRecords.step started flood = some w ∧ w.shm = some seg ∧
      0 < lost ∧ seg.hdr.dropped.toNat = lost % 2 ^ 32 ∧
      (∀ layer, w.gLayer = some layer → layer.written.toNat + lost = w.issued.length - 0) ∧
      (rbUsed seg.hdr = 0 →
        (gaps (0 + 1) (w.issued.length - 0) (w.delivered.drop 0)).length = lost) := by
  obtain ⟨mid, hstep, hpending, hmid⟩ := flooded_started
  obtain ⟨w, hprocessed, hend⟩ := hmid.run hpending
  have hrun : run ActivityRecords.step started flood = some w :=
    run_cons_eq_some.mpr ⟨mid, hstep, hprocessed⟩
  have hno : ∀ action ∈ flood, isStart action = false := by
    intro action haction
    rcases List.mem_cons.mp haction with rfl | hmem
    · rfl
    · rw [List.eq_of_mem_replicate hmem]
      rfl
  obtain ⟨layer, hlayer, -, -⟩ := hend.layer
  obtain ⟨seg, -, -, hshm, hcap, -⟩ := hend.shm
  have hissued : w.issued.length = 140 := by
    rw [hend.issued, List.length_replicate]
  obtain ⟨lost, hdropped, hwritten, hgaps⟩ := dropped_events_are_gaps [] flood .init w
    ⟨true, true, true⟩ 42 (fun _ => ⟨0, 50, 40⟩) seg rfl rfl rfl hno hrun hshm (by omega)
  obtain ⟨new, done, queued, hdelivery, hcount⟩ := kept_run (kept_start rfl rfl rfl) hno hrun
  have hdone : done = [] := by
    have hnone := hdelivery.delivered
    rw [hend.delivered] at hnone
    exact List.map_eq_nil_iff.mp hnone.symm
  have hnew : new = List.replicate 140 ⟨.concurrentKernel longKernel, longEvent⟩ :=
    hdelivery.issued.symm.trans (hend.issued.trans (by rw [Nat.zero_add]))
  have hfew : queued.length ≤ 139 := by
    rw [hnew] at hdelivery
    exact queued_le hdelivery hshm hcap
  have hlost := hwritten layer hlayer
  rw [hcount.written layer hlayer, hdone, List.nil_append, UInt64.toNat_ofNat', hissued] at hlost
  refine ⟨w, seg, lost, hrun, hshm, ?_, hdropped, hwritten, hgaps⟩
  have hmod := Nat.mod_le queued.length (2 ^ 64)
  change queued.length % 2 ^ 64 + lost = 140 at hlost
  omega

end HpcProfiler.ActivityAccounts
