import HpcProfiler.ActivityAccounts
import HpcProfiler.ProfilerLoop
import HpcProfiler.WireFixpoint

/-!
From the memory layer to the events that the runner reads. The profiler thread passes
what its collects return to the write of its bridge, and the runner reads the same ring.
An event that does not serialize ends the thread; one that the ring has no room for is
counted and lost. The other events are delivered in the order in which they were written.
-/

namespace HpcProfiler.HostPipeline

open Events StructFormat WrappingCounter SharedRing RingRecords RingFifo RingMapping CpuRoundTrip
  WireFixpoint MemoryLayer LayerSteps EventAccounting ProfilerLoop
open DrainLoops (Bridge)
open StepSystem (run run_keeps)

/-- The bridge of the target with the counters of its writes. -/
structure Writer where
  rb : RingBuffer
  isOpen : Bool
  written : ℕ
  dropped : ℕ

inductive WriteError
  | notOpen
  | serialize (e : PyError)

/-- Bridge.write. The outer result is missing where the ring is accessed out of bounds. -/
def Writer.write (b : Writer) (seg : Segment) (event : CpuEvent) :
    Option (Except WriteError (Writer × Segment)) :=
  if b.isOpen then
    match CpuCodec.serialize event with
    | .error e => some (.error (.serialize e))
    | .ok payload =>
      (rbWrite b.rb seg payload (UInt32.ofNat payload.length)).map fun (seg, result) =>
        .ok (if result then { b with written := b.written + 1 }
          else { b with dropped := b.dropped + 1 }, seg)
  else some (.error .notOpen)

/-- The profiler thread with its bridge, the ring, and the runner's reader with what it has
read. `failed` says that an error of write has ended the thread. -/
structure World where
  loop : Loop
  writer : Writer
  failed : Bool
  seg : Segment
  reader : Bridge
  delivered : List CpuEvent

def World.init (layer : Layer) (writerRb readerRb : RingBuffer) (seg : Segment) : World where
  loop := { layer }
  writer := ⟨writerRb, true, 0, 0⟩
  failed := false
  seg := seg
  reader := ⟨readerRb, true⟩
  delivered := []

/-- The event that the next step of the thread writes. -/
def nextWrite (s : Loop) : ProfilerLoop.Action → Option CpuEvent
  | .thread _ =>
    match s.pc with
    | .writing (e :: _) => some e
    | _ => none
  | _ => none

inductive Action
  | loop (a : ProfilerLoop.Action)
  | read

def isThread : ProfilerLoop.Action → Bool
  | .thread _ => true
  | _ => false

/-- A step of the thread or of a finalizer; the thread closes its bridge before it ends. -/
def loopStep (w : World) (a : ProfilerLoop.Action) : Option World :=
  if isThread a && w.failed then none
  else
    match nextWrite w.loop a with
    | some event =>
      match w.writer.write w.seg event with
      | some (.ok (writer, seg)) =>
        (ProfilerLoop.step w.loop a).map fun loop => { w with loop, writer, seg }
      | some (.error _) => some { w with failed := true }
      | none => none
    | none =>
      (ProfilerLoop.step w.loop a).map fun loop =>
        match loop.pc with
        | .done => { w with loop, writer := { w.writer with isOpen := false } }
        | _ => { w with loop }

/-- One round of `_drain_cpu`. -/
def read (w : World) : Option World :=
  (w.reader.read w.seg 4096).map fun (seg, payload) =>
    match payload.map CpuCodec.deserialize with
    | some (.ok event) => { w with seg, delivered := w.delivered ++ [event] }
    | _ => { w with seg }

def step (w : World) : Action → Option World
  | .loop a => loopStep w a
  | .read => read w

/-! What the thread has written was returned by its collects before. -/

def Ordered (s : Loop) : Prop := s.written.Sublist s.returned.flatten

theorem ordered_step {s s' : Loop} {a : ProfilerLoop.Action} (hkept : Kept s) (h : Ordered s)
    (hstep : ProfilerLoop.step s a = some s') : Ordered s' := by
  unfold Ordered at h ⊢
  cases a with
  | thread env =>
    have hmore : ∀ batch : List CpuEvent, s.written.Sublist (s.returned ++ [batch]).flatten := by
      intro batch
      rw [List.flatten_append]
      exact h.trans (List.sublist_append_left _ _)
    cases threaded_of_step hstep with
    | collected c ly batch hpc _ => exact hmore batch
    | lastCollected c ly batch hpc _ => exact hmore batch
    | write e rest hpc =>
      have horder := hkept.order (by rw [hpc]; rfl)
      rw [hpc, left, List.append_cons] at horder
      rw [← horder]
      exact List.sublist_append_left _ _
    | _ => exact h
  | setActive active =>
    have hs := finalized_of_others (fun _ ha => by cases ha) hstep
    rw [hs.written, hs.returned]
    exact h
  | finalize addr =>
    have hs := finalized_of_others (fun _ ha => by cases ha) hstep
    rw [hs.written, hs.returned]
    exact h
  | finalizer i env =>
    have hs := finalized_of_others (fun _ ha => by cases ha) hstep
    rw [hs.written, hs.returned]
    exact h

/-- Everything that was written was made by the layer, and once only. -/
theorem written_le_made {s : Loop} (hkept : Kept s) (h : Ordered s) :
    (s.written : Multiset CpuEvent) ≤ s.layer.made := by
  have hevents : (s.written : Multiset CpuEvent) ≤ s.layer.events := by
    rw [hkept.buffer]
    exact Multiset.coe_le.mpr h.subperm
  rw [hkept.places]
  refine hevents.trans ?_
  rw [Multiset.coe_nil, add_zero]
  exact Multiset.le_add_left _ _

/-- No two written events share an id. -/
theorem written_nodup {s : Loop} (hkept : Kept s) (h : Ordered s) :
    (s.written.map fun e => e.base.eventId).Nodup := by
  have hmade : ((s.layer.made : Multiset CpuEvent).map fun e => e.base.eventId).Nodup := by
    rw [Multiset.map_coe, Multiset.coe_nodup]
    exact hkept.numbered.nodup
  have hle := Multiset.map_le_map (f := fun e : CpuEvent => e.base.eventId)
    (written_le_made hkept h)
  have hwritten := Multiset.nodup_of_le hle hmade
  rw [Multiset.map_coe, Multiset.coe_nodup] at hwritten
  exact hwritten

theorem step_written_none {s s' : Loop} {a : ProfilerLoop.Action} (hnone : nextWrite s a = none)
    (hstep : ProfilerLoop.step s a = some s') : s'.written = s.written := by
  cases a with
  | thread env =>
    cases threaded_of_step hstep with
    | write e rest hpc =>
      rw [nextWrite, hpc] at hnone
      cases hnone
    | _ => rfl
  | _ => exact (finalized_of_others (fun _ ha => by cases ha) hstep).written

theorem step_written_some {s s' : Loop} {a : ProfilerLoop.Action} {event : CpuEvent}
    (hsome : nextWrite s a = some event) (hstep : ProfilerLoop.step s a = some s') :
    s'.written = s.written ++ [event] := by
  cases a with
  | thread env =>
    dsimp only [nextWrite] at hsome
    split at hsome
    · rename_i e rest hpc
      cases hsome
      rw [ProfilerLoop.step, threadStep, hpc] at hstep
      cases hstep
      rfl
    · cases hsome
  | _ => cases hsome

/-! The way of the payloads. -/

def payloadOf (event : CpuEvent) : List UInt8 :=
  match CpuCodec.serialize event with
  | .ok payload => payload
  | .error _ => []

/-- What the reader makes of an event. -/
def receivedOf (event : CpuEvent) : CpuEvent := received (carried event)

theorem deserialize_payloadOf {event : CpuEvent} (h : NumbersFit event) :
    CpuCodec.deserialize (payloadOf event) = .ok (receivedOf event) := by
  obtain ⟨payload, hpayload, hread⟩ := h.readBack
  rw [payloadOf, hpayload]
  exact hread

theorem write_cases {b b' : Writer} {seg seg' : Segment} {event : CpuEvent}
    (h : b.write seg event = some (.ok (b', seg'))) :
    NumbersFit event ∧ Storable (payloadOf event) ∧ ∃ ok,
      rbWrite b.rb seg (payloadOf event) (UInt32.ofNat (payloadOf event).length) = some (seg', ok) ∧
      b' = if ok then { b with written := b.written + 1 }
        else { b with dropped := b.dropped + 1 } := by
  unfold Writer.write at h
  split at h
  · cases hserialize : CpuCodec.serialize event with
    | error e =>
      rw [hserialize] at h
      cases h
    | ok payload =>
      rw [hserialize] at h
      obtain ⟨⟨mid, ok⟩, hwrite, heq⟩ := Option.map_eq_some_iff.mp h
      cases heq
      rw [payloadOf, hserialize]
      exact ⟨numbersFit_of_serialize hserialize, DrainResults.serialize_storable hserialize, ok,
        hwrite, rfl⟩
  · cases h

/-- Of the written events, the ring has taken `done` and `queued`, and the runner has been
given the former. -/
structure Delivery (w : World) (done queued : List CpuEvent) : Prop where
  kept : Kept w.loop
  ordered : Ordered w.loop
  accepted : (done ++ queued).Sublist w.loop.written
  fit : ∀ e ∈ done ++ queued, NumbersFit e
  ring : ∃ head, Represents w.seg head (queued.map payloadOf)
  delivered : w.delivered = done.map receivedOf
  isOpen : w.reader.isOpen = true
  written : w.writer.written = (done ++ queued).length
  counted : w.writer.written + w.writer.dropped = w.loop.written.length
  dropped : w.seg.hdr.dropped = UInt32.ofNat w.writer.dropped

theorem delivery_init (trackRefs : Bool) (nextId : ℤ) (writerRb readerRb : RingBuffer)
    {capacity : UInt32} (hcap : PowerOfTwo capacity) :
    Delivery (.init (.init trackRefs nextId) writerRb readerRb (freshSegment capacity)) [] [] where
  kept := kept_init trackRefs nextId
  ordered := List.nil_sublist _
  accepted := List.nil_sublist _
  fit := List.forall_mem_nil _
  ring := ⟨0, .fresh hcap⟩
  delivered := rfl
  isOpen := rfl
  written := rfl
  counted := rfl
  dropped := rfl

section

variable {w w' : World} {done queued : List CpuEvent}

/-- A step of the thread or of a finalizer that writes nothing. -/
theorem Delivery.beside (h : Delivery w done queued) {a : ProfilerLoop.Action} {loop : Loop}
    (hnone : nextWrite w.loop a = none) (hstep : ProfilerLoop.step w.loop a = some loop)
    (hloop : w'.loop = loop) (hseg : w'.seg = w.seg) (hdelivered : w'.delivered = w.delivered)
    (hreader : w'.reader = w.reader) (hwritten : w'.writer.written = w.writer.written)
    (hdropped : w'.writer.dropped = w.writer.dropped) : Delivery w' done queued := by
  have hsame := step_written_none hnone hstep
  refine ⟨?_, ?_, ?_, h.fit, ?_, ?_, ?_, ?_, ?_, ?_⟩
  · rw [hloop]
    exact kept_step _ _ _ h.kept hstep
  · rw [hloop]
    exact ordered_step h.kept h.ordered hstep
  · rw [hloop, hsame]
    exact h.accepted
  · rw [hseg]
    exact h.ring
  · rw [hdelivered]
    exact h.delivered
  · rw [hreader]
    exact h.isOpen
  · rw [hwritten]
    exact h.written
  · rw [hwritten, hdropped, hloop, hsame]
    exact h.counted
  · rw [hseg, hdropped]
    exact h.dropped

theorem Delivery.write (h : Delivery w done queued) {a : ProfilerLoop.Action} {loop : Loop}
    {event : CpuEvent} {writer : Writer} {seg : Segment}
    (hsome : nextWrite w.loop a = some event) (hstep : ProfilerLoop.step w.loop a = some loop)
    (hwrite : w.writer.write w.seg event = some (.ok (writer, seg))) :
    ∃ queued', Delivery { w with loop, writer, seg } done queued' := by
  obtain ⟨hfit, hstorable, ok, hring, rfl⟩ := write_cases hwrite
  have hwritten := step_written_some hsome hstep
  have hkept := kept_step _ _ _ h.kept hstep
  have hordered := ordered_step h.kept h.ordered hstep
  obtain ⟨head, hrep⟩ := h.ring
  have hnext := write_result hrep hstorable hring
  have hlost := ActivityAccounts.rbWrite_dropped (ofNat_length_ne_zero hstorable) hring
  have hcounted := h.counted
  have hcount := h.written
  cases ok with
  | true =>
    refine ⟨queued ++ [event], hkept, hordered, ?_, ?_, ⟨head, ?_⟩, h.delivered, h.isOpen, ?_, ?_,
      ?_⟩
    · dsimp only
      rw [hwritten, ← List.append_assoc]
      exact h.accepted.append_right _
    · rw [← List.append_assoc]
      exact List.forall_mem_append.mpr ⟨h.fit, List.forall_mem_singleton.mpr hfit⟩
    · rw [List.map_append]
      exact hnext
    · rw [← List.append_assoc, List.length_append, ← hcount]
      rfl
    · dsimp only
      rw [hwritten, List.length_append, List.length_singleton, if_pos rfl]
      dsimp only
      omega
    · exact hlost.trans h.dropped
  | false =>
    refine ⟨queued, hkept, hordered, ?_, h.fit, ⟨head, hnext⟩, h.delivered, h.isOpen, h.written,
      ?_, ?_⟩
    · dsimp only
      rw [hwritten]
      exact h.accepted.trans (List.sublist_append_left _ _)
    · dsimp only
      rw [hwritten, List.length_append, List.length_singleton, if_neg Bool.false_ne_true]
      dsimp only
      omega
    · refine hlost.trans ?_
      rw [if_neg Bool.false_ne_true, h.dropped]
      exact (UInt32.ofNat_add _ 1).symm

theorem loopStep_cases {a : ProfilerLoop.Action} (hstep : loopStep w a = some w') :
    w' = { w with failed := true } ∨
      (∃ event loop writer seg, nextWrite w.loop a = some event ∧
        ProfilerLoop.step w.loop a = some loop ∧
        w.writer.write w.seg event = some (.ok (writer, seg)) ∧
        w' = { w with loop, writer, seg }) ∨
      ∃ loop isOpen, nextWrite w.loop a = none ∧ ProfilerLoop.step w.loop a = some loop ∧
        w' = { w with loop, writer := { w.writer with isOpen } } := by
  unfold loopStep at hstep
  split at hstep
  · cases hstep
  · cases hnext : nextWrite w.loop a with
    | some event =>
      rw [hnext] at hstep
      dsimp only at hstep
      split at hstep
      · rename_i writer seg hwrite
        obtain ⟨loop, hloop, rfl⟩ := Option.map_eq_some_iff.mp hstep
        exact Or.inr (Or.inl ⟨event, loop, writer, seg, rfl, hloop, hwrite, rfl⟩)
      · cases hstep
        exact Or.inl rfl
      · cases hstep
    | none =>
      rw [hnext] at hstep
      obtain ⟨loop, hloop, rfl⟩ := Option.map_eq_some_iff.mp hstep
      refine Or.inr (Or.inr ⟨loop, ?_⟩)
      split
      · exact ⟨false, rfl, hloop, rfl⟩
      · exact ⟨w.writer.isOpen, rfl, hloop, rfl⟩

theorem Delivery.loop (h : Delivery w done queued) {a : ProfilerLoop.Action}
    (hstep : loopStep w a = some w') : ∃ queued', Delivery w' done queued' := by
  rcases loopStep_cases hstep with
    rfl | ⟨event, loop, writer, seg, hsome, hloop, hwrite, rfl⟩ | ⟨loop, isOpen, hnone, hloop, rfl⟩
  · exact ⟨queued, h.kept, h.ordered, h.accepted, h.fit, h.ring, h.delivered, h.isOpen, h.written,
      h.counted, h.dropped⟩
  · exact h.write hsome hloop hwrite
  · exact ⟨queued, h.beside hnone hloop rfl rfl rfl rfl rfl rfl⟩

/-- The reader is given the oldest event in the ring, or none. -/
theorem Delivery.read (h : Delivery w done queued) (hstep : HostPipeline.read w = some w') :
    ∃ done' queued', Delivery w' done' queued' := by
  obtain ⟨⟨seg, result⟩, hread, hnext⟩ := Option.map_eq_some_iff.mp hstep
  rw [Bridge.read, if_pos h.isOpen] at hread
  have hdropped := ActivityAccounts.rbRead_dropped hread
  obtain ⟨head, hrep⟩ := h.ring
  rcases read_result hrep hread with ⟨rfl, rfl, -⟩ | ⟨payload, rest, head', hqueued, rfl, -, hrest⟩
  · cases hnext
    exact ⟨done, queued, h.kept, h.ordered, h.accepted, h.fit, h.ring, h.delivered, h.isOpen,
      h.written, h.counted, h.dropped⟩
  · obtain ⟨event, later, rfl, rfl, rfl⟩ := List.map_eq_cons_iff.mp hqueued
    have hfit : NumbersFit event := h.fit event (by simp)
    dsimp only at hnext
    rw [Option.map_some, deserialize_payloadOf hfit] at hnext
    cases hnext
    have hsplit : done ++ [event] ++ later = done ++ event :: later := by simp
    refine ⟨done ++ [event], later, h.kept, h.ordered, ?_, ?_, ⟨head', hrest⟩, ?_, h.isOpen, ?_,
      h.counted, hdropped.trans h.dropped⟩
    · rw [hsplit]
      exact h.accepted
    · rw [hsplit]
      exact h.fit
    · dsimp only
      rw [h.delivered, List.map_append]
      rfl
    · rw [hsplit]
      exact h.written

theorem Delivery.step (h : Delivery w done queued) {action : Action}
    (hstep : HostPipeline.step w action = some w') :
    ∃ done' queued', Delivery w' done' queued' := by
  cases action with
  | loop a => exact ⟨done, h.loop hstep⟩
  | read => exact h.read hstep

end

theorem delivery_run {trackRefs : Bool} {nextId : ℤ} {writerRb readerRb : RingBuffer}
    {capacity : UInt32} (hcap : PowerOfTwo capacity) {actions : List Action} {w : World}
    (hrun : run step (.init (.init trackRefs nextId) writerRb readerRb (freshSegment capacity))
      actions = some w) : ∃ done queued, Delivery w done queued := by
  have hstep : ∀ v action v', (∃ done queued, Delivery v done queued) →
      step v action = some v' → ∃ done queued, Delivery v' done queued := by
    rintro v action v' ⟨done, queued, h⟩ hnext
    exact h.step hnext
  exact run_keeps hstep ⟨[], [], delivery_init trackRefs nextId writerRb readerRb hcap⟩ hrun

theorem receivedOf_eventId (event : CpuEvent) :
    (receivedOf event).base.eventId = event.base.eventId := rfl

/-- No two delivered events share an id. -/
theorem delivered_nodup {w : World} {done queued : List CpuEvent} (h : Delivery w done queued) :
    (w.delivered.map fun e => e.base.eventId).Nodup := by
  have hdone : done.Sublist w.loop.written :=
    (List.sublist_append_left done queued).trans h.accepted
  rw [h.delivered, List.map_map]
  exact (written_nodup h.kept h.ordered).sublist (hdone.map _)

/-- In every run of the profiler thread, of the finalizers that interrupt it and of the
runner's reader: the runner has been given the events of a part of what the thread wrote,
in that order and with distinct ids; and every write that returned is counted, as one of
those, as one whose bytes are still in the ring, or as dropped, which the ring counts
too. -/
theorem delivered_in_written_order (os : OsCalls) (found : Option Segment) (capacity : UInt32)
    (writerRb readerRb : RingBuffer) (seg : Segment)
    (hcreate : rbCreate os found capacity true = (some readerRb, some seg)) (trackRefs : Bool)
    (nextId : ℤ) (actions : List Action) (w : World)
    (hrun : run step (.init (.init trackRefs nextId) writerRb readerRb seg) actions = some w) :
    ∃ done queued : List CpuEvent, (done ++ queued).Sublist w.loop.written ∧
      w.delivered = done.map receivedOf ∧
      (w.delivered.map fun e => e.base.eventId).Nodup ∧
      done.length + queued.length + w.writer.dropped = w.loop.written.length ∧
      w.seg.hdr.dropped = UInt32.ofNat w.writer.dropped ∧
      (∃ head, Represents w.seg head (queued.map payloadOf)) ∧
      (rbUsed w.seg.hdr = 0 → queued = []) := by
  obtain ⟨hcap, -, hseg⟩ := rbCreate_some hcreate
  cases hseg
  obtain ⟨done, queued, h⟩ := delivery_run hcap hrun
  refine ⟨done, queued, h.accepted, h.delivered, delivered_nodup h, ?_, h.dropped, h.ring, ?_⟩
  · have hcounted := h.counted
    rw [h.written, List.length_append] at hcounted
    exact hcounted
  · intro hempty
    obtain ⟨head, hrep⟩ := h.ring
    exact List.map_eq_nil_iff.mp (ActivityAccounts.items_eq_nil hrep hempty)

/-- The thread reports an object and its death, each read by the runner in between. -/
def reportedTwice : List Action :=
  firstRound.map .loop ++ [.read] ++ objectDies.map .loop ++
    List.replicate 8 (.loop (.thread { snapshot := some ∅ })) ++ [.read]

theorem delivered_in_written_order_reportedTwice : ∃ w,
    run step (.init (.init false 1) ⟨576⟩ ⟨576⟩ (freshSegment 512)) reportedTwice = some w ∧
      w.delivered.length = 2 ∧
      ∃ done queued : List CpuEvent, (done ++ queued).Sublist w.loop.written ∧
        w.delivered = done.map receivedOf ∧
        (w.delivered.map fun e => e.base.eventId).Nodup ∧
        done.length + queued.length + w.writer.dropped = w.loop.written.length ∧
        w.seg.hdr.dropped = UInt32.ofNat w.writer.dropped ∧
        (∃ head, Represents w.seg head (queued.map payloadOf)) ∧
        (rbUsed w.seg.hdr = 0 → queued = []) := by
  have hsome : (run step (.init (.init false 1) ⟨576⟩ ⟨576⟩ (freshSegment 512))
      reportedTwice).isSome = true := by decide +kernel
  have hcount : ((run step (.init (.init false 1) ⟨576⟩ ⟨576⟩ (freshSegment 512))
      reportedTwice).map fun w => w.delivered.length) = some 2 := by decide +kernel
  obtain ⟨w, hw⟩ := Option.isSome_iff_exists.mp hsome
  rw [hw, Option.map_some, Option.some_inj] at hcount
  exact ⟨w, hw, hcount, delivered_in_written_order ⟨true, true, true⟩ none 512 ⟨576⟩ ⟨576⟩
    (freshSegment 512) rfl false 1 reportedTwice w hw⟩

end HpcProfiler.HostPipeline
