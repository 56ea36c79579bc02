import HpcProfiler.CpuRoundTrip
import HpcProfiler.DrainLoops
import HpcProfiler.StepSystem

/-!
What a drain has collected when it returns. In every reachable state the accepted
payloads are those read so far followed by those still in the ring, and the sink
holds the decodings of the former. A drain therefore leaves nothing behind exactly
when every accepted payload fits the buffer it reads with.
-/

namespace HpcProfiler.DrainResults

open Events StructFormat WrappingCounter SharedRing RingRecords RingFifo RingMapping DrainLoops
  StepSystem

def decoded (d : Drain) (payload : List UInt8) : Option d.Event :=
  match d.parse payload with
  | .ok event => some event
  | .error _ => none

/-- The number of bytes a drain's reads have room for. -/
def bufferSize : Drain → ℕ
  | .correlatorCpu => 4096
  | .correlatorGpu => 4096
  | .runnerCpu => 4096
  | .runnerGpu => 65536

section

variable {d : Drain} {bridge : Bridge} {seg seg' : Segment} {head : ℕ} {items : List (List UInt8)}

/-- The reads of all four drains differ only in the size of their buffers. -/
theorem drain_read_result (h : Represents seg head items) (hopen : bridge.isOpen = true)
    {result : Option (List UInt8)} (hread : d.read bridge seg = some (seg', result)) :
    (result = none ∧ seg' = seg ∧ ∀ payload ∈ items.head?, bufferSize d < payload.length) ∨
      ∃ payload rest head', items = payload :: rest ∧ result = some payload ∧
        payload.length ≤ bufferSize d ∧ Represents seg' head' rest := by
  cases d with
  | correlatorCpu =>
    rw [Drain.read, Bridge.read, if_pos hopen] at hread
    exact read_result h hread
  | correlatorGpu =>
    rw [Drain.read, Bridge.read, if_pos hopen] at hread
    exact read_result h hread
  | runnerCpu =>
    rw [Drain.read, Bridge.read, if_pos hopen] at hread
    exact read_result h hread
  | runnerGpu =>
    rw [Drain.read, Bridge.readGpu, if_pos hopen, Option.map_eq_some_iff] at hread
    obtain ⟨⟨mid, found⟩, hfound, heq⟩ := hread
    rcases read_result h hfound with
      ⟨rfl, rfl, hlong⟩ | ⟨payload, rest, head', rfl, rfl, hlen, hrep⟩
    · cases heq
      exact Or.inl ⟨rfl, rfl, hlong⟩
    · have hpos := (h.storable payload (List.mem_cons_self ..)).1
      have hkeep : (payload.length != 0) = true := by
        rw [bne_iff_ne]
        omega
      have hfilter : (some payload).filter (fun bytes => bytes.length != 0) = some payload :=
        Option.filter_some_pos hkeep
      dsimp only at heq
      rw [hfilter] at heq
      cases heq
      exact Or.inr ⟨payload, rest, head', rfl, rfl, hlen, hrep⟩

end

/-- The invariant of the loops: the accepted payloads are those read so far and those
still queued in the ring, and the sink holds what the former decode to. -/
structure Progress {d : Drain} (s : LoopState d) (done queued : List (List UInt8)) : Prop where
  accepted : s.accepted = done ++ queued
  ring : ∃ head, Represents s.seg head queued
  sink : s.sink = done.filterMap (decoded d)
  short : ∀ payload ∈ done, payload.length ≤ bufferSize d

theorem collect_eq {d : Drain} (s : LoopState d) (payload : List UInt8) :
    collect s payload = s.sink ++ [payload].filterMap (decoded d) := by
  unfold collect decoded
  cases hparse : d.parse payload with
  | ok event => simp [hparse]
  | error e => simp [hparse]

section

variable {d : Drain} {producer : RingBuffer} {bridge : Bridge} {s s' : LoopState d}
  {done queued : List (List UInt8)}

theorem Progress.write (h : Progress s done queued) {payload : List UInt8}
    (hp : Storable payload) (hstep : writeStep producer s payload = some s') :
    ∃ queued', Progress s' done queued' := by
  unfold writeStep at hstep
  by_cases hproducing : s.producing = true
  · rw [if_pos hproducing, Option.map_eq_some_iff] at hstep
    obtain ⟨⟨seg, ok⟩, hwrite, rfl⟩ := hstep
    obtain ⟨head, hrep⟩ := h.ring
    have hring := write_result hrep hp hwrite
    refine ⟨if ok then queued ++ [payload] else queued, ?_, ⟨head, hring⟩, h.sink, h.short⟩
    cases ok with
    | true => simp [h.accepted]
    | false => simp [h.accepted]
  · rw [if_neg hproducing] at hstep
    cases hstep

/-- A read moves the oldest queued payload to the sink, or finds nothing that fits. -/
theorem Progress.read (h : Progress s done queued) (hopen : bridge.isOpen = true)
    {seg : Segment} {result : Option (List UInt8)}
    (hread : d.read bridge s.seg = some (seg, result)) :
    (result = none ∧ seg = s.seg ∧ ∀ payload ∈ queued.head?, bufferSize d < payload.length) ∨
      ∃ payload rest, queued = payload :: rest ∧ result = some payload ∧
        ∀ pc, Progress { s with seg := seg, pc := pc, sink := collect s payload }
          (done ++ [payload]) rest := by
  obtain ⟨head, hrep⟩ := h.ring
  rcases drain_read_result hrep hopen hread with
    hnone | ⟨payload, rest, head', rfl, rfl, hlen, hrest⟩
  · exact Or.inl hnone
  · refine Or.inr ⟨payload, rest, rfl, rfl, ?_⟩
    intro pc
    refine ⟨?_, ⟨head', hrest⟩, ?_, ?_⟩
    · rw [List.append_assoc]
      exact h.accepted
    · rw [List.filterMap_append, ← h.sink]
      exact collect_eq s payload
    · intro p hp
      rcases List.mem_append.mp hp with hold | hnew
      · exact h.short p hold
      · rw [List.mem_singleton.mp hnew]
        exact hlen

theorem Progress.drain (h : Progress s done queued) (hopen : bridge.isOpen = true)
    (hstep : drainStep bridge s = some s') :
    ∃ done' queued', Progress s' done' queued' ∧
      (s'.pc = .returned → ∀ payload ∈ queued'.head?, bufferSize d < payload.length) := by
  unfold drainStep at hstep
  cases hpc : s.pc with
  | testing =>
    rw [hpc] at hstep
    cases hstep
    refine ⟨done, queued, ⟨h.accepted, h.ring, h.sink, h.short⟩, ?_⟩
    intro hreturn
    dsimp only at hreturn
    split at hreturn <;> cases hreturn
  | polling =>
    rw [hpc] at hstep
    obtain ⟨⟨seg, result⟩, hread, hnext⟩ := Option.map_eq_some_iff.mp hstep
    rcases h.read hopen hread with ⟨rfl, rfl, -⟩ | ⟨payload, rest, rfl, rfl, hmoved⟩
    · cases hnext
      exact ⟨done, queued, ⟨h.accepted, h.ring, h.sink, h.short⟩, fun hreturn => by cases hreturn⟩
    · cases hnext
      exact ⟨_, rest, hmoved .testing, fun hreturn => by cases hreturn⟩
  | draining =>
    rw [hpc] at hstep
    obtain ⟨⟨seg, result⟩, hread, hnext⟩ := Option.map_eq_some_iff.mp hstep
    rcases h.read hopen hread with ⟨rfl, rfl, hlong⟩ | ⟨payload, rest, rfl, rfl, hmoved⟩
    · cases hnext
      exact ⟨done, queued, ⟨h.accepted, h.ring, h.sink, h.short⟩, fun _ => hlong⟩
    · cases hnext
      exact ⟨_, rest, hmoved .draining, fun hreturn => by cases hreturn⟩
  | returned =>
    rw [hpc] at hstep
    cases hstep

theorem drainStep_producing (hstep : drainStep bridge s = some s') :
    s'.producing = s.producing := by
  unfold drainStep at hstep
  split at hstep
  · cases hstep
    rfl
  · obtain ⟨⟨seg, result⟩, -, hnext⟩ := Option.map_eq_some_iff.mp hstep
    cases result <;> cases hnext <;> rfl
  · obtain ⟨⟨seg, result⟩, -, hnext⟩ := Option.map_eq_some_iff.mp hstep
    cases result <;> cases hnext <;> rfl
  · cases hstep

theorem Progress.step (h : Progress s done queued) (hopen : bridge.isOpen = true)
    {action : Action} (haction : action.Valid)
    (hstep : DrainLoops.step producer bridge s action = some s') :
    ∃ done' queued', Progress s' done' queued' := by
  cases action with
  | write payload =>
    obtain ⟨queued', hnext⟩ := h.write haction hstep
    exact ⟨done, queued', hnext⟩
  | finishWriting =>
    cases hstep
    exact ⟨done, queued, h.accepted, h.ring, h.sink, h.short⟩
  | setStop =>
    cases hstep
    exact ⟨done, queued, h.accepted, h.ring, h.sink, h.short⟩
  | drain =>
    obtain ⟨done', queued', hnext, -⟩ := h.drain hopen hstep
    exact ⟨done', queued', hnext⟩

end

theorem start_progress (d : Drain) {capacity : UInt32} (hcap : PowerOfTwo capacity) :
    Progress (start d (freshSegment capacity)) [] [] where
  accepted := rfl
  ring := ⟨0, .fresh hcap⟩
  sink := rfl
  short := by simp

/-- Nothing that the result depends on changes once the drain has returned and the
producer has stopped. -/
structure Settled {d : Drain} (t s : LoopState d) : Prop where
  stopped : s.producing = false
  returned : s.pc = .returned
  seg_eq : s.seg = t.seg
  sink_eq : s.sink = t.sink
  accepted_eq : s.accepted = t.accepted

theorem Settled.step {d : Drain} {producer : RingBuffer} {bridge : Bridge} {t s s' : LoopState d}
    (h : Settled t s) {action : Action}
    (hstep : DrainLoops.step producer bridge s action = some s') : Settled t s' := by
  cases action with
  | write payload =>
    rw [DrainLoops.step, writeStep, h.stopped] at hstep
    cases hstep
  | finishWriting =>
    cases hstep
    exact ⟨rfl, h.returned, h.seg_eq, h.sink_eq, h.accepted_eq⟩
  | setStop =>
    cases hstep
    exact ⟨h.stopped, h.returned, h.seg_eq, h.sink_eq, h.accepted_eq⟩
  | drain =>
    rw [DrainLoops.step, drainStep, h.returned] at hstep
    cases hstep

/-- What a drain has left and collected, at the moment it returns. -/
theorem returned_iff {d : Drain} {s : LoopState d} {done queued : List (List UInt8)}
    (h : Progress s done queued)
    (hlong : ∀ payload ∈ queued.head?, bufferSize d < payload.length) :
    (rbUsed s.seg.hdr = 0 ∧ s.sink = s.accepted.filterMap (decoded d)) ↔
      ∀ payload ∈ s.accepted, payload.length ≤ bufferSize d := by
  obtain ⟨head, hrep⟩ := h.ring
  have hused := hrep.toNat_rbUsed
  constructor
  · rintro ⟨hempty, -⟩ payload hpayload
    cases queued with
    | nil =>
      rw [h.accepted, List.append_nil] at hpayload
      exact h.short payload hpayload
    | cons first rest =>
      have hcost := recordCost_pos first
      rw [hempty, stream_cons, List.length_append, record_length] at hused
      have hzero : (0 : UInt32).toNat = 0 := rfl
      omega
  · intro hfit
    cases queued with
    | nil =>
      refine ⟨UInt32.toNat_inj.mp hused, ?_⟩
      rw [h.accepted, List.append_nil]
      exact h.sink
    | cons first rest =>
      have hshort := hfit first (by rw [h.accepted]; simp)
      have hfirst := hlong first rfl
      omega

/-- For every moment of the stop signal and every interleaving of writes, signals and
the drain's steps: once the drain has returned after the producer stopped writing, the
ring is empty and the sink holds the decodings of all accepted payloads in order
exactly when every accepted payload fits the drain's buffer. -/
theorem drain_complete_iff (d : Drain) (os : OsCalls) (found : Option Segment)
    (capacity : UInt32) (rb : RingBuffer) (seg : Segment)
    (hcreate : rbCreate os found capacity true = (some rb, some seg))
    (producer : RingBuffer) (bridge : Bridge) (hopen : bridge.isOpen = true)
    (before after : List Action) (hvalid : ∀ action ∈ before, action.Valid)
    (s t u : LoopState d) (hbefore : run (step producer bridge) (start d seg) before = some s)
    (hstopped : s.producing = false) (hlast : step producer bridge s .drain = some t)
    (hreturn : t.pc = .returned) (hafter : run (step producer bridge) t after = some u) :
    (rbUsed u.seg.hdr = 0 ∧ u.sink = u.accepted.filterMap (decoded d)) ↔
      ∀ payload ∈ u.accepted, payload.length ≤ bufferSize d := by
  obtain ⟨hcap, -, hseg⟩ := rbCreate_some hcreate
  cases hseg
  have hstep : ∀ (s : LoopState d) (action : Action) (s' : LoopState d),
      (∃ done queued, Progress s done queued) → action.Valid →
      step producer bridge s action = some s' → ∃ done queued, Progress s' done queued := by
    rintro s action s' ⟨done, queued, hprogress⟩ haction hnext
    exact hprogress.step hopen haction hnext
  obtain ⟨done, queued, hprogress⟩ :=
    run_invariant hstep ⟨[], [], start_progress d hcap⟩ hvalid hbefore
  obtain ⟨done', queued', hreturned, hlong⟩ := hprogress.drain hopen hlast
  have hstays : t.producing = s.producing := drainStep_producing hlast
  have hkept : ∀ (s : LoopState d) (action : Action) (s' : LoopState d), Settled t s → True →
      step producer bridge s action = some s' → Settled t s' := by
    intro s action s' hs _ hnext
    exact hs.step hnext
  have hend : Settled t u :=
    run_invariant hkept ⟨hstays.trans hstopped, hreturn, rfl, rfl, rfl⟩
      (fun _ _ => trivial) hafter
  rw [hend.seg_eq, hend.sink_eq, hend.accepted_eq]
  exact returned_iff hreturned (hlong hreturn)

/-- Two payloads go through a small ring, one before and one after the stop signal. -/
theorem drain_complete_iff_small :
    ∃ u : LoopState .runnerGpu, u.accepted = [[7, 9], [5]] ∧
      ((rbUsed u.seg.hdr = 0 ∧ u.sink = u.accepted.filterMap (decoded .runnerGpu)) ↔
        ∀ payload ∈ u.accepted, payload.length ≤ bufferSize .runnerGpu) :=
  ⟨_, rfl, drain_complete_iff .runnerGpu ⟨true, true, true⟩ none 16 ⟨80⟩ (freshSegment 16)
    (by rfl) ⟨80⟩ ⟨⟨80⟩, true⟩ rfl
    [.write [7, 9], .drain, .drain, .setStop, .write [5], .drain, .drain, .finishWriting] []
    (by simp [Action.Valid, Storable]) _ _ _ rfl rfl rfl rfl rfl⟩

/-! Payloads of the bridge are all storable, and a long enough name makes one that no
drain of CPU events has room for. -/

theorem serialize_storable {event : CpuEvent} {payload : List UInt8}
    (h : CpuCodec.serialize event = .ok payload) : Storable payload := by
  have hlen := CpuRoundTrip.serialize_length h
  have hobject := CpuRoundTrip.encodeCapped_length_le event.objectType
  have hmodule := CpuRoundTrip.encodeCapped_length_le (event.moduleName.getD "")
  have hdtype := CpuRoundTrip.encodeCapped_length_le (event.arrayDtype.getD "")
  have hshape := CpuRoundTrip.shapeDims_length_le event
  unfold Storable
  omega

def longName : String := String.ofList (List.replicate 3990 'a')

def longNamed : CpuEvent where
  base := { eventId := 1, timestampNs := 0, processId := 1, threadId := 1, eventType := "ALLOC" }
  allocAddress := 4096
  allocSizeBytes := 64
  objectType := longName
  refCount := 1
  gcGeneration := 0
  isDealloc := some false
  callstack := []
  moduleName := none
  peakRssKb := none
  lifetimeNs := none
  isNumpyBuffer := none
  bufferNbytes := none
  parentAddress := none
  pinnedAddress := none
  tracemallocSize := none
  arrayShape := none
  arrayDtype := none

theorem encode_replicate_a (n : ℕ) :
    (Utf8Replace.encode (String.ofList (List.replicate n 'a'))).length = n := by
  unfold Utf8Replace.encode
  rw [String.toList_ofList]
  induction n with
  | zero => rfl
  | succ n ih =>
    rw [List.replicate_succ, List.flatMap_cons, List.length_append, ih]
    have hone : (String.utf8EncodeChar 'a').length = 1 := rfl
    omega

theorem longNamed_fits : CpuRoundTrip.FitsWire longNamed := by
  constructor <;>
    simp [longNamed, CpuRoundTrip.U64, CpuRoundTrip.U32, CpuRoundTrip.I8, CpuCodec.eventTypeMap]

theorem longNamed_payload :
    ∃ payload, CpuCodec.serialize longNamed = .ok payload ∧ payload.length = 4097 := by
  obtain ⟨_, _, _, _, _, _, _, -, -, -, -, hserialize⟩ :=
    CpuRoundTrip.serialize_parts longNamed_fits
  refine ⟨_, hserialize, ?_⟩
  have hname : (CpuCodec.encodeCapped longName).length = 3990 := by
    unfold CpuCodec.encodeCapped longName
    rw [List.length_take, encode_replicate_a]
    rfl
  have hnone : (CpuCodec.encodeCapped "").length = 0 := by
    unfold CpuCodec.encodeCapped
    have hempty : (Utf8Replace.encode "").length = 0 := encode_replicate_a 0
    rw [List.length_take]
    omega
  have hdims : CpuCodec.shapeDims longNamed = [] := List.take_nil
  have hobject : longNamed.objectType = longName := rfl
  have hmodule : longNamed.moduleName.getD "" = "" := rfl
  have hdtype : longNamed.arrayDtype.getD "" = "" := rfl
  rw [CpuRoundTrip.serialize_length hserialize, hobject, hmodule, hdtype, hdims, hname, hnone]
  rfl

/-- A ring of 8 MiB takes the payload, and a read with 4096 bytes of room leaves it there. -/
theorem long_payload_stays {payload : List UInt8} (hp : Storable payload)
    (hlen : payload.length = 4097) :
    ∃ full, rbWrite ⟨64 + 8 * 1024 * 1024⟩ (freshSegment (8 * 1024 * 1024)) payload
        (UInt32.ofNat payload.length) = some (full, true) ∧
      Represents full 0 [payload] ∧
      rbRead ⟨64 + 8 * 1024 * 1024⟩ full 4096 = some (full, none) := by
  have hcapacity : (8 * 1024 * 1024 : UInt32).toNat = 8388608 := by decide
  have hfresh : Represents (freshSegment (8 * 1024 * 1024)) 0 [] := .fresh ⟨23, hcapacity⟩
  have hmap : (freshSegment (8 * 1024 * 1024)).hdr.capacity.toNat ≤
      (RingBuffer.mk (64 + 8 * 1024 * 1024)).dataLength := by
    rw [freshSegment, hcapacity]
    rfl
  have hfits : recordCost payload + (stream []).length ≤
      (freshSegment (8 * 1024 * 1024)).hdr.capacity.toNat - 1 := by
    rw [freshSegment, hcapacity, recordCost, hlen]
    decide
  have hrep := hfresh.append hp hfits
  have hread := hrep.rbRead_cons hmap 4096
  have hroom : (4096 : UInt32).toNat = 4096 := rfl
  rw [if_neg (by omega)] at hread
  exact ⟨_, hfresh.rbWrite_fits hp hmap hfits, hrep, hread⟩

theorem correlator_leaves_long_payload :
    ¬ ∀ (os : OsCalls) (found : Option Segment) (capacity : UInt32) (rb : RingBuffer)
      (seg : Segment), rbCreate os found capacity true = (some rb, some seg) →
      ∀ (producer : RingBuffer) (bridge : Bridge), bridge.isOpen = true →
      ∀ before after : List Action,
      (∀ payload, Action.write payload ∈ before →
        ∃ event, CpuRoundTrip.FitsWire event ∧ CpuCodec.serialize event = .ok payload) →
      ∀ s t u : LoopState .correlatorCpu,
      run (step producer bridge) (start .correlatorCpu seg) before = some s →
      s.producing = false → step producer bridge s .drain = some t → t.pc = .returned →
      run (step producer bridge) t after = some u →
      rbUsed u.seg.hdr = 0 ∧ u.sink = u.accepted.filterMap (decoded .correlatorCpu) := by
  intro hclaim
  obtain ⟨payload, hserialize, hlen⟩ := longNamed_payload
  obtain ⟨full, hwrite, hrep, hread⟩ := long_payload_stays (serialize_storable hserialize) hlen
  have hused := hrep.toNat_rbUsed
  rw [stream_cons, List.length_append, record_length] at hused
  have hcreate : rbCreate ⟨true, true, true⟩ none (8 * 1024 * 1024) true =
      (some ⟨64 + 8 * 1024 * 1024⟩, some (freshSegment (8 * 1024 * 1024))) := rfl
  have hpayloads : ∀ p, Action.write p ∈
      [Action.write payload, .finishWriting, .setStop, .drain] →
      ∃ event, CpuRoundTrip.FitsWire event ∧ CpuCodec.serialize event = .ok p := by
    intro p hmem
    simp only [List.mem_cons, Action.write.injEq, reduceCtorEq, List.not_mem_nil, or_false] at hmem
    exact ⟨longNamed, longNamed_fits, hmem ▸ hserialize⟩
  let s : LoopState .correlatorCpu := ⟨full, false, true, .draining, [], [payload]⟩
  let t : LoopState .correlatorCpu := ⟨full, false, true, .returned, [], [payload]⟩
  have hbefore : run (step ⟨64 + 8 * 1024 * 1024⟩ ⟨⟨64 + 8 * 1024 * 1024⟩, true⟩)
      (start .correlatorCpu (freshSegment (8 * 1024 * 1024)))
      [Action.write payload, .finishWriting, .setStop, .drain] = some s := by
    simp only [run, step, writeStep, start, hwrite, if_pos, Option.map_some, Option.bind_some,
      drainStep, List.nil_append]
    rfl
  have hlast : step ⟨64 + 8 * 1024 * 1024⟩ ⟨⟨64 + 8 * 1024 * 1024⟩, true⟩ s .drain = some t := by
    simp only [step, drainStep, s, Drain.read, Bridge.read, if_pos, hread, Option.map_some, t]
  obtain ⟨hempty, -⟩ := hclaim ⟨true, true, true⟩ none _ _ _ hcreate ⟨64 + 8 * 1024 * 1024⟩
    ⟨⟨64 + 8 * 1024 * 1024⟩, true⟩ rfl _ [] hpayloads s t t hbefore rfl hlast rfl rfl
  rw [hempty] at hused
  have hzero : (0 : UInt32).toNat = 0 := rfl
  omega

end HpcProfiler.DrainResults
