import HpcProfiler.ActivityCorrelation
import HpcProfiler.HostPipeline
import HpcProfiler.SessionSchema
import HpcProfiler.WorldInvariant

/-!
The session of a target that both pipelines have profiled. A collect of the memory layer
only makes events of the generations of the schema, so of the whole session no more than
the correlation ids of the GPU can break the schema; and since neither pipeline gives an
id twice, a correlated record names one event of each kind.
-/

namespace HpcProfiler.WholeSession

open Events Discovery MemoryLayer LayerSteps WorldInvariant ProfilerLoop HostPipeline SessionSchema
open StepSystem (run run_keeps)

/-! The generations that a collect reports. -/

def InSchema (gen : ℤ) : Prop := -1 ≤ gen ∧ gen ≤ 2

def AllInSchema (candidates : List Candidate) : Prop := ∀ x ∈ candidates, InSchema x.gen

section

variable {d : Found} {gen : ℤ}

theorem addCandidate_inSchema (h : AllInSchema d.candidates) (hgen : InSchema gen)
    (obj : PyObject) (tb : Traceback) : AllInSchema (d.addCandidate obj tb gen).candidates := by
  unfold Found.addCandidate
  split
  · exact List.forall_mem_append.mpr ⟨h, List.forall_mem_singleton.mpr hgen⟩
  · exact h

theorem visitGc_inSchema (h : AllInSchema d.candidates) {gen : ℕ} (hgen : InSchema gen)
    (s : Sighting) : AllInSchema (d.visitGc gen s).candidates := by
  unfold Found.visitGc
  split
  · split
    · rw [useQuota_candidates]
      exact addCandidate_inSchema h hgen _ _
    · split
      · exact addCandidate_inSchema h hgen _ _
      · exact h
  · exact h

theorem scanGc_inSchema (h : AllInSchema d.candidates) {gen : ℕ} (hgen : InSchema gen)
    (sightings : List Sighting) : AllInSchema (scanGc gen d sightings).candidates := by
  apply scanGc_keeps (P := fun d => AllInSchema d.candidates) h
  intro d s _ _ _ hd
  exact visitGc_inSchema (d := d.see s.obj) hd hgen s

theorem visitBuffer_inSchema (h : AllInSchema d.candidates) (s : Sighting) :
    AllInSchema (d.visitBuffer s).candidates := by
  have hbuffer : InSchema (-1) := by
    unfold InSchema
    omega
  unfold Found.visitBuffer
  split
  · split
    · exact addCandidate_inSchema h hbuffer _ _
    · exact h
  · exact h

theorem scanBuffers_inSchema (h : AllInSchema d.candidates) (sightings : List Sighting) :
    AllInSchema (scanBuffers d sightings).candidates := by
  apply scanBuffers_keeps (P := fun d => AllInSchema d.candidates) h
  · intro d s _ _ hd
    exact hd
  · intro d s _ _ _ _ hd
    exact visitBuffer_inSchema (d := d.see s.obj) hd s

end

/-- The collect scans a generation of the interpreter, and its candidates are of a generation
of the schema. -/
structure Bounded (c : Collect) : Prop where
  gen : ∀ gen, c.pc = .passA gen → gen ≤ 2
  found : AllInSchema c.found.candidates
  ahead : AllInSchema (todo c)

theorem bounded_begin : Bounded {} :=
  ⟨fun _ hpc => (by cases hpc), List.forall_mem_nil _, List.forall_mem_nil _⟩

def MadeInSchema (ly : Layer) : Prop := ∀ e ∈ ly.made, InSchema e.gcGeneration

section

variable {env : Env} {ly ly' : Layer} {c c' : Collect} {out : Outcome Collect}

/-- A scan of candidates of the schema, on its way from one list of objects to the next. -/
theorem bounded_scanning (hscan : scanning c.pc = true) (hgen : ∀ gen, c.pc = .passA gen → gen ≤ 2)
    (hfound : AllInSchema c.found.candidates) : Bounded c := by
  refine ⟨hgen, hfound, ?_⟩
  rw [todo_of_scanning hscan]
  exact hfound

theorem Bounded.step (h : Bounded c) (hstep : collectStep env ly c = (ly', .going c')) :
    Bounded c' := by
  cases foundEffect_of_step hstep with
  | snapshot current last pc hpc hcurrent hlast hnext =>
    rcases hnext with rfl | rfl
    · exact ⟨fun _ hpc => (by cases hpc), List.forall_mem_nil _, List.forall_mem_nil _⟩
    · exact ⟨fun _ hpc => (by cases hpc), List.forall_mem_nil _, List.forall_mem_nil _⟩
  | snapLive hpc =>
    refine bounded_scanning rfl ?_ (List.forall_mem_nil _)
    rintro gen ⟨⟩
    exact Nat.zero_le 2
  | scanGc gen pc hpc hscan hnext =>
    have hle := h.gen gen hpc
    have hgen : InSchema gen := by
      unfold InSchema
      omega
    exact bounded_scanning hscan hnext (scanGc_inSchema h.found hgen _)
  | scanBuffers pc hpc hscan hnext =>
    exact bounded_scanning hscan (fun gen hgen => absurd hgen (hnext gen))
      (scanBuffers_inSchema h.found _)
  | onward _ _ _ honward =>
    refine ⟨fun gen hgen => absurd hgen (honward.passA gen), ?_, ?_⟩
    · rw [honward.found]
      exact h.found
    · exact fun x hx => h.ahead x (honward.todo.subset hx)
  | number d rest hpc =>
    have hahead := h.ahead
    rw [todo, hpc] at hahead
    exact ⟨fun _ hpc => (by cases hpc), h.found, hahead⟩
  | insert d rest hpc =>
    have hahead := h.ahead
    rw [todo, hpc] at hahead
    exact ⟨fun _ hpc => (by cases hpc), h.found, (List.forall_mem_cons.mp hahead).2⟩

/-- A collect makes an event only of a candidate, and in the generation of the candidate. -/
theorem MadeInSchema.collect (hmade : MadeInSchema ly) (h : Bounded c)
    (hstep : collectStep env ly c = (ly', out)) : MadeInSchema ly' := by
  cases collectStep_eq_effect hstep with
  | number d rest hpc =>
    have hahead := h.ahead
    rw [todo, hpc] at hahead
    have hgen : InSchema d.candidate.gen := (List.forall_mem_cons.mp hahead).1
    exact List.forall_mem_append.mpr ⟨hmade, List.forall_mem_singleton.mpr hgen⟩
  | drain _ | idleExtend _ | extend _ | insert _ _ _ | raised _ | quiet _ _ _ _ _ _ _ => exact hmade

end

/-! The profiler thread. -/

/-- The collect of the thread, in a round or in the final one. -/
def collectAt : LoopPc → Option Collect
  | .collecting c => some c
  | .stopping (.collecting c) => some c
  | _ => none

structure LoopBounded (s : Loop) : Prop where
  collect : ∀ c, collectAt s.pc = some c → Bounded c
  made : MadeInSchema s.layer

theorem startStep_made {env : Env} {ly ly' : Layer} {pc : Start} {out : Outcome Start}
    (h : startStep env ly pc = (ly', out)) : ly'.made = ly.made := by
  cases pc with
  | checkRunning =>
    cases h
    rfl
  | startTracing =>
    dsimp only [startStep] at h
    split at h
    · cases h
      rfl
    · cases h
      rfl
  | setRunning =>
    cases h
    rfl

theorem onDeallocStep_made {ly : Layer} (h : MadeInSchema ly) (env : Env) (pc : Dealloc) :
    MadeInSchema (onDeallocStep env ly pc).1 := by
  have hzero : InSchema 0 := by
    unfold InSchema
    omega
  cases pc with
  | number addr info ts =>
    exact List.forall_mem_append.mpr ⟨h, List.forall_mem_singleton.mpr hzero⟩
  | _ => exact h

theorem LoopBounded.thread {s s' : Loop} {env : Env} (h : LoopBounded s)
    (hstep : Threaded s env s') : LoopBounded s' := by
  have hnone : ∀ c, (none : Option Collect) = some c → Bounded c := fun c hc => by cases hc
  have hbegin : ∀ c, some ({} : Collect) = some c → Bounded c := by
    rintro c ⟨⟩
    exact bounded_begin
  have hgoing : ∀ {c c' : Collect} {ly : Layer}, collectAt s.pc = some c →
      collectStep env s.layer c = (ly, .going c') →
      MadeInSchema ly ∧ ∀ c'', some c' = some c'' → Bounded c'' := by
    intro c c' ly hc hcollect
    refine ⟨h.made.collect (h.collect c hc) hcollect, ?_⟩
    rintro c'' ⟨⟩
    exact (h.collect c hc).step hcollect
  cases hstep with
  | start pc pc' ly hpc hstart =>
    refine ⟨hnone, ?_⟩
    unfold MadeInSchema
    rw [startStep_made hstart]
    exact h.made
  | started pc ly result hpc hstart =>
    refine ⟨hnone, ?_⟩
    unfold MadeInSchema
    rw [startStep_made hstart]
    exact h.made
  | test hpc =>
    refine ⟨?_, h.made⟩
    dsimp only
    split
    · exact hbegin
    · exact hnone
  | collect c c' ly hpc hcollect =>
    obtain ⟨hmade, hnext⟩ := hgoing (by rw [hpc]; rfl) hcollect
    exact ⟨hnext, hmade⟩
  | collected c ly batch hpc hcollect =>
    exact ⟨hnone, h.made.collect (h.collect c (by rw [hpc]; rfl)) hcollect⟩
  | write e rest hpc => exact ⟨hnone, h.made⟩
  | wrote hpc => exact ⟨hnone, h.made⟩
  | wake hpc => exact ⟨hnone, h.made⟩
  | stop hpc hrunning => exact ⟨hbegin, h.made⟩
  | idle hpc hrunning => exact ⟨hnone, h.made⟩
  | lastCollect c c' ly hpc hcollect =>
    obtain ⟨hmade, hnext⟩ := hgoing (by rw [hpc]; rfl) hcollect
    exact ⟨hnext, hmade⟩
  | lastCollected c ly batch hpc hcollect =>
    exact ⟨hnone, h.made.collect (h.collect c (by rw [hpc]; rfl)) hcollect⟩
  | cleared remaining hpc => exact ⟨hnone, h.made⟩
  | close hpc => exact ⟨hnone, h.made⟩

theorem loopBounded_step {s s' : Loop} {a : ProfilerLoop.Action} (h : LoopBounded s)
    (hstep : ProfilerLoop.step s a = some s') : LoopBounded s' := by
  cases a with
  | thread env => exact h.thread (threaded_of_step hstep)
  | setActive active =>
    cases hstep
    exact ⟨h.collect, h.made⟩
  | finalize addr =>
    cases hstep
    exact ⟨h.collect, h.made⟩
  | finalizer i env =>
    obtain ⟨pc, -, rfl⟩ := Option.map_eq_some_iff.mp hstep
    have hmade := onDeallocStep_made h.made env pc
    unfold finalizerStep
    split
    · rename_i layer pc' hdealloc
      rw [hdealloc] at hmade
      exact ⟨h.collect, hmade⟩
    · rename_i layer out _ hdealloc
      rw [hdealloc] at hmade
      exact ⟨h.collect, hmade⟩

theorem loopBounded_run {trackRefs : Bool} {nextId : ℤ}
    {writerRb readerRb : SharedRing.RingBuffer} {seg : SharedRing.Segment}
    {actions : List HostPipeline.Action} {w : HostPipeline.World}
    (hrun : run HostPipeline.step (.init (.init trackRefs nextId) writerRb readerRb seg) actions =
      some w) : LoopBounded w.loop := by
  have hstep : ∀ (v : HostPipeline.World) (action : HostPipeline.Action)
      (v' : HostPipeline.World), LoopBounded v.loop → HostPipeline.step v action = some v' →
      LoopBounded v'.loop := by
    intro v action v' hv hnext
    cases action with
    | loop a =>
      rcases loopStep_cases hnext with
        rfl | ⟨event, loop, writer, seg, -, hloop, -, rfl⟩ | ⟨loop, isOpen, -, hloop, rfl⟩
      · exact hv
      · exact loopBounded_step hv hloop
      · exact loopBounded_step hv hloop
    | read =>
      obtain ⟨⟨seg, payload⟩, -, rfl⟩ := Option.map_eq_some_iff.mp hnext
      dsimp only
      split
      · exact hv
      · exact hv
  have hinit : LoopBounded (HostPipeline.World.init (.init trackRefs nextId) writerRb readerRb
      seg).loop :=
    ⟨fun _ hc => (by cases hc), List.forall_mem_nil _⟩
  exact run_keeps hstep hinit hrun

/-! The session. -/

/-- The record names one event of each list, an allocation and a transfer or another GPU
event, and no other event of the lists has the same id. -/
structure NamesOne (cpuEvents : List CpuEvent) (gpuEvents : List GpuEvent)
    (r : Correlation.CorrelatedEvent) : Prop where
  cpu : ∃! a, a ∈ cpuEvents ∧ a.base.eventId = r.cpuEventId
  gpu : ∃! g, g ∈ gpuEvents ∧ g.base.eventId = r.gpuEventId

theorem existsUnique_of_nodup {α : Type} {l : List α} {f : α → ℤ} (hnodup : (l.map f).Nodup)
    {x : α} (hx : x ∈ l) : ∃! y, y ∈ l ∧ f y = f x := by
  refine ⟨x, ⟨hx, rfl⟩, ?_⟩
  rintro y ⟨hy, hsame⟩
  exact List.inj_on_of_nodup_map hnodup hy hx hsame

/-- For every run of the memory layer with its profiler thread and bridge, and every run of
the CUPTI layer: the session built from what their readers have been given conforms to the
schema exactly if each GPU record that has come through has a correlation id whose upper
bit is clear; and each of its correlated records names one CPU and one GPU event. -/
theorem profiled_session (os : SharedRing.OsCalls) (found : Option SharedRing.Segment)
    (capacity : UInt32) (writerRb readerRb : SharedRing.RingBuffer) (seg : SharedRing.Segment)
    (hcreate : SharedRing.rbCreate os found capacity true = (some readerRb, some seg))
    (trackRefs : Bool) (nextId : ℤ) (hostActions : List HostPipeline.Action)
    (host : HostPipeline.World)
    (hhost : run HostPipeline.step (.init (.init trackRefs nextId) writerRb readerRb seg)
      hostActions = some host)
    (gpuActions : List ActivityRecords.Action) (gpu : ActivityRecords.World)
    (hgpu : run ActivityRecords.step .init gpuActions = some gpu)
    (hbound : gpu.issued.length < 2 ^ 64) (c : CorrelatorLifecycle.Correlator)
    (sessionId : String) (ingested now : ℕ) :
    (∀ r ∈ ((c.ingest host.delivered gpu.delivered ingested).buildSession sessionId
        now).correlatedEvents, NamesOne host.delivered gpu.delivered r) ∧
      ∃ done : List (ActivityRecords.Issued × ℕ), done.Sublist (gpu.issued.zipIdx 1) ∧
        gpu.delivered = done.map ActivityDelivery.receivedOf ∧
        (SessionConforms ((c.ingest host.delivered gpu.delivered ingested).buildSession sessionId
            now) ↔
          ∀ x ∈ done, x.1.event.correlationId.toNat < 2 ^ 31) := by
  obtain ⟨hcap, -, hseg⟩ := RingFifo.rbCreate_some hcreate
  cases hseg
  obtain ⟨done, queued, h⟩ := HostPipeline.delivery_run hcap hhost
  have hcpuIds := delivered_nodup h
  have hgpuIds := ActivityCorrelation.delivered_nodup hgpu hbound
  constructor
  · intro r hr
    obtain ⟨a, ha, g, hg, -, hcpu, hgpu', -⟩ :=
      (CorrelationSound.runCorrelation_sound hgpuIds).justified r hr
    constructor
    · rw [hcpu]
      exact existsUnique_of_nodup hcpuIds ha
    · rw [hgpu']
      exact existsUnique_of_nodup hgpuIds hg
  · have hcpu : ∀ event ∈ host.delivered, ∃ payload, CpuCodec.deserialize payload = .ok event := by
      intro event hevent
      rw [h.delivered] at hevent
      obtain ⟨e, he, rfl⟩ := List.mem_map.mp hevent
      exact ⟨payloadOf e, deserialize_payloadOf (h.fit e (List.mem_append_left _ he))⟩
    have hgenerations : ∀ event ∈ host.delivered,
        -1 ≤ event.gcGeneration ∧ event.gcGeneration ≤ 2 := by
      intro event hevent
      rw [h.delivered] at hevent
      obtain ⟨e, he, rfl⟩ := List.mem_map.mp hevent
      have hwritten : e ∈ host.loop.written := h.accepted.subset (List.mem_append_left _ he)
      have hmade : e ∈ host.loop.layer.made :=
        Multiset.mem_of_le (written_le_made h.kept h.ordered) hwritten
      exact (loopBounded_run hhost).made e hmade
    obtain ⟨doneGpu, hsub, hdelivered, hiff⟩ :=
      layer_conforms hgpu hcpu c sessionId ingested now
    refine ⟨doneGpu, hsub, hdelivered, hiff.trans ?_⟩
    exact and_iff_right hgenerations

/-- An object is reported with its death, and a copy to the device. -/
theorem profiled_session_small : ∃ host gpu,
    run HostPipeline.step
        (.init (.init false 1) ⟨576⟩ ⟨576⟩ (SharedRing.freshSegment 512)) reportedTwice =
          some host ∧
      run ActivityRecords.step .init ActivityDelivery.smallRun = some gpu ∧
      (∀ r ∈ ((CorrelatorLifecycle.Correlator.ingest { timeWindow := 100 } host.delivered
          gpu.delivered 1).buildSession "s" 2).correlatedEvents,
        NamesOne host.delivered gpu.delivered r) ∧
      ∃ done : List (ActivityRecords.Issued × ℕ), done.Sublist (gpu.issued.zipIdx 1) ∧
        gpu.delivered = done.map ActivityDelivery.receivedOf ∧
        (SessionConforms ((CorrelatorLifecycle.Correlator.ingest { timeWindow := 100 }
            host.delivered gpu.delivered 1).buildSession "s" 2) ↔
          ∀ x ∈ done, x.1.event.correlationId.toNat < 2 ^ 31) := by
  have hhost : (run HostPipeline.step
      (.init (.init false 1) ⟨576⟩ ⟨576⟩ (SharedRing.freshSegment 512)) reportedTwice).isSome :=
    by decide +kernel
  obtain ⟨host, hhost⟩ := Option.isSome_iff_exists.mp hhost
  obtain ⟨gpu, hgpu, hbound, -⟩ := ActivityDelivery.smallRun_ends
  exact ⟨host, gpu, hhost, hgpu, profiled_session ⟨true, true, true⟩ none 512 ⟨576⟩ ⟨576⟩
    (SharedRing.freshSegment 512) rfl false 1 reportedTwice host hhost ActivityDelivery.smallRun gpu
    hgpu hbound { timeWindow := 100 } "s" 1 2⟩

end HpcProfiler.WholeSession
