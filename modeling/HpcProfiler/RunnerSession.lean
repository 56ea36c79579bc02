import HpcProfiler.DrainResults
import HpcProfiler.RunnerSteps

/-!
What the written session holds. The payloads that a ring has taken are at any time those
whose events are in the list, those that a reader has in hand, and those in the ring, as
long as no two reads of the GPU ring overlap. If both joins succeed the readers follow one
another, so the lists are in the order of the rings, and the one of the GPU is complete,
since it is read again after the target's end. Two reads that overlap return one payload
twice.
-/

namespace HpcProfiler.RunnerSession

open StructFormat WrappingCounter SharedRing RingRecords RingFifo RingMapping DrainLoops
  DrainResults RunnerSteps StepSystem

def ThreadPc.inHand : ThreadPc → List (List UInt8)
  | .holding payload _ => [payload]
  | _ => []

def MainPc.inHand : MainPc → List (List UInt8)
  | .holding payload => [payload]
  | _ => []

/-- The ring holds `queued`, the list has the events of `kept`, and the payloads of `other`
are in hand of the main program. The order of the ring is kept where `P` holds. -/
structure Flow {d : Drain} (P : Prop) (ch : Channel d) (other kept queued : List (List UInt8)) :
    Prop where
  ring : ∃ head, Represents ch.seg head queued
  sink : ch.sink = kept.filterMap (decoded d)
  all : (kept ++ (ThreadPc.inHand ch.pc ++ other) ++ queued).Perm ch.accepted
  ordered : P → kept ++ (ThreadPc.inHand ch.pc ++ other) ++ queued = ch.accepted

theorem append_eq {d : Drain} (sink : List d.Event) (payload : List UInt8) :
    append sink payload = sink ++ [payload].filterMap (decoded d) := by
  unfold append decoded
  cases hparse : d.parse payload with
  | ok event => simp [hparse]
  | error e => simp [hparse]

section

variable {d : Drain} {P : Prop} {ch ch' : Channel d} {other kept queued : List (List UInt8)}

/-- The ring is empty, or the reader's buffer has no room for its oldest payload. -/
def NoneFits (d : Drain) (queued : List (List UInt8)) : Prop :=
  ∀ payload ∈ queued.head?, bufferSize d < payload.length

theorem read_cases {bridge : Bridge} {seg seg' : Segment} {head : ℕ}
    (h : Represents seg head queued) {result : Option (List UInt8)}
    (hread : d.read bridge seg = some (seg', result)) :
    (result = none ∧ seg' = seg ∧ (bridge.isOpen = true → NoneFits d queued)) ∨
      ∃ payload rest head', queued = payload :: rest ∧ result = some payload ∧
        Represents seg' head' rest := by
  by_cases hopen : bridge.isOpen = true
  · rcases drain_read_result h hopen hread with
      ⟨hnone, hseg, hlong⟩ | ⟨payload, rest, head', hqueued, hsome, -, hrest⟩
    · exact Or.inl ⟨hnone, hseg, fun _ => hlong⟩
    · exact Or.inr ⟨payload, rest, head', hqueued, hsome, hrest⟩
  · have hclosed : d.read bridge seg = some (seg, none) := by
      cases d with
      | correlatorCpu => exact if_neg hopen
      | correlatorGpu => exact if_neg hopen
      | runnerCpu => exact if_neg hopen
      | runnerGpu => exact if_neg hopen
    rw [hclosed] at hread
    cases hread
    exact Or.inl ⟨rfl, rfl, fun h' => absurd h' hopen⟩

theorem eq_nil_of_noneFits {d : Drain} {queued : List (List UInt8)} (h : NoneFits d queued)
    (hfit : ∀ payload ∈ queued, payload.length ≤ bufferSize d) : queued = [] := by
  cases queued with
  | nil => rfl
  | cons first rest =>
    have hlong := h first rfl
    have hshort := hfit first List.mem_cons_self
    omega

/-- A reader that is inside has copied the oldest payload, and stores the head behind it. -/
def Peeked (seg : Segment) (buf : List UInt8) (queued : List (List UInt8)) (peek : Peek) : Prop :=
  ∃ payload rest, queued = payload :: rest ∧ peek.len = payload.length ∧
    buf.take payload.length = payload ∧
    peek.head = seg.hdr.head + UInt32.ofNat (record payload).length

theorem peek_cases {bridge : Bridge} {seg : Segment} {head : ℕ} {buf buf' : List UInt8}
    (h : Represents seg head queued) {peek : Option Peek}
    (hpeek : peekGpu bridge seg buf = some (peek, buf')) :
    (peek = none ∧ (bridge.isOpen = true → NoneFits .runnerGpu queued)) ∨
      ∃ found, peek = some found ∧ Peeked seg buf' queued found := by
  unfold peekGpu at hpeek
  split at hpeek
  · obtain ⟨⟨after, record⟩, hread, hfound⟩ := Option.map_eq_some_iff.mp hpeek
    cases record with
    | none =>
      cases hfound
      refine Or.inl ⟨rfl, fun _ => ?_⟩
      rcases read_result h hread with ⟨-, -, hlong⟩ | ⟨payload, rest, head', -, hsome, -⟩
      · exact hlong
      · cases hsome
    | some bytes =>
      obtain ⟨rest, hqueued, hafter⟩ := read_record h hread
      cases hfound
      refine Or.inr ⟨_, rfl, bytes, rest, hqueued, rfl, List.take_left .., ?_⟩
      rw [hafter, h.head_eq, ← UInt32.ofNat_add]
  · cases hpeek
    exact Or.inl ⟨rfl, fun hopen => absurd hopen (by assumption)⟩

theorem Peeked.finish {seg : Segment} {head : ℕ} {buf : List UInt8} {peek : Peek}
    (h : Peeked seg buf queued peek) (hrep : Represents seg head queued) :
    ∃ payload rest seg' head', queued = payload :: rest ∧
      finishGpu seg buf (some peek) = (seg', some payload) ∧ Represents seg' head' rest := by
  obtain ⟨payload, rest, rfl, hlen, hbuf, hhead⟩ := h
  have hpos := (hrep.storable payload List.mem_cons_self).1
  refine ⟨payload, rest, _, _, rfl, ?_, hrep.tail⟩
  rw [finishGpu, hlen, if_neg (by omega), hbuf, hhead, hrep.head_eq, ← UInt32.ofNat_add]

/-- What the target writes comes behind the payload that was copied. -/
theorem Peeked.write {seg seg' : Segment} {head : ℕ} {buf : List UInt8} {peek : Peek}
    {payload : List UInt8} {ok : Bool} (h : Peeked seg buf queued peek)
    (hrep : Represents seg head queued)
    (hrep' : Represents seg' head (if ok then queued ++ [payload] else queued)) :
    Peeked seg' buf (if ok then queued ++ [payload] else queued) peek := by
  obtain ⟨first, rest, rfl, hlen, hbuf, hhead⟩ := h
  have hsame : seg'.hdr.head = seg.hdr.head := hrep'.head_eq.trans hrep.head_eq.symm
  rw [← hsame] at hhead
  cases ok with
  | true => exact ⟨first, rest ++ [payload], rfl, hlen, hbuf, hhead⟩
  | false => exact ⟨first, rest, rfl, hlen, hbuf, hhead⟩

theorem Flow.sink_begins (h : Flow P ch other kept queued) (hP : P) :
    ch.sink <+: ch.accepted.filterMap (decoded d) := by
  rw [h.sink, ← h.ordered hP, List.append_assoc, List.filterMap_append]
  exact List.prefix_append _ _

theorem Flow.sink_subperm (h : Flow P ch other kept queued) :
    ch.sink.Subperm (ch.accepted.filterMap (decoded d)) := by
  have hkept : kept.Sublist (kept ++ (ThreadPc.inHand ch.pc ++ other) ++ queued) := by
    rw [List.append_assoc]
    exact List.sublist_append_left _ _
  rw [h.sink]
  exact (hkept.filterMap _).subperm.trans (h.all.filterMap _).subperm

/-- A reader with room for every payload that finds none has collected all of them. -/
theorem Flow.sink_whole (h : Flow P ch other kept queued) (hP : P)
    (hhand : ThreadPc.inHand ch.pc ++ other = []) (hnone : NoneFits d queued)
    (hfit : ∀ payload ∈ ch.accepted, payload.length ≤ bufferSize d) :
    ch.sink = ch.accepted.filterMap (decoded d) := by
  have hordered := h.ordered hP
  have hnil : queued = [] := by
    refine eq_nil_of_noneFits hnone ?_
    intro payload hpayload
    refine hfit payload ?_
    rw [← hordered]
    exact List.mem_append_right _ hpayload
  rw [hhand, hnil, List.append_nil, List.append_nil] at hordered
  rw [h.sink, hordered]

theorem Flow.write (h : Flow P ch other kept queued) {producer : RingBuffer}
    {payload : List UInt8} (hp : Storable payload)
    (hstep : writeStep producer ch payload = some ch') :
    ∃ queued', Flow P ch' other kept queued' ∧ ch'.pc = ch.pc ∧ ch'.bridge = ch.bridge ∧
      ch'.sink = ch.sink ∧
      ∀ buf peek, Peeked ch.seg buf queued peek → Peeked ch'.seg buf queued' peek := by
  obtain ⟨⟨seg, ok⟩, hwrite, rfl⟩ := Option.map_eq_some_iff.mp hstep
  obtain ⟨head, hrep⟩ := h.ring
  have hring := write_result hrep hp hwrite
  refine ⟨if ok then queued ++ [payload] else queued, ⟨⟨head, hring⟩, h.sink, ?_, ?_⟩,
    rfl, rfl, rfl, fun _ _ hpeek => hpeek.write hrep hring⟩
  · cases ok with
    | true =>
      have hmore := h.all.append_right [payload]
      rw [List.append_assoc _ queued] at hmore
      exact hmore
    | false => exact h.all
  · intro hP
    cases ok with
    | true =>
      have hmore := congrArg (· ++ [payload]) (h.ordered hP)
      rw [List.append_assoc _ queued] at hmore
      exact hmore
    | false => exact h.ordered hP

/-- A step that neither reads nor appends. -/
theorem Flow.moveTo (h : Flow P ch other kept queued) {pc : ThreadPc}
    (hpc : ThreadPc.inHand pc = ThreadPc.inHand ch.pc) :
    Flow P { ch with pc := pc } other kept queued := by
  refine ⟨h.ring, h.sink, ?_, ?_⟩
  · dsimp only
    rw [hpc]
    exact h.all
  · intro hP
    dsimp only
    rw [hpc]
    exact h.ordered hP

/-- A thread takes the oldest payload in hand. -/
theorem Flow.take {payload : List UInt8} {rest : List (List UInt8)} {head : ℕ}
    (h : Flow P ch other kept (payload :: rest)) (hother : P → other = [])
    (hempty : ThreadPc.inHand ch.pc = []) {seg : Segment} (hrest : Represents seg head rest)
    {pc : ThreadPc} (hpc : ThreadPc.inHand pc = [payload]) :
    Flow P { ch with seg := seg, pc := pc } other kept rest := by
  have hall := h.all
  have hordered := h.ordered
  rw [hempty, List.nil_append] at hall hordered
  refine ⟨⟨head, hrest⟩, h.sink, ?_, ?_⟩
  · dsimp only
    rw [hpc]
    refine List.Perm.trans ?_ hall
    simp only [List.append_assoc, List.cons_append, List.nil_append]
    exact List.Perm.append_left kept List.perm_middle.symm
  · intro hP
    have hnone := hother hP
    subst hnone
    dsimp only
    rw [hpc, ← hordered hP]
    simp

/-- The payload in hand of a thread comes to the list. -/
theorem Flow.collect (h : Flow P ch other kept queued) {payload : List UInt8} {final : Bool}
    (hpc : ch.pc = .holding payload final) {pc : ThreadPc} (hnext : ThreadPc.inHand pc = []) :
    Flow P { ch with pc := pc, sink := append ch.sink payload } other (kept ++ [payload])
      queued := by
  have hall := h.all
  have hordered := h.ordered
  rw [hpc] at hall hordered
  refine ⟨h.ring, ?_, ?_, ?_⟩
  · dsimp only
    rw [append_eq, List.filterMap_append, h.sink]
  · dsimp only
    rw [hnext, List.nil_append, List.append_assoc kept]
    exact hall
  · intro hP
    dsimp only
    rw [hnext, List.nil_append, List.append_assoc kept]
    exact hordered hP

/-- The main program takes the oldest payload in hand. -/
theorem Flow.takeOther {payload : List UInt8} {rest : List (List UInt8)} {head : ℕ}
    (h : Flow P ch [] kept (payload :: rest)) {seg : Segment} (hrest : Represents seg head rest) :
    Flow P { ch with seg := seg } [payload] kept rest := by
  refine ⟨⟨head, hrest⟩, h.sink, ?_, ?_⟩
  · have hall := h.all
    simp only [List.append_assoc, List.nil_append, List.cons_append] at hall ⊢
    exact hall
  · intro hP
    have hordered := h.ordered hP
    simp only [List.append_assoc, List.nil_append, List.cons_append] at hordered ⊢
    exact hordered

/-- A thread takes the oldest payload in hand, or finds nothing that fits. -/
theorem Flow.read (h : Flow P ch other kept queued) (hother : P → other = [])
    (hempty : ThreadPc.inHand ch.pc = []) {seg : Segment} {result : Option (List UInt8)}
    (hread : d.read ch.bridge ch.seg = some (seg, result)) (pc : ThreadPc)
    (hpc : ThreadPc.inHand pc = result.toList) :
    ∃ queued', Flow P { ch with seg := seg, pc := pc } other kept queued' ∧
      (result = none → ch.bridge.isOpen = true → NoneFits d queued') := by
  obtain ⟨head, hrep⟩ := h.ring
  rcases read_cases hrep hread with ⟨rfl, rfl, hnone⟩ | ⟨payload, rest, head', rfl, rfl, hrest⟩
  · exact ⟨queued, h.moveTo (hpc.trans hempty.symm), fun _ => hnone⟩
  · exact ⟨rest, h.take hother hempty hrest hpc, fun h' => by cases h'⟩

/-- A thread that has returned found no payload with room for it, if its bridge was open. -/
theorem Flow.thread (h : Flow P ch other kept queued) (hother : P → other = [])
    {stopEvt : Bool} (hstep : threadStep stopEvt ch = some ch') :
    ∃ kept' queued', Flow P ch' other kept' queued' ∧ ch'.bridge = ch.bridge ∧
      ch'.accepted = ch.accepted ∧
      (ch'.pc.isReturned = true → ch.bridge.isOpen = true → NoneFits d queued') := by
  unfold threadStep at hstep
  cases hpc : ch.pc with
  | testing =>
    rw [hpc] at hstep
    cases hstep
    cases stopEvt with
    | true => exact ⟨kept, queued, h.moveTo (by rw [hpc]; rfl), rfl, rfl, fun h' => by cases h'⟩
    | false => exact ⟨kept, queued, h.moveTo (by rw [hpc]; rfl), rfl, rfl, fun h' => by cases h'⟩
  | polling =>
    rw [hpc] at hstep
    obtain ⟨⟨seg, result⟩, hread, rfl⟩ := Option.map_eq_some_iff.mp hstep
    cases result with
    | none =>
      obtain ⟨queued', hnext, -⟩ := h.read hother (by rw [hpc]; rfl) hread .testing rfl
      exact ⟨kept, queued', hnext, rfl, rfl, fun h' => by cases h'⟩
    | some payload =>
      obtain ⟨queued', hnext, -⟩ :=
        h.read hother (by rw [hpc]; rfl) hread (.holding payload false) rfl
      exact ⟨kept, queued', hnext, rfl, rfl, fun h' => by cases h'⟩
  | draining =>
    rw [hpc] at hstep
    obtain ⟨⟨seg, result⟩, hread, rfl⟩ := Option.map_eq_some_iff.mp hstep
    cases result with
    | none =>
      obtain ⟨queued', hnext, hlong⟩ :=
        h.read hother (by rw [hpc]; rfl) hread .returned rfl
      exact ⟨kept, queued', hnext, rfl, rfl, fun _ => hlong rfl⟩
    | some payload =>
      obtain ⟨queued', hnext, -⟩ :=
        h.read hother (by rw [hpc]; rfl) hread (.holding payload true) rfl
      exact ⟨kept, queued', hnext, rfl, rfl, fun h' => by cases h'⟩
  | inside peek final =>
    rw [hpc] at hstep
    cases hstep
  | holding payload final =>
    rw [hpc] at hstep
    cases hstep
    have hnext : ThreadPc.inHand (if final then ThreadPc.draining else .testing) = [] := by
      cases final <;> rfl
    have hlast : (if final then ThreadPc.draining else .testing).isReturned = false := by
      cases final <;> rfl
    refine ⟨kept ++ [payload], queued, h.collect hpc hnext, rfl, rfl, ?_⟩
    intro h'
    rw [hlast] at h'
    cases h'
  | returned =>
    rw [hpc] at hstep
    cases hstep

end

/-! The invariant of the runner. -/

/-- How far the main program has come. -/
def phase : MainPc → ℕ
  | .waiting => 0
  | .collecting => 1
  | .joiningCpu => 2
  | .joiningGpu => 3
  | .terminating => 4
  | .reading => 5
  | .inside _ => 5
  | .holding _ => 5
  | .closing => 6
  | .reporting => 7
  | .written _ => 8

theorem phase_holding (payload : List UInt8) : phase (.holding payload) = 5 := rfl

theorem phase_written (session : CorrelatorLifecycle.ProfilingSession) :
    phase (.written session) = 8 := rfl

/-- The written session has what the lists held at that time. -/
structure Wrote (w : Runner) (session : CorrelatorLifecycle.ProfilingSession) : Prop where
  cpu : session.cpuEvents <+: w.cpu.sink
  gpu : session.gpuEvents <+: w.gpu.sink
  whole : w.gaveUp = false → session.cpuEvents = w.cpu.sink ∧ session.gpuEvents = w.gpu.sink
  correlated : session.correlatedEvents =
    Correlation.runCorrelation session.cpuEvents session.gpuEvents DEFAULT_TIME_WINDOW_NS

def ThreadPc.peek : ThreadPc → Option Peek
  | .inside peek _ => peek
  | _ => none

def MainPc.peek : MainPc → Option Peek
  | .inside peek => peek
  | _ => none

/-- The main program has found nothing more in the GPU ring. -/
def MainPc.foundNone : MainPc → Bool
  | .inside peek => peek.isNone
  | .closing | .reporting | .written _ => true
  | _ => false

theorem phase_of_foundNone {main : MainPc} (h : MainPc.foundNone main = true) :
    5 ≤ phase main := by
  cases main with
  | inside peek => exact Nat.le_refl 5
  | closing => exact Nat.le_succ 5
  | reporting => exact Nat.le_add_right 5 2
  | written session => exact Nat.le_add_right 5 3
  | _ => cases h

theorem phase_of_isInside {main : MainPc} (h : main.isInside = true) : phase main = 5 := by
  cases main with
  | inside peek => rfl
  | _ => cases h

theorem peek_of_outside {main : MainPc} (h : main.isInside = false) : MainPc.peek main = none := by
  cases main with
  | inside peek => cases h
  | _ => rfl

theorem thread_peek_of_outside {pc : ThreadPc} (h : pc.isInside = false) :
    ThreadPc.peek pc = none := by
  cases pc with
  | inside peek final => cases h
  | _ => rfl

/-- What has happened to the GPU channel. -/
structure GpuFlow (useGpu : Bool) (w : Runner) (kept queued : List (List UInt8)) : Prop where
  flow : Flow (w.gaveUp = false) w.gpu (MainPc.inHand w.main) kept queued
  emptied : w.gaveUp = false → useGpu = true → MainPc.foundNone w.main = true →
    NoneFits .runnerGpu queued
  peeked : ∀ peek, peek ∈ ThreadPc.peek w.gpu.pc ∨ peek ∈ MainPc.peek w.main →
    Peeked w.gpu.seg w.gpuBuf queued peek

structure Inv (useGpu : Bool) (w : Runner) : Prop where
  cpu : ∃ kept queued, Flow True w.cpu [] kept queued
  gpu : ∃ kept queued, GpuFlow useGpu w kept queued
  opened : phase w.main < 7 → w.cpu.bridge.isOpen = true ∧ w.gpu.bridge.isOpen = useGpu
  cpuJoined : w.gaveUp = false → 3 ≤ phase w.main → w.cpu.pc = .returned
  gpuJoined : w.gaveUp = false → 4 ≤ phase w.main → w.gpu.pc = .returned
  dead : 5 ≤ phase w.main → w.targetAlive = false
  unused : useGpu = false → w.gpu.sink = [] ∧ w.gpu.pc = .returned ∧ phase w.main ≠ 5
  wrote : ∀ session, w.main = .written session → Wrote w session
  alone : w.gpu.pc.isInside = true → w.main.isInside = false

theorem inv_start {cpuCapacity gpuCapacity : UInt32} (hcpu : PowerOfTwo cpuCapacity)
    (hgpu : PowerOfTwo gpuCapacity) (cpuRb gpuRb : RingBuffer) (useGpu : Bool) :
    Inv useGpu
      (RunnerSteps.start cpuRb gpuRb (freshSegment cpuCapacity) (freshSegment gpuCapacity)
        useGpu) := by
  have hgpuHand : ThreadPc.inHand (if useGpu then .testing else .returned) = [] := by
    cases useGpu <;> rfl
  exact {
    cpu := ⟨[], [], ⟨0, .fresh hcpu⟩, rfl, List.Perm.nil, fun _ => rfl⟩
    gpu := by
      refine ⟨[], [], ⟨⟨0, .fresh hgpu⟩, rfl, ?_, ?_⟩, fun _ _ h => (by cases h), ?_⟩
      · unfold RunnerSteps.start
        dsimp only
        rw [hgpuHand]
        exact List.Perm.nil
      · intro _
        unfold RunnerSteps.start
        dsimp only
        rw [hgpuHand]
        rfl
      · intro peek hpeek
        cases useGpu <;> rcases hpeek with hpeek | hpeek <;> cases hpeek
    opened := fun _ => ⟨rfl, rfl⟩
    cpuJoined := fun _ h => by cases h
    gpuJoined := fun _ h => by cases h
    dead := fun h => by cases h
    unused := by
      rintro rfl
      exact ⟨rfl, rfl, fun h => by cases h⟩
    wrote := fun _ h => by cases h
    alone := fun _ => rfl }

section

variable {useGpu : Bool} {w w' : Runner}

theorem threadStep_returned {d : Drain} {stopEvt : Bool} {ch ch' : Channel d}
    (h : ch.pc = .returned) : ¬threadStep stopEvt ch = some ch' := by
  intro hstep
  rw [threadStep, h] at hstep
  cases hstep

theorem threadStep_sink {d : Drain} {stopEvt : Bool} {ch ch' : Channel d}
    (hstep : threadStep stopEvt ch = some ch') : ch.sink <+: ch'.sink := by
  unfold threadStep at hstep
  split at hstep
  · cases hstep
    exact List.prefix_refl _
  · obtain ⟨found, -, rfl⟩ := Option.map_eq_some_iff.mp hstep
    exact List.prefix_refl _
  · obtain ⟨found, -, rfl⟩ := Option.map_eq_some_iff.mp hstep
    exact List.prefix_refl _
  · cases hstep
    dsimp only
    rw [append_eq]
    exact List.prefix_append _ _
  · cases hstep
  · cases hstep

theorem Inv.writeCpu (h : Inv useGpu w) {producer : RingBuffer} {payload : List UInt8}
    (hp : Storable payload) {cpu : Channel .runnerCpu}
    (hwrite : writeStep producer w.cpu payload = some cpu) : Inv useGpu { w with cpu := cpu } := by
  obtain ⟨kept, queued, hflow⟩ := h.cpu
  obtain ⟨queued', hnext, hpc, hbridge, hsink, -⟩ := hflow.write hp hwrite
  refine ⟨⟨kept, queued', hnext⟩, ?_, ?_, ?_, h.gpuJoined, h.dead, h.unused, ?_, h.alone⟩
  · obtain ⟨keptGpu, queuedGpu, hgpu⟩ := h.gpu
    exact ⟨keptGpu, queuedGpu, hgpu.flow, hgpu.emptied, hgpu.peeked⟩
  · dsimp only
    rw [hbridge]
    exact h.opened
  · dsimp only
    rw [hpc]
    exact h.cpuJoined
  · intro session hsession
    obtain ⟨hcpu, hgpu, hwhole, hcorrelated⟩ := h.wrote session hsession
    constructor
    · dsimp only
      rw [hsink]
      exact hcpu
    · exact hgpu
    · dsimp only
      rw [hsink]
      exact hwhole
    · exact hcorrelated

/-- The target can only write until the main program has seen its end. -/
theorem Inv.writeGpu (h : Inv useGpu w) (halive : w.targetAlive = true) {producer : RingBuffer}
    {payload : List UInt8} (hp : Storable payload) {gpu : Channel .runnerGpu}
    (hwrite : writeStep producer w.gpu payload = some gpu) : Inv useGpu { w with gpu := gpu } := by
  have hearly : phase w.main < 5 := by
    by_contra hlate
    rw [h.dead (by omega)] at halive
    cases halive
  obtain ⟨kept, queued, hgpu⟩ := h.gpu
  obtain ⟨queued', hnext, hpc, hbridge, hsink, hpeeks⟩ := hgpu.flow.write hp hwrite
  refine ⟨h.cpu, ⟨kept, queued', hnext, ?_, ?_⟩, ?_, h.cpuJoined, ?_, h.dead, ?_, ?_, ?_⟩
  · intro _ _ hnone
    have hlate := phase_of_foundNone hnone
    dsimp only at hlate
    omega
  · intro peek hpeek
    dsimp only at hpeek
    rw [hpc] at hpeek
    exact hpeeks _ _ (hgpu.peeked peek hpeek)
  · dsimp only
    rw [hbridge]
    exact h.opened
  · dsimp only
    rw [hpc]
    exact h.gpuJoined
  · dsimp only
    rw [hpc, hsink]
    exact h.unused
  · intro session hsession
    dsimp only at hsession
    rw [hsession, phase_written] at hearly
    omega
  · dsimp only
    rw [hpc]
    exact h.alone

theorem Inv.cpuThread (h : Inv useGpu w) {cpu : Channel .runnerCpu}
    (hthread : threadStep w.stopEvt w.cpu = some cpu) : Inv useGpu { w with cpu := cpu } := by
  obtain ⟨kept, queued, hflow⟩ := h.cpu
  obtain ⟨kept', queued', hnext, hbridge, -, -⟩ := hflow.thread (fun _ => rfl) hthread
  have hrunning : ¬w.cpu.pc = .returned := fun hreturned => threadStep_returned hreturned hthread
  refine ⟨⟨kept', queued', hnext⟩, ?_, ?_, ?_, h.gpuJoined, h.dead, h.unused, ?_, h.alone⟩
  · obtain ⟨keptGpu, queuedGpu, hgpu⟩ := h.gpu
    exact ⟨keptGpu, queuedGpu, hgpu.flow, hgpu.emptied, hgpu.peeked⟩
  · dsimp only
    rw [hbridge]
    exact h.opened
  · intro hgave hlate
    exact absurd (h.cpuJoined hgave hlate) hrunning
  · intro session hsession
    obtain ⟨hcpu, hgpu, -, hcorrelated⟩ := h.wrote session hsession
    refine ⟨hcpu.trans (threadStep_sink hthread), hgpu, ?_, hcorrelated⟩
    intro hgave
    refine absurd (h.cpuJoined hgave ?_) hrunning
    dsimp only at hsession
    rw [hsession, phase_written]
    omega

/-- While the GPU thread is at work after joins that have succeeded, the main program has
not come to the ring. -/
theorem Inv.early_of_running (h : Inv useGpu w) (hrunning : w.gpu.pc ≠ .returned)
    (hgave : w.gaveUp = false) : phase w.main < 4 := by
  by_contra hlate
  exact hrunning (h.gpuJoined hgave (by omega))

theorem inHand_of_early {main : MainPc} (h : phase main ≤ 4) : MainPc.inHand main = [] := by
  cases main with
  | holding payload =>
    rw [phase_holding] at h
    omega
  | _ => rfl

/-- A step of the GPU thread, by what it makes of its channel. -/
theorem Inv.ofThread (h : Inv useGpu w) (hrunning : w.gpu.pc ≠ .returned)
    {gpu : Channel .runnerGpu} {buf : List UInt8} {kept queued : List (List UInt8)}
    (hbridge : gpu.bridge = w.gpu.bridge) (hsink : w.gpu.sink <+: gpu.sink)
    (halone : gpu.pc.isInside = true → w.main.isInside = false)
    (hflow : Flow (w.gaveUp = false) gpu (MainPc.inHand w.main) kept queued)
    (hpeeked : ∀ peek, peek ∈ ThreadPc.peek gpu.pc ∨ peek ∈ MainPc.peek w.main →
      Peeked gpu.seg buf queued peek) :
    Inv useGpu { w with gpu := gpu, gpuBuf := buf } := by
  refine ⟨h.cpu, ⟨kept, queued, hflow, ?_, hpeeked⟩, ?_, h.cpuJoined, ?_, h.dead, ?_, ?_, halone⟩
  · intro hgave _ hnone
    have hearly := h.early_of_running hrunning hgave
    have hlate := phase_of_foundNone hnone
    dsimp only at hlate
    omega
  · dsimp only
    rw [hbridge]
    exact h.opened
  · intro hgave hlate
    exact absurd (h.gpuJoined hgave hlate) hrunning
  · intro hno
    exact absurd (h.unused hno).2.1 hrunning
  · intro session hsession
    obtain ⟨hcpu, hgpuEvents, -, hcorrelated⟩ := h.wrote session hsession
    refine ⟨hcpu, hgpuEvents.trans hsink, ?_, hcorrelated⟩
    intro hgave
    refine absurd (h.gpuJoined hgave ?_) hrunning
    dsimp only at hsession
    rw [hsession, phase_written]
    omega

/-- A read of the GPU thread that begins while no other one is inside. -/
theorem Inv.threadPeek (h : Inv useGpu w) (hbegins : w.gpu.pc.begins = true)
    (hapart : Apart w .gpuThread) {peek : Option Peek} {buf : List UInt8}
    (hpeek : peekGpu w.gpu.bridge w.gpu.seg w.gpuBuf = some (peek, buf)) (final : Bool) :
    Inv useGpu
      { w with gpu := { w.gpu with pc := .inside peek final }, gpuBuf := buf } := by
  have houtside : w.main.isInside = false := hapart hbegins
  have hrunning : w.gpu.pc ≠ .returned := by
    intro hreturned
    rw [hreturned] at hbegins
    cases hbegins
  have hempty : ThreadPc.inHand w.gpu.pc = [] := by
    cases hpc : w.gpu.pc with
    | holding payload final =>
      rw [hpc] at hbegins
      cases hbegins
    | _ => rfl
  obtain ⟨kept, queued, hgpu⟩ := h.gpu
  obtain ⟨head, hrep⟩ := hgpu.flow.ring
  refine h.ofThread hrunning rfl (List.prefix_refl _) (fun _ => houtside)
    (hgpu.flow.moveTo hempty.symm) ?_
  intro found hfound
  rw [peek_of_outside houtside] at hfound
  rcases hfound with hthread | hmain
  · rcases peek_cases hrep hpeek with ⟨rfl, -⟩ | ⟨other, rfl, hpeeked⟩
    · cases hthread
    · cases hthread
      exact hpeeked
  · cases hmain

/-- The end of a read of the GPU thread. -/
theorem Inv.threadFinish (h : Inv useGpu w) {peek : Option Peek} {final : Bool}
    (hpc : w.gpu.pc = .inside peek final) {seg : Segment} {payload : Option (List UInt8)}
    (hfinish : finishGpu w.gpu.seg w.gpuBuf peek = (seg, payload)) {next : ThreadPc}
    (hnext : ThreadPc.inHand next = []) (houtside : next.isInside = false) :
    Inv useGpu { w with gpu := { w.gpu with
      seg := seg, pc := payload.elim next fun bytes => .holding bytes final } } := by
  have hrunning : w.gpu.pc ≠ .returned := by
    rw [hpc]
    intro hreturned
    cases hreturned
  have hempty : ThreadPc.inHand w.gpu.pc = [] := by
    rw [hpc]
    rfl
  have hmain : MainPc.peek w.main = none := peek_of_outside (h.alone (by rw [hpc]; rfl))
  obtain ⟨kept, queued, hgpu⟩ := h.gpu
  obtain ⟨head, hrep⟩ := hgpu.flow.ring
  cases peek with
  | none =>
    cases hfinish
    refine h.ofThread hrunning rfl (List.prefix_refl _) ?_ (hgpu.flow.moveTo ?_) ?_
    · intro hinside
      rw [Option.elim_none, houtside] at hinside
      cases hinside
    · exact hnext.trans hempty.symm
    · intro found hfound
      rw [hmain, Option.elim_none, thread_peek_of_outside houtside] at hfound
      rcases hfound with hthread | hother
      · cases hthread
      · cases hother
  | some found =>
    have hpeeked := hgpu.peeked found (.inl (by rw [hpc]; rfl))
    obtain ⟨first, rest, seg', head', rfl, hfirst, hrest⟩ := hpeeked.finish hrep
    rw [hfirst] at hfinish
    cases hfinish
    have hother : w.gaveUp = false → MainPc.inHand w.main = [] := by
      intro hgave
      have hearly := h.early_of_running hrunning hgave
      exact inHand_of_early (by omega)
    refine h.ofThread hrunning rfl (List.prefix_refl _) (fun hinside => by cases hinside)
      (hgpu.flow.take hother hempty hrest rfl) ?_
    intro other hfound
    rw [hmain] at hfound
    rcases hfound with hthread | hother
    · cases hthread
    · cases hother

theorem Inv.gpuThread (h : Inv useGpu w) (hapart : Apart w .gpuThread)
    (hstep : gpuThreadStep w = some w') : Inv useGpu w' := by
  unfold gpuThreadStep at hstep
  obtain ⟨kept, queued, hgpu⟩ := h.gpu
  cases hpc : w.gpu.pc with
  | testing =>
    rw [hpc] at hstep
    dsimp only at hstep
    rw [threadStep, hpc] at hstep
    cases hstep
    have hrunning : w.gpu.pc ≠ .returned := by
      rw [hpc]
      intro hreturned
      cases hreturned
    refine h.ofThread hrunning rfl (List.prefix_refl _) ?_ (hgpu.flow.moveTo ?_) ?_
    · cases w.stopEvt <;> exact fun hinside => by cases hinside
    · rw [hpc]
      cases w.stopEvt <;> rfl
    · intro peek hpeek
      refine hgpu.peeked peek (.inr (hpeek.resolve_left ?_))
      cases w.stopEvt <;> exact fun hthread => by cases hthread
  | polling =>
    rw [hpc] at hstep
    obtain ⟨⟨peek, buf⟩, hpeek, rfl⟩ := Option.map_eq_some_iff.mp hstep
    exact h.threadPeek (by rw [hpc]; rfl) hapart hpeek false
  | draining =>
    rw [hpc] at hstep
    obtain ⟨⟨peek, buf⟩, hpeek, rfl⟩ := Option.map_eq_some_iff.mp hstep
    exact h.threadPeek (by rw [hpc]; rfl) hapart hpeek true
  | inside peek final =>
    rw [hpc] at hstep
    cases hstep
    cases final with
    | true => exact h.threadFinish hpc rfl rfl rfl
    | false => exact h.threadFinish hpc rfl rfl rfl
  | holding payload final =>
    rw [hpc] at hstep
    dsimp only at hstep
    rw [threadStep, hpc] at hstep
    cases hstep
    have hrunning : w.gpu.pc ≠ .returned := by
      rw [hpc]
      intro hreturned
      cases hreturned
    have hnext : ThreadPc.inHand (if final then ThreadPc.draining else .testing) = [] := by
      cases final <;> rfl
    refine h.ofThread hrunning rfl ?_ ?_ (hgpu.flow.collect hpc hnext) ?_
    · dsimp only
      rw [append_eq]
      exact List.prefix_append _ _
    · cases final <;> exact fun hinside => by cases hinside
    · intro peek hpeek
      refine hgpu.peeked peek (.inr (hpeek.resolve_left ?_))
      cases final <;> exact fun hthread => by cases hthread
  | returned =>
    rw [hpc] at hstep
    dsimp only at hstep
    rw [threadStep, hpc] at hstep
    cases hstep

/-- The steps of the main program that leave the channels alone and the target alive. -/
theorem Inv.early (h : Inv useGpu w) (hcpu : w'.cpu = w.cpu) (hgpu : w'.gpu = w.gpu)
    (hbuf : w'.gpuBuf = w.gpuBuf) (hphase : phase w.main ≤ 4) (n : ℕ) (hn : phase w'.main = n)
    (hle : n ≤ 4) (hgave : w'.gaveUp = false → w.gaveUp = false)
    (hcpuJoined : w'.gaveUp = false → 3 ≤ n → w.cpu.pc = .returned)
    (hgpuJoined : w'.gaveUp = false → 4 ≤ n → w.gpu.pc = .returned) :
    Inv useGpu w' := by
  have hphase' : phase w'.main ≤ 4 := by
    omega
  have houtside : w'.main.isInside = false := by
    by_contra hinside
    have hlate := phase_of_isInside (Bool.eq_true_of_not_eq_false hinside)
    omega
  obtain ⟨kept, queued, hflow, -, hpeeked⟩ := h.gpu
  rw [inHand_of_early hphase] at hflow
  refine ⟨?_, ⟨kept, queued, ?_, ?_, ?_⟩, ?_, ?_, ?_, ?_, ?_, ?_, fun _ => houtside⟩
  · rw [hcpu]
    exact h.cpu
  · rw [hgpu, inHand_of_early hphase']
    exact ⟨hflow.ring, hflow.sink, hflow.all, fun hgave' => hflow.ordered (hgave hgave')⟩
  · intro _ _ hnone
    have hlate := phase_of_foundNone hnone
    omega
  · intro peek hpeek
    rw [peek_of_outside houtside, hgpu] at hpeek
    rw [hgpu, hbuf]
    rcases hpeek with hthread | hmain
    · exact hpeeked peek (.inl hthread)
    · cases hmain
  · intro _
    rw [hcpu, hgpu]
    exact h.opened (by omega)
  · rw [hcpu, hn]
    exact hcpuJoined
  · rw [hgpu, hn]
    exact hgpuJoined
  · intro hlate
    omega
  · intro hno
    obtain ⟨hsink, hpc, -⟩ := h.unused hno
    rw [hgpu]
    exact ⟨hsink, hpc, by omega⟩
  · intro session hsession
    rw [hsession, phase_written] at hphase'
    omega

theorem returned_of_isReturned {pc : ThreadPc} (h : pc.isReturned = true) : pc = .returned := by
  cases pc with
  | returned => rfl
  | _ => cases h

theorem join_cases {pc : ThreadPc} {next : MainPc} {tick : Tick}
    (hstep : join w pc next tick = some w') :
    (pc = .returned ∧ w' = { w with main := next }) ∨
      w' = { w with main := next, gaveUp := true } := by
  unfold join at hstep
  split at hstep
  · rename_i hreturned
    cases hstep
    exact Or.inl ⟨returned_of_isReturned hreturned, rfl⟩
  · split at hstep
    · cases hstep
      exact Or.inr rfl
    · cases hstep

theorem Inv.useGpu_of_reading (h : Inv useGpu w) (hphase : phase w.main = 5) :
    useGpu = true := by
  by_contra hno
  exact (h.unused (Bool.eq_false_of_not_eq_true hno)).2.2 hphase

/-- A step of the final reading of the GPU ring, by what it makes of the channel. -/
theorem Inv.ofReading (h : Inv useGpu w) (hphase : phase w.main = 5) {gpu : Channel .runnerGpu}
    {buf : List UInt8} {main : MainPc} {kept queued : List (List UInt8)}
    (hbridge : gpu.bridge = w.gpu.bridge) (hpc : gpu.pc = w.gpu.pc)
    (hto : phase main ≤ 6)
    (halone : w.gpu.pc.isInside = true → main.isInside = false)
    (hflow : GpuFlow useGpu { w with gpu := gpu, gpuBuf := buf, main := main } kept queued) :
    Inv useGpu { w with gpu := gpu, gpuBuf := buf, main := main } := by
  have huse := h.useGpu_of_reading hphase
  obtain ⟨hcpuOpen, hgpuOpen⟩ := h.opened (by omega)
  refine ⟨h.cpu, ⟨kept, queued, hflow⟩, ?_, ?_, ?_, ?_, ?_, ?_, ?_⟩
  · intro _
    dsimp only
    rw [hbridge]
    exact ⟨hcpuOpen, hgpuOpen⟩
  · intro hgave _
    exact h.cpuJoined hgave (by omega)
  · intro hgave _
    dsimp only
    rw [hpc]
    exact h.gpuJoined hgave (by omega)
  · intro _
    exact h.dead (by omega)
  · intro hno
    rw [huse] at hno
    cases hno
  · intro session hsession
    dsimp only at hsession
    rw [hsession, phase_written] at hto
    omega
  · dsimp only
    rw [hpc]
    exact halone

/-- A read of the main program that begins while the thread is not inside of one. -/
theorem Inv.reading (h : Inv useGpu w) (hmain : w.main = .reading)
    (houtside : w.gpu.pc.isInside = false) {peek : Option Peek} {buf : List UInt8}
    (hpeek : peekGpu w.gpu.bridge w.gpu.seg w.gpuBuf = some (peek, buf)) :
    Inv useGpu { w with gpuBuf := buf, main := .inside peek } := by
  have hphase : phase w.main = 5 := by
    rw [hmain]
    rfl
  have hgpuOpen := (h.opened (by omega)).2
  rw [h.useGpu_of_reading hphase] at hgpuOpen
  obtain ⟨kept, queued, hflow, -, -⟩ := h.gpu
  rw [hmain] at hflow
  obtain ⟨head, hrep⟩ := hflow.ring
  have hcases := peek_cases hrep hpeek
  refine h.ofReading hphase rfl rfl (Nat.le_succ 5) ?_ ⟨hflow, ?_, ?_⟩
  · intro hinside
    rw [houtside] at hinside
    cases hinside
  · intro _ _ hnone
    rcases hcases with ⟨-, hempty⟩ | ⟨found, rfl, -⟩
    · exact hempty hgpuOpen
    · cases hnone
  · intro found hfound
    dsimp only at hfound
    rw [thread_peek_of_outside houtside] at hfound
    rcases hfound with hthread | hmain
    · cases hthread
    · rcases hcases with ⟨rfl, -⟩ | ⟨other, rfl, hpeeked⟩
      · cases hmain
      · cases hmain
        exact hpeeked

/-- The end of a read of the main program. -/
theorem Inv.finishing (h : Inv useGpu w) {peek : Option Peek} (hmain : w.main = .inside peek)
    {seg : Segment} {payload : Option (List UInt8)}
    (hfinish : finishGpu w.gpu.seg w.gpuBuf peek = (seg, payload)) :
    Inv useGpu
      { w with gpu := { w.gpu with seg := seg }, main := payload.elim .closing .holding } := by
  have hphase : phase w.main = 5 := by
    rw [hmain]
    rfl
  have houtside : w.gpu.pc.isInside = false := by
    by_contra hinside
    have hother := h.alone (Bool.eq_true_of_not_eq_false hinside)
    rw [hmain] at hother
    cases hother
  obtain ⟨kept, queued, hflow, hemptied, hpeeked⟩ := h.gpu
  rw [hmain] at hflow hemptied hpeeked
  obtain ⟨head, hrep⟩ := hflow.ring
  have hnone : ∀ found, found ∉ ThreadPc.peek w.gpu.pc := by
    intro found hfound
    rw [thread_peek_of_outside houtside] at hfound
    cases hfound
  cases peek with
  | none =>
    cases hfinish
    refine h.ofReading hphase rfl rfl (le_refl 6) (fun _ => rfl) ⟨hflow, ?_, ?_⟩
    · intro hgave huse _
      exact hemptied hgave huse rfl
    · intro found hfound
      exact absurd (hfound.resolve_right (fun hmain => by cases hmain)) (hnone found)
  | some found =>
    obtain ⟨first, rest, seg', head', rfl, hfirst, hrest⟩ := (hpeeked found (.inr rfl)).finish hrep
    rw [hfirst] at hfinish
    cases hfinish
    refine h.ofReading hphase rfl rfl (Nat.le_succ 5) (fun _ => rfl)
      ⟨hflow.takeOther hrest, ?_, ?_⟩
    · intro _ _ hnone
      cases hnone
    · intro other hother
      exact absurd (hother.resolve_right (fun hmain => by cases hmain)) (hnone other)

theorem Inv.holding (h : Inv useGpu w) {payload : List UInt8} (hmain : w.main = .holding payload) :
    Inv useGpu
      { w with gpu := { w.gpu with sink := append w.gpu.sink payload }, main := .reading } := by
  have hphase : phase w.main = 5 := by
    rw [hmain]
    rfl
  obtain ⟨kept, queued, hflow, -, hpeeked⟩ := h.gpu
  rw [hmain] at hflow hpeeked
  have hsink : append w.gpu.sink payload = (kept ++ [payload]).filterMap (decoded .runnerGpu) := by
    rw [append_eq, List.filterMap_append, hflow.sink]
  refine h.ofReading hphase rfl rfl (Nat.le_succ 5) (fun _ => rfl)
    ⟨⟨hflow.ring, hsink, ?_, ?_⟩, ?_, hpeeked⟩
  · have hcomm : ([payload] ++ (ThreadPc.inHand w.gpu.pc ++ [])).Perm
        (ThreadPc.inHand w.gpu.pc ++ [payload]) := by
      rw [List.append_nil]
      exact List.perm_append_comm
    refine List.Perm.trans ?_ hflow.all
    refine List.Perm.append_right queued ?_
    rw [List.append_assoc kept]
    exact List.Perm.append_left kept hcomm
  · intro hgave
    have hordered := hflow.ordered hgave
    dsimp only
    rw [h.gpuJoined hgave (by omega)] at hordered ⊢
    rw [List.append_assoc kept]
    exact hordered
  · intro _ _ hnone
    cases hnone

/-- Without a GPU bridge there is nothing left to read. -/
theorem Inv.terminated (h : Inv useGpu w) (hmain : w.main = .terminating)
    (hdead : w.targetAlive = false) :
    Inv useGpu { w with main := if w.gpu.bridge.isOpen then .reading else .closing } := by
  have hphase : phase w.main = 4 := by
    rw [hmain]
    rfl
  obtain ⟨hcpuOpen, hgpuOpen⟩ := h.opened (by omega)
  obtain ⟨kept, queued, hflow, -, hpeeked⟩ := h.gpu
  rw [hmain] at hflow hpeeked
  rw [hgpuOpen]
  cases huse : useGpu with
  | true =>
    refine ⟨h.cpu, ⟨kept, queued, hflow, ?_, hpeeked⟩, ?_, ?_, ?_, fun _ => hdead, ?_, ?_,
      fun _ => rfl⟩
    · intro _ _ hnone
      cases hnone
    · intro _
      exact ⟨hcpuOpen, hgpuOpen.trans huse⟩
    · intro hgave _
      exact h.cpuJoined hgave (by omega)
    · intro hgave _
      exact h.gpuJoined hgave (by omega)
    · intro hno
      cases hno
    · intro session hsession
      cases hsession
  | false =>
    obtain ⟨hsink, hpc, -⟩ := h.unused huse
    refine ⟨h.cpu, ⟨kept, queued, hflow, ?_, hpeeked⟩, ?_, ?_, fun _ _ => hpc, fun _ => hdead,
      ?_, ?_, fun _ => rfl⟩
    · intro _ hno
      cases hno
    · intro _
      exact ⟨hcpuOpen, hgpuOpen.trans huse⟩
    · intro hgave _
      exact h.cpuJoined hgave (by omega)
    · intro _
      refine ⟨hsink, hpc, ?_⟩
      change 6 ≠ 5
      omega
    · intro session hsession
      cases hsession

theorem Inv.closing (h : Inv useGpu w) (hmain : w.main = .closing) :
    Inv useGpu
      { w with cpu := closeBridge w.cpu, gpu := closeBridge w.gpu, main := .reporting } := by
  have hphase : phase w.main = 6 := by
    rw [hmain]
    rfl
  obtain ⟨keptCpu, queuedCpu, hcpu⟩ := h.cpu
  obtain ⟨kept, queued, hflow, hemptied, hpeeked⟩ := h.gpu
  rw [hmain] at hflow hemptied hpeeked
  refine ⟨⟨keptCpu, queuedCpu, hcpu.ring, hcpu.sink, hcpu.all, hcpu.ordered⟩,
    ⟨kept, queued, ⟨hflow.ring, hflow.sink, hflow.all, hflow.ordered⟩, ?_, hpeeked⟩,
    ?_, ?_, ?_, ?_, ?_, ?_, fun _ => rfl⟩
  · intro hgave huse _
    exact hemptied hgave huse rfl
  · intro hearly
    change 7 < 7 at hearly
    omega
  · intro hgave _
    exact h.cpuJoined hgave (by omega)
  · intro hgave _
    exact h.gpuJoined hgave (by omega)
  · intro _
    exact h.dead (by omega)
  · intro hno
    obtain ⟨hsink, hpc, -⟩ := h.unused hno
    refine ⟨hsink, hpc, ?_⟩
    change 7 ≠ 5
    omega
  · intro session hsession
    cases hsession

theorem Inv.reporting (h : Inv useGpu w) (hmain : w.main = .reporting) (tick : Tick) :
    Inv useGpu { w with main := .written (buildSession w tick) } := by
  have hphase : phase w.main = 7 := by
    rw [hmain]
    rfl
  obtain ⟨kept, queued, hflow, hemptied, hpeeked⟩ := h.gpu
  rw [hmain] at hflow hemptied hpeeked
  refine ⟨h.cpu, ⟨kept, queued, hflow, ?_, hpeeked⟩, ?_, ?_, ?_, ?_, ?_, ?_, fun _ => rfl⟩
  · intro hgave huse _
    exact hemptied hgave huse rfl
  · intro hearly
    dsimp only at hearly
    rw [phase_written] at hearly
    omega
  · intro hgave _
    exact h.cpuJoined hgave (by omega)
  · intro hgave _
    exact h.gpuJoined hgave (by omega)
  · intro _
    exact h.dead (by omega)
  · intro hno
    obtain ⟨hsink, hpc, -⟩ := h.unused hno
    refine ⟨hsink, hpc, ?_⟩
    dsimp only
    rw [phase_written]
    omega
  · intro session hsession
    cases hsession
    exact ⟨List.prefix_refl _, List.prefix_refl _, fun _ => ⟨rfl, rfl⟩, rfl⟩

theorem Inv.mainStep (h : Inv useGpu w) {tick : Tick} (hapart : Apart w (.main tick))
    (hstep : RunnerSteps.mainStep w tick = some w') : Inv useGpu w' := by
  unfold RunnerSteps.mainStep at hstep
  cases hmain : w.main with
  | waiting =>
    rw [hmain] at hstep
    dsimp only at hstep
    have hphase : phase w.main ≤ 4 := by
      rw [hmain]
      decide
    split at hstep
    · cases hstep
      exact h.early rfl rfl rfl hphase 1 rfl (by decide) id
        (fun _ hlate => absurd hlate (by decide))
        (fun _ hlate => absurd hlate (by decide))
    · cases hstep
      exact h
  | collecting =>
    rw [hmain] at hstep
    dsimp only at hstep
    have hphase : phase w.main ≤ 4 := by
      rw [hmain]
      decide
    split at hstep
    · cases hstep
      exact h.early rfl rfl rfl hphase 2 rfl (by decide) id
        (fun _ hlate => absurd hlate (by decide))
        (fun _ hlate => absurd hlate (by decide))
    · cases hstep
      exact h
  | joiningCpu =>
    rw [hmain] at hstep
    have hphase : phase w.main ≤ 4 := by
      rw [hmain]
      decide
    rcases join_cases hstep with ⟨hreturned, rfl⟩ | rfl
    · exact h.early rfl rfl rfl hphase 3 rfl (by decide) id (fun _ _ => hreturned)
        (fun _ hlate => absurd hlate (by decide))
    · exact h.early rfl rfl rfl hphase 3 rfl (by decide) (fun hgave => by cases hgave)
        (fun hgave => by cases hgave) (fun hgave => by cases hgave)
  | joiningGpu =>
    rw [hmain] at hstep
    have hphase : phase w.main = 3 := by
      rw [hmain]
      rfl
    rcases join_cases hstep with ⟨hreturned, rfl⟩ | rfl
    · exact h.early rfl rfl rfl (by omega) 4 rfl (by decide) id
        (fun hgave _ => h.cpuJoined hgave (by omega)) (fun _ _ => hreturned)
    · exact h.early rfl rfl rfl (by omega) 4 rfl (by decide) (fun hgave => by cases hgave)
        (fun hgave => by cases hgave) (fun hgave => by cases hgave)
  | terminating =>
    rw [hmain] at hstep
    dsimp only at hstep
    split at hstep
    · cases hstep
    · rename_i hdead
      cases hstep
      exact h.terminated hmain (Bool.eq_false_of_not_eq_true hdead)
  | reading =>
    rw [hmain] at hstep
    obtain ⟨⟨peek, buf⟩, hpeek, rfl⟩ := Option.map_eq_some_iff.mp hstep
    exact h.reading hmain (hapart (by rw [hmain]; rfl)) hpeek
  | inside peek =>
    rw [hmain] at hstep
    cases hstep
    exact h.finishing hmain rfl
  | holding payload =>
    rw [hmain] at hstep
    cases hstep
    exact h.holding hmain
  | closing =>
    rw [hmain] at hstep
    cases hstep
    exact h.closing hmain
  | reporting =>
    rw [hmain] at hstep
    cases hstep
    exact h.reporting hmain tick
  | written session =>
    rw [hmain] at hstep
    cases hstep

theorem Inv.step (h : Inv useGpu w) {cpuProducer gpuProducer : RingBuffer}
    {action : RunnerSteps.Action} (haction : action.Valid) (hapart : Apart w action)
    (hstep : RunnerSteps.step cpuProducer gpuProducer w action = some w') : Inv useGpu w' := by
  cases action with
  | writeCpu payload =>
    rw [RunnerSteps.step] at hstep
    split at hstep
    · obtain ⟨cpu, hwrite, rfl⟩ := Option.map_eq_some_iff.mp hstep
      exact h.writeCpu haction hwrite
    · cases hstep
  | writeGpu payload =>
    rw [RunnerSteps.step] at hstep
    split at hstep
    · rename_i halive
      obtain ⟨gpu, hwrite, rfl⟩ := Option.map_eq_some_iff.mp hstep
      exact h.writeGpu halive haction hwrite
    · cases hstep
  | targetExit =>
    cases hstep
    obtain ⟨kept, queued, hflow, hemptied, hpeeked⟩ := h.gpu
    refine ⟨h.cpu, ⟨kept, queued, hflow, hemptied, hpeeked⟩, h.opened, h.cpuJoined,
      h.gpuJoined, fun _ => rfl, h.unused, ?_, h.alone⟩
    intro session hsession
    obtain ⟨hcpu, hgpu, hwhole, hcorrelated⟩ := h.wrote session hsession
    exact ⟨hcpu, hgpu, hwhole, hcorrelated⟩
  | cpuThread =>
    obtain ⟨cpu, hthread, rfl⟩ := Option.map_eq_some_iff.mp hstep
    exact h.cpuThread hthread
  | gpuThread => exact h.gpuThread hapart hstep
  | main tick => exact h.mainStep hapart hstep

/-- After joins that have succeeded the GPU ring has one reader at a time. -/
theorem Inv.apart (h : Inv useGpu w) (hgave : w.gaveUp = false) (action : RunnerSteps.Action) :
    Apart w action := by
  cases action with
  | gpuThread =>
    intro hbegins
    by_contra hinside
    have hphase := phase_of_isInside (Bool.eq_true_of_not_eq_false hinside)
    rw [h.gpuJoined hgave (by omega)] at hbegins
    cases hbegins
  | main tick =>
    intro hbegins
    have hphase : 4 ≤ phase w.main := by
      cases hmain : w.main with
      | reading => exact Nat.le_succ 4
      | closing => exact Nat.le_add_right 4 2
      | _ =>
        rw [hmain] at hbegins
        cases hbegins
    rw [h.gpuJoined hgave hphase]
    rfl
  | _ => exact trivial

/-- What a step of the GPU thread leaves alone. -/
theorem gpuThreadStep_frame (hstep : gpuThreadStep w = some w') :
    w'.cpu = w.cpu ∧ w'.gaveUp = w.gaveUp := by
  unfold gpuThreadStep at hstep
  split at hstep
  · obtain ⟨found, -, rfl⟩ := Option.map_eq_some_iff.mp hstep
    exact ⟨rfl, rfl⟩
  · obtain ⟨found, -, rfl⟩ := Option.map_eq_some_iff.mp hstep
    exact ⟨rfl, rfl⟩
  · cases hstep
    exact ⟨rfl, rfl⟩
  · obtain ⟨gpu, -, rfl⟩ := Option.map_eq_some_iff.mp hstep
    exact ⟨rfl, rfl⟩

/-- What the main program leaves of the CPU channel: all but the state of the bridge. -/
theorem mainStep_cases {tick : Tick} (hstep : RunnerSteps.mainStep w tick = some w') :
    (w'.cpu.pc = w.cpu.pc ∧ w'.cpu.sink = w.cpu.sink ∧ w'.cpu.accepted = w.cpu.accepted) ∧
      (w.gaveUp = true → w'.gaveUp = true) := by
  unfold RunnerSteps.mainStep at hstep
  split at hstep
  · split at hstep
    · cases hstep
      exact ⟨⟨rfl, rfl, rfl⟩, id⟩
    · cases hstep
      exact ⟨⟨rfl, rfl, rfl⟩, id⟩
  · split at hstep
    · cases hstep
      exact ⟨⟨rfl, rfl, rfl⟩, id⟩
    · cases hstep
      exact ⟨⟨rfl, rfl, rfl⟩, id⟩
  · rcases join_cases hstep with ⟨-, rfl⟩ | rfl
    · exact ⟨⟨rfl, rfl, rfl⟩, id⟩
    · exact ⟨⟨rfl, rfl, rfl⟩, fun _ => rfl⟩
  · rcases join_cases hstep with ⟨-, rfl⟩ | rfl
    · exact ⟨⟨rfl, rfl, rfl⟩, id⟩
    · exact ⟨⟨rfl, rfl, rfl⟩, fun _ => rfl⟩
  · split at hstep
    · cases hstep
    · cases hstep
      exact ⟨⟨rfl, rfl, rfl⟩, id⟩
  · obtain ⟨found, -, rfl⟩ := Option.map_eq_some_iff.mp hstep
    exact ⟨⟨rfl, rfl, rfl⟩, id⟩
  · cases hstep
    exact ⟨⟨rfl, rfl, rfl⟩, id⟩
  · cases hstep
    exact ⟨⟨rfl, rfl, rfl⟩, id⟩
  · cases hstep
    exact ⟨⟨rfl, rfl, rfl⟩, id⟩
  · cases hstep
    exact ⟨⟨rfl, rfl, rfl⟩, id⟩
  · cases hstep

/-- A join that ran out of time is never forgotten. -/
theorem step_gaveUp {cpuProducer gpuProducer : RingBuffer} {action : RunnerSteps.Action}
    (hgave : w.gaveUp = true)
    (hstep : RunnerSteps.step cpuProducer gpuProducer w action = some w') : w'.gaveUp = true := by
  cases action with
  | writeCpu payload =>
    rw [RunnerSteps.step] at hstep
    split at hstep
    · obtain ⟨cpu, -, rfl⟩ := Option.map_eq_some_iff.mp hstep
      exact hgave
    · cases hstep
  | writeGpu payload =>
    rw [RunnerSteps.step] at hstep
    split at hstep
    · obtain ⟨gpu, -, rfl⟩ := Option.map_eq_some_iff.mp hstep
      exact hgave
    · cases hstep
  | targetExit =>
    cases hstep
    exact hgave
  | cpuThread =>
    obtain ⟨cpu, -, rfl⟩ := Option.map_eq_some_iff.mp hstep
    exact hgave
  | gpuThread =>
    rw [(gpuThreadStep_frame hstep).2]
    exact hgave
  | main tick => exact (mainStep_cases hstep).2 hgave

/-- What is run without a join that runs out of time has not begun with one. -/
theorem run_gaveUp {cpuProducer gpuProducer : RingBuffer} {actions : List RunnerSteps.Action}
    (hrun : run (RunnerSteps.step cpuProducer gpuProducer) w actions = some w')
    (hno : w'.gaveUp = false) : w.gaveUp = false := by
  by_contra hgave
  have hkept := run_keeps (fun _ _ _ h hnext => step_gaveUp h hnext)
    (Bool.eq_true_of_not_eq_false hgave) hrun
  rw [hno] at hkept
  cases hkept

/-- Nothing that a CPU thread has collected changes once it has returned. -/
structure Settled (t w : Runner) : Prop where
  returned : w.cpu.pc = .returned
  sink : w.cpu.sink = t.cpu.sink
  accepted : t.cpu.accepted <+: w.cpu.accepted

theorem Settled.step {t : Runner} (h : Settled t w) {cpuProducer gpuProducer : RingBuffer}
    {action : RunnerSteps.Action}
    (hstep : RunnerSteps.step cpuProducer gpuProducer w action = some w') : Settled t w' := by
  cases action with
  | writeCpu payload =>
    rw [RunnerSteps.step] at hstep
    split at hstep
    · obtain ⟨cpu, hwrite, rfl⟩ := Option.map_eq_some_iff.mp hstep
      obtain ⟨⟨seg, ok⟩, -, rfl⟩ := Option.map_eq_some_iff.mp hwrite
      refine ⟨h.returned, h.sink, h.accepted.trans ?_⟩
      cases ok with
      | true => exact List.prefix_append _ _
      | false => exact List.prefix_refl _
    · cases hstep
  | writeGpu payload =>
    rw [RunnerSteps.step] at hstep
    split at hstep
    · obtain ⟨gpu, -, rfl⟩ := Option.map_eq_some_iff.mp hstep
      exact ⟨h.returned, h.sink, h.accepted⟩
    · cases hstep
  | targetExit =>
    cases hstep
    exact ⟨h.returned, h.sink, h.accepted⟩
  | cpuThread =>
    obtain ⟨cpu, hthread, -⟩ := Option.map_eq_some_iff.mp hstep
    exact absurd hthread (threadStep_returned h.returned)
  | gpuThread =>
    have hcpu := (gpuThreadStep_frame hstep).1
    refine ⟨?_, ?_, ?_⟩ <;> rw [hcpu]
    · exact h.returned
    · exact h.sink
    · exact h.accepted
  | main tick =>
    obtain ⟨hpc, hsink, haccepted⟩ := (mainStep_cases hstep).1
    exact ⟨hpc.trans h.returned, hsink.trans h.sink, by rw [haccepted]; exact h.accepted⟩

end

section

variable {cpuOs gpuOs : OsCalls} {cpuFound gpuFound : Option Segment}
  {cpuCapacity gpuCapacity : UInt32} {cpuRb gpuRb cpuProducer gpuProducer : RingBuffer}
  {cpuSeg gpuSeg : Segment} {useGpu : Bool}

theorem inv_created
    (hcpu : rbCreate cpuOs cpuFound cpuCapacity true = (some cpuRb, some cpuSeg))
    (hgpu : rbCreate gpuOs gpuFound gpuCapacity true = (some gpuProducer, some gpuSeg)) :
    Inv useGpu (RunnerSteps.start cpuRb gpuRb cpuSeg gpuSeg useGpu) := by
  obtain ⟨hcpuCap, -, hcpuSeg⟩ := rbCreate_some hcpu
  obtain ⟨hgpuCap, -, hgpuSeg⟩ := rbCreate_some hgpu
  cases hcpuSeg
  cases hgpuSeg
  exact inv_start hcpuCap hgpuCap cpuRb gpuRb useGpu

theorem inv_run (hcpu : rbCreate cpuOs cpuFound cpuCapacity true = (some cpuRb, some cpuSeg))
    (hgpu : rbCreate gpuOs gpuFound gpuCapacity true = (some gpuProducer, some gpuSeg))
    {actions : List RunnerSteps.Action} (hvalid : ∀ action ∈ actions, action.Valid)
    (hapart : Along (RunnerSteps.step cpuProducer gpuProducer) Apart
      (RunnerSteps.start cpuRb gpuRb cpuSeg gpuSeg useGpu) actions) {w : Runner}
    (hrun : run (RunnerSteps.step cpuProducer gpuProducer)
      (RunnerSteps.start cpuRb gpuRb cpuSeg gpuSeg useGpu) actions = some w) : Inv useGpu w := by
  have hboth := (along_of_forall hvalid
    (RunnerSteps.start cpuRb gpuRb cpuSeg gpuSeg useGpu)).and hapart
  have hstep : ∀ v action v', Inv useGpu v → action.Valid ∧ Apart v action →
      RunnerSteps.step cpuProducer gpuProducer v action = some v' → Inv useGpu v' :=
    fun _ _ _ h haction hnext => h.step haction.1 haction.2 hnext
  exact run_along hstep (inv_created hcpu hgpu) hboth hrun

/-- As long as no join has run out of time, nothing is asked of the readers. -/
def Joined (useGpu : Bool) (w : Runner) : Prop := w.gaveUp = false → Inv useGpu w

theorem joined_run {v w : Runner} {actions : List RunnerSteps.Action} (hv : Joined useGpu v)
    (hvalid : ∀ action ∈ actions, action.Valid)
    (hrun : run (RunnerSteps.step cpuProducer gpuProducer) v actions = some w) :
    Joined useGpu w := by
  have hstep : ∀ v action v', Joined useGpu v → RunnerSteps.Action.Valid action →
      RunnerSteps.step cpuProducer gpuProducer v action = some v' → Joined useGpu v' := by
    intro v action v' h haction hnext hgave'
    have hone : run (RunnerSteps.step cpuProducer gpuProducer) v [action] = some v' :=
      run_cons_eq_some.mpr ⟨v', hnext, rfl⟩
    have hgave := run_gaveUp hone hgave'
    exact (h hgave).step haction ((h hgave).apart hgave action) hnext
  exact run_invariant hstep hv hvalid hrun

end

/-- A CPU thread that returns before its join gives up has emptied the ring. -/
theorem returned_sink {useGpu : Bool} {cpuProducer gpuProducer : RingBuffer} {s t : Runner}
    (h : Inv useGpu s) (hgave : s.gaveUp = false)
    (hstep : RunnerSteps.step cpuProducer gpuProducer s .cpuThread = some t)
    (hreturned : t.cpu.pc = .returned)
    (hfit : ∀ payload ∈ t.cpu.accepted, payload.length ≤ bufferSize .runnerCpu) :
    t.cpu.sink = t.cpu.accepted.filterMap (decoded .runnerCpu) := by
  obtain ⟨cpu, hthread, rfl⟩ := Option.map_eq_some_iff.mp hstep
  have hearly : phase s.main < 3 := by
    by_contra hlate
    exact threadStep_returned (h.cpuJoined hgave (by omega)) hthread
  obtain ⟨kept, queued, hflow⟩ := h.cpu
  obtain ⟨kept', queued', hnext, -, -, hnone⟩ := hflow.thread (fun _ => rfl) hthread
  dsimp only at hreturned hfit ⊢
  have hhand : ThreadPc.inHand cpu.pc ++ [] = [] := by
    rw [hreturned]
    rfl
  have hlast : cpu.pc.isReturned = true := by
    rw [hreturned]
    rfl
  exact hnext.sink_whole trivial hhand (hnone hlast (h.opened (by omega)).1) hfit

section

variable {bridge : Bridge} {seg after : Segment} {payload : List UInt8}

theorem peekGpu_eq (hopen : bridge.isOpen = true)
    (hread : rbRead bridge.rb seg 65536 = some (after, some payload)) (buf : List UInt8) :
    peekGpu bridge seg buf = some (some ⟨after.hdr.head, payload.length⟩,
      payload ++ buf.drop payload.length) := by
  rw [peekGpu, if_pos hopen, hread]
  rfl

theorem finishGpu_eq (hpayload : payload ≠ []) {peek : Peek}
    (hafter : after = { seg with hdr := { seg.hdr with head := peek.head } })
    (hlen : peek.len = payload.length) (rest : List UInt8) :
    finishGpu seg (payload ++ rest) (some peek) = (after, some payload) := by
  have hpos : payload.length ≠ 0 := fun h => hpayload (List.eq_nil_of_length_eq_zero h)
  rw [finishGpu, hlen, if_neg hpos, List.take_left, hafter]

end

/-- Two reads that overlap return one payload twice: neither has stored the head when the
other loads it. -/
theorem overlap_repeats {cpuProducer gpuProducer : RingBuffer} {w : Runner} (tick : Tick)
    {seg : Segment} {payload : List UInt8} (hmain : w.main = .reading)
    (hpc : w.gpu.pc = .draining) (hopen : w.gpu.bridge.isOpen = true)
    (hread : rbRead w.gpu.bridge.rb w.gpu.seg 65536 = some (seg, some payload))
    (hpayload : payload ≠ []) :
    ∃ w', run (RunnerSteps.step cpuProducer gpuProducer) w
        [.gpuThread, .main tick, .gpuThread, .main tick, .gpuThread, .main tick] = some w' ∧
      w'.gpu.sink = append (append w.gpu.sink payload) payload ∧ w'.gpu.seg = seg := by
  have hafter : seg = { w.gpu.seg with hdr := { w.gpu.seg.hdr with head := seg.hdr.head } } := by
    rcases rbRead_moves hread with ⟨hnone, -⟩ | ⟨-, hmoved⟩
    · cases hnone
    · exact hmoved
  have hpeek := peekGpu_eq hopen hread
  have hfinish : ∀ rest, finishGpu w.gpu.seg (payload ++ rest)
      (some ⟨seg.hdr.head, payload.length⟩) = (seg, some payload) :=
    fun rest => finishGpu_eq hpayload hafter rfl rest
  have hagain : ∀ rest, finishGpu seg (payload ++ rest)
      (some ⟨seg.hdr.head, payload.length⟩) = (seg, some payload) :=
    fun rest => finishGpu_eq hpayload rfl rfl rest
  refine ⟨{ w with
    gpu := { w.gpu with
      seg := seg, pc := .draining, sink := append (append w.gpu.sink payload) payload }
    gpuBuf := payload ++ (payload ++ w.gpuBuf.drop payload.length).drop payload.length
    main := .reading }, ?_, rfl, rfl⟩
  simp only [run, RunnerSteps.step, gpuThreadStep, RunnerSteps.mainStep, threadStep, hpc, hmain,
    hpeek, hfinish, hagain, Option.map_some, Option.bind_some, Option.elim_some]
  rfl

/-- A payload of the size of a header, which both decoders accept. -/
def smallPayload (eventId : UInt8) : List UInt8 := eventId :: List.replicate 52 0

def MainPc.session : MainPc → Option CorrelatorLifecycle.ProfilingSession
  | .written session => some session
  | _ => none

theorem written_of_session {main : MainPc} {session : CorrelatorLifecycle.ProfilingSession}
    (h : MainPc.session main = some session) : main = .written session := by
  cases main with
  | written session' =>
    cases h
    rfl
  | _ => cases h

/-- The GPU thread is held up before its first read until its join has run out of time; it
and the main program then take one payload each. -/
def heldUp : List RunnerSteps.Action :=
  [.writeCpu (smallPayload 1), .writeGpu (smallPayload 2), .writeGpu (smallPayload 3),
    .gpuThread, .cpuThread, .cpuThread, .cpuThread, .main ⟨false, 1, "s"⟩, .main ⟨true, 2, "s"⟩,
    .cpuThread, .cpuThread, .main ⟨false, 3, "s"⟩, .main ⟨true, 4, "s"⟩, .targetExit,
    .main ⟨false, 5, "s"⟩, .gpuThread, .gpuThread, .main ⟨false, 6, "s"⟩, .main ⟨false, 7, "s"⟩,
    .gpuThread, .main ⟨false, 8, "s"⟩, .gpuThread, .main ⟨false, 9, "s"⟩, .main ⟨false, 10, "s"⟩,
    .main ⟨false, 11, "s"⟩, .main ⟨false, 12, "s"⟩]

def smallStart : Runner :=
  RunnerSteps.start ⟨192⟩ ⟨192⟩ (freshSegment 128) (freshSegment 128) true

/-- In a run whose joins both succeed, with payloads for which the buffers have room: the
session holds the events of all GPU payloads up to the end of the target, but only those
of the CPU payloads that were there when the CPU thread returned, and no others. -/
theorem session_events (cpuOs gpuOs : OsCalls) (cpuFound gpuFound : Option Segment)
    (cpuCapacity gpuCapacity : UInt32) (cpuRb gpuRb cpuProducer gpuProducer : RingBuffer)
    (cpuSeg gpuSeg : Segment) (useGpu : Bool)
    (hcpu : rbCreate cpuOs cpuFound cpuCapacity true = (some cpuRb, some cpuSeg))
    (hgpu : rbCreate gpuOs gpuFound gpuCapacity true = (some gpuProducer, some gpuSeg))
    (before after : List RunnerSteps.Action) (hvalid : ∀ action ∈ before, action.Valid)
    (hvalid' : ∀ action ∈ after, action.Valid) (s t u : Runner)
    (hbefore : run (RunnerSteps.step cpuProducer gpuProducer)
      (RunnerSteps.start cpuRb gpuRb cpuSeg gpuSeg useGpu) before = some s)
    (hlast : RunnerSteps.step cpuProducer gpuProducer s .cpuThread = some t)
    (hreturned : t.cpu.pc = .returned)
    (hafter : run (RunnerSteps.step cpuProducer gpuProducer) t after = some u)
    (session : CorrelatorLifecycle.ProfilingSession) (hmain : u.main = .written session)
    (hgave : u.gaveUp = false)
    (hcpuFit : ∀ payload ∈ t.cpu.accepted, payload.length ≤ bufferSize .runnerCpu)
    (hgpuFit : ∀ payload ∈ u.gpu.accepted, payload.length ≤ bufferSize .runnerGpu) :
    t.cpu.accepted <+: u.cpu.accepted ∧
      session.cpuEvents = t.cpu.accepted.filterMap (decoded .runnerCpu) ∧
      session.gpuEvents =
        (if useGpu then u.gpu.accepted.filterMap (decoded .runnerGpu) else []) ∧
      session.correlatedEvents = Correlation.runCorrelation session.cpuEvents session.gpuEvents
        DEFAULT_TIME_WINDOW_NS := by
  have hone : run (RunnerSteps.step cpuProducer gpuProducer) s [.cpuThread] = some t :=
    run_cons_eq_some.mpr ⟨t, hlast, rfl⟩
  have hgaveT := run_gaveUp hafter hgave
  have hgaveS := run_gaveUp hone hgaveT
  have hjoined := joined_run (fun _ => inv_created hcpu hgpu) hvalid hbefore
  have hinv : Inv useGpu s := hjoined hgaveS
  have hvalidT : RunnerSteps.Action.Valid .cpuThread := trivial
  have hjoinedT : Joined useGpu t := fun _ => hinv.step hvalidT (hinv.apart hgaveS _) hlast
  have hinvU : Inv useGpu u := joined_run hjoinedT hvalid' hafter hgave
  have hsettled : Settled t u := by
    have hstep : ∀ v action v', Settled t v →
        RunnerSteps.step cpuProducer gpuProducer v action = some v' → Settled t v' :=
      fun _ _ _ h hnext => h.step hnext
    exact run_keeps hstep ⟨hreturned, rfl, List.prefix_refl _⟩ hafter
  have hphase : phase u.main = 8 := by
    rw [hmain, phase_written]
  have hwrote := hinvU.wrote session hmain
  obtain ⟨hcpuWhole, hgpuWhole⟩ := hwrote.whole hgave
  refine ⟨hsettled.accepted, ?_, ?_, hwrote.correlated⟩
  · rw [hcpuWhole, hsettled.sink]
    exact returned_sink hinv hgaveS hlast hreturned hcpuFit
  · rw [hgpuWhole]
    cases useGpu with
    | false => exact (hinvU.unused rfl).1
    | true =>
      obtain ⟨kept, queued, hflow, hemptied, -⟩ := hinvU.gpu
      have hhand : ThreadPc.inHand u.gpu.pc ++ MainPc.inHand u.main = [] := by
        rw [hinvU.gpuJoined hgave (by omega), hmain]
        rfl
      exact hflow.sink_whole hgave hhand (hemptied hgave rfl (by rw [hmain]; rfl)) hgpuFit

/-- A payload goes through each ring before the joins, and one more comes from the target
at its end. -/
def firstActions : List RunnerSteps.Action :=
  [.writeCpu (smallPayload 1), .writeGpu (smallPayload 2), .cpuThread, .cpuThread, .cpuThread,
    .gpuThread, .gpuThread, .gpuThread, .gpuThread, .main ⟨true, 1, "s"⟩, .main ⟨true, 2, "s"⟩,
    .cpuThread]

def lastActions : List RunnerSteps.Action :=
  [.gpuThread, .gpuThread, .gpuThread, .main ⟨false, 3, "s"⟩, .main ⟨false, 4, "s"⟩,
    .writeCpu (smallPayload 4), .writeGpu (smallPayload 5), .targetExit, .main ⟨false, 5, "s"⟩,
    .main ⟨false, 6, "s"⟩, .main ⟨false, 7, "s"⟩, .main ⟨false, 8, "s"⟩, .main ⟨false, 9, "s"⟩,
    .main ⟨false, 10, "s"⟩, .main ⟨false, 11, "s"⟩, .main ⟨false, 12, "s"⟩]

/-- The events of the CPU payload before the join and of both GPU payloads are there. -/
theorem session_events_small : ∃ (u : Runner) (session : CorrelatorLifecycle.ProfilingSession),
    u.main = .written session ∧ u.cpu.accepted.length = 2 ∧ session.cpuEvents.length = 1 ∧
      session.gpuEvents.length = 2 ∧
      session.gpuEvents = u.gpu.accepted.filterMap (decoded .runnerGpu) ∧
      session.correlatedEvents = Correlation.runCorrelation session.cpuEvents session.gpuEvents
        DEFAULT_TIME_WINDOW_NS := by
  have hvalid : ∀ action ∈ firstActions, action.Valid := by
    simp [firstActions, smallPayload, RunnerSteps.Action.Valid, Storable]
  have hvalid' : ∀ action ∈ lastActions, action.Valid := by
    simp [lastActions, smallPayload, RunnerSteps.Action.Valid, Storable]
  have hsome : ((run (RunnerSteps.step ⟨192⟩ ⟨192⟩) smallStart firstActions).bind fun s =>
      (RunnerSteps.step ⟨192⟩ ⟨192⟩ s .cpuThread).bind fun t =>
        run (RunnerSteps.step ⟨192⟩ ⟨192⟩) t lastActions).isSome := by
    decide +kernel
  have hend : ∀ s ∈ run (RunnerSteps.step ⟨192⟩ ⟨192⟩) smallStart firstActions,
      ∀ t ∈ RunnerSteps.step ⟨192⟩ ⟨192⟩ s .cpuThread,
        t.cpu.pc.isReturned = true ∧
        (∀ payload ∈ t.cpu.accepted, payload.length ≤ bufferSize .runnerCpu) ∧
        ∀ u ∈ run (RunnerSteps.step ⟨192⟩ ⟨192⟩) t lastActions, u.gaveUp = false ∧
          (∀ payload ∈ u.gpu.accepted, payload.length ≤ bufferSize .runnerGpu) ∧
          u.cpu.accepted.length = 2 ∧ (MainPc.session u.main).map (fun session =>
            (session.cpuEvents.length, session.gpuEvents.length)) = some (1, 2) := by
    decide +kernel
  obtain ⟨u, hrun⟩ := Option.isSome_iff_exists.mp hsome
  obtain ⟨s, hbefore, hrest⟩ := Option.bind_eq_some_iff.mp hrun
  obtain ⟨t, hlast, hafter⟩ := Option.bind_eq_some_iff.mp hrest
  obtain ⟨hreturned, hcpuFit, hu⟩ := hend s hbefore t hlast
  obtain ⟨hgave, hgpuFit, haccepted, hsession⟩ := hu u hafter
  obtain ⟨session, hwritten, hlengths⟩ := Option.map_eq_some_iff.mp hsession
  obtain ⟨hcpu, hgpu⟩ := Prod.mk.inj hlengths
  have hmain := written_of_session hwritten
  obtain ⟨-, -, hevents, hcorrelated⟩ := session_events ⟨true, true, true⟩ ⟨true, true, true⟩
    none none 128 128 ⟨192⟩ ⟨192⟩ ⟨192⟩ ⟨192⟩ (freshSegment 128) (freshSegment 128) true rfl rfl
    firstActions lastActions hvalid hvalid' s t u hbefore hlast (returned_of_isReturned hreturned)
    hafter session hmain hgave hcpuFit hgpuFit
  exact ⟨u, session, hmain, haccepted, hcpu, hgpu, hevents, hcorrelated⟩

end HpcProfiler.RunnerSession
