import HpcProfiler.CorrelatorLifecycle
import HpcProfiler.DrainLoops

/-!
The runner from the start of its drain threads to the written session. The target, the
two threads and the main program take their steps in any order. A join waits for its
thread for a limited time only, so a thread may still be at work when the main program
reads what is left in the GPU ring. A read of that ring is therefore two steps, between
which the other reader may come, and the append of what it has found is one more. The CPU
ring has a single reader, whose calls are one step each.
-/

namespace HpcProfiler.RunnerSteps

open Events StructFormat SharedRing RingRecords DrainLoops CorrelatorLifecycle

/-- What a call of rb_read has found: the head it is about to store, and the length of the
record that it has copied. -/
structure Peek where
  head : UInt32
  len : ℕ

/-- Where a drain thread stands: at the test of the stop event, before the read of one of
its two loops, inside of a read of the GPU ring, behind a read that has found a payload, or
at its end. -/
inductive ThreadPc
  | testing
  | polling
  | draining
  | inside (peek : Option Peek) (final : Bool)
  | holding (payload : List UInt8) (final : Bool)
  | returned

/-- A ring with its reader: the runner's bridge, the drain thread and the list of events.
`accepted` records the payloads that the ring has taken, which no step reads. -/
structure Channel (d : Drain) where
  seg : Segment
  bridge : Bridge
  pc : ThreadPc
  sink : List d.Event
  accepted : List (List UInt8)

section

variable {d : Drain}

/-- The try block of the drains. -/
def append (sink : List d.Event) (payload : List UInt8) : List d.Event :=
  match d.parse payload with
  | .ok event => sink ++ [event]
  | .error _ => sink

/-- `_drain_cpu`, and of `_drain_gpu` what lies outside of its reads. -/
def threadStep (stopEvt : Bool) (ch : Channel d) : Option (Channel d) :=
  match ch.pc with
  | .testing => some { ch with pc := if stopEvt then .draining else .polling }
  | .polling =>
    (d.read ch.bridge ch.seg).map fun (seg, payload) =>
      { ch with seg := seg, pc := payload.elim .testing fun bytes => .holding bytes false }
  | .draining =>
    (d.read ch.bridge ch.seg).map fun (seg, payload) =>
      { ch with seg := seg, pc := payload.elim .returned fun bytes => .holding bytes true }
  | .holding payload final =>
    some { ch with
      pc := if final then .draining else .testing
      sink := append ch.sink payload }
  | .inside .. | .returned => none

def writeStep (producer : RingBuffer) (ch : Channel d) (payload : List UInt8) :
    Option (Channel d) :=
  (rbWrite producer ch.seg payload (UInt32.ofNat payload.length)).map fun (seg, ok) =>
    { ch with seg := seg, accepted := if ok then ch.accepted ++ [payload] else ch.accepted }

end

/-- The first part of a read of the GPU ring: rb_read loads what it finds, and copies the
record into the one buffer of the bridge. -/
def peekGpu (bridge : Bridge) (seg : Segment) (buf : List UInt8) :
    Option (Option Peek × List UInt8) :=
  if bridge.isOpen then
    (rbRead bridge.rb seg 65536).map fun (after, record) =>
      match record with
      | none => (none, buf)
      | some bytes => (some ⟨after.hdr.head, bytes.length⟩, bytes ++ buf.drop bytes.length)
  else some (none, buf)

/-- The second part: the head is stored, and the payload is cut from the buffer. -/
def finishGpu (seg : Segment) (buf : List UInt8) : Option Peek → Segment × Option (List UInt8)
  | none => (seg, none)
  | some peek =>
    ({ seg with hdr := { seg.hdr with head := peek.head } },
      if peek.len = 0 then none else some (buf.take peek.len))

theorem rbRead_moves {rb : RingBuffer} {seg after : Segment} {bufLen : UInt32}
    {record : Option (List UInt8)} (hread : rbRead rb seg bufLen = some (after, record)) :
    record = none ∧ after = seg ∨
      record ≠ none ∧ after = { seg with hdr := { seg.hdr with head := after.hdr.head } } := by
  unfold rbRead at hread
  dsimp only at hread
  split at hread
  · cases hread
    exact .inl ⟨rfl, rfl⟩
  · obtain ⟨peeked, -, hrest⟩ := Option.bind_eq_some_iff.mp hread
    split at hrest
    · cases hrest
      exact .inl ⟨rfl, rfl⟩
    · split at hrest
      · cases hrest
        exact .inl ⟨rfl, rfl⟩
      · obtain ⟨payload, -, hpayload⟩ := Option.map_eq_some_iff.mp hrest
        cases hpayload
        exact .inr ⟨by simp, rfl⟩

/-- Both parts together, with nothing between them, are the read of the drains. -/
theorem readGpu_eq (bridge : Bridge) (seg : Segment) (buf : List UInt8) :
    bridge.readGpu seg =
      (peekGpu bridge seg buf).map fun (peek, buf) => finishGpu seg buf peek := by
  unfold Bridge.readGpu peekGpu
  split
  · rw [Option.map_map]
    cases hread : rbRead bridge.rb seg 65536 with
    | none => rfl
    | some found =>
      obtain ⟨after, record⟩ := found
      rcases rbRead_moves hread with ⟨rfl, rfl⟩ | ⟨hsome, hafter⟩
      · rfl
      · obtain ⟨bytes, rfl⟩ := Option.ne_none_iff_exists'.mp hsome
        have hcut : (bytes ++ buf.drop bytes.length).take bytes.length = bytes :=
          List.take_left ..
        simp only [Option.map_some, Function.comp_apply, finishGpu, hcut]
        rw [← hafter]
        cases bytes with
        | nil => rfl
        | cons b rest => rfl
  · rfl

/-- Where the main program stands, from the wait for the first CPU event. -/
inductive MainPc
  | waiting
  | collecting
  | joiningCpu
  | joiningGpu
  | terminating
  | reading
  | inside (peek : Option Peek)
  | holding (payload : List UInt8)
  | closing
  | reporting
  | written (session : ProfilingSession)

/-- `gaveUp` records that a join ran out of time, which no step reads. The buffer of the GPU
bridge is listed as far as a read has ever filled it. -/
structure Runner where
  cpu : Channel .runnerCpu
  gpu : Channel .runnerGpu
  gpuBuf : List UInt8
  main : MainPc
  stopEvt : Bool
  targetAlive : Bool
  sessionStart : ℕ
  sessionEnd : ℕ
  gaveUp : Bool

def DEFAULT_TIME_WINDOW_NS : ℤ := 50000000

/-- Both rings are open, or the CPU ring alone. -/
def start (cpuRb gpuRb : RingBuffer) (cpuSeg gpuSeg : Segment) (useGpu : Bool) : Runner where
  cpu := ⟨cpuSeg, ⟨cpuRb, true⟩, .testing, [], []⟩
  gpu := ⟨gpuSeg, ⟨gpuRb, useGpu⟩, if useGpu then .testing else .returned, [], []⟩
  gpuBuf := []
  main := .waiting
  stopEvt := false
  targetAlive := true
  sessionStart := 0
  sessionEnd := 0
  gaveUp := false

def ThreadPc.isReturned : ThreadPc → Bool
  | .returned => true
  | _ => false

/-- `_drain_gpu`. -/
def gpuThreadStep (w : Runner) : Option Runner :=
  match w.gpu.pc with
  | .polling =>
    (peekGpu w.gpu.bridge w.gpu.seg w.gpuBuf).map fun (peek, buf) =>
      { w with gpu := { w.gpu with pc := .inside peek false }, gpuBuf := buf }
  | .draining =>
    (peekGpu w.gpu.bridge w.gpu.seg w.gpuBuf).map fun (peek, buf) =>
      { w with gpu := { w.gpu with pc := .inside peek true }, gpuBuf := buf }
  | .inside peek final =>
    let (seg, payload) := finishGpu w.gpu.seg w.gpuBuf peek
    let next := if final then ThreadPc.returned else .testing
    some { w with gpu := { w.gpu with
      seg := seg
      pc := payload.elim next fun bytes => .holding bytes final } }
  | _ => (threadStep w.stopEvt w.gpu).map fun gpu => { w with gpu := gpu }

/-- What a step of the main program finds outside: whether the present wait is over, the
time, and a new session id. -/
structure Tick where
  timeUp : Bool
  now : ℕ
  sessionId : String

def join (w : Runner) (pc : ThreadPc) (next : MainPc) (tick : Tick) : Option Runner :=
  if pc.isReturned then some { w with main := next }
  else if tick.timeUp then some { w with main := next, gaveUp := true }
  else none

def closeBridge {d : Drain} (ch : Channel d) : Channel d :=
  { ch with bridge := { ch.bridge with isOpen := false } }

/-- The correlation at the end, with the two times that the runner sets itself. -/
def buildSession (w : Runner) (tick : Tick) : ProfilingSession :=
  let correlator : Correlator := { timeWindow := DEFAULT_TIME_WINDOW_NS }
  let ingested := correlator.ingest w.cpu.sink w.gpu.sink tick.now
  let timed := { ingested with sessionStartNs := w.sessionStart, sessionEndNs := w.sessionEnd }
  timed.buildSession tick.sessionId tick.now

def mainStep (w : Runner) (tick : Tick) : Option Runner :=
  match w.main with
  | .waiting =>
    if tick.timeUp || !w.cpu.sink.isEmpty then
      some { w with main := .collecting, sessionStart := tick.now }
    else some w
  | .collecting =>
    if tick.timeUp then
      some { w with main := .joiningCpu, sessionEnd := tick.now, stopEvt := true }
    else some w
  | .joiningCpu => join w w.cpu.pc .joiningGpu tick
  | .joiningGpu => join w w.gpu.pc .terminating tick
  | .terminating =>
    -- the wait for the target has no end of its own: after three seconds it is killed
    if w.targetAlive then none
    else some { w with main := if w.gpu.bridge.isOpen then .reading else .closing }
  | .reading =>
    (peekGpu w.gpu.bridge w.gpu.seg w.gpuBuf).map fun (peek, buf) =>
      { w with gpuBuf := buf, main := .inside peek }
  | .inside peek =>
    let (seg, payload) := finishGpu w.gpu.seg w.gpuBuf peek
    some { w with gpu := { w.gpu with seg := seg }, main := payload.elim .closing .holding }
  | .holding payload =>
    some { w with
      gpu := { w.gpu with sink := append w.gpu.sink payload }
      main := .reading }
  | .closing =>
    some { w with cpu := closeBridge w.cpu, gpu := closeBridge w.gpu, main := .reporting }
  | .reporting => some { w with main := .written (buildSession w tick) }
  | .written _ => none

inductive Action
  | writeCpu (payload : List UInt8)
  | writeGpu (payload : List UInt8)
  | targetExit
  | cpuThread
  | gpuThread
  | main (tick : Tick)

/-- Payloads are nonempty and short enough for the ring's 32-bit record sizes. -/
def Action.Valid : Action → Prop
  | .writeCpu payload => Storable payload
  | .writeGpu payload => Storable payload
  | _ => True

/-- The target writes to its rings as long as it lives. -/
def step (cpuProducer gpuProducer : RingBuffer) (w : Runner) : Action → Option Runner
  | .writeCpu payload =>
    if w.targetAlive then
      (writeStep cpuProducer w.cpu payload).map fun cpu => { w with cpu := cpu }
    else none
  | .writeGpu payload =>
    if w.targetAlive then
      (writeStep gpuProducer w.gpu payload).map fun gpu => { w with gpu := gpu }
    else none
  | .targetExit => some { w with targetAlive := false }
  | .cpuThread => (threadStep w.stopEvt w.cpu).map fun cpu => { w with cpu := cpu }
  | .gpuThread => gpuThreadStep w
  | .main tick => mainStep w tick

def ThreadPc.isInside : ThreadPc → Bool
  | .inside .. => true
  | _ => false

def MainPc.isInside : MainPc → Bool
  | .inside _ => true
  | _ => false

def ThreadPc.begins : ThreadPc → Bool
  | .polling | .draining => true
  | _ => false

def MainPc.begins : MainPc → Bool
  | .reading | .closing => true
  | _ => false

/-- No read of the GPU ring begins, and its bridge is not closed, while another read has not
ended. Nothing in the runner sees to that once a join has run out of time. -/
def Apart (w : Runner) : Action → Prop
  | .gpuThread => w.gpu.pc.begins = true → w.main.isInside = false
  | .main _ => w.main.begins = true → w.gpu.pc.isInside = false
  | _ => True

instance (w : Runner) : (action : Action) → Decidable (Apart w action)
  | .gpuThread => inferInstanceAs (Decidable (_ → _))
  | .main _ => inferInstanceAs (Decidable (_ → _))
  | .writeCpu _ | .writeGpu _ | .targetExit | .cpuThread => isTrue trivial

end HpcProfiler.RunnerSteps
