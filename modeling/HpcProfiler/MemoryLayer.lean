import HpcProfiler.Discovery
import HpcProfiler.Events

/-!
The Python memory layer. Its methods and the callback of its finalizers run on several
threads, so a call is kept as the place it has reached with its local variables, and
one step of a call reads and changes the state of the layer. What runs under one lock is
one step. The interpreter's answers to a step are given to it.
-/

namespace HpcProfiler.MemoryLayer

open Discovery Events

/-- What the layer keeps of a tracked object. -/
structure Info where
  size : ℤ
  objType : String
  allocTs : ℤ
  pinnedAddr : ℤ
  deriving DecidableEq

/-- The layer and the event counter. The events made so far are recorded in the order
of their ids; no step reads this. -/
structure Layer where
  trackRefs : Bool := false
  running : Bool := false
  events : List CpuEvent := []
  lastSnapshot : Option Snapshot := none
  live : AList (fun _ : ℤ => Info) := ∅
  trackedAddrs : Finset ℤ := ∅
  deallocQueue : List CpuEvent := []
  nextId : ℤ := 1
  made : List CpuEvent := []

/-- A new layer. The counter is the module's and may have been used before. -/
def Layer.init (trackRefs : Bool) (nextId : ℤ) : Layer := { trackRefs, nextId }

/-- What _numpy_info and the attributes of an object and its type say. -/
structure Description where
  objType : String
  moduleName : String
  refCount : ℤ
  isNumpy : Bool := false
  bufNbytes : ℤ := 0
  pinnedAddr : ℤ := 0
  shape : List ℤ := []
  dtype : String := ""

/-- The interpreter's answers to one step: the clock, the ids of process and thread, a
snapshot, the list that a pass scans, whether there is another frame, the description
of a candidate and its referrers. A call that raises gives no answer. -/
structure Env where
  now : ℤ := 0
  processId : ℤ := 0
  threadId : ℤ := 0
  snapshot : Option Snapshot := none
  rssKb : ℤ := 0
  sightings : List Sighting := []
  moreFrames : Bool := false
  description : Option Description := none
  referrers : List ℤ := []

/-- An event under construction. -/
structure Draft where
  candidate : Candidate
  description : Description
  parentAddr : ℤ := 0
  allocTs : ℤ := 0

def Draft.addr (d : Draft) : ℤ := d.candidate.obj.addr

def Draft.info (d : Draft) : Info where
  size := d.candidate.stat.sizeDiff
  objType := d.description.objType
  allocTs := d.allocTs
  pinnedAddr := d.description.pinnedAddr

def tbToCallstack (tb : Traceback) : List String :=
  tb.reverse.map fun (filename, lineno) => s!"{filename}:{lineno}"

def allocEvent (env : Env) (eventId rssKb : ℤ) (d : Draft) : CpuEvent where
  base := {
    eventId
    timestampNs := d.allocTs
    processId := env.processId
    threadId := env.threadId
    eventType := "ALLOC" }
  allocAddress := d.addr
  allocSizeBytes := d.info.size
  objectType := d.info.objType
  refCount := d.description.refCount
  gcGeneration := d.candidate.gen
  isDealloc := some false
  callstack := tbToCallstack d.candidate.tb
  moduleName := some d.description.moduleName
  peakRssKb := some rssKb
  lifetimeNs := some 0
  isNumpyBuffer := some d.description.isNumpy
  bufferNbytes := some d.description.bufNbytes
  parentAddress := some d.parentAddr
  pinnedAddress := some d.info.pinnedAddr
  tracemallocSize := some d.candidate.stat.size
  arrayShape := some d.description.shape
  arrayDtype := some d.description.dtype

def deallocEvent (env : Env) (eventId addr : ℤ) (info : Info) (deallocTs : ℤ) : CpuEvent where
  base := {
    eventId
    timestampNs := deallocTs
    processId := env.processId
    threadId := env.threadId
    eventType := "DEALLOC" }
  allocAddress := addr
  allocSizeBytes := info.size
  objectType := info.objType
  refCount := 0
  gcGeneration := 0
  isDealloc := some true
  callstack := []
  moduleName := some ""
  peakRssKb := some 0
  lifetimeNs := some (deallocTs - info.allocTs)
  isNumpyBuffer := some false
  bufferNbytes := some 0
  parentAddress := some 0
  pinnedAddress := some info.pinnedAddr
  tracemallocSize := some 0
  arrayShape := some []
  arrayDtype := some ""

/-- What a step leads to: the call goes on, returns or raises. -/
inductive Outcome (σ : Type)
  | going (call : σ)
  | returned (result : List CpuEvent)
  | raised

def Outcome.map {σ τ : Type} (f : σ → τ) : Outcome σ → Outcome τ
  | .going call => .going (f call)
  | .returned result => .returned result
  | .raised => .raised

/-- Where collect is; the candidates and objects that are still to come are part of the
place. -/
inductive CollectPc
  | drain
  | checkRunning
  | idleExtend
  | snapshot
  | snapLive
  | passA (gen : ℕ)
  | passB
  | passC (rest : List PyObject)
  | build (rest : List Candidate)
  | snapTracked (d : Draft) (rest : List Candidate)
  | findParent (d : Draft) (tracked : Finset ℤ) (rest : List Candidate)
  | stamp (d : Draft) (rest : List Candidate)
  | number (d : Draft) (rest : List Candidate)
  | insert (d : Draft) (rest : List Candidate)
  | register (d : Draft) (rest : List Candidate)
  | extend

structure Collect where
  pc : CollectPc := .drain
  pending : List CpuEvent := []
  found : Found := {}
  rssKb : ℤ := 0
  newAllocs : List CpuEvent := []

/-- The generations after the first are scanned only as long as a quota is left. -/
def afterPassA (gen : ℕ) (found : Found) : CollectPc :=
  if gen < 2 ∧ found.tbRemaining.keys ≠ [] then .passA (gen + 1) else .passB

def findParent (env : Env) (d : Draft) (tracked : Finset ℤ) : ℤ :=
  (env.referrers.find? fun r => r ∈ tracked ∧ r ≠ d.addr).getD 0

def collectStep (env : Env) (ly : Layer) (c : Collect) : Layer × Outcome Collect :=
  match c.pc with
  | .drain =>
    ({ ly with deallocQueue := [] },
      .going { c with pending := ly.deallocQueue, pc := .checkRunning })
  | .checkRunning => (ly, .going { c with pc := if ly.running then .snapshot else .idleExtend })
  | .idleExtend => ({ ly with events := ly.events ++ c.pending }, .returned c.pending)
  | .snapshot =>
    match env.snapshot, ly.lastSnapshot with
    | some current, some last =>
      let stats := statByTb (compareTo current last)
      ({ ly with lastSnapshot := some current },
        .going { c with
          found := { stats }
          rssKb := env.rssKb
          pc := if stats.keys = [] then .extend else .snapLive })
    | _, _ => (ly, .raised)
  | .snapLive =>
    (ly, .going { c with found := .start c.found.stats ly.live.keys.toFinset, pc := .passA 0 })
  | .passA gen =>
    let found := scanGc gen c.found env.sightings.reverse
    (ly, .going { c with found, pc := afterPassA gen found })
  | .passB =>
    if env.moreFrames then (ly, .going { c with found := scanBuffers c.found env.sightings })
    else (ly, .going { c with pc := .passC c.found.newGcObjects })
  | .passC (_ :: rest) =>
    (ly, .going { c with found := scanBuffers c.found env.sightings, pc := .passC rest })
  | .passC [] => (ly, .going { c with pc := .build c.found.candidates })
  | .build (candidate :: rest) =>
    if candidate.obj.addr ∈ c.found.liveSnapshot then (ly, .going { c with pc := .build rest })
    else
      match env.description with
      | none => (ly, .going { c with pc := .build rest })
      | some description =>
        let d := { candidate, description }
        (ly, .going { c with pc := if ly.trackRefs then .snapTracked d rest else .stamp d rest })
  | .build [] => (ly, .going { c with pc := .extend })
  | .snapTracked d rest => (ly, .going { c with pc := .findParent d ly.trackedAddrs rest })
  | .findParent d tracked rest =>
    (ly, .going { c with pc := .stamp { d with parentAddr := findParent env d tracked } rest })
  | .stamp d rest => (ly, .going { c with pc := .number { d with allocTs := env.now } rest })
  | .number d rest =>
    let event := allocEvent env ly.nextId c.rssKb d
    ({ ly with nextId := ly.nextId + 1, made := ly.made ++ [event] },
      .going { c with newAllocs := c.newAllocs ++ [event], pc := .insert d rest })
  | .insert d rest =>
    ({ ly with
        live := ly.live.insert d.addr d.info
        trackedAddrs := insert d.addr ly.trackedAddrs },
      .going { c with pc := .register d rest })
  | .register _ rest => (ly, .going { c with pc := .build rest })
  | .extend =>
    let allNew := c.newAllocs ++ c.pending
    ({ ly with events := ly.events ++ allNew }, .returned allNew)

inductive Flush
  | drain
  | takeEvents (pending : List CpuEvent)

def flushStep (ly : Layer) : Flush → Layer × Outcome Flush
  | .drain => ({ ly with deallocQueue := [] }, .going (.takeEvents ly.deallocQueue))
  | .takeEvents pending => ({ ly with events := [] }, .returned (ly.events ++ pending))

/-- Where start is. -/
inductive Start
  | checkRunning
  | startTracing
  | setRunning

def startStep (env : Env) (ly : Layer) : Start → Layer × Outcome Start
  | .checkRunning => (ly, if ly.running then .returned [] else .going .startTracing)
  | .startTracing =>
    match env.snapshot with
    | some current => ({ ly with lastSnapshot := some current }, .going .setRunning)
    | none => (ly, .raised)
  | .setRunning => ({ ly with running := true }, .returned [])

/-- Where stop is: in its test, in its final collect, or past it. -/
inductive Stop
  | checkRunning
  | collecting (c : Collect)
  | clearRunning (remaining : List CpuEvent)

/-- The final collect hands its result on. -/
def toStop : Outcome Collect → Outcome Stop
  | .going c => .going (.collecting c)
  | .returned remaining => .going (.clearRunning remaining)
  | .raised => .raised

def stopStep (env : Env) (ly : Layer) : Stop → Layer × Outcome Stop
  | .checkRunning => (ly, if ly.running then .going (.collecting {}) else .returned [])
  | .collecting c => (collectStep env ly c).map id toStop
  | .clearRunning remaining => ({ ly with running := false }, .returned remaining)

/-- Where _on_dealloc is. -/
inductive Dealloc
  | pop (addr : ℤ)
  | stamp (addr : ℤ) (info : Info)
  | number (addr : ℤ) (info : Info) (deallocTs : ℤ)
  | append (event : CpuEvent)

def onDeallocStep (env : Env) (ly : Layer) : Dealloc → Layer × Outcome Dealloc
  | .pop addr =>
    ({ ly with live := ly.live.erase addr, trackedAddrs := ly.trackedAddrs.erase addr },
      match ly.live.lookup addr with
      | none => .returned []
      | some info => .going (.stamp addr info))
  | .stamp addr info => (ly, .going (.number addr info env.now))
  | .number addr info deallocTs =>
    let event := deallocEvent env ly.nextId addr info deallocTs
    ({ ly with nextId := ly.nextId + 1, made := ly.made ++ [event] }, .going (.append event))
  | .append event => ({ ly with deallocQueue := ly.deallocQueue ++ [event] }, .returned [])

/-- A call in progress. -/
inductive Call
  | start (pc : Start)
  | collect (c : Collect)
  | flush (pc : Flush)
  | stop (pc : Stop)
  | onDealloc (pc : Dealloc)

def callStep (env : Env) (ly : Layer) : Call → Layer × Outcome Call
  | .start pc => (startStep env ly pc).map id (.map .start)
  | .collect c => (collectStep env ly c).map id (.map .collect)
  | .flush pc => (flushStep ly pc).map id (.map .flush)
  | .stop pc => (stopStep env ly pc).map id (.map .stop)
  | .onDealloc pc => (onDeallocStep env ly pc).map id (.map .onDealloc)

/-- What the program asks of the layer, and what a finalizer of it calls. -/
inductive Request
  | start
  | collect
  | flush
  | stop
  | onDealloc (addr : ℤ)

def Request.call : Request → Call
  | .start => .start .checkRunning
  | .collect => .collect {}
  | .flush => .flush .drain
  | .stop => .stop .checkRunning
  | .onDealloc addr => .onDealloc (.pop addr)

/-- The non-reentrant locks of the layer and of the event counter. -/
inductive Lock
  | live
  | dealloc
  | id
  | events
  deriving DecidableEq

/-- The lock under which the next step runs, if any. -/
def CollectPc.lock : CollectPc → Option Lock
  | .drain => some .dealloc
  | .idleExtend => some .events
  | .snapLive => some .live
  | .snapTracked _ _ => some .live
  | .number _ _ => some .id
  | .insert _ _ => some .live
  | .extend => some .events
  | _ => none

def Flush.lock : Flush → Option Lock
  | .drain => some .dealloc
  | .takeEvents _ => some .events

def Dealloc.lock : Dealloc → Option Lock
  | .pop _ => some .live
  | .stamp _ _ => none
  | .number _ _ _ => some .id
  | .append _ => some .dealloc

def Call.lock : Call → Option Lock
  | .start _ => none
  | .collect c => c.pc.lock
  | .flush pc => pc.lock
  | .stop (.collecting c) => c.pc.lock
  | .stop _ => none
  | .onDealloc pc => pc.lock

end HpcProfiler.MemoryLayer
