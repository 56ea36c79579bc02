import HpcProfiler.GpuCodec
import HpcProfiler.RingMapping

/-!
The threads that empty the rings into event lists. All four drains run one loop: it
polls until the stop event is set, then reads on until a read finds nothing, and
returns. They differ in the bridge they read with and in the decoder. The producer,
the stop signal and the drain take their steps in any order; a call on the ring is
one step, and a payload that does not decode is skipped.
-/

namespace HpcProfiler.DrainLoops

open Events StructFormat SharedRing RingRecords

/-- A consumer's bridge: its handle and whether it has been opened. -/
structure Bridge where
  rb : RingBuffer
  isOpen : Bool

/-- The reading of `bridge.py`, where a refused read and an empty ring look the same. -/
def Bridge.read (bridge : Bridge) (seg : Segment) (maxBytes : UInt32) :
    Option (Segment × Option (List UInt8)) :=
  if bridge.isOpen then rbRead bridge.rb seg maxBytes else some (seg, none)

/-- The reading of `gpu_bridge.py` into its fixed buffer; an empty payload counts as none. -/
def Bridge.readGpu (bridge : Bridge) (seg : Segment) : Option (Segment × Option (List UInt8)) :=
  if bridge.isOpen then
    (rbRead bridge.rb seg 65536).map fun (seg, payload) =>
      (seg, payload.filter fun bytes => bytes.length != 0)
  else some (seg, none)

inductive Drain where
  | correlatorCpu
  | correlatorGpu
  | runnerCpu
  | runnerGpu
  deriving DecidableEq

/-- What the sink of a drain holds. -/
def Drain.Event : Drain → Type
  | .correlatorCpu => CpuEvent
  | .correlatorGpu => GpuEvent
  | .runnerCpu => CpuEvent
  | .runnerGpu => GpuEvent

/-- The correlator reads both rings with the plain bridge and its default buffer. -/
def Drain.read : Drain → Bridge → Segment → Option (Segment × Option (List UInt8))
  | .correlatorCpu, bridge, seg => bridge.read seg 4096
  | .correlatorGpu, bridge, seg => bridge.read seg 4096
  | .runnerCpu, bridge, seg => bridge.read seg 4096
  | .runnerGpu, bridge, seg => bridge.readGpu seg

def Drain.parse : (d : Drain) → List UInt8 → Except PyError d.Event
  | .correlatorCpu => CpuCodec.deserialize
  | .correlatorGpu => GpuCodec.deserialize
  | .runnerCpu => CpuCodec.deserialize
  | .runnerGpu => GpuCodec.deserialize

/-- Where a drain stands: at the test of the stop event, before the read of the
polling loop, before the read of the final loop, or at its end. -/
inductive Pc where
  | testing
  | polling
  | draining
  | returned
  deriving DecidableEq

/-- The state of a producer and a drain on one ring. `accepted` records the payloads
that the ring has taken, which no step reads. -/
structure LoopState (d : Drain) where
  seg : Segment
  producing : Bool
  stopEvent : Bool
  pc : Pc
  sink : List d.Event
  accepted : List (List UInt8)

def start (d : Drain) (seg : Segment) : LoopState d where
  seg := seg
  producing := true
  stopEvent := false
  pc := .testing
  sink := []
  accepted := []

inductive Action where
  | write (payload : List UInt8)
  | finishWriting
  | setStop
  | drain

/-- Payloads are nonempty and short enough for the ring's 32-bit record sizes. -/
def Action.Valid : Action → Prop
  | .write payload => Storable payload
  | _ => True

section

variable {d : Drain} (producer : RingBuffer) (bridge : Bridge)

def writeStep (s : LoopState d) (payload : List UInt8) : Option (LoopState d) :=
  if s.producing then
    (rbWrite producer s.seg payload (UInt32.ofNat payload.length)).map fun (seg, ok) =>
      { s with seg := seg, accepted := if ok then s.accepted ++ [payload] else s.accepted }
  else none

/-- The try block of both loops. -/
def collect (s : LoopState d) (payload : List UInt8) : List d.Event :=
  match d.parse payload with
  | .ok event => s.sink ++ [event]
  | .error _ => s.sink

def drainStep (s : LoopState d) : Option (LoopState d) :=
  match s.pc with
  | .testing => some { s with pc := if s.stopEvent then .draining else .polling }
  | .polling =>
    (d.read bridge s.seg).map fun (seg, payload) =>
      match payload with
      | none => { s with seg := seg, pc := .testing }
      | some payload => { s with seg := seg, pc := .testing, sink := collect s payload }
  | .draining =>
    (d.read bridge s.seg).map fun (seg, payload) =>
      match payload with
      | none => { s with seg := seg, pc := .returned }
      | some payload => { s with seg := seg, sink := collect s payload }
  | .returned => none

def step (s : LoopState d) : Action → Option (LoopState d)
  | .write payload => writeStep producer s payload
  | .finishWriting => some { s with producing := false }
  | .setStop => some { s with stopEvent := true }
  | .drain => drainStep bridge s

end

end HpcProfiler.DrainLoops
