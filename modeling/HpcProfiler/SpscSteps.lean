import HpcProfiler.RingRecords
import HpcProfiler.StepSystem

/-!
One producer and one consumer process on a shared ring, step by step. Each load or
store of a header word and each access to a data byte is a step of its own, in
program order, so either process may act between any two steps of the other. The
space and data checks use the values loaded earlier. Besides the shared segment
and the two program points, a state keeps a history: the payloads whose tail store
has happened, the payloads returned so far, and for every data byte which record
stored it last and at which offset of the record.
-/

namespace HpcProfiler.SpscSteps

open SharedRing RingRecords

/-- Program points of `rb_write`, with its local variables. -/
inductive Producer where
  | idle
  | loadHead (data : List UInt8)
  | loadTail (data : List UInt8) (head : UInt32)
  | fetchAddDropped
  | reloadTail (data : List UInt8)
  | storing (data : List UInt8) (tail : UInt32) (todo : List UInt8)
  deriving DecidableEq, Repr

/-- Program points of `rb_read`, with its local variables. -/
inductive Consumer where
  | idle
  | loadHead (bufLen : UInt32)
  | loadTail (bufLen head : UInt32)
  | reloadHead (bufLen used : UInt32)
  | peeking (bufLen used head : UInt32) (i : ℕ) (len : UInt32)
  | copying (head len : UInt32) (buf : List UInt8)
  deriving DecidableEq, Repr

structure Spsc where
  seg : Segment
  producer : Producer
  consumer : Consumer
  published : List (List UInt8)
  returned : List (List UInt8)
  owner : ℕ → Option (ℕ × ℕ)

def initial (seg : Segment) : Spsc where
  seg := seg
  producer := .idle
  consumer := .idle
  published := []
  returned := []
  owner := fun _ => none

def Spsc.cap (s : Spsc) : UInt32 := s.seg.hdr.capacity

/-- The next step of the producer inside a call. -/
def produce (s : Spsc) : Option Spsc :=
  match s.producer with
  | .idle => none
  | .loadHead data => some { s with producer := .loadTail data s.seg.hdr.head }
  | .loadTail data head =>
    let used := (s.seg.hdr.tail - head) &&& (s.cap - 1)
    if s.cap - used - 1 < 4 + UInt32.ofNat data.length then
      some { s with producer := .fetchAddDropped }
    else some { s with producer := .reloadTail data }
  | .fetchAddDropped =>
    some { s with
      seg := { s.seg with hdr := { s.seg.hdr with dropped := s.seg.hdr.dropped + 1 } }
      producer := .idle }
  | .reloadTail data => some { s with producer := .storing data s.seg.hdr.tail (record data) }
  | .storing data tail [] =>
    some { s with
      seg := { s.seg with hdr := { s.seg.hdr with tail := tail } }
      producer := .idle
      published := s.published ++ [data] }
  | .storing data tail (b :: todo) =>
    let i := (tail &&& (s.cap - 1)).toNat
    let offset := (record data).length - (todo.length + 1)
    some { s with
      seg := { s.seg with data := Function.update s.seg.data i b }
      producer := .storing data (tail + 1) todo
      owner := Function.update s.owner i (some (s.published.length, offset)) }

/-- The next step of the consumer inside a call. -/
def consume (s : Spsc) : Option Spsc :=
  match s.consumer with
  | .idle => none
  | .loadHead bufLen => some { s with consumer := .loadTail bufLen s.seg.hdr.head }
  | .loadTail bufLen head =>
    let used := (s.seg.hdr.tail - head) &&& (s.cap - 1)
    if used.toNat < 4 then some { s with consumer := .idle }
    else some { s with consumer := .reloadHead bufLen used }
  | .reloadHead bufLen used =>
    some { s with consumer := .peeking bufLen used s.seg.hdr.head 0 0 }
  | .peeking bufLen used head i len =>
    if i < 4 then
      let b := s.seg.data ((head + UInt32.ofNat i) &&& (s.cap - 1)).toNat
      some { s with consumer := .peeking bufLen used head (i + 1) (orLenByte len i b) }
    else if used.toNat < 4 + len.toNat then some { s with consumer := .idle }
    else if bufLen < len then some { s with consumer := .idle }
    else some { s with consumer := .copying (head + 4) len [] }
  | .copying head len buf =>
    if buf.length < len.toNat then
      let b := s.seg.data ((head + UInt32.ofNat buf.length) &&& (s.cap - 1)).toNat
      some { s with consumer := .copying head len (buf ++ [b]) }
    else
      some { s with
        seg := { s.seg with hdr := { s.seg.hdr with head := head + len } }
        consumer := .idle
        returned := s.returned ++ [buf] }

inductive Action where
  | write (data : List UInt8)
  | produce
  | read (bufLen : UInt32)
  | consume

/-- A process starts a call when it is idle, and otherwise takes the call's next
step. A write of no bytes returns at once. -/
def step (s : Spsc) : Action → Option Spsc
  | .write data =>
    if s.producer ≠ .idle then none
    else if UInt32.ofNat data.length = 0 then some s
    else some { s with producer := .loadHead data }
  | .produce => SpscSteps.produce s
  | .read bufLen =>
    if s.consumer ≠ .idle then none else some { s with consumer := .loadHead bufLen }
  | .consume => SpscSteps.consume s

end HpcProfiler.SpscSteps
