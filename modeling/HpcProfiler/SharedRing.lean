import HpcProfiler.CyclicCells
import HpcProfiler.WrappingCounter

/-!
The shared-memory ring buffer of ring_buffer.cpp. A segment is the shared object:
its header words and its data bytes. A handle only knows how many bytes it has
mapped, so every access to a data byte is checked against the mapping and an
access outside it makes the call fail with none. Counters and lengths are the
32-bit words of the source and wrap as they do there.
-/

namespace HpcProfiler.SharedRing

def MAGIC : UInt32 := 0x48504352
def VERSION : UInt32 := 1
def HEADER_SIZE : ℕ := 64
def DEFAULT_CAP : UInt32 := 4 * 1024 * 1024

structure RingBufferHeader where
  magic : UInt32
  version : UInt32
  capacity : UInt32
  head : UInt32
  tail : UInt32
  dropped : UInt32
  deriving DecidableEq, Repr

/-- The shared memory object. -/
structure Segment where
  hdr : RingBufferHeader
  data : ℕ → UInt8

/-- A process's handle: the length of its own mapping of the object. -/
structure RingBuffer where
  totalSize : ℕ
  deriving DecidableEq, Repr

def RingBuffer.dataLength (rb : RingBuffer) : ℕ := rb.totalSize - HEADER_SIZE

/-- Which of the operating system calls of `rbCreate` succeed. -/
structure OsCalls where
  shmOpen : Bool
  ftruncate : Bool
  mmap : Bool
  deriving DecidableEq, Repr

def freshSegment (capacity : UInt32) : Segment where
  hdr :=
    { magic := MAGIC, version := VERSION, capacity := capacity,
      head := 0, tail := 0, dropped := 0 }
  data := fun _ => 0

def effectiveCapacity (capacity : UInt32) : UInt32 :=
  if capacity = 0 then DEFAULT_CAP else capacity

/-- `found` is the object the name refers to beforehand; the second component is
the object it refers to afterwards. -/
def rbCreate (os : OsCalls) (found : Option Segment) (capacity : UInt32) (create : Bool) :
    Option RingBuffer × Option Segment :=
  let capacity := effectiveCapacity capacity
  if capacity &&& (capacity - 1) ≠ 0 then (none, found)
  else
    let total := HEADER_SIZE + capacity.toNat
    -- Without O_CREAT, opening a name that does not exist fails.
    if !os.shmOpen || (!create && found.isNone) then (none, found)
    -- The failure paths after a creating open unlink the name again.
    else if create && !os.ftruncate then (none, none)
    else if !os.mmap then (none, if create then none else found)
    else if create then (some ⟨total⟩, some (freshSegment capacity))
    else (some ⟨total⟩, found)

def rbUsed (hdr : RingBufferHeader) : UInt32 :=
  (hdr.tail - hdr.head) &&& (hdr.capacity - 1)

def rbFree (hdr : RingBufferHeader) : UInt32 :=
  hdr.capacity - rbUsed hdr - 1

def RingBuffer.load (rb : RingBuffer) (seg : Segment) (i : UInt32) : Option UInt8 :=
  if i.toNat < rb.dataLength then some (seg.data i.toNat) else none

def RingBuffer.store (rb : RingBuffer) (seg : Segment) (i : UInt32) (b : UInt8) :
    Option Segment :=
  if i.toNat < rb.dataLength then some { seg with data := Function.update seg.data i.toNat b }
  else none

/-- The little-endian length prefix. -/
def lenBytes (len : UInt32) : List UInt8 :=
  [(len &&& 0xFF).toUInt8, ((len >>> 8) &&& 0xFF).toUInt8,
    ((len >>> 16) &&& 0xFF).toUInt8, ((len >>> 24) &&& 0xFF).toUInt8]

/-- One round of the loop that reads the prefix back. -/
def orLenByte (len : UInt32) (i : ℕ) (b : UInt8) : UInt32 :=
  len ||| (b.toUInt32 <<< UInt32.ofNat (8 * i))

def assembleLenFrom (i : ℕ) (len : UInt32) : List UInt8 → UInt32
  | [] => len
  | b :: bs => assembleLenFrom (i + 1) (orLenByte len i b) bs

def assembleLen (bytes : List UInt8) : UInt32 := assembleLenFrom 0 0 bytes

/-- The loops `data[tail & (cap - 1)] = b; tail++` of a write. -/
def storeBytes (rb : RingBuffer) (cap : UInt32) :
    Segment → UInt32 → List UInt8 → Option (Segment × UInt32)
  | seg, tail, [] => some (seg, tail)
  | seg, tail, b :: bs =>
    (rb.store seg (tail &&& (cap - 1)) b).bind fun seg' => storeBytes rb cap seg' (tail + 1) bs

/-- The loops over `data[(head + i) & (cap - 1)]` of a read. -/
def loadBytes (rb : RingBuffer) (seg : Segment) (cap : UInt32) (head : UInt32) :
    ℕ → Option (List UInt8)
  | 0 => some []
  | n + 1 =>
    (rb.load seg (head &&& (cap - 1))).bind fun b =>
      (loadBytes rb seg cap (head + 1) n).map (b :: ·)

/-- The first `len` bytes of the caller's buffer. -/
def callerBytes (data : List UInt8) (len : UInt32) : Option (List UInt8) :=
  if len.toNat ≤ data.length then some (data.take len.toNat) else none

/-- The result is the segment afterwards and whether the record was written. -/
def rbWrite (rb : RingBuffer) (seg : Segment) (data : List UInt8) (len : UInt32) :
    Option (Segment × Bool) :=
  if len = 0 then some (seg, false)
  else
    let recordSize := 4 + len
    if rbFree seg.hdr < recordSize then
      some ({ seg with hdr := { seg.hdr with dropped := seg.hdr.dropped + 1 } }, false)
    else
      let cap := seg.hdr.capacity
      let tail := seg.hdr.tail
      (callerBytes data len).bind fun payload =>
        (storeBytes rb cap seg tail (lenBytes len)).bind fun (seg, tail) =>
          (storeBytes rb cap seg tail payload).map fun (seg, tail) =>
            ({ seg with hdr := { seg.hdr with tail := tail } }, true)

/-- The result is the segment afterwards and the record read, if any. -/
def rbRead (rb : RingBuffer) (seg : Segment) (bufLen : UInt32) :
    Option (Segment × Option (List UInt8)) :=
  let used := rbUsed seg.hdr
  if used.toNat < 4 then some (seg, none)
  else
    let cap := seg.hdr.capacity
    let head := seg.hdr.head
    (loadBytes rb seg cap head 4).bind fun peeked =>
      let len := assembleLen peeked
      if used.toNat < 4 + len.toNat then some (seg, none)
      else if bufLen < len then some (seg, none)
      else
        let head := head + 4
        (loadBytes rb seg cap head len.toNat).map fun payload =>
          ({ seg with hdr := { seg.hdr with head := head + len } }, some payload)

/-- The used, free and dropped counts reported by `rb_stats`. -/
def rbStats (seg : Segment) : UInt32 × UInt32 × UInt32 :=
  (rbUsed seg.hdr, rbFree seg.hdr, seg.hdr.dropped)

end HpcProfiler.SharedRing
