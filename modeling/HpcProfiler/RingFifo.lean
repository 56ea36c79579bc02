import HpcProfiler.BoundedQueue
import HpcProfiler.RingRecords

/-!
Complete calls on a ring behave as a bounded FIFO queue of payloads. The abstract
ring keeps the queued payloads and the count of dropped ones; a queued payload
costs its bytes plus the length prefix, and one byte of the capacity stays unused.
The representation invariant places the queued records end to end in the cyclic
data region, from an unbounded read position that the 32-bit head counter stands
for, so nothing below depends on how often the counters have wrapped.
-/

namespace HpcProfiler.RingFifo

open CyclicCells WrappingCounter SharedRing RingRecords BoundedQueue

/-- A call through a handle. A write passes the length of its own data. -/
inductive Call where
  | write (data : List UInt8)
  | read (bufLen : UInt32)
  | stats

inductive Reply where
  | wrote (accepted : Bool)
  | record (payload : Option (List UInt8))
  | stats (used free dropped : ℕ)
  deriving DecidableEq, Repr

def performCall (rb : RingBuffer) (seg : Segment) : Call → Option (Segment × Reply)
  | .write data =>
    (rbWrite rb seg data (UInt32.ofNat data.length)).map fun (seg, ok) => (seg, .wrote ok)
  | .read bufLen => (rbRead rb seg bufLen).map fun (seg, payload) => (seg, .record payload)
  | .stats =>
    let (used, free, dropped) := rbStats seg
    some (seg, .stats used.toNat free.toNat dropped.toNat)

def runCalls (rb : RingBuffer) (seg : Segment) : List Call → Option (Segment × List Reply)
  | [] => some (seg, [])
  | call :: calls =>
    (performCall rb seg call).bind fun (seg, reply) =>
      (runCalls rb seg calls).map fun (seg, replies) => (seg, reply :: replies)

/-- The abstract ring of a given capacity. -/
structure Fifo (cap : ℕ) where
  queue : Queue recordCost (cap - 1)
  dropped : ℕ

namespace Fifo

variable {cap : ℕ}

def empty : Fifo cap := ⟨Queue.empty, 0⟩

def perform (s : Fifo cap) : Call → Fifo cap × Reply
  | .write data =>
    match s.queue.offer data with
    | some queue => (⟨queue, s.dropped⟩, .wrote true)
    | none => (⟨s.queue, (s.dropped + 1) % 2 ^ 32⟩, .wrote false)
  | .read bufLen =>
    match s.queue.poll (fun payload => decide (payload.length ≤ bufLen.toNat)) with
    | some (payload, queue) => (⟨queue, s.dropped⟩, .record (some payload))
    | none => (s, .record none)
  | .stats =>
    let used := load recordCost s.queue.items
    (s, .stats used (cap - 1 - used) s.dropped)

def run (s : Fifo cap) : List Call → Fifo cap × List Reply
  | [] => (s, [])
  | call :: calls =>
    let (s, reply) := s.perform call
    let (s, replies) := run s calls
    (s, reply :: replies)

end Fifo

/-- The queued payloads lie end to end in the data region from position `head` on. -/
structure Represents (seg : Segment) (head : ℕ) (items : List (List UInt8)) : Prop where
  capacity : PowerOfTwo seg.hdr.capacity
  head_eq : seg.hdr.head = UInt32.ofNat head
  tail_eq : seg.hdr.tail = UInt32.ofNat (head + (stream items).length)
  bounded : (stream items).length < seg.hdr.capacity.toNat
  storable : ∀ payload ∈ items, Storable payload
  bytes : window seg.data seg.hdr.capacity.toNat head (stream items).length = stream items

theorem load_recordCost (items : List (List UInt8)) :
    load recordCost items = (stream items).length := by
  induction items with
  | nil => rfl
  | cons p ps ih => simp [recordCost, ih]

namespace Represents

variable {rb : RingBuffer} {seg : Segment} {head : ℕ} {items : List (List UInt8)}

/-- A freshly created ring holds nothing. -/
theorem fresh {cap : UInt32} (hcap : PowerOfTwo cap) : Represents (freshSegment cap) 0 [] :=
  ⟨hcap, rfl, rfl, hcap.pos, by simp, rfl⟩

theorem toNat_rbUsed (h : Represents seg head items) :
    (rbUsed seg.hdr).toNat = (stream items).length := by
  have hlt := h.bounded
  rw [rbUsed, h.tail_eq, h.head_eq, h.capacity.toNat_mask_sub (by omega) (by omega)]
  omega

theorem toNat_rbFree (h : Represents seg head items) :
    (rbFree seg.hdr).toNat = seg.hdr.capacity.toNat - 1 - (stream items).length := by
  have hlt := h.bounded
  have hused := h.toNat_rbUsed
  rw [rbFree, toNat_sub_sub_one (by omega), hused]
  omega

/-- A record that does not fit only counts as dropped. -/
theorem rbWrite_full (h : Represents seg head items) {payload : List UInt8}
    (hp : Storable payload)
    (hfull : seg.hdr.capacity.toNat - 1 < recordCost payload + (stream items).length) :
    rbWrite rb seg payload (UInt32.ofNat payload.length) =
      some ({ seg with hdr := { seg.hdr with dropped := seg.hdr.dropped + 1 } }, false) := by
  have hcost := recordCost_pos payload
  have hlt : rbFree seg.hdr < 4 + UInt32.ofNat payload.length := by
    rw [UInt32.lt_iff_toNat_lt, h.toNat_rbFree, toNat_recordSize hp]
    omega
  rw [rbWrite, if_neg (ofNat_length_ne_zero hp)]
  exact if_pos hlt

/-- A record that fits is stored behind the queued ones. -/
theorem rbWrite_fits (h : Represents seg head items) {payload : List UInt8}
    (hp : Storable payload) (hmap : seg.hdr.capacity.toNat ≤ rb.dataLength)
    (hfits : recordCost payload + (stream items).length ≤ seg.hdr.capacity.toNat - 1) :
    rbWrite rb seg payload (UInt32.ofNat payload.length) =
      some ({ hdr := { seg.hdr with
                tail := UInt32.ofNat (head + (stream items).length + (record payload).length) },
              data := put seg.data seg.hdr.capacity.toNat (head + (stream items).length)
                (record payload) }, true) := by
  have hnot : ¬ rbFree seg.hdr < 4 + UInt32.ofNat payload.length := by
    rw [UInt32.lt_iff_toNat_lt, h.toNat_rbFree, toNat_recordSize hp]
    omega
  have hcaller : callerBytes payload (UInt32.ofNat payload.length) = some payload := by
    rw [callerBytes, toNat_ofNat_length hp, if_pos (le_refl _), List.take_length]
  rw [rbWrite, if_neg (ofNat_length_ne_zero hp)]
  simp only [if_neg hnot, hcaller, Option.bind_some, h.tail_eq]
  rw [storeBytes_eq h.capacity hmap]
  simp only [Option.bind_some]
  rw [storeBytes_eq h.capacity hmap]
  simp only [Option.map_some, record, put_append, List.length_append, Nat.add_assoc]

/-- Storing a record behind the queued ones represents the longer queue. -/
theorem append (h : Represents seg head items) {payload : List UInt8} (hp : Storable payload)
    (hfits : recordCost payload + (stream items).length ≤ seg.hdr.capacity.toNat - 1) :
    Represents { hdr := { seg.hdr with
                   tail := UInt32.ofNat (head + (stream items).length + (record payload).length) },
                 data := put seg.data seg.hdr.capacity.toNat (head + (stream items).length)
                   (record payload) } head (items ++ [payload]) := by
  have hlen : (record payload).length = recordCost payload := record_length payload
  have hcost := recordCost_pos payload
  have hstream : stream (items ++ [payload]) = stream items ++ record payload := by simp
  refine
    { capacity := h.capacity
      head_eq := h.head_eq
      tail_eq := ?_
      bounded := ?_
      storable := ?_
      bytes := ?_ }
  · rw [hstream, List.length_append, Nat.add_assoc]
  · rw [hstream, List.length_append, hlen]
    dsimp only
    omega
  · intro q hq
    rcases List.mem_append.mp hq with hold | hnew
    · exact h.storable q hold
    · rw [List.mem_singleton.mp hnew]
      exact hp
  · rw [hstream, window_eq_append_iff]
    constructor
    · rw [window_put_of_le _ _ _ _ _ _ (le_refl _) (by omega)]
      exact h.bytes
    · exact window_put_self _ _ _ _ (by omega)

theorem rbRead_empty (h : Represents seg head []) (bufLen : UInt32) :
    rbRead rb seg bufLen = some (seg, none) := by
  have hused : (rbUsed seg.hdr).toNat < 4 := by
    rw [h.toNat_rbUsed]
    decide
  rw [rbRead]
  exact if_pos hused

/-- The oldest record read back: its prefix, and its payload behind the prefix. -/
theorem front {payload : List UInt8} (h : Represents seg head (payload :: items)) :
    window seg.data seg.hdr.capacity.toNat head 4 = lenBytes (UInt32.ofNat payload.length) ∧
      window seg.data seg.hdr.capacity.toNat (head + 4) payload.length = payload ∧
      window seg.data seg.hdr.capacity.toNat (head + (record payload).length)
        (stream items).length = stream items := by
  have hbytes := h.bytes
  rw [stream_cons, window_eq_append_iff] at hbytes
  obtain ⟨hrecord, hrest⟩ := hbytes
  rw [record, window_eq_append_iff] at hrecord
  exact ⟨hrecord.1, hrecord.2, hrest⟩

theorem rbRead_cons {payload : List UInt8} (h : Represents seg head (payload :: items))
    (hmap : seg.hdr.capacity.toNat ≤ rb.dataLength) (bufLen : UInt32) :
    rbRead rb seg bufLen =
      if payload.length ≤ bufLen.toNat then
        some ({ seg with hdr := { seg.hdr with
                  head := UInt32.ofNat (head + (record payload).length) } }, some payload)
      else some (seg, none) := by
  obtain ⟨hlenBytes, hpayload, -⟩ := h.front
  have hp := h.storable payload (List.mem_cons_self ..)
  have hused := h.toNat_rbUsed
  rw [stream_cons, List.length_append, record_length] at hused
  have hlen := toNat_ofNat_length hp
  have hadvance : UInt32.ofNat (head + 4) + UInt32.ofNat payload.length =
      UInt32.ofNat (head + (record payload).length) := by
    rw [← UInt32.ofNat_add, record_length, Nat.add_assoc]
  rw [rbRead]
  simp only [h.head_eq, loadBytes_eq h.capacity hmap, hlenBytes, Option.bind_some,
    assembleLen_lenBytes, hlen, ofNat_add_four, hpayload, Option.map_some, hadvance]
  rw [if_neg (by omega), if_neg (by omega)]
  by_cases hbuf : payload.length ≤ bufLen.toNat
  · rw [if_pos hbuf, if_neg]
    rw [UInt32.lt_iff_toNat_lt, hlen]
    omega
  · rw [if_neg hbuf, if_pos]
    rw [UInt32.lt_iff_toNat_lt, hlen]
    omega

/-- Moving the head past the oldest record represents the rest of the queue. -/
theorem tail {payload : List UInt8} (h : Represents seg head (payload :: items)) :
    Represents { seg with hdr := { seg.hdr with
        head := UInt32.ofNat (head + (record payload).length) } }
      (head + (record payload).length) items := by
  have hbounded := h.bounded
  have htail := h.tail_eq
  rw [stream_cons, List.length_append] at hbounded htail
  refine
    { capacity := h.capacity
      head_eq := rfl
      tail_eq := ?_
      bounded := ?_
      storable := fun p hp => h.storable p (List.mem_cons_of_mem _ hp)
      bytes := h.front.2.2 }
  · rw [Nat.add_assoc]
    exact htail
  · dsimp only
    omega

end Represents

/-- The concrete ring behind a handle and the abstract ring agree. -/
structure Simulates {cap : ℕ} (rb : RingBuffer) (seg : Segment) (s : Fifo cap) : Prop where
  mapped : cap ≤ rb.dataLength
  capacity_eq : seg.hdr.capacity.toNat = cap
  represents : ∃ head, Represents seg head s.queue.items
  dropped_eq : seg.hdr.dropped.toNat = s.dropped

def Call.Valid : Call → Prop
  | .write data => Storable data
  | _ => True

theorem perform_write {cap : ℕ} {rb : RingBuffer} {seg : Segment} {s : Fifo cap}
    (h : Simulates rb seg s) {data : List UInt8} (hdata : Storable data) :
    ∃ seg', performCall rb seg (.write data) = some (seg', (s.perform (.write data)).2) ∧
      Simulates rb seg' (s.perform (.write data)).1 := by
  obtain ⟨head, hrep⟩ := h.represents
  have hmap : seg.hdr.capacity.toNat ≤ rb.dataLength := h.capacity_eq ▸ h.mapped
  by_cases hfits : recordCost data + load recordCost s.queue.items ≤ cap - 1
  · obtain ⟨queue, hoffer, hitems⟩ := s.queue.offer_of_le data hfits
    rw [load_recordCost] at hfits
    have hroom : recordCost data + (stream s.queue.items).length ≤
        seg.hdr.capacity.toNat - 1 := by
      have hcap := h.capacity_eq
      omega
    simp only [performCall, hrep.rbWrite_fits hdata hmap hroom, Fifo.perform, hoffer,
      Option.map_some]
    exact ⟨_, rfl, h.mapped, h.capacity_eq, ⟨head, hitems ▸ hrep.append hdata hroom⟩,
      h.dropped_eq⟩
  · have hoffer := s.queue.offer_of_lt data (by omega)
    rw [load_recordCost] at hfits
    have hfull : seg.hdr.capacity.toNat - 1 <
        recordCost data + (stream s.queue.items).length := by
      have hcap := h.capacity_eq
      omega
    simp only [performCall, hrep.rbWrite_full hdata hfull, Fifo.perform, hoffer,
      Option.map_some]
    refine ⟨_, rfl, h.mapped, h.capacity_eq, ⟨head, ?_⟩, ?_⟩
    · exact ⟨hrep.capacity, hrep.head_eq, hrep.tail_eq, hrep.bounded, hrep.storable, hrep.bytes⟩
    · have hone : (1 : UInt32).toNat = 1 := by decide
      rw [UInt32.toNat_add, h.dropped_eq, hone]

theorem perform_read {cap : ℕ} {rb : RingBuffer} {seg : Segment} {s : Fifo cap}
    (h : Simulates rb seg s) (bufLen : UInt32) :
    ∃ seg', performCall rb seg (.read bufLen) = some (seg', (s.perform (.read bufLen)).2) ∧
      Simulates rb seg' (s.perform (.read bufLen)).1 := by
  obtain ⟨head, hrep⟩ := h.represents
  have hmap : seg.hdr.capacity.toNat ≤ rb.dataLength := h.capacity_eq ▸ h.mapped
  cases hitems : s.queue.items with
  | nil =>
    rw [hitems] at hrep
    have hpoll := s.queue.poll_of_nil
      (fun payload => decide (payload.length ≤ bufLen.toNat)) hitems
    simp only [performCall, hrep.rbRead_empty, Fifo.perform, hpoll, Option.map_some]
    exact ⟨seg, rfl, h⟩
  | cons payload items =>
    rw [hitems] at hrep
    by_cases hbuf : payload.length ≤ bufLen.toNat
    · obtain ⟨queue, hpoll, hrest⟩ := s.queue.poll_of_fits
        (fun payload => decide (payload.length ≤ bufLen.toNat)) hitems (decide_eq_true hbuf)
      simp only [performCall, hrep.rbRead_cons hmap, if_pos hbuf, Fifo.perform, hpoll,
        Option.map_some]
      exact ⟨_, rfl, h.mapped, h.capacity_eq, ⟨_, hrest ▸ hrep.tail⟩, h.dropped_eq⟩
    · have hpoll := s.queue.poll_of_not_fits
        (fun payload => decide (payload.length ≤ bufLen.toNat)) hitems (decide_eq_false hbuf)
      simp only [performCall, hrep.rbRead_cons hmap, if_neg hbuf, Fifo.perform, hpoll,
        Option.map_some]
      exact ⟨seg, rfl, h⟩

theorem perform_stats {cap : ℕ} {rb : RingBuffer} {seg : Segment} {s : Fifo cap}
    (h : Simulates rb seg s) :
    performCall rb seg .stats = some (seg, (s.perform .stats).2) := by
  obtain ⟨head, hrep⟩ := h.represents
  simp only [performCall, rbStats, Fifo.perform, hrep.toNat_rbUsed, hrep.toNat_rbFree,
    h.capacity_eq, h.dropped_eq, load_recordCost]

/-- One call gives the abstract reply and keeps the two rings in agreement. -/
theorem perform_simulates {cap : ℕ} {rb : RingBuffer} {seg : Segment} {s : Fifo cap}
    (h : Simulates rb seg s) {call : Call} (hcall : call.Valid) :
    ∃ seg', performCall rb seg call = some (seg', (s.perform call).2) ∧
      Simulates rb seg' (s.perform call).1 := by
  cases call with
  | write data => exact perform_write h hcall
  | read bufLen => exact perform_read h bufLen
  | stats => exact ⟨seg, perform_stats h, h⟩

theorem run_simulates {cap : ℕ} {rb : RingBuffer} (calls : List Call) {seg : Segment}
    {s : Fifo cap} (h : Simulates rb seg s) (hcalls : ∀ call ∈ calls, call.Valid) :
    ∃ seg', runCalls rb seg calls = some (seg', (s.run calls).2) ∧
      Simulates rb seg' (s.run calls).1 := by
  induction calls generalizing seg s with
  | nil => exact ⟨seg, rfl, h⟩
  | cons call calls ih =>
    obtain ⟨mid, hcall, hmid⟩ := perform_simulates h (hcalls call (List.mem_cons_self ..))
    obtain ⟨seg', hrun, hend⟩ := ih hmid (fun c hc => hcalls c (List.mem_cons_of_mem _ hc))
    refine ⟨seg', ?_, hend⟩
    simp only [runCalls, hcall, Option.bind_some, hrun, Option.map_some, Fifo.run]

/-- What a successful `rbCreate` returns. -/
theorem rbCreate_some {os : OsCalls} {found after : Option Segment} {capacity : UInt32}
    {create : Bool} {rb : RingBuffer} (h : rbCreate os found capacity create = (some rb, after)) :
    PowerOfTwo (effectiveCapacity capacity) ∧
      rb.dataLength = (effectiveCapacity capacity).toNat ∧
      after = if create then some (freshSegment (effectiveCapacity capacity)) else found := by
  have hne : effectiveCapacity capacity ≠ 0 := by
    unfold effectiveCapacity
    split
    · decide
    · assumption
  unfold rbCreate at h
  dsimp only at h
  split at h
  · cases h
  rename_i hpow
  split at h
  · cases h
  split at h
  · cases h
  split at h
  · cases h
  refine ⟨(and_pred_eq_zero_iff hne).mp (not_not.mp hpow), ?_⟩
  split at h <;> cases h <;> rename_i hcreate <;> simp [RingBuffer.dataLength, hcreate]

/-- A freshly created ring is the empty queue. -/
theorem fresh_simulates {rb : RingBuffer} {cap : UInt32} (hcap : PowerOfTwo cap)
    (hmap : rb.dataLength = cap.toNat) :
    Simulates rb (freshSegment cap) (Fifo.empty : Fifo cap.toNat) where
  mapped := hmap.ge
  capacity_eq := rfl
  represents := ⟨0, Represents.fresh hcap⟩
  dropped_eq := rfl

/-- Complete calls on a freshly created ring are never out of the mapping and get
exactly the replies of the bounded FIFO queue, through any number of wraps. -/
theorem ring_is_bounded_fifo (os : OsCalls) (found : Option Segment) (capacity : UInt32)
    (rb : RingBuffer) (seg : Segment)
    (hcreate : rbCreate os found capacity true = (some rb, some seg)) (calls : List Call)
    (hwrites : ∀ data, Call.write data ∈ calls → 1 ≤ data.length ∧ data.length < 2 ^ 18) :
    ∃ seg', runCalls rb seg calls =
      some (seg', ((Fifo.empty : Fifo (effectiveCapacity capacity).toNat).run calls).2) := by
  obtain ⟨hcap, hmap, hseg⟩ := rbCreate_some hcreate
  cases hseg
  have hvalid : ∀ call ∈ calls, call.Valid := by
    intro call hcall
    cases call with
    | write data =>
      have hlen := hwrites data hcall
      exact ⟨hlen.1, by omega⟩
    | read bufLen => trivial
    | stats => trivial
  obtain ⟨seg', hrun, -⟩ := run_simulates calls (fresh_simulates hcap hmap) hvalid
  exact ⟨seg', hrun⟩

/-- The smallest ring that can hold a record accepts one, refuses a second and
gives the first one back. -/
theorem ring_is_bounded_fifo_eight :
    ∃ seg', runCalls ⟨72⟩ (freshSegment 8) [.write [7, 9], .write [1], .read 64, .stats] =
      some (seg', [.wrote true, .wrote false, .record (some [7, 9]), .stats 0 7 1]) :=
  ring_is_bounded_fifo ⟨true, true, true⟩ none 8 ⟨72⟩ (freshSegment 8) (by rfl)
    [.write [7, 9], .write [1], .read 64, .stats]
    (by
      intro data hdata
      simp only [List.mem_cons, Call.write.injEq, List.not_mem_nil, reduceCtorEq, or_false] at hdata
      rcases hdata with rfl | rfl <;> decide)

end HpcProfiler.RingFifo
