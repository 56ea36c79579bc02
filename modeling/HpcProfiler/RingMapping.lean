import HpcProfiler.RingFifo

/-!
Two handles on one segment. The creating handle maps as many data bytes as the
header's capacity says; a handle that opens the segment maps as many as its own
argument says, while its calls still index by the header's capacity. An access
outside a handle's own mapping makes the call fail, so a run that succeeds is one
whose data indices all lie inside the mappings they are used through.
-/

namespace HpcProfiler.RingMapping

open CyclicCells WrappingCounter SharedRing RingRecords RingFifo

inductive Side where
  | creator
  | opener
  deriving DecidableEq, Repr

def Side.handle (created opened : RingBuffer) : Side → RingBuffer
  | .creator => created
  | .opener => opened

/-- Calls through either handle, in the order they are made. -/
def runShared (created opened : RingBuffer) (seg : Segment) :
    List (Side × Call) → Option (Segment × List Reply)
  | [] => some (seg, [])
  | (side, call) :: calls =>
    (performCall (side.handle created opened) seg call).bind fun (seg, reply) =>
      (runShared created opened seg calls).map fun (seg, replies) => (seg, reply :: replies)

theorem exists_ofNat (x : UInt32) : ∃ pos, x = UInt32.ofNat pos :=
  ⟨x.toNat, UInt32.ofNat_toNat.symm⟩

theorem storeBytes_mapped {rb : RingBuffer} {cap : UInt32} (hcap : PowerOfTwo cap)
    (hmap : cap.toNat ≤ rb.dataLength) (seg : Segment) (tail : UInt32) (bytes : List UInt8) :
    ∃ seg' tail', storeBytes rb cap seg tail bytes = some (seg', tail') ∧ seg'.hdr = seg.hdr := by
  obtain ⟨pos, rfl⟩ := exists_ofNat tail
  exact ⟨_, _, storeBytes_eq hcap hmap bytes seg pos, rfl⟩

theorem loadBytes_mapped {rb : RingBuffer} {cap : UInt32} (hcap : PowerOfTwo cap)
    (hmap : cap.toNat ≤ rb.dataLength) (seg : Segment) (head : UInt32) (n : ℕ) :
    ∃ bytes, loadBytes rb seg cap head n = some bytes := by
  obtain ⟨pos, rfl⟩ := exists_ofNat head
  exact ⟨_, loadBytes_eq hcap hmap seg pos n⟩

theorem rbWrite_mapped {rb : RingBuffer} {seg : Segment} (hcap : PowerOfTwo seg.hdr.capacity)
    (hmap : seg.hdr.capacity.toNat ≤ rb.dataLength) (data : List UInt8) (len : UInt32)
    (hlen : len.toNat ≤ data.length) :
    ∃ seg' ok, rbWrite rb seg data len = some (seg', ok) ∧
      seg'.hdr.capacity = seg.hdr.capacity := by
  unfold rbWrite
  by_cases h0 : len = 0
  · exact ⟨seg, false, if_pos h0, rfl⟩
  rw [if_neg h0]
  by_cases hfull : rbFree seg.hdr < 4 + len
  · exact ⟨_, false, if_pos hfull, rfl⟩
  simp only [if_neg hfull, callerBytes, if_pos hlen, Option.bind_some]
  obtain ⟨seg₁, tail₁, h₁, hhdr₁⟩ :=
    storeBytes_mapped hcap hmap seg seg.hdr.tail (lenBytes len)
  obtain ⟨seg₂, tail₂, h₂, hhdr₂⟩ :=
    storeBytes_mapped hcap hmap seg₁ tail₁ (data.take len.toNat)
  simp only [h₁, Option.bind_some, h₂, Option.map_some]
  exact ⟨_, true, rfl, by rw [hhdr₂, hhdr₁]⟩

theorem rbRead_mapped {rb : RingBuffer} {seg : Segment} (hcap : PowerOfTwo seg.hdr.capacity)
    (hmap : seg.hdr.capacity.toNat ≤ rb.dataLength) (bufLen : UInt32) :
    ∃ seg' payload, rbRead rb seg bufLen = some (seg', payload) ∧
      seg'.hdr.capacity = seg.hdr.capacity := by
  unfold rbRead
  dsimp only
  by_cases hused : (rbUsed seg.hdr).toNat < 4
  · exact ⟨seg, none, if_pos hused, rfl⟩
  rw [if_neg hused]
  obtain ⟨peeked, hpeeked⟩ := loadBytes_mapped hcap hmap seg seg.hdr.head 4
  rw [hpeeked, Option.bind_some]
  by_cases hpart : (rbUsed seg.hdr).toNat < 4 + (assembleLen peeked).toNat
  · exact ⟨seg, none, if_pos hpart, rfl⟩
  rw [if_neg hpart]
  by_cases hbuf : bufLen < assembleLen peeked
  · exact ⟨seg, none, if_pos hbuf, rfl⟩
  rw [if_neg hbuf]
  obtain ⟨payload, hpayload⟩ :=
    loadBytes_mapped hcap hmap seg (seg.hdr.head + 4) (assembleLen peeked).toNat
  rw [hpayload, Option.map_some]
  exact ⟨_, some payload, rfl, rfl⟩

/-- No call faults through a handle that maps the whole capacity, whatever its
arguments and whatever the counters hold. -/
theorem performCall_mapped {rb : RingBuffer} {seg : Segment} (hcap : PowerOfTwo seg.hdr.capacity)
    (hmap : seg.hdr.capacity.toNat ≤ rb.dataLength) (call : Call) :
    ∃ seg' reply, performCall rb seg call = some (seg', reply) ∧
      seg'.hdr.capacity = seg.hdr.capacity := by
  cases call with
  | write data =>
    have hlen : (UInt32.ofNat data.length).toNat ≤ data.length := by
      rw [UInt32.toNat_ofNat']
      exact Nat.mod_le _ _
    obtain ⟨seg', ok, hwrite, hseg'⟩ := rbWrite_mapped hcap hmap data _ hlen
    rw [performCall, hwrite]
    exact ⟨seg', .wrote ok, rfl, hseg'⟩
  | read bufLen =>
    obtain ⟨seg', payload, hread, hseg'⟩ := rbRead_mapped hcap hmap bufLen
    rw [performCall, hread]
    exact ⟨seg', .record payload, rfl, hseg'⟩
  | stats => exact ⟨seg, _, rfl, rfl⟩

/-! A call that succeeds has the same result through a larger mapping. -/

theorem storeBytes_widen {rb wide : RingBuffer} (hle : rb.dataLength ≤ wide.dataLength)
    {cap : UInt32} {bytes : List UInt8} {seg : Segment} {tail : UInt32} {r : Segment × UInt32}
    (h : storeBytes rb cap seg tail bytes = some r) :
    storeBytes wide cap seg tail bytes = some r := by
  induction bytes generalizing seg tail with
  | nil => exact h
  | cons b bs ih =>
    rw [storeBytes, Option.bind_eq_some_iff] at h ⊢
    obtain ⟨mid, hstore, hrest⟩ := h
    refine ⟨mid, ?_, ih hrest⟩
    unfold RingBuffer.store at hstore ⊢
    by_cases hin : (tail &&& (cap - 1)).toNat < rb.dataLength
    · rw [if_pos hin] at hstore
      rw [if_pos (by omega), hstore]
    · rw [if_neg hin] at hstore
      cases hstore

theorem loadBytes_widen {rb wide : RingBuffer} (hle : rb.dataLength ≤ wide.dataLength)
    {seg : Segment} {cap : UInt32} {n : ℕ} {head : UInt32} {bytes : List UInt8}
    (h : loadBytes rb seg cap head n = some bytes) :
    loadBytes wide seg cap head n = some bytes := by
  induction n generalizing head bytes with
  | zero => exact h
  | succ n ih =>
    rw [loadBytes, Option.bind_eq_some_iff] at h ⊢
    obtain ⟨b, hload, hrest⟩ := h
    obtain ⟨bs, hbs, hcons⟩ := Option.map_eq_some_iff.mp hrest
    refine ⟨b, ?_, Option.map_eq_some_iff.mpr ⟨bs, ih hbs, hcons⟩⟩
    unfold RingBuffer.load at hload ⊢
    by_cases hin : (head &&& (cap - 1)).toNat < rb.dataLength
    · rw [if_pos hin] at hload
      rw [if_pos (by omega), hload]
    · rw [if_neg hin] at hload
      cases hload

theorem rbWrite_widen {rb wide : RingBuffer} (hle : rb.dataLength ≤ wide.dataLength)
    {seg : Segment} {data : List UInt8} {len : UInt32} {r : Segment × Bool}
    (h : rbWrite rb seg data len = some r) : rbWrite wide seg data len = some r := by
  unfold rbWrite at h ⊢
  by_cases h0 : len = 0
  · rw [if_pos h0] at h ⊢
    exact h
  rw [if_neg h0] at h ⊢
  dsimp only at h ⊢
  by_cases hfull : rbFree seg.hdr < 4 + len
  · rw [if_pos hfull] at h ⊢
    exact h
  rw [if_neg hfull] at h ⊢
  simp only [Option.bind_eq_some_iff, Option.map_eq_some_iff] at h ⊢
  obtain ⟨payload, hpayload, ⟨seg₁, tail₁⟩, h₁, ⟨seg₂, tail₂⟩, h₂, hr⟩ := h
  exact ⟨payload, hpayload, (seg₁, tail₁), storeBytes_widen hle h₁, (seg₂, tail₂),
    storeBytes_widen hle h₂, hr⟩

theorem rbRead_widen {rb wide : RingBuffer} (hle : rb.dataLength ≤ wide.dataLength)
    {seg : Segment} {bufLen : UInt32} {r : Segment × Option (List UInt8)}
    (h : rbRead rb seg bufLen = some r) : rbRead wide seg bufLen = some r := by
  unfold rbRead at h ⊢
  dsimp only at h ⊢
  by_cases hused : (rbUsed seg.hdr).toNat < 4
  · rw [if_pos hused] at h ⊢
    exact h
  rw [if_neg hused, Option.bind_eq_some_iff] at h ⊢
  obtain ⟨peeked, hpeeked, hrest⟩ := h
  refine ⟨peeked, loadBytes_widen hle hpeeked, ?_⟩
  by_cases hpart : (rbUsed seg.hdr).toNat < 4 + (assembleLen peeked).toNat
  · rw [if_pos hpart] at hrest ⊢
    exact hrest
  rw [if_neg hpart] at hrest ⊢
  by_cases hbuf : bufLen < assembleLen peeked
  · rw [if_pos hbuf] at hrest ⊢
    exact hrest
  rw [if_neg hbuf, Option.map_eq_some_iff] at hrest ⊢
  obtain ⟨payload, hpayload, hr⟩ := hrest
  exact ⟨payload, loadBytes_widen hle hpayload, hr⟩

/-- A handle that maps all of the segment's data and at least as much as another. -/
def widened (rb : RingBuffer) (seg : Segment) : RingBuffer :=
  ⟨HEADER_SIZE + max rb.dataLength seg.hdr.capacity.toNat⟩

theorem widened_dataLength (rb : RingBuffer) (seg : Segment) :
    (widened rb seg).dataLength = max rb.dataLength seg.hdr.capacity.toNat := by
  unfold widened RingBuffer.dataLength
  exact Nat.add_sub_cancel_left _ _

theorem le_widened (rb : RingBuffer) (seg : Segment) :
    rb.dataLength ≤ (widened rb seg).dataLength := by
  rw [widened_dataLength]
  exact le_max_left _ _

theorem capacity_le_widened (rb : RingBuffer) (seg : Segment) :
    seg.hdr.capacity.toNat ≤ (widened rb seg).dataLength := by
  rw [widened_dataLength]
  exact le_max_right _ _

section

variable {rb : RingBuffer} {seg seg' : Segment} {head : ℕ} {items : List (List UInt8)}

/-- A write that does not fault appends its payload or leaves the queue as it is. -/
theorem write_result (h : Represents seg head items) {payload : List UInt8} {ok : Bool}
    (hp : Storable payload)
    (hwrite : rbWrite rb seg payload (UInt32.ofNat payload.length) = some (seg', ok)) :
    Represents seg' head (if ok then items ++ [payload] else items) := by
  have hmap := capacity_le_widened rb seg
  have hwide := rbWrite_widen (le_widened rb seg) hwrite
  by_cases hfits : recordCost payload + (stream items).length ≤ seg.hdr.capacity.toNat - 1
  · rw [h.rbWrite_fits hp hmap hfits] at hwide
    cases hwide
    exact h.append hp hfits
  · rw [h.rbWrite_full hp (by omega)] at hwide
    cases hwide
    exact ⟨h.capacity, h.head_eq, h.tail_eq, h.bounded, h.storable, h.bytes⟩

/-- A read that does not fault takes the oldest payload, unless there is none or it
is longer than the buffer. -/
theorem read_result (h : Represents seg head items) {bufLen : UInt32}
    {result : Option (List UInt8)} (hread : rbRead rb seg bufLen = some (seg', result)) :
    (result = none ∧ seg' = seg ∧ ∀ payload ∈ items.head?, bufLen.toNat < payload.length) ∨
      ∃ payload rest head', items = payload :: rest ∧ result = some payload ∧
        payload.length ≤ bufLen.toNat ∧ Represents seg' head' rest := by
  have hmap := capacity_le_widened rb seg
  have hwide := rbRead_widen (le_widened rb seg) hread
  cases items with
  | nil =>
    rw [h.rbRead_empty] at hwide
    cases hwide
    exact Or.inl ⟨rfl, rfl, by simp⟩
  | cons payload rest =>
    rw [h.rbRead_cons hmap] at hwide
    by_cases hbuf : payload.length ≤ bufLen.toNat
    · rw [if_pos hbuf] at hwide
      cases hwide
      exact Or.inr ⟨payload, rest, _, rfl, rfl, hbuf, h.tail⟩
    · rw [if_neg hbuf] at hwide
      cases hwide
      refine Or.inl ⟨rfl, rfl, ?_⟩
      intro p hp
      cases hp
      omega

/-- A read that has found a payload has found the oldest, and has moved the head behind it. -/
theorem read_record (h : Represents seg head items) {bufLen : UInt32} {payload : List UInt8}
    (hread : rbRead rb seg bufLen = some (seg', some payload)) :
    ∃ rest, items = payload :: rest ∧ seg' = { seg with hdr := { seg.hdr with
      head := UInt32.ofNat (head + (record payload).length) } } := by
  have hmap := capacity_le_widened rb seg
  have hwide := rbRead_widen (le_widened rb seg) hread
  cases items with
  | nil =>
    rw [h.rbRead_empty] at hwide
    cases hwide
  | cons first rest =>
    rw [h.rbRead_cons hmap] at hwide
    split at hwide
    · cases hwide
      exact ⟨rest, rfl, rfl⟩
    · cases hwide

end

theorem runShared_mapped {created opened : RingBuffer} (calls : List (Side × Call))
    {seg : Segment} (hcap : PowerOfTwo seg.hdr.capacity)
    (hcreated : seg.hdr.capacity.toNat ≤ created.dataLength)
    (hopened : seg.hdr.capacity.toNat ≤ opened.dataLength) :
    (runShared created opened seg calls).isSome := by
  induction calls generalizing seg with
  | nil => rfl
  | cons entry calls ih =>
    obtain ⟨side, call⟩ := entry
    have hmap : seg.hdr.capacity.toNat ≤ (side.handle created opened).dataLength := by
      cases side with
      | creator => exact hcreated
      | opener => exact hopened
    obtain ⟨seg', reply, hcall, hseg'⟩ := performCall_mapped hcap hmap call
    have hrest : (runShared created opened seg' calls).isSome :=
      ih (hseg' ▸ hcap) (hseg' ▸ hcreated) (hseg' ▸ hopened)
    rw [runShared, hcall, Option.bind_some, Option.isSome_map]
    exact hrest

theorem runCalls_capacity {rb : RingBuffer} (calls : List Call) {seg seg' : Segment}
    {replies : List Reply} (hcap : PowerOfTwo seg.hdr.capacity)
    (hmap : seg.hdr.capacity.toNat ≤ rb.dataLength)
    (h : runCalls rb seg calls = some (seg', replies)) :
    seg'.hdr.capacity = seg.hdr.capacity := by
  induction calls generalizing seg replies with
  | nil =>
    cases h
    rfl
  | cons call calls ih =>
    obtain ⟨mid, reply, hcall, hmid⟩ := performCall_mapped hcap hmap call
    rw [runCalls, hcall, Option.bind_some, Option.map_eq_some_iff] at h
    obtain ⟨⟨seg'', rest⟩, hrun, heq⟩ := h
    cases heq
    exact (ih (hmid ▸ hcap) (hmid ▸ hmap) hrun).trans hmid

/-- A store loop that comes to an index outside the mapping fails. -/
theorem storeBytes_unmapped (rb : RingBuffer) {cap : UInt32} (hcap : PowerOfTwo cap)
    (bytes : List UInt8) (seg : Segment) (pos i : ℕ) (hi : i < bytes.length)
    (hout : rb.dataLength ≤ (pos + i) % cap.toNat) :
    storeBytes rb cap seg (UInt32.ofNat pos) bytes = none := by
  induction bytes generalizing seg pos i with
  | nil => simp at hi
  | cons b bs ih =>
    have hidx := hcap.toNat_mask pos
    rw [storeBytes, RingBuffer.store, hidx]
    cases i with
    | zero =>
      rw [Nat.add_zero] at hout
      rw [if_neg (by omega)]
      rfl
    | succ i =>
      by_cases hin : pos % cap.toNat < rb.dataLength
      · rw [if_pos hin, Option.bind_some, ofNat_succ]
        apply ih _ _ i
        · simpa using hi
        · rwa [show pos + 1 + i = pos + (i + 1) by omega]
      · rw [if_neg hin]
        rfl

/-- A full revolution of positions meets every index below the capacity. -/
theorem exists_offset_mod {N : ℕ} (pos c : ℕ) (hc : c < N) : ∃ i, i < N ∧ (pos + i) % N = c := by
  have hr : pos % N < N := Nat.mod_lt _ (by omega)
  by_cases hle : pos % N ≤ c
  · refine ⟨c - pos % N, by omega, ?_⟩
    rw [Nat.add_mod, Nat.mod_eq_of_lt (show c - pos % N < N by omega),
      show pos % N + (c - pos % N) = c by omega, Nat.mod_eq_of_lt hc]
  · refine ⟨N + c - pos % N, by omega, ?_⟩
    rw [Nat.add_mod, Nat.mod_eq_of_lt (show N + c - pos % N < N by omega),
      show pos % N + (N + c - pos % N) = c + N by omega, Nat.add_mod_right, Nat.mod_eq_of_lt hc]

/-- The longest data a call can name: its record size wraps to zero, so the free
space check always lets it through, and it passes every index of the ring. -/
def longestData : List UInt8 := List.replicate (2 ^ 32 - 4) 0

theorem longestData_unmapped (rb : RingBuffer) {seg : Segment}
    (hcap : PowerOfTwo seg.hdr.capacity) (hout : rb.dataLength < seg.hdr.capacity.toNat) :
    performCall rb seg (.write longestData) = none := by
  have hlen : longestData.length = 2 ^ 32 - 4 := List.length_replicate
  have hlt : seg.hdr.capacity.toNat < 2 ^ 32 := seg.hdr.capacity.toNat_lt
  have hword : (UInt32.ofNat longestData.length).toNat = 2 ^ 32 - 4 := by
    rw [hlen, UInt32.toNat_ofNat']
    norm_num
  have h0 : UInt32.ofNat longestData.length ≠ 0 := by
    intro h
    rw [h] at hword
    exact absurd hword (by decide)
  have hsize : 4 + UInt32.ofNat longestData.length = 0 := by
    apply UInt32.toNat_inj.mp
    rw [UInt32.toNat_add, hword]
    decide
  have hroom : ¬ rbFree seg.hdr < 4 + UInt32.ofNat longestData.length := by
    rw [hsize, UInt32.lt_iff_toNat_lt]
    exact Nat.not_lt_zero _
  have hbytes : callerBytes longestData (UInt32.ofNat longestData.length) = some longestData := by
    rw [callerBytes, hword, if_pos hlen.ge, ← hlen, List.take_length]
  rw [performCall, rbWrite, if_neg h0]
  simp only [if_neg hroom, hbytes, Option.bind_some]
  cases hfirst : storeBytes rb seg.hdr.capacity seg seg.hdr.tail
      (lenBytes (UInt32.ofNat longestData.length)) with
  | none => rfl
  | some stored =>
    obtain ⟨seg₁, tail₁⟩ := stored
    obtain ⟨i, hi, hmod⟩ := exists_offset_mod tail₁.toNat rb.dataLength hout
    obtain ⟨k, hk⟩ := hcap
    have hhalf : seg.hdr.capacity.toNat ≤ 2 ^ 31 := by
      rw [hk] at hlt ⊢
      have hk31 := (Nat.pow_lt_pow_iff_right (a := 2) (by norm_num)).mp hlt
      exact Nat.pow_le_pow_right (by norm_num) (by omega)
    have hfail := storeBytes_unmapped rb ⟨k, hk⟩ longestData seg₁ tail₁.toNat i
      (by rw [hlen]; omega) hmod.ge
    rw [UInt32.ofNat_toNat] at hfail
    simp only [Option.bind_some, hfail, Option.map_none]

/-- Runs through both handles stay inside both mappings exactly when the opener
maps at least the capacity the segment was created with. -/
theorem shared_handles_mapped_iff (os os' : OsCalls) (found after : Option Segment)
    (capacity capacity' : UInt32) (created opened : RingBuffer) (seg s : Segment)
    (before : List Call) (replies : List Reply)
    (hcreate : rbCreate os found capacity true = (some created, some seg))
    (hbefore : runCalls created seg before = some (s, replies))
    (hopen : rbCreate os' (some s) capacity' false = (some opened, after)) :
    (∀ calls : List (Side × Call), (runShared created opened s calls).isSome) ↔
      (effectiveCapacity capacity).toNat ≤ (effectiveCapacity capacity').toNat := by
  obtain ⟨hcap, hcreated, hseg⟩ := rbCreate_some hcreate
  obtain ⟨-, hopened, -⟩ := rbCreate_some hopen
  cases hseg
  have hs : s.hdr.capacity = effectiveCapacity capacity :=
    runCalls_capacity before hcap hcreated.ge hbefore
  rw [← hs] at hcap hcreated ⊢
  rw [← hopened]
  constructor
  · intro hall
    by_contra hlt
    have hfail := longestData_unmapped opened hcap (by omega)
    have hrun := hall [(.opener, .write longestData)]
    rw [runShared, Side.handle, hfail] at hrun
    cases hrun
  · intro hle calls
    exact runShared_mapped calls hcap hcreated.ge hle

theorem shared_handles_mapped_iff_eight :
    (∀ calls : List (Side × Call), (runShared ⟨72⟩ ⟨72⟩ (freshSegment 8) calls).isSome) ↔
      (effectiveCapacity 8).toNat ≤ (effectiveCapacity 8).toNat :=
  shared_handles_mapped_iff ⟨true, true, true⟩ ⟨true, true, true⟩ none (some (freshSegment 8))
    8 8 ⟨72⟩ ⟨72⟩ (freshSegment 8) (freshSegment 8) [] [] (by rfl) rfl (by rfl)

/-! The profiler's own sizes: the runner creates with 8 MiB, the target opens with
the 4 MiB default of its bridge. Records as short as those of events without any
names carry the counters past the opener's mapping. -/

theorem storeBytes_append (rb : RingBuffer) (cap : UInt32) (xs ys : List UInt8)
    (seg : Segment) (tail : UInt32) :
    storeBytes rb cap seg tail (xs ++ ys) =
      (storeBytes rb cap seg tail xs).bind fun p => storeBytes rb cap p.1 p.2 ys := by
  induction xs generalizing seg tail with
  | nil => rfl
  | cons x xs ih =>
    simp only [List.cons_append, storeBytes, ih, Option.bind_assoc]

/-- A write that fits but whose record reaches outside the mapping fails. -/
theorem rbWrite_unmapped (rb : RingBuffer) {seg : Segment} {head : ℕ} (i : ℕ)
    {payload : List UInt8} (h : Represents seg head []) (hp : Storable payload)
    (hfits : recordCost payload ≤ seg.hdr.capacity.toNat - 1) (hi : i < (record payload).length)
    (hout : rb.dataLength ≤ (head + i) % seg.hdr.capacity.toNat) :
    rbWrite rb seg payload (UInt32.ofNat payload.length) = none := by
  have hroom : ¬ rbFree seg.hdr < 4 + UInt32.ofNat payload.length := by
    rw [UInt32.lt_iff_toNat_lt, h.toNat_rbFree, toNat_recordSize hp, stream_nil]
    simp only [List.length_nil]
    omega
  have hcaller : callerBytes payload (UInt32.ofNat payload.length) = some payload := by
    rw [callerBytes, toNat_ofNat_length hp, if_pos (le_refl _), List.take_length]
  have hfail := storeBytes_unmapped rb h.capacity (record payload) seg head i hi hout
  rw [record, storeBytes_append] at hfail
  have htail := h.tail_eq
  rw [stream_nil, List.length_nil, Nat.add_zero] at htail
  rw [rbWrite, if_neg (ofNat_length_ne_zero hp)]
  simp only [if_neg hroom, hcaller, Option.bind_some, htail]
  simp only [Option.bind_eq_none_iff, Option.map_eq_none_iff] at hfail ⊢
  exact hfail

/-- A record written and read back through the creating handle, `k` times. -/
def traffic (payload : List UInt8) : ℕ → List (Side × Call)
  | 0 => []
  | k + 1 => (.creator, .write payload) :: (.creator, .read 4096) :: traffic payload k

/-- Traffic moves both counters on and leaves the ring empty. -/
theorem traffic_advances {created opened : RingBuffer} {payload : List UInt8}
    (hp : Storable payload) (hbuf : payload.length ≤ 4096) (k : ℕ)
    (rest : List (Side × Call)) {seg : Segment} {head : ℕ} (h : Represents seg head [])
    (hfits : recordCost payload ≤ seg.hdr.capacity.toNat - 1)
    (hmap : seg.hdr.capacity.toNat ≤ created.dataLength)
    (hrest : ∀ seg', seg'.hdr.capacity = seg.hdr.capacity →
      Represents seg' (head + k * (record payload).length) [] →
      runShared created opened seg' rest = none) :
    runShared created opened seg (traffic payload k ++ rest) = none := by
  induction k generalizing seg head with
  | zero => exact hrest seg rfl (by simpa using h)
  | succ k ih =>
    have hwrite := h.rbWrite_fits hp hmap (by simpa using hfits)
    have hmid := h.append hp (by simpa using hfits)
    have hread := hmid.rbRead_cons hmap 4096
    rw [if_pos (show payload.length ≤ (4096 : UInt32).toNat from hbuf)] at hread
    simp only [traffic, List.cons_append, runShared, Side.handle, performCall, hwrite, hread,
      Option.map_some, Option.bind_some, Option.map_eq_none_iff]
    apply ih hmid.tail hfits hmap
    intro seg' hcap' hrep'
    apply hrest seg' hcap'
    rwa [Nat.succ_mul, Nat.add_comm (k * _), ← Nat.add_assoc]

/-- The payload length of an event whose three names are empty. -/
def namelessPayload : List UInt8 := List.replicate 107 0

theorem default_opener_leaves_mapping :
    ¬ ∀ (os os' : OsCalls) (found after : Option Segment) (capacity capacity' : UInt32)
      (created opened : RingBuffer) (seg s : Segment) (before : List Call) (replies : List Reply),
      rbCreate os found capacity true = (some created, some seg) →
      runCalls created seg before = some (s, replies) →
      rbCreate os' (some s) capacity' false = (some opened, after) →
      ∀ calls : List (Side × Call), (runShared created opened s calls).isSome := by
  intro hclaim
  have hrun := hclaim ⟨true, true, true⟩ ⟨true, true, true⟩ none
    (some (freshSegment (8 * 1024 * 1024))) (8 * 1024 * 1024) 0 ⟨64 + 8 * 1024 * 1024⟩
    ⟨64 + 4 * 1024 * 1024⟩ (freshSegment (8 * 1024 * 1024)) (freshSegment (8 * 1024 * 1024))
    [] [] (by rfl) rfl (by rfl)
    (traffic namelessPayload 37786 ++ [(.opener, .write namelessPayload)])
  have hlen : namelessPayload.length = 107 := List.length_replicate
  have hp : Storable namelessPayload := by
    rw [Storable, hlen]
    omega
  have hcapacity : (8 * 1024 * 1024 : UInt32).toNat = 8388608 := by decide
  have hfresh : Represents (freshSegment (8 * 1024 * 1024)) 0 [] := .fresh ⟨23, hcapacity⟩
  have hcost : recordCost namelessPayload = 111 := by rw [recordCost, hlen]
  have hnone : runShared ⟨64 + 8 * 1024 * 1024⟩ ⟨64 + 4 * 1024 * 1024⟩
      (freshSegment (8 * 1024 * 1024))
      (traffic namelessPayload 37786 ++ [(.opener, .write namelessPayload)]) = none := by
    apply traffic_advances hp (by omega) 37786 _ hfresh
    · rw [hcost, freshSegment, hcapacity]
      omega
    · rw [freshSegment, hcapacity]
      rfl
    · intro seg' hseg' hrep'
      have hcap' : seg'.hdr.capacity.toNat = 8388608 := hseg' ▸ hcapacity
      have hwrite := rbWrite_unmapped ⟨64 + 4 * 1024 * 1024⟩ 58 hrep' hp
        (by rw [hcost, hcap']; omega) (by rw [record_length, hlen]; omega)
        (by
          rw [record_length, hlen, hcap']
          decide)
      rw [runShared, Side.handle, performCall, hwrite]
      rfl
  rw [hnone] at hrun
  cases hrun

end HpcProfiler.RingMapping
