import HpcProfiler.RingMapping
import HpcProfiler.StepSystem

/-!
The ring's invariant under arbitrary 32-bit lengths. A write is admitted by the size
of its record in 32 bits, which wraps for the four longest lengths: such a record
looks no longer than three bytes, and where that much is free it is written over the
whole ring. Runs in which no such write is admitted keep the unread bytes equal to
the records accepted and not yet read; no other run does.
-/

namespace HpcProfiler.RingAdmission

open CyclicCells WrappingCounter SharedRing RingRecords RingMapping StepSystem
open RingFifo (Represents rbCreate_some)

inductive Call where
  | write (data : List UInt8) (len : UInt32)
  | read (bufLen : UInt32)

/-- A ring, and the records accepted and not yet read, the oldest first; no step reads
these. -/
structure RunState where
  seg : Segment
  unread : List (List UInt8)

def start (seg : Segment) : RunState := ⟨seg, []⟩

def afterWrite (s : RunState) (payload : List UInt8) (result : Segment × Bool) : RunState :=
  ⟨result.1, if result.2 then s.unread ++ [payload] else s.unread⟩

def afterRead (s : RunState) (result : Segment × Option (List UInt8)) : RunState :=
  ⟨result.1, if result.2.isSome then s.unread.tail else s.unread⟩

/-- A write is a step where its data is as long as its length says. -/
def step (rb : RingBuffer) (s : RunState) : Call → Option RunState
  | .write data len =>
    if len.toNat ≤ data.length then
      (rbWrite rb s.seg data len).map (afterWrite s (data.take len.toNat))
    else none
  | .read bufLen => (rbRead rb s.seg bufLen).map (afterRead s)

/-- The bytes between the two counters. -/
def unreadBytes (seg : Segment) : List UInt8 :=
  window seg.data seg.hdr.capacity.toNat seg.hdr.head.toNat (seg.hdr.tail - seg.hdr.head).toNat

/-- The distance of the counters leaves a byte of the capacity free, and the bytes
between them are the complete records of the payloads accepted and not yet read. -/
structure Intact (s : RunState) : Prop where
  used_le : (s.seg.hdr.tail - s.seg.hdr.head).toNat ≤ s.seg.hdr.capacity.toNat - 1
  complete : ∀ payload ∈ s.unread, payload.length < 2 ^ 32
  bytes : unreadBytes s.seg = stream s.unread

/-- The call is no write whose record size wraps and then passes for free space. -/
def Admissible (s : RunState) : Call → Prop
  | .write _ len => len.toNat + 4 < 2 ^ 32 ∨ rbFree s.seg.hdr < 4 + len
  | .read _ => True

/-- The ring represents its unread records. -/
def Holds (s : RunState) : Prop := ∃ head, Represents s.seg head s.unread

section

variable {rb : RingBuffer} {s s' : RunState}

theorem window_mod {cells : ℕ → UInt8} {N m pos : ℕ} (h : N ∣ m) (n : ℕ) :
    window cells N (pos % m) n = window cells N pos n := by
  induction n generalizing pos with
  | zero => rfl
  | succ n ih =>
    have hlater := @ih (pos % m + 1)
    rw [Nat.mod_add_mod, ih] at hlater
    rw [window, window, Nat.mod_mod_of_dvd _ h, hlater]

theorem counters_sub {seg : Segment} {head : ℕ} {items : List (List UInt8)}
    (h : Represents seg head items) :
    (seg.hdr.tail - seg.hdr.head).toNat = (stream items).length := by
  have hbounded := h.bounded
  have hcap := seg.hdr.capacity.toNat_lt
  rw [h.tail_eq, h.head_eq, ← UInt32.ofNat_sub (by omega), Nat.add_sub_cancel_left,
    UInt32.toNat_ofNat']
  exact Nat.mod_eq_of_lt (by omega)

theorem Holds.intact (h : Holds s) : Intact s := by
  obtain ⟨head, hrep⟩ := h
  have hbounded := hrep.bounded
  have hused := counters_sub hrep
  refine ⟨by omega, ?_, ?_⟩
  · intro payload hpayload
    have hsize := (hrep.storable payload hpayload).2
    omega
  · unfold unreadBytes
    rw [hused, hrep.head_eq, UInt32.toNat_ofNat', window_mod hrep.capacity.dvd]
    exact hrep.bytes

/-- Only the first bytes of the caller's data take part in a write. -/
theorem rbWrite_take (seg : Segment) {data : List UInt8} {len : UInt32}
    (h : len.toNat ≤ data.length) :
    rbWrite rb seg data len = rbWrite rb seg (data.take len.toNat) len := by
  have hlen : (data.take len.toNat).length = len.toNat := by
    exact List.length_take_of_le h
  have hcaller : callerBytes (data.take len.toNat) len = callerBytes data len := by
    unfold callerBytes
    rw [if_pos h, if_pos (by omega), List.take_take, Nat.min_self]
  unfold rbWrite
  rw [hcaller]

/-- A call to write is refused by its length or by the free space, and then changes no
byte and no counter but the count of dropped records, or it is accepted. -/
theorem rbWrite_cases {seg seg' : Segment} {data : List UInt8} {len : UInt32} {ok : Bool}
    (h : rbWrite rb seg data len = some (seg', ok)) :
    (ok = false ∧ (len = 0 ∨ rbFree seg.hdr < 4 + len) ∧
      ∃ dropped, seg' = { seg with hdr := { seg.hdr with dropped := dropped } }) ∨
    (ok = true ∧ len ≠ 0 ∧ ¬rbFree seg.hdr < 4 + len) := by
  rw [rbWrite] at h
  by_cases hzero : len = 0
  · rw [if_pos hzero] at h
    cases h
    exact Or.inl ⟨rfl, Or.inl hzero, seg.hdr.dropped, rfl⟩
  rw [if_neg hzero] at h
  by_cases hfull : rbFree seg.hdr < 4 + len
  · simp only [if_pos hfull] at h
    cases h
    exact Or.inl ⟨rfl, Or.inr hfull, _, rfl⟩
  · simp only [if_neg hfull, Option.bind_eq_some_iff, Option.map_eq_some_iff] at h
    obtain ⟨payload, -, prefixed, -, written, -, hlast⟩ := h
    exact Or.inr ⟨(congrArg Prod.snd hlast).symm, hzero, hfull⟩

theorem step_write {data : List UInt8} {len : UInt32}
    (hstep : step rb s (.write data len) = some s') :
    len.toNat ≤ data.length ∧ ∃ seg' ok, rbWrite rb s.seg data len = some (seg', ok) ∧
      s' = ⟨seg', if ok then s.unread ++ [data.take len.toNat] else s.unread⟩ := by
  rw [step] at hstep
  by_cases hdata : len.toNat ≤ data.length
  · rw [if_pos hdata, Option.map_eq_some_iff] at hstep
    obtain ⟨⟨seg', ok⟩, hwrite, rfl⟩ := hstep
    exact ⟨hdata, seg', ok, hwrite, rfl⟩
  · rw [if_neg hdata] at hstep
    cases hstep

/-- An admissible write appends its payload or leaves the records alone. -/
theorem Holds.write (h : Holds s) {data : List UInt8} {len : UInt32}
    (hok : Admissible s (.write data len)) (hstep : step rb s (.write data len) = some s') :
    Holds s' := by
  obtain ⟨head, hrep⟩ := h
  obtain ⟨hdata, seg', ok, hwrite, rfl⟩ := step_write hstep
  rcases rbWrite_cases hwrite with ⟨rfl, -, dropped, rfl⟩ | ⟨rfl, hzero, hroom⟩
  · exact ⟨head, hrep.capacity, hrep.head_eq, hrep.tail_eq, hrep.bounded, hrep.storable,
      hrep.bytes⟩
  · have hsize : len.toNat + 4 < 2 ^ 32 := hok.resolve_right hroom
    have hlen : (data.take len.toNat).length = len.toNat := by
      exact List.length_take_of_le hdata
    have hpos : len.toNat ≠ 0 := fun hnil => hzero (UInt32.toNat_inj.mp hnil)
    have hp : Storable (data.take len.toNat) := by
      unfold Storable
      omega
    rw [rbWrite_take _ hdata] at hwrite
    have hsame : rbWrite rb s.seg (data.take len.toNat)
        (UInt32.ofNat (data.take len.toNat).length) = some (seg', true) := by
      rw [hlen, UInt32.ofNat_toNat]
      exact hwrite
    exact ⟨head, write_result hrep hp hsame⟩

theorem Holds.read (h : Holds s) {bufLen : UInt32} (hstep : step rb s (.read bufLen) = some s') :
    Holds s' := by
  obtain ⟨head, hrep⟩ := h
  rw [step, Option.map_eq_some_iff] at hstep
  obtain ⟨⟨seg', result⟩, hread, rfl⟩ := hstep
  rcases read_result hrep hread with ⟨rfl, rfl, -⟩ | ⟨payload, rest, head', hitems, rfl, -, hrest⟩
  · exact ⟨head, hrep⟩
  · refine ⟨head', ?_⟩
    change Represents seg' head' s.unread.tail
    rw [hitems]
    exact hrest

theorem Holds.step {call : Call} (h : Holds s) (hok : Admissible s call)
    (hstep : RingAdmission.step rb s call = some s') : Holds s' := by
  cases call with
  | write data len => exact h.write hok hstep
  | read bufLen => exact h.read hstep

/-- A write whose size wraps and passes for free space leaves the ring without the
record it has accepted. -/
theorem not_intact {call : Call} (hnot : ¬Admissible s call)
    (hstep : step rb s call = some s') : ¬Intact s' := by
  cases call with
  | read bufLen => exact absurd trivial hnot
  | write data len =>
    obtain ⟨hsize, hroom⟩ := not_or.mp hnot
    obtain ⟨hdata, seg', ok, hwrite, rfl⟩ := step_write hstep
    have hzero : len ≠ 0 := by
      rintro rfl
      exact hsize (by decide)
    rcases rbWrite_cases hwrite with ⟨rfl, hrefused, -⟩ | ⟨rfl, -, -⟩
    · exact absurd hrefused (not_or.mpr ⟨hzero, hroom⟩)
    · intro hintact
      have hbytes := congrArg List.length hintact.bytes
      have hused : (seg'.hdr.tail - seg'.hdr.head).toNat < 2 ^ 32 := UInt32.toNat_lt _
      have hlen : (data.take len.toNat).length = len.toNat := by
        exact List.length_take_of_le hdata
      simp only [unreadBytes, window_length, if_true, stream_append, stream_cons, stream_nil,
        List.append_nil, List.length_append, record_length, hlen] at hbytes
      omega

/-- No call leaves the mapping, whatever it does to the records. -/
theorem exists_step (hcap : PowerOfTwo s.seg.hdr.capacity)
    (hmap : s.seg.hdr.capacity.toNat ≤ rb.dataLength) {call : Call}
    (hdata : ∀ data len, call = .write data len → len.toNat ≤ data.length) :
    ∃ s', step rb s call = some s' ∧ s'.seg.hdr.capacity = s.seg.hdr.capacity := by
  cases call with
  | write data len =>
    obtain ⟨seg', ok, hwrite, hsame⟩ := rbWrite_mapped hcap hmap data len (hdata data len rfl)
    refine ⟨afterWrite s (data.take len.toNat) (seg', ok), ?_, hsame⟩
    rw [step, if_pos (hdata data len rfl), hwrite, Option.map_some]
  | read bufLen =>
    obtain ⟨seg', payload, hread, hsame⟩ := rbRead_mapped hcap hmap bufLen
    refine ⟨afterRead s (seg', payload), ?_, hsame⟩
    rw [step, hread, Option.map_some]

theorem exists_run (calls : List Call) (hcap : PowerOfTwo s.seg.hdr.capacity)
    (hmap : s.seg.hdr.capacity.toNat ≤ rb.dataLength)
    (hdata : ∀ data len, Call.write data len ∈ calls → len.toNat ≤ data.length) :
    ∃ s', run (step rb) s calls = some s' := by
  induction calls generalizing s with
  | nil => exact ⟨s, rfl⟩
  | cons call calls ih =>
    obtain ⟨mid, hmid, hsame⟩ := exists_step hcap hmap
      (fun data len hcall => hdata data len (hcall ▸ List.mem_cons_self ..))
    rw [← hsame] at hcap hmap
    obtain ⟨s', hrun⟩ := ih hcap hmap
      (fun data len hcall => hdata data len (List.mem_cons_of_mem _ hcall))
    exact ⟨s', run_cons_eq_some.mpr ⟨mid, hmid, hrun⟩⟩

/-- What an accepted write does to the counters. -/
theorem rbWrite_accepted {seg : Segment} (hcap : PowerOfTwo seg.hdr.capacity)
    (hmap : seg.hdr.capacity.toNat ≤ rb.dataLength) {data : List UInt8} {len : UInt32}
    (hdata : len.toNat ≤ data.length) (hzero : len ≠ 0) (hroom : ¬rbFree seg.hdr < 4 + len) :
    ∃ cells, rbWrite rb seg data len =
      some (⟨{ seg.hdr with tail := seg.hdr.tail + 4 + len }, cells⟩, true) := by
  obtain ⟨pos, hpos⟩ := exists_ofNat seg.hdr.tail
  have hlen : (data.take len.toNat).length = len.toNat := by
    exact List.length_take_of_le hdata
  rw [rbWrite, if_neg hzero]
  simp only [if_neg hroom, callerBytes, if_pos hdata, Option.bind_some, hpos]
  rw [storeBytes_eq hcap hmap]
  simp only [Option.bind_some]
  rw [storeBytes_eq hcap hmap, hlen, lenBytes_length, UInt32.ofNat_add, UInt32.ofNat_add,
    UInt32.ofNat_toNat]
  exact ⟨_, rfl⟩

end

theorem start_holds {cap : UInt32} (hcap : PowerOfTwo cap) : Holds (start (freshSegment cap)) :=
  ⟨0, .fresh hcap⟩

/-- On a freshly created ring of any accepted capacity, no call leaves the mapping, and
every state of a run is intact exactly if every write of the run is admissible. -/
theorem always_intact_iff (os : OsCalls) (found : Option Segment) (capacity : UInt32)
    (rb : RingBuffer) (seg : Segment)
    (hcreate : rbCreate os found capacity true = (some rb, some seg)) (calls : List Call)
    (hdata : ∀ data len, Call.write data len ∈ calls → len.toNat ≤ data.length) :
    (∃ s', run (step rb) (start seg) calls = some s') ∧
      (Always (step rb) Intact (start seg) calls ↔
        Along (step rb) Admissible (start seg) calls) := by
  obtain ⟨hcap, hmap, hseg⟩ := rbCreate_some hcreate
  cases hseg
  obtain ⟨s', hrun⟩ := exists_run (s := start (freshSegment (effectiveCapacity capacity))) calls
    hcap hmap.ge hdata
  refine ⟨⟨s', hrun⟩, ?_⟩
  exact always_iff_along (fun s h => h.intact) (fun s call s' h hok hstep => h.step hok hstep)
    (fun s call s' h hnot hstep => not_intact hnot hstep) (start_holds hcap) hrun

theorem always_intact_iff_eight :
    (∃ s', run (step ⟨72⟩) (start (freshSegment 8)) [.write [7, 9] 2, .read 64] = some s') ∧
      (Always (step ⟨72⟩) Intact (start (freshSegment 8)) [.write [7, 9] 2, .read 64] ↔
        Along (step ⟨72⟩) Admissible (start (freshSegment 8)) [.write [7, 9] 2, .read 64]) :=
  always_intact_iff ⟨true, true, true⟩ none 8 ⟨72⟩ (freshSegment 8) (by rfl) _ (by
    intro data len h
    simp only [List.mem_cons, Call.write.injEq, List.not_mem_nil, reduceCtorEq, or_false] at h
    obtain ⟨rfl, rfl⟩ := h
    decide)

/-- The longest write of all is taken for one of three bytes, and what lies between the
counters afterwards is no sequence of records. -/
theorem longest_write_breaks :
    ¬ ∀ (os : OsCalls) (found : Option Segment) (capacity : UInt32) (rb : RingBuffer)
      (seg : Segment), rbCreate os found capacity true = (some rb, some seg) →
      ∀ calls : List Call,
      (∀ data len, Call.write data len ∈ calls → len.toNat ≤ data.length) →
      ∀ s', run (step rb) (start seg) calls = some s' →
        (s'.seg.hdr.tail - s'.seg.hdr.head).toNat ≤ s'.seg.hdr.capacity.toNat - 1 ∧
        ∃ records, (∀ payload ∈ records, payload.length < 2 ^ 32) ∧
          unreadBytes s'.seg = stream records := by
  intro h
  generalize hbytes : List.replicate (2 ^ 32 - 1) (0 : UInt8) = bytes
  have hlen : bytes.length = 2 ^ 32 - 1 := by rw [← hbytes, List.length_replicate]
  have hmax : (0xFFFFFFFF : UInt32).toNat = 2 ^ 32 - 1 := by decide
  have hdata : (0xFFFFFFFF : UInt32).toNat ≤ bytes.length := by omega
  have hcap : PowerOfTwo (freshSegment 8).hdr.capacity := ⟨3, by decide⟩
  have hmap : (freshSegment 8).hdr.capacity.toNat ≤ (⟨72⟩ : RingBuffer).dataLength := by decide
  obtain ⟨cells, hwrite⟩ := rbWrite_accepted hcap hmap hdata (by decide) (by decide)
  have hstep : step ⟨72⟩ (start (freshSegment 8)) (.write bytes 0xFFFFFFFF) = some
      ⟨⟨{ (freshSegment 8).hdr with tail := 3 }, cells⟩, [bytes.take (2 ^ 32 - 1)]⟩ := by
    rw [step, if_pos (by omega), start, hwrite, hmax]
    rfl
  obtain ⟨-, records, -, hrecords⟩ := h ⟨true, true, true⟩ none 8 ⟨72⟩ (freshSegment 8) (by rfl)
    [.write bytes 0xFFFFFFFF] (by
      intro data len hcall
      simp only [List.mem_cons, Call.write.injEq, List.not_mem_nil, or_false] at hcall
      obtain ⟨rfl, rfl⟩ := hcall
      omega) _ (run_cons_eq_some.mpr ⟨_, hstep, rfl⟩)
  have hcounters : ((3 : UInt32) - 0).toNat = 3 := by decide
  have hthree := congrArg List.length hrecords
  rw [unreadBytes, window_length] at hthree
  change ((3 : UInt32) - 0).toNat = _ at hthree
  rw [hcounters] at hthree
  cases records with
  | nil => simp at hthree
  | cons payload rest =>
    rw [stream_cons, List.length_append, record_length] at hthree
    omega

end HpcProfiler.RingAdmission
