import HpcProfiler.RingFifo
import HpcProfiler.SpscSteps

/-!
The invariant of the interleaved ring. The records published but not yet returned
lie end to end behind the head, every byte of theirs still tagged with its own
record and offset. The producer's old head lies at or behind the current one, so
the free space it computed from it is still free; the bytes it has already stored
lie behind the tail, outside the pending records. The consumer's old tail ends a
prefix of the pending records, so what it decided to read is complete.
-/

namespace HpcProfiler.SpscInvariant

open CyclicCells WrappingCounter SharedRing RingRecords RingFifo SpscSteps StepSystem

/-- A data byte with the record that stored it last and the offset in that record. -/
abbrev Cell := UInt8 × Option (ℕ × ℕ)

def cells (s : Spsc) : ℕ → Cell := fun i => (s.seg.data i, s.owner i)

def tagRecord (n : ℕ) (payload : List UInt8) : List Cell :=
  (record payload).mapIdx fun i b => (b, some (n, i))

def tagStream : ℕ → List (List UInt8) → List Cell
  | _, [] => []
  | n, p :: ps => tagRecord n p ++ tagStream (n + 1) ps

@[simp] theorem tagRecord_length (n : ℕ) (payload : List UInt8) :
    (tagRecord n payload).length = (record payload).length := by
  simp [tagRecord]

theorem tagStream_append (n : ℕ) (ps qs : List (List UInt8)) :
    tagStream n (ps ++ qs) = tagStream n ps ++ tagStream (n + ps.length) qs := by
  induction ps generalizing n with
  | nil => rfl
  | cons p ps ih =>
    rw [List.cons_append, tagStream, ih, tagStream, List.append_assoc, List.length_cons,
      Nat.add_assoc, Nat.add_comm 1]

theorem getElem?_tagRecord (n : ℕ) (payload : List UInt8) (i : ℕ) :
    (tagRecord n payload)[i]? = (record payload)[i]?.map fun b => (b, some (n, i)) := by
  simp [tagRecord]

def ProducerOk (cap H T n : ℕ) (mem : ℕ → Cell) : Producer → Prop
  | .idle => True
  | .loadHead data => Storable data
  | .loadTail data head => Storable data ∧ ∃ h, h ≤ H ∧ head = UInt32.ofNat h ∧ T < h + cap
  | .fetchAddDropped => True
  | .reloadTail data => Storable data ∧ T + recordCost data < H + cap
  | .storing data tail todo =>
    Storable data ∧ T + recordCost data < H + cap ∧
      ∃ done, record data = done ++ todo ∧ tail = UInt32.ofNat (T + done.length) ∧
        window mem cap T done.length = (tagRecord n data).take done.length

def ConsumerOk (H : ℕ) (pending : List (List UInt8)) : Consumer → Prop
  | .idle => True
  | .loadHead _ => True
  | .loadTail _ head => head = UInt32.ofNat H
  | .reloadHead _ used =>
    ∃ p seen rest, pending = p :: (seen ++ rest) ∧ used.toNat = (stream (p :: seen)).length
  | .peeking _ used head i len =>
    head = UInt32.ofNat H ∧ i ≤ 4 ∧
      ∃ p seen rest, pending = p :: (seen ++ rest) ∧ used.toNat = (stream (p :: seen)).length ∧
        len = assembleLenFrom 0 0 ((record p).take i)
  | .copying head len buf =>
    head = UInt32.ofNat (H + 4) ∧
      ∃ p rest, pending = p :: rest ∧ len = UInt32.ofNat p.length ∧
        buf.length ≤ p.length ∧ buf = p.take buf.length

structure Inv (cap : UInt32) (s : Spsc) (pending : List (List UInt8)) : Prop where
  capacity_eq : s.seg.hdr.capacity = cap
  published_eq : s.published = s.returned ++ pending
  storable : ∀ p ∈ pending, Storable p
  head_eq : s.seg.hdr.head = UInt32.ofNat (stream s.returned).length
  tail_eq : s.seg.hdr.tail = UInt32.ofNat (stream s.published).length
  bounded : (stream pending).length < cap.toNat
  cells_eq : window (cells s) cap.toNat (stream s.returned).length (stream pending).length =
    tagStream s.returned.length pending
  producer_ok : ProducerOk cap.toNat (stream s.returned).length (stream s.published).length
    s.published.length (cells s) s.producer
  consumer_ok : ConsumerOk (stream s.returned).length pending s.consumer

/-- Space that was free stays free while the head moves on. -/
theorem ProducerOk.mono_head {cap H H' T n : ℕ} {mem : ℕ → Cell} {p : Producer}
    (h : ProducerOk cap H T n mem p) (hH : H ≤ H') : ProducerOk cap H' T n mem p := by
  cases p with
  | idle => trivial
  | loadHead data => exact h
  | loadTail data head =>
    obtain ⟨hdata, h₀, hle, heq, hlt⟩ := h
    exact ⟨hdata, h₀, hle.trans hH, heq, hlt⟩
  | fetchAddDropped => trivial
  | reloadTail data => exact ⟨h.1, h.2.trans_le (by omega)⟩
  | storing data tail todo => exact ⟨h.1, h.2.1.trans_le (by omega), h.2.2⟩

/-- A record published later does not change what the consumer has seen. -/
theorem ConsumerOk.append {H : ℕ} {pending : List (List UInt8)} {c : Consumer}
    (h : ConsumerOk H pending c) (q : List UInt8) : ConsumerOk H (pending ++ [q]) c := by
  cases c with
  | idle => trivial
  | loadHead bufLen => trivial
  | loadTail bufLen head => exact h
  | reloadHead bufLen used =>
    obtain ⟨p, seen, rest, heq, hused⟩ := h
    exact ⟨p, seen, rest ++ [q], by simp [heq], hused⟩
  | peeking bufLen used head i len =>
    obtain ⟨hhead, hi, p, seen, rest, heq, hused, hlen⟩ := h
    exact ⟨hhead, hi, p, seen, rest ++ [q], by simp [heq], hused, hlen⟩
  | copying head len buf =>
    obtain ⟨hhead, p, rest, heq, hlen⟩ := h
    exact ⟨hhead, p, rest ++ [q], by simp [heq], hlen⟩

theorem cells_store (s : Spsc) (p : Producer) (j : ℕ) (b : UInt8) (tag : Option (ℕ × ℕ)) :
    cells { s with
      seg := { s.seg with data := Function.update s.seg.data j b }
      producer := p
      owner := Function.update s.owner j tag } = Function.update (cells s) j (b, tag) := by
  funext i
  by_cases hi : i = j
  · subst hi
    simp [cells]
  · simp [cells, Function.update_of_ne hi]

theorem assembleLenFrom_snoc (bytes : List UInt8) (i : ℕ) (len : UInt32) (b : UInt8) :
    assembleLenFrom i len (bytes ++ [b]) =
      orLenByte (assembleLenFrom i len bytes) (i + bytes.length) b := by
  induction bytes generalizing i len with
  | nil => rfl
  | cons c cs ih =>
    rw [List.cons_append, assembleLenFrom, ih, assembleLenFrom, List.length_cons, Nat.add_assoc,
      Nat.add_comm 1]

theorem take_succ_of_getElem? {α : Type*} {xs : List α} {i : ℕ} {x : α} (h : xs[i]? = some x) :
    xs.take (i + 1) = xs.take i ++ [x] := by
  rw [List.take_add_one, h]
  rfl

section Steps

variable {cap : UInt32} {s s' : Spsc} {pending : List (List UInt8)}

theorem Inv.tail_length (h : Inv cap s pending) :
    (stream s.published).length = (stream s.returned).length + (stream pending).length := by
  rw [h.published_eq, stream_append, List.length_append]

/-- Each byte of the oldest pending record is in its cell, stored by that record. -/
theorem Inv.front_cell {p : List UInt8} {rest : List (List UInt8)} (h : Inv cap s (p :: rest))
    {i : ℕ} {b : UInt8} (hb : (record p)[i]? = some b) :
    cells s (((stream s.returned).length + i) % cap.toNat) = (b, some (s.returned.length, i)) := by
  have hi : i < (record p).length := (List.getElem?_eq_some_iff.mp hb).1
  have hwin := congrArg (fun l => l[i]?) h.cells_eq
  rw [getElem?_window _ _ _ _ _ (by rw [stream_cons, List.length_append]; omega), tagStream,
    List.getElem?_append_left (by simpa using hi), getElem?_tagRecord, hb] at hwin
  exact Option.some.inj hwin

theorem Inv.load_front (hcap : PowerOfTwo cap) {p : List UInt8} {rest : List (List UInt8)}
    (h : Inv cap s (p :: rest)) {i : ℕ} {b : UInt8} (hb : (record p)[i]? = some b) :
    s.seg.data ((UInt32.ofNat ((stream s.returned).length + i)) &&& (cap - 1)).toNat = b := by
  rw [hcap.toNat_mask]
  exact congrArg Prod.fst (h.front_cell hb)

/-- Only program points change when a call starts or decides locally. -/
theorem Inv.with_producer (h : Inv cap s pending) {p : Producer}
    (hp : ProducerOk cap.toNat (stream s.returned).length (stream s.published).length
      s.published.length (cells s) p) : Inv cap { s with producer := p } pending :=
  { h with producer_ok := hp }

theorem Inv.with_consumer (h : Inv cap s pending) {c : Consumer}
    (hc : ConsumerOk (stream s.returned).length pending c) :
    Inv cap { s with consumer := c } pending :=
  { h with consumer_ok := hc }

theorem inv_write {data : List UInt8} (hdata : Storable data) (h : Inv cap s pending)
    (hstep : step s (.write data) = some s') : Inv cap s' pending := by
  rw [step] at hstep
  split at hstep
  · cases hstep
  split at hstep
  · cases hstep
    exact h
  · cases hstep
    exact h.with_producer hdata

theorem inv_read {bufLen : UInt32} (h : Inv cap s pending)
    (hstep : step s (.read bufLen) = some s') : Inv cap s' pending := by
  rw [step] at hstep
  split at hstep
  · cases hstep
  · cases hstep
    exact h.with_consumer trivial

/-- The free space computed from an old head is free now. -/
theorem Inv.check_space (hcap : PowerOfTwo cap) (h : Inv cap s pending) {data : List UInt8}
    {head : UInt32} (hdata : Storable data) {h₀ : ℕ} (hle : h₀ ≤ (stream s.returned).length)
    (hhead : head = UInt32.ofNat h₀) (hlt : (stream s.published).length < h₀ + cap.toNat)
    (hroom : ¬ cap - ((s.seg.hdr.tail - head) &&& (cap - 1)) - 1 <
      4 + UInt32.ofNat data.length) :
    (stream s.published).length + recordCost data <
      (stream s.returned).length + cap.toNat := by
  have htail := h.tail_length
  have hused : ((s.seg.hdr.tail - head) &&& (cap - 1)).toNat =
      (stream s.published).length - h₀ := by
    rw [h.tail_eq, hhead]
    exact hcap.toNat_mask_sub (by omega) (by omega)
  rw [UInt32.lt_iff_toNat_lt, toNat_sub_sub_one (by omega), hused, toNat_recordSize hdata] at hroom
  have hcost := recordCost_pos data
  omega

/-- Storing the next byte of the record being written. -/
theorem inv_storeByte (hcap : PowerOfTwo cap) (h : Inv cap s pending) {data : List UInt8}
    {tail : UInt32} {b : UInt8} {todo : List UInt8}
    (hpc : s.producer = .storing data tail (b :: todo))
    (hstep : produce s = some s') : Inv cap s' pending := by
  have hok := h.producer_ok
  rw [hpc] at hok
  obtain ⟨hdata, hroom, done, hrec, htail, hdone⟩ := hok
  have htl := h.tail_length
  have hlen : (record data).length = done.length + (todo.length + 1) := by
    rw [hrec, List.length_append, List.length_cons]
  have hcost : (record data).length = recordCost data := record_length data
  have hidx : (tail &&& (s.cap - 1)).toNat =
      ((stream s.published).length + done.length) % cap.toNat := by
    rw [Spsc.cap, h.capacity_eq, htail]
    exact hcap.toNat_mask _
  have hoffset : (record data).length - (todo.length + 1) = done.length := by omega
  have hbyte : (record data)[done.length]? = some b := by
    rw [hrec, List.getElem?_append_right (Nat.le_refl _)]
    simp
  rw [produce, hpc] at hstep
  simp only [hidx, hoffset, Option.some.injEq] at hstep
  subst hstep
  refine
    { capacity_eq := h.capacity_eq
      published_eq := h.published_eq
      storable := h.storable
      head_eq := h.head_eq
      tail_eq := h.tail_eq
      bounded := h.bounded
      cells_eq := ?_
      producer_ok := ?_
      consumer_ok := h.consumer_ok }
  · -- The byte lands behind the tail, within one revolution of the head.
    rw [cells_store, window_update _ _ _ _ _ _ (by dsimp only; omega) (by dsimp only; omega)]
    exact h.cells_eq
  · rw [cells_store]
    refine ⟨hdata, hroom, done ++ [b], by simp [hrec], ?_, ?_⟩
    · rw [htail, ofNat_succ, List.length_append, List.length_singleton, Nat.add_assoc]
    · dsimp only
      rw [List.length_append, List.length_singleton, window_succ, Function.update_self,
        window_update _ _ _ _ _ _ (Nat.le_refl _) (by omega), hdone,
        take_succ_of_getElem? (by rw [getElem?_tagRecord, hbyte]; rfl)]

/-- The tail store publishes the record just completed. -/
theorem inv_storeTail (h : Inv cap s pending) {data : List UInt8} {tail : UInt32}
    (hpc : s.producer = .storing data tail []) (hstep : produce s = some s') :
    Inv cap s' (pending ++ [data]) := by
  have hok := h.producer_ok
  rw [hpc] at hok
  obtain ⟨hdata, hroom, done, hrec, htail, hdone⟩ := hok
  rw [List.append_nil] at hrec
  have hcost : (record data).length = recordCost data := record_length data
  have hpub : stream (s.published ++ [data]) = stream s.published ++ record data := by simp
  have hpend : stream (pending ++ [data]) = stream pending ++ record data := by simp
  have htl := h.tail_length
  rw [← hrec, ← tagRecord_length s.published.length data, List.take_length] at hdone
  rw [produce, hpc] at hstep
  cases hstep
  refine
    { capacity_eq := h.capacity_eq
      published_eq := by rw [h.published_eq, List.append_assoc]
      storable := ?_
      head_eq := h.head_eq
      tail_eq := ?_
      bounded := ?_
      cells_eq := ?_
      producer_ok := trivial
      consumer_ok := h.consumer_ok.append data }
  · intro p hp
    rcases List.mem_append.mp hp with hold | hnew
    · exact h.storable p hold
    · rw [List.mem_singleton.mp hnew]
      exact hdata
  · dsimp only
    rw [htail, hpub, List.length_append, hrec]
  · rw [hpend, List.length_append]
    omega
  · have hn : s.published.length = s.returned.length + pending.length := by
      rw [h.published_eq, List.length_append]
    dsimp only
    rw [hpend, List.length_append, window_add, tagStream_append, tagStream, tagStream,
      List.append_nil, ← hn, ← htl]
    rw [tagRecord_length] at hdone
    exact congrArg₂ (· ++ ·) h.cells_eq hdone

theorem inv_produce (hcap : PowerOfTwo cap) (h : Inv cap s pending)
    (hstep : produce s = some s') : ∃ pending', Inv cap s' pending' := by
  have hok := h.producer_ok
  have htl := h.tail_length
  have hbound := h.bounded
  cases hpc : s.producer with
  | idle =>
    rw [produce, hpc] at hstep
    cases hstep
  | loadHead data =>
    rw [produce, hpc] at hstep
    rw [hpc] at hok
    cases hstep
    exact ⟨pending, h.with_producer ⟨hok, _, Nat.le_refl _, h.head_eq, by omega⟩⟩
  | loadTail data head =>
    rw [produce, hpc] at hstep
    rw [hpc] at hok
    obtain ⟨hdata, h₀, hle, hhead, hlt⟩ := hok
    simp only [Spsc.cap, h.capacity_eq] at hstep
    split at hstep
    · cases hstep
      exact ⟨pending, h.with_producer trivial⟩
    · rename_i hroom
      cases hstep
      exact ⟨pending, h.with_producer ⟨hdata, h.check_space hcap hdata hle hhead hlt hroom⟩⟩
  | fetchAddDropped =>
    rw [produce, hpc] at hstep
    cases hstep
    exact ⟨pending, { h with producer_ok := trivial }⟩
  | reloadTail data =>
    rw [produce, hpc] at hstep
    rw [hpc] at hok
    cases hstep
    exact ⟨pending, h.with_producer ⟨hok.1, hok.2, [], rfl, h.tail_eq, rfl⟩⟩
  | storing data tail todo =>
    cases todo with
    | nil => exact ⟨_, inv_storeTail h hpc hstep⟩
    | cons b todo => exact ⟨pending, inv_storeByte hcap h hpc hstep⟩

end Steps

end HpcProfiler.SpscInvariant
