import HpcProfiler.SpscInvariant

/-!
Safety of the interleaved ring. The consumer's steps keep the invariant, so it
holds after every interleaving from a freshly created ring. It follows that every
byte copied out is a byte of the oldest record published and not yet returned,
last stored by that very record, and that the payloads returned are always a
prefix of the payloads published.
-/

namespace HpcProfiler.SpscSafety

open CyclicCells WrappingCounter SharedRing RingRecords RingFifo SpscSteps StepSystem
  SpscInvariant

section Steps

variable {cap : UInt32} {s s' : Spsc} {pending : List (List UInt8)}

theorem lenPrefix_record (p : List UInt8) :
    assembleLenFrom 0 0 ((record p).take 4) = UInt32.ofNat p.length := by
  rw [record, List.take_left' (lenBytes_length _)]
  exact assembleLen_lenBytes _

/-- The old tail ends the pending records, so at least one of them is complete. -/
theorem check_used (hcap : PowerOfTwo cap) (h : Inv cap s pending) {head : UInt32}
    (hhead : head = UInt32.ofNat (stream s.returned).length)
    (hused : ¬ ((s.seg.hdr.tail - head) &&& (cap - 1)).toNat < 4) :
    ∃ p seen rest, pending = p :: (seen ++ rest) ∧
      ((s.seg.hdr.tail - head) &&& (cap - 1)).toNat = (stream (p :: seen)).length := by
  have htl := h.tail_length
  have hbound := h.bounded
  have hcount : ((s.seg.hdr.tail - head) &&& (cap - 1)).toNat = (stream pending).length := by
    rw [h.tail_eq, hhead, hcap.toNat_mask_sub (by omega) (by omega)]
    omega
  cases hpending : pending with
  | nil =>
    rw [hcount, hpending] at hused
    exact absurd (by decide) hused
  | cons p rest => exact ⟨p, rest, [], by rw [List.append_nil], by rw [hcount, hpending]⟩

theorem inv_peek (hcap : PowerOfTwo cap) (h : Inv cap s pending) {bufLen used head : UInt32}
    {i : ℕ} {len : UInt32} (hpc : s.consumer = .peeking bufLen used head i len)
    (hstep : consume s = some s') : Inv cap s' pending := by
  have hok := h.consumer_ok
  rw [hpc] at hok
  obtain ⟨hhead, hi, p, seen, rest, hpending, hused, hlen⟩ := hok
  subst hpending
  have hp := h.storable p (List.mem_cons_self ..)
  have hreclen := record_length p
  rw [consume, hpc] at hstep
  dsimp only at hstep
  by_cases hlt : i < 4
  · -- Another byte of the length prefix.
    have hbyte := List.getElem?_eq_getElem (l := record p) (i := i) (by omega)
    have hload := h.load_front hcap hbyte
    rw [if_pos hlt, Spsc.cap, h.capacity_eq, hhead, ← UInt32.ofNat_add, hload] at hstep
    cases hstep
    refine h.with_consumer ⟨rfl, by omega, p, seen, rest, rfl, hused, ?_⟩
    rw [take_succ_of_getElem? hbyte, assembleLenFrom_snoc, ← hlen, List.length_take,
      Nat.min_eq_left (by omega), Nat.zero_add]
  · -- The prefix is complete: it is the record's own length.
    have hi4 : i = 4 := by omega
    rw [hi4, lenPrefix_record] at hlen
    have htoNat : len.toNat = p.length := by rw [hlen, toNat_ofNat_length hp]
    have hwhole : ¬ used.toNat < 4 + len.toNat := by
      rw [hused, htoNat, stream_cons, List.length_append, hreclen]
      omega
    rw [if_neg hlt, if_neg hwhole] at hstep
    split at hstep
    · cases hstep
      exact h.with_consumer trivial
    · cases hstep
      exact h.with_consumer
        ⟨by rw [hhead, ofNat_add_four], p, seen ++ rest, rfl, hlen, Nat.zero_le _, rfl⟩

/-- Copying the next byte of the payload. -/
theorem inv_copyByte (hcap : PowerOfTwo cap) (h : Inv cap s pending) {head len : UInt32}
    {buf : List UInt8} (hpc : s.consumer = .copying head len buf) (hlt : buf.length < len.toNat)
    (hstep : consume s = some s') : Inv cap s' pending := by
  have hok := h.consumer_ok
  rw [hpc] at hok
  obtain ⟨hhead, p, rest, hpending, hlen, hbuf, htake⟩ := hok
  subst hpending
  have hp := h.storable p (List.mem_cons_self ..)
  rw [consume, hpc] at hstep
  dsimp only at hstep
  rw [if_pos hlt] at hstep
  rw [hlen, toNat_ofNat_length hp] at hlt
  have hbyte := List.getElem?_eq_getElem (l := p) (i := buf.length) hlt
  have hload := h.load_front hcap ((getElem?_record p buf.length).trans hbyte)
  rw [Spsc.cap, h.capacity_eq, hhead, ← UInt32.ofNat_add, Nat.add_assoc, hload] at hstep
  cases hstep
  refine h.with_consumer ⟨rfl, p, rest, rfl, hlen, ?_, ?_⟩
  · rw [List.length_append, List.length_singleton]
    omega
  · rw [List.length_append, List.length_singleton, take_succ_of_getElem? hbyte, ← htake]

/-- The head store returns the record just copied and frees its space. -/
theorem inv_storeHead (h : Inv cap s pending) {head len : UInt32} {buf : List UInt8}
    (hpc : s.consumer = .copying head len buf) (hdone : ¬ buf.length < len.toNat)
    (hstep : consume s = some s') : Inv cap s' pending.tail := by
  have hok := h.consumer_ok
  rw [hpc] at hok
  obtain ⟨hhead, p, rest, hpending, hlen, hbuf, htake⟩ := hok
  subst hpending
  have hp := h.storable p (List.mem_cons_self ..)
  rw [consume, hpc] at hstep
  dsimp only at hstep
  rw [if_neg hdone] at hstep
  rw [hlen, toNat_ofNat_length hp] at hdone
  have hwhole : buf.length = p.length := by omega
  rw [hwhole, List.take_length] at htake
  cases hstep
  have hret : stream (s.returned ++ [p]) = stream s.returned ++ record p := by simp
  have hcells := h.cells_eq
  have hbound := h.bounded
  rw [stream_cons, List.length_append] at hbound
  rw [stream_cons, List.length_append, window_add, tagStream] at hcells
  rw [List.tail_cons]
  refine
    { capacity_eq := h.capacity_eq
      published_eq := by rw [h.published_eq, htake, List.append_assoc]; rfl
      storable := fun q hq => h.storable q (List.mem_cons_of_mem _ hq)
      head_eq := ?_
      tail_eq := h.tail_eq
      bounded := by omega
      cells_eq := ?_
      producer_ok := h.producer_ok.mono_head ?_
      consumer_ok := trivial }
  · dsimp only
    rw [htake, hret, hhead, hlen, ← UInt32.ofNat_add, List.length_append, record_length,
      Nat.add_assoc]
  · dsimp only
    rw [htake, hret, List.length_append, List.length_append, List.length_singleton]
    exact (List.append_inj hcells (by simp)).2
  · dsimp only
    rw [htake, hret, List.length_append]
    omega

theorem inv_consume (hcap : PowerOfTwo cap) (h : Inv cap s pending)
    (hstep : consume s = some s') : ∃ pending', Inv cap s' pending' := by
  have hok := h.consumer_ok
  cases hpc : s.consumer with
  | idle =>
    rw [consume, hpc] at hstep
    cases hstep
  | loadHead bufLen =>
    rw [consume, hpc] at hstep
    cases hstep
    exact ⟨pending, h.with_consumer h.head_eq⟩
  | loadTail bufLen head =>
    rw [consume, hpc] at hstep
    rw [hpc] at hok
    simp only [Spsc.cap, h.capacity_eq] at hstep
    split at hstep
    · cases hstep
      exact ⟨pending, h.with_consumer trivial⟩
    · rename_i hused
      cases hstep
      exact ⟨pending, h.with_consumer (check_used hcap h hok hused)⟩
  | reloadHead bufLen used =>
    rw [consume, hpc] at hstep
    rw [hpc] at hok
    obtain ⟨p, seen, rest, hpending, hused⟩ := hok
    cases hstep
    exact ⟨pending, h.with_consumer
      ⟨h.head_eq, Nat.zero_le _, p, seen, rest, hpending, hused, rfl⟩⟩
  | peeking bufLen used head i len => exact ⟨pending, inv_peek hcap h hpc hstep⟩
  | copying head len buf =>
    by_cases hlt : buf.length < len.toNat
    · exact ⟨pending, inv_copyByte hcap h hpc hlt hstep⟩
    · exact ⟨pending.tail, inv_storeHead h hpc hlt hstep⟩

end Steps

/-- Writes whose record size does not overflow. -/
def Allowed : Action → Prop
  | .write data => Storable data
  | _ => True

theorem inv_step {cap : UInt32} (hcap : PowerOfTwo cap) (s : Spsc) (a : Action) (s' : Spsc)
    (h : ∃ pending, Inv cap s pending) (ha : Allowed a) (hstep : step s a = some s') :
    ∃ pending, Inv cap s' pending := by
  obtain ⟨pending, hinv⟩ := h
  cases a with
  | write data => exact ⟨pending, inv_write ha hinv hstep⟩
  | produce => exact inv_produce hcap hinv hstep
  | read bufLen => exact ⟨pending, inv_read hinv hstep⟩
  | consume => exact inv_consume hcap hinv hstep

theorem inv_initial {cap : UInt32} (hcap : PowerOfTwo cap) :
    Inv cap (initial (freshSegment cap)) [] where
  capacity_eq := rfl
  published_eq := rfl
  storable := by simp
  head_eq := rfl
  tail_eq := rfl
  bounded := hcap.pos
  cells_eq := rfl
  producer_ok := trivial
  consumer_ok := trivial

/-- The byte the consumer is about to copy out was stored last by the oldest record
published and not yet returned, and is that record's next payload byte. -/
def CopiesPublished (s : Spsc) : Prop :=
  ∀ head len buf, s.consumer = .copying head len buf → buf.length < len.toNat →
    let i := ((head + UInt32.ofNat buf.length) &&& (s.cap - 1)).toNat
    s.owner i = some (s.returned.length, 4 + buf.length) ∧
      ∃ payload, s.published[s.returned.length]? = some payload ∧
        payload[buf.length]? = some (s.seg.data i)

theorem copiesPublished_of_inv {cap : UInt32} (hcap : PowerOfTwo cap) {s : Spsc}
    {pending : List (List UInt8)} (h : Inv cap s pending) : CopiesPublished s := by
  intro head len buf hpc hlt
  have hok := h.consumer_ok
  rw [hpc] at hok
  obtain ⟨hhead, p, rest, hpending, hlen, -, -⟩ := hok
  subst hpending
  have hp := h.storable p (List.mem_cons_self ..)
  rw [hlen, toNat_ofNat_length hp] at hlt
  have hbyte := List.getElem?_eq_getElem (l := p) (i := buf.length) hlt
  have hcell := h.front_cell ((getElem?_record p buf.length).trans hbyte)
  have hidx : ((head + UInt32.ofNat buf.length) &&& (s.cap - 1)).toNat =
      ((stream s.returned).length + (4 + buf.length)) % cap.toNat := by
    rw [Spsc.cap, h.capacity_eq, hhead, ← UInt32.ofNat_add, hcap.toNat_mask, Nat.add_assoc]
  dsimp only
  rw [hidx]
  refine ⟨congrArg Prod.snd hcell, p, ?_, ?_⟩
  · rw [h.published_eq, List.getElem?_append_right (Nat.le_refl _), Nat.sub_self]
    rfl
  · rw [hbyte]
    exact congrArg some (congrArg Prod.fst hcell).symm

/-- After every interleaving of one producer and one consumer on a freshly created
ring, what is copied out is published and not overwritten, and the returned
payloads are a prefix of the published ones. -/
theorem spsc_safe (os : OsCalls) (found : Option Segment) (capacity : UInt32) (rb : RingBuffer)
    (seg : Segment) (hcreate : rbCreate os found capacity true = (some rb, some seg))
    (actions : List Action)
    (hwrites : ∀ data, Action.write data ∈ actions → 1 ≤ data.length ∧ data.length < 2 ^ 18)
    (s : Spsc) (hrun : run step (initial seg) actions = some s) :
    CopiesPublished s ∧ s.returned <+: s.published := by
  obtain ⟨hcap, -, hseg⟩ := rbCreate_some hcreate
  cases hseg
  have hallowed : ∀ a ∈ actions, Allowed a := by
    intro a ha
    cases a with
    | write data =>
      have hlen := hwrites data ha
      exact ⟨hlen.1, by omega⟩
    | produce => trivial
    | read bufLen => trivial
    | consume => trivial
  obtain ⟨pending, hinv⟩ :=
    run_invariant (inv_step hcap) ⟨[], inv_initial hcap⟩ hallowed hrun
  exact ⟨copiesPublished_of_inv hcap hinv, pending, hinv.published_eq.symm⟩

/-- A read that starts before the first record is published and comes to copy it. -/
theorem spsc_safe_early_read :
    ∃ s, run step (initial (freshSegment 8))
        (.write [7] :: .produce :: .read 4 :: .consume ::
          List.replicate 8 .produce ++ List.replicate 7 .consume) = some s ∧
      CopiesPublished s ∧ s.returned <+: s.published :=
  ⟨_, rfl, spsc_safe ⟨true, true, true⟩ none 8 ⟨72⟩ (freshSegment 8) (by rfl)
    (.write [7] :: .produce :: .read 4 :: .consume ::
      List.replicate 8 .produce ++ List.replicate 7 .consume)
    (by
      intro data hdata
      simp only [List.replicate, List.cons_append, List.nil_append, List.mem_cons,
        Action.write.injEq, reduceCtorEq, List.not_mem_nil, or_false] at hdata
      subst hdata
      decide) _ rfl⟩

end HpcProfiler.SpscSafety
