import HpcProfiler.DrainResults

/-!
The decoders on arbitrary bytes. The lengths and counts inside a payload steer the
offsets, but every fixed-size read stands behind a comparison with the payload's
length, so the only failures are the explicit ones: a payload shorter than its
header and, for GPU payloads, one that ends inside its label. A drain therefore
loses only such payloads.
-/

namespace HpcProfiler.DecoderSafety

open Events LittleEndian StructFormat StepSystem DrainLoops DrainResults

theorem unpackLen_ok {payload : List UInt8} {off : ℕ} (h : off + 2 ≤ payload.length) :
    ∃ n, CpuCodec.unpackLen payload off = .ok n := by
  have hread : unpackFrom [.H] payload off = .ok (values [.H] (payload.drop off)) :=
    unpackFrom_ok h
  rw [CpuCodec.unpackLen, hread]
  exact ⟨_, rfl⟩

section Cpu

open CpuCodec

variable (payload : List UInt8) (off : ℕ) (ext : CpuExt)

theorem readDtype_ok : ∃ result, readDtype payload off ext = .ok result := by
  unfold readDtype
  by_cases hlen : off + 2 ≤ payload.length
  · obtain ⟨n, hn⟩ := unpackLen_ok hlen
    rw [if_pos hlen, hn, ok_bind]
    by_cases hdtype : off + 2 + n ≤ payload.length
    · exact ⟨_, if_pos hdtype⟩
    · exact ⟨_, if_neg hdtype⟩
  · exact ⟨_, if_neg hlen⟩

theorem readShape_ok (arrayNdim : ℕ) :
    ∃ result, readShape payload off arrayNdim ext = .ok result := by
  unfold readShape
  by_cases hshape : 0 < arrayNdim ∧ off + arrayNdim * 8 ≤ payload.length
  · have hsize : size (List.replicate arrayNdim .Q) = arrayNdim * 8 := size_replicate _ _
    rw [if_pos hshape, unpackFrom_ok (by omega), ok_bind]
    exact readDtype_ok payload _ _
  · rw [if_neg hshape]
    exact readDtype_ok payload off ext

theorem readCore_ok : ∃ result, readCore payload off ext = .ok result := by
  unfold readCore
  by_cases hcore : off + cpuExtSize ≤ payload.length
  · rw [if_pos hcore, unpackFrom_ok hcore]
    exact readShape_ok payload _ _ _
  · exact ⟨_, if_neg hcore⟩

theorem readExt_ok : ∃ result, readExt payload off = .ok result := by
  unfold readExt
  by_cases hlen : off + 2 ≤ payload.length
  · obtain ⟨n, hn⟩ := unpackLen_ok hlen
    rw [if_pos hlen, hn, ok_bind]
    by_cases hname : off + 2 + n ≤ payload.length
    · rw [if_pos hname]
      exact readCore_ok payload _ _
    · rw [if_neg hname]
      exact readCore_ok payload _ _
  · exact ⟨_, if_neg hlen⟩

end Cpu

/-- A decoder that raises ValueError on exactly these payloads and returns an event
for every other one; no payload makes it fail in another way. -/
structure RefusesExactly {α : Type} (decode : List UInt8 → Except PyError α)
    (Refused : List UInt8 → Prop) : Prop where
  raises_iff : ∀ payload, (∃ message, decode payload = .error (.valueError message)) ↔
    Refused payload
  returns : ∀ payload, ¬Refused payload → ∃ event, decode payload = .ok event

theorem RefusesExactly.of_cases {α : Type} {decode : List UInt8 → Except PyError α}
    {Refused : List UInt8 → Prop}
    (hraises : ∀ payload, Refused payload →
      ∃ message, decode payload = .error (.valueError message))
    (hreturns : ∀ payload, ¬Refused payload → ∃ event, decode payload = .ok event) :
    RefusesExactly decode Refused := by
  refine ⟨fun payload => ⟨?_, hraises payload⟩, hreturns⟩
  rintro ⟨message, hmessage⟩
  by_contra hnot
  obtain ⟨event, hevent⟩ := hreturns payload hnot
  rw [hmessage] at hevent
  cases hevent

def CpuRefused (payload : List UInt8) : Prop := payload.length < 53

/-- The label length that the last two bytes of the header store. -/
def storedLabelLen (payload : List UInt8) : ℕ := leNat ((payload.drop 51).take 2)

def GpuRefused (payload : List UInt8) : Prop :=
  payload.length < 53 ∨ payload.length < 53 + storedLabelLen payload

theorem cpu_refusesExactly : RefusesExactly CpuCodec.deserialize CpuRefused := by
  refine .of_cases ?_ ?_
  · intro payload hshort
    exact ⟨_, if_pos hshort⟩
  · intro payload hlong
    have hsize : CpuCodec.fixedSize = 53 := rfl
    unfold CpuRefused at hlong
    have hfixed : (payload.take CpuCodec.fixedSize).length = size CpuCodec.fixedFmt := by
      rw [List.length_take, hsize]
      exact Nat.min_eq_left (by omega)
    unfold CpuCodec.deserialize
    rw [if_neg (by omega), unpack_ok hfixed]
    dsimp only [CpuCodec.fixedFmt, values]
    obtain ⟨ext, hext⟩ := readExt_ok payload (CpuCodec.fixedSize + (Code.H.value _).toNat)
    rw [hext]
    exact ⟨_, rfl⟩

theorem value_H (bytes : List UInt8) :
    Code.H.value (bytes.take 2) = (leNat (bytes.take 2) : ℤ) := by
  have hlt : leNat (bytes.take 2) < 256 ^ 2 :=
    lt_of_lt_of_le (leNat_lt _) (Nat.pow_le_pow_right (by norm_num) (List.length_take_le 2 bytes))
  have hlow : Code.H.low = 0 := rfl
  have hmodulus : Code.H.modulus = 256 ^ 2 := rfl
  rw [Code.value, hlow, hmodulus]
  omega

theorem readGpuExt_ok (payload : List UInt8) (off : ℕ) (hoff : off ≤ payload.length) :
    ∃ ext, GpuCodec.readGpuExt payload off = .ok ext := by
  unfold GpuCodec.readGpuExt
  dsimp only
  by_cases hfull : GpuCodec.extSize ≤ payload.length - off
  · have hread : off + size GpuCodec.extFmt ≤ payload.length := by
      change off + GpuCodec.extSize ≤ payload.length
      omega
    rw [if_pos hfull, GpuCodec.readFullExt, unpackFrom_ok hread]
    exact ⟨_, rfl⟩
  rw [if_neg hfull]
  by_cases hold : 49 ≤ payload.length - off
  · have hread : off + size GpuCodec.oldFmt ≤ payload.length := by
      change off + 49 ≤ payload.length
      omega
    rw [if_pos hold, GpuCodec.readOldExt, unpackFrom_ok hread]
    exact ⟨_, rfl⟩
  · exact ⟨_, if_neg hold⟩

/-- A header is read from any payload that has room for it. -/
theorem exists_header (payload : List UInt8) (hlong : 53 ≤ payload.length) :
    ∃ eventId timestampNs processId threadId eventTypeByte isDealloc allocAddr allocSize refCount
      gcGen, unpackFrom GpuCodec.hdrFmt payload 0 = .ok [eventId, timestampNs, processId, threadId,
        eventTypeByte, isDealloc, allocAddr, allocSize, refCount, gcGen,
        (storedLabelLen payload : ℤ)] := by
  have hread : unpackFrom GpuCodec.hdrFmt payload 0 = .ok (values GpuCodec.hdrFmt payload) :=
    unpackFrom_ok (by change 0 + 53 ≤ payload.length; omega)
  rw [hread]
  dsimp only [GpuCodec.hdrFmt, values, Code.size]
  simp only [List.drop_drop, value_H]
  exact ⟨_, _, _, _, _, _, _, _, _, _, rfl⟩

theorem gpu_refusesExactly : RefusesExactly GpuCodec.deserialize GpuRefused := by
  have hsize : GpuCodec.hdrSize = 53 := rfl
  refine .of_cases ?_ ?_
  · intro payload hrefused
    unfold GpuRefused at hrefused
    by_cases hshort : payload.length < GpuCodec.hdrSize
    · exact ⟨_, if_pos hshort⟩
    · obtain ⟨_, _, _, _, _, _, _, _, _, _, hheader⟩ := exists_header payload (by omega)
      have hlabel : payload.length < GpuCodec.hdrSize + storedLabelLen payload := by omega
      unfold GpuCodec.deserialize
      rw [if_neg hshort, hheader]
      dsimp only
      rw [Int.toNat_natCast]
      exact ⟨_, if_pos hlabel⟩
  · intro payload hkept
    unfold GpuRefused at hkept
    obtain ⟨_, _, _, _, _, _, _, _, _, _, hheader⟩ := exists_header payload (by omega)
    have hlabel : GpuCodec.hdrSize + storedLabelLen payload ≤ payload.length := by omega
    obtain ⟨ext, hext⟩ := readGpuExt_ok payload _ hlabel
    unfold GpuCodec.deserialize
    rw [if_neg (by omega), hheader]
    dsimp only
    rw [Int.toNat_natCast, if_neg (by omega), hext]
    exact ⟨_, rfl⟩

/-! What a drain loses. -/

/-- The test of the decoder that a drain calls. -/
def Refused : Drain → List UInt8 → Prop
  | .correlatorCpu => CpuRefused
  | .correlatorGpu => GpuRefused
  | .runnerCpu => CpuRefused
  | .runnerGpu => GpuRefused

theorem parse_refusesExactly (d : Drain) : RefusesExactly d.parse (Refused d) := by
  cases d with
  | correlatorCpu => exact cpu_refusesExactly
  | correlatorGpu => exact gpu_refusesExactly
  | runnerCpu => exact cpu_refusesExactly
  | runnerGpu => exact gpu_refusesExactly

section

variable {d : Drain} (producer : SharedRing.RingBuffer) (bridge : Bridge)

/-- The payload that a step of the drain takes from its ring. -/
def taken (s : LoopState d) : Action → Option (List UInt8)
  | .drain =>
    match s.pc with
    | .polling => (d.read bridge s.seg).bind Prod.snd
    | .draining => (d.read bridge s.seg).bind Prod.snd
    | _ => none
  | _ => none

/-- The payloads that the drain takes in a run, the oldest first. -/
def allTaken (s : LoopState d) : List Action → List (List UInt8)
  | [] => []
  | a :: as =>
    match step producer bridge s a with
    | some s' => (taken bridge s a).toList ++ allTaken s' as
    | none => []

end

section

variable {d : Drain} {producer : SharedRing.RingBuffer} {bridge : Bridge} {s s' : LoopState d}

/-- A step puts into the sink what the payload it takes decodes to. -/
theorem step_sink {a : Action} (hstep : step producer bridge s a = some s') :
    s'.sink = s.sink ++ (taken bridge s a).toList.filterMap (decoded d) := by
  cases a with
  | write payload =>
    rw [step, writeStep] at hstep
    by_cases hproducing : s.producing = true
    · rw [if_pos hproducing, Option.map_eq_some_iff] at hstep
      obtain ⟨written, -, rfl⟩ := hstep
      simp [taken]
    · rw [if_neg hproducing] at hstep
      cases hstep
  | finishWriting =>
    cases hstep
    simp [taken]
  | setStop =>
    cases hstep
    simp [taken]
  | drain =>
    rw [step, drainStep] at hstep
    unfold taken
    cases hpc : s.pc with
    | testing =>
      rw [hpc] at hstep
      cases hstep
      simp
    | polling =>
      rw [hpc] at hstep
      obtain ⟨⟨seg, result⟩, hread, rfl⟩ := Option.map_eq_some_iff.mp hstep
      cases result with
      | none => simp [hread]
      | some payload => simpa [hread] using collect_eq s payload
    | draining =>
      rw [hpc] at hstep
      obtain ⟨⟨seg, result⟩, hread, rfl⟩ := Option.map_eq_some_iff.mp hstep
      cases result with
      | none => simp [hread]
      | some payload => simpa [hread] using collect_eq s payload
    | returned =>
      rw [hpc] at hstep
      cases hstep

theorem run_sink {as : List Action} (hrun : run (step producer bridge) s as = some s') :
    s'.sink = s.sink ++ (allTaken producer bridge s as).filterMap (decoded d) := by
  induction as generalizing s with
  | nil =>
    cases hrun
    simp [allTaken]
  | cons a as ih =>
    obtain ⟨mid, hmid, hrest⟩ := run_cons_eq_some.mp hrun
    rw [ih hrest, step_sink hmid, allTaken, hmid]
    dsimp only
    rw [List.filterMap_append, List.append_assoc]

end

theorem decoded_eq_none_iff (d : Drain) (payload : List UInt8) :
    decoded d payload = none ↔ Refused d payload := by
  have hparse := parse_refusesExactly d
  unfold decoded
  by_cases hrefused : Refused d payload
  · obtain ⟨message, hmessage⟩ := (hparse.raises_iff payload).mpr hrefused
    simp [hmessage, hrefused]
  · obtain ⟨event, hevent⟩ := hparse.returns payload hrefused
    simp [hevent, hrefused]

instance (d : Drain) (payload : List UInt8) : Decidable (Refused d payload) :=
  match d with
  | .correlatorCpu => inferInstanceAs (Decidable (_ < _))
  | .correlatorGpu => inferInstanceAs (Decidable (_ ∨ _))
  | .runnerCpu => inferInstanceAs (Decidable (_ < _))
  | .runnerGpu => inferInstanceAs (Decidable (_ ∨ _))

/-- The payloads that pass the test are the ones that decode. -/
theorem forall₂_filterMap_decoded (d : Drain) (payloads : List (List UInt8)) :
    List.Forall₂ (fun payload event => d.parse payload = .ok event)
      (payloads.filter fun payload => ¬Refused d payload) (payloads.filterMap (decoded d)) := by
  induction payloads with
  | nil => exact .nil
  | cons payload rest ih =>
    by_cases hrefused : Refused d payload
    · have hnone := (decoded_eq_none_iff d payload).mpr hrefused
      rw [List.filterMap_cons_none hnone, List.filter_cons_of_neg (by simpa using hrefused)]
      exact ih
    · obtain ⟨event, hevent⟩ := (parse_refusesExactly d).returns payload hrefused
      have hsome : decoded d payload = some event := by rw [decoded, hevent]
      rw [List.filterMap_cons_some hsome, List.filter_cons_of_pos (by simpa using hrefused)]
      exact .cons hevent ih

/-- Both decoders raise ValueError on exactly the payloads that fail their test and
return an event for every other one. In every run of a drain, from any state of its
ring, the sink grows by one event for each payload taken that passes the test. -/
theorem decoders_safe :
    RefusesExactly CpuCodec.deserialize CpuRefused ∧
    RefusesExactly GpuCodec.deserialize GpuRefused ∧
    ∀ (d : Drain) (producer : SharedRing.RingBuffer) (bridge : Bridge) (s s' : LoopState d)
      (as : List Action), run (step producer bridge) s as = some s' →
      ∃ events, s'.sink = s.sink ++ events ∧
        List.Forall₂ (fun payload event => d.parse payload = .ok event)
          ((allTaken producer bridge s as).filter fun payload => ¬Refused d payload) events := by
  refine ⟨cpu_refusesExactly, gpu_refusesExactly, ?_⟩
  intro d producer bridge s s' as hrun
  exact ⟨_, run_sink hrun, forall₂_filterMap_decoded d _⟩

/-- The drain skips a payload of two bytes and keeps one of 53. -/
theorem decoders_safe_skipping :
    ∃ s' : LoopState .runnerCpu, s'.accepted = [[7, 9], List.replicate 53 0] ∧
      ∃ events, s'.sink = [] ++ events ∧
        List.Forall₂ (fun payload event => Drain.parse .runnerCpu payload = .ok event)
          [List.replicate 53 0] events :=
  ⟨_, rfl, decoders_safe.2.2 .runnerCpu ⟨192⟩ ⟨⟨192⟩, true⟩
    (start .runnerCpu (SharedRing.freshSegment 128)) _
    [.write [7, 9], .write (List.replicate 53 0), .drain, .drain, .drain, .drain] rfl⟩

end HpcProfiler.DecoderSafety
