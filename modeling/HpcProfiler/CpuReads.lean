import HpcProfiler.DecoderSafety

/-!
The function deserialize of the bridge with a log of what it reads. It sees a payload
only through slices, each taken as a part of the wire format and entered into a log
with its place. Without the log it is the decoder itself.
-/

namespace HpcProfiler.CpuReads

open Events StructFormat Utf8Replace CpuCodec

/-- The parts of the wire format, in their order. -/
inductive Part
  | header
  | objectType
  | moduleNameLen
  | moduleName
  | core
  | shape
  | dtypeLen
  | dtype
  deriving DecidableEq

/-- Bytes that were read as a part, given by their place in the payload. -/
structure Read where
  part : Part
  off : ℕ
  len : ℕ

abbrev Logged := StateT (List Read) (Except PyError)

def slice (payload : List UInt8) (part : Part) (off len : ℕ) : Logged (List UInt8) :=
  fun log => .ok ((payload.drop off).take len, log ++ [⟨part, off, len⟩])

section

variable (n : ℕ) (slice : Part → ℕ → ℕ → Logged (List UInt8))

def unpackAt (part : Part) (fmt : List Code) (off : ℕ) : Logged (List ℤ) := do
  let bytes ← slice part off (size fmt)
  StateT.lift (unpack fmt bytes)

def lenAt (part : Part) (off : ℕ) : Logged ℕ := do
  let vs ← unpackAt slice part [.H] off
  return (vs.headD 0).toNat

def textAt (part : Part) (off len : ℕ) : Logged String := do
  let bytes ← slice part off len
  return decodeReplace bytes

def dtypeAt (off : ℕ) (ext : CpuExt) : Logged CpuExt :=
  if off + 2 ≤ n then do
    let dtypeLen ← lenAt slice .dtypeLen off
    if off + 2 + dtypeLen ≤ n then do
      let arrayDtype ← textAt slice .dtype (off + 2) dtypeLen
      return { ext with arrayDtype }
    else
      return ext
  else
    return ext

def shapeAt (off arrayNdim : ℕ) (ext : CpuExt) : Logged CpuExt :=
  if 0 < arrayNdim ∧ off + arrayNdim * 8 ≤ n then do
    let arrayShape ← unpackAt slice .shape (List.replicate arrayNdim .Q) off
    dtypeAt n slice (off + arrayNdim * 8) { ext with arrayShape }
  else
    dtypeAt n slice off ext

def coreAt (off : ℕ) (ext : CpuExt) : Logged CpuExt :=
  if off + cpuExtSize ≤ n then do
    match ← unpackAt slice .core cpuExtFmt off with
    | [peakRssKb, lifetimeNs, isNumpyByte, bufferNbytes, parentAddress, pinnedAddress,
        tracemallocSize, arrayNdim] =>
      shapeAt n slice (off + cpuExtSize) arrayNdim.toNat
        { ext with
          peakRssKb, lifetimeNs, isNumpy := isNumpyByte != 0, bufferNbytes, parentAddress,
          pinnedAddress, tracemallocSize }
    | _ => StateT.lift (.error .structError)
  else
    return ext

def extAt (off : ℕ) : Logged CpuExt :=
  if off + 2 ≤ n then do
    let moduleNameLen ← lenAt slice .moduleNameLen off
    if off + 2 + moduleNameLen ≤ n then do
      let moduleName ← textAt slice .moduleName (off + 2) moduleNameLen
      coreAt n slice (off + 2 + moduleNameLen) { moduleName }
    else
      coreAt n slice (off + 2) {}
  else
    return {}

def eventAt : Logged CpuEvent :=
  if n < fixedSize then
    StateT.lift (.error (.valueError s!"Payload too short: {n} < {fixedSize}"))
  else do
    match ← unpackAt slice .header fixedFmt 0 with
    | [eventId, timestampNs, processId, threadId, eventTypeInt, isDealloc, allocAddress,
        allocSize, refCount, gcGeneration, objectTypeLen] =>
      let objectType ← textAt slice .objectType fixedSize objectTypeLen.toNat
      let ext ← extAt n slice (fixedSize + objectTypeLen.toNat)
      return {
        base := {
          eventId, timestampNs, processId, threadId,
          eventType := (typeMapRev.lookup eventTypeInt).getD "ALLOC" }
        allocAddress
        allocSizeBytes := allocSize
        objectType
        refCount, gcGeneration
        isDealloc := some (isDealloc != 0)
        callstack := []
        moduleName := some ext.moduleName
        peakRssKb := some ext.peakRssKb
        lifetimeNs := some ext.lifetimeNs
        isNumpyBuffer := some ext.isNumpy
        bufferNbytes := some ext.bufferNbytes
        parentAddress := some ext.parentAddress
        pinnedAddress := some ext.pinnedAddress
        tracemallocSize := some ext.tracemallocSize
        arrayShape := some ext.arrayShape
        arrayDtype := some ext.arrayDtype }
    | _ => StateT.lift (.error .structError)

end

/-- The decoder's event and the reads it has made. -/
def deserializeLogged (payload : List UInt8) : Except PyError (CpuEvent × List Read) :=
  eventAt payload.length (slice payload) []

/-! A computation yields what satisfies a condition: it returns whatever the log, and
the condition holds of its value and of the reads it adds. -/

def Yields {α : Type} (x : Logged α) (P : α → List Read → Prop) : Prop :=
  ∀ log, ∃ a reads, x log = .ok (a, log ++ reads) ∧ P a reads

section

variable {α β : Type}

theorem Yields.pure {P : α → List Read → Prop} {a : α} (h : P a []) :
    Yields (Pure.pure a : Logged α) P := by
  intro log
  exact ⟨a, [], by rw [List.append_nil]; rfl, h⟩

theorem Yields.bind {x : Logged α} {f : α → Logged β} {P : α → List Read → Prop}
    {Q : β → List Read → Prop} (hx : Yields x P)
    (hf : ∀ a reads, P a reads → Yields (f a) fun b more => Q b (reads ++ more)) :
    Yields (x >>= f) Q := by
  intro log
  obtain ⟨a, reads, ha, hP⟩ := hx log
  obtain ⟨b, more, hb, hQ⟩ := hf a reads hP (log ++ reads)
  refine ⟨b, reads ++ more, ?_, hQ⟩
  rw [← List.append_assoc, ← hb]
  change (x log >>= fun p => f p.1 p.2) = _
  rw [ha]
  rfl

theorem Yields.and {x : Logged α} {P Q : α → List Read → Prop} (hP : Yields x P)
    (hQ : Yields x Q) : Yields x fun a reads => P a reads ∧ Q a reads := by
  intro log
  obtain ⟨a, reads, ha, hPa⟩ := hP log
  obtain ⟨b, more, hb, hQb⟩ := hQ log
  have hsame := Except.ok.inj (ha.symm.trans hb)
  obtain ⟨rfl, hreads⟩ := Prod.mk.inj hsame
  cases List.append_cancel_left hreads
  exact ⟨a, reads, ha, hPa, hQb⟩

theorem Yields.mono {x : Logged α} {P Q : α → List Read → Prop} (hx : Yields x P)
    (h : ∀ a reads, P a reads → Q a reads) : Yields x Q := by
  intro log
  obtain ⟨a, reads, ha, hP⟩ := hx log
  exact ⟨a, reads, ha, h a reads hP⟩

end

section

variable {payload : List UInt8} {part : Part} {off : ℕ}

theorem yields_slice (part : Part) (off len : ℕ) : Yields (slice payload part off len)
    fun bytes reads => bytes = (payload.drop off).take len ∧ reads = [⟨part, off, len⟩] :=
  fun _ => ⟨_, _, rfl, rfl, rfl⟩

theorem yields_unpackAt (part : Part) {fmt : List Code} (h : off + size fmt ≤ payload.length) :
    Yields (unpackAt (slice payload) part fmt off) fun vs reads =>
      unpackFrom fmt payload off = .ok vs ∧ reads = [⟨part, off, size fmt⟩] := by
  refine (yields_slice part off (size fmt)).bind ?_
  rintro bytes reads ⟨rfl, rfl⟩
  have hlen : ((payload.drop off).take (size fmt)).length = size fmt := by
    rw [List.length_take, List.length_drop]
    omega
  rw [unpack_ok hlen, values_take]
  exact fun log => ⟨_, [], by rw [List.append_nil]; rfl, unpackFrom_ok h, rfl⟩

theorem yields_lenAt (part : Part) (h : off + 2 ≤ payload.length) :
    Yields (lenAt (slice payload) part off) fun n reads =>
      unpackLen payload off = .ok n ∧ reads = [⟨part, off, 2⟩] := by
  have hlen : off + size [.H] ≤ payload.length := h
  refine (yields_unpackAt part hlen).bind ?_
  rintro vs reads ⟨hvs, rfl⟩
  refine .pure ⟨?_, rfl⟩
  rw [unpackLen, hvs]
  rfl

theorem yields_textAt (part : Part) (off len : ℕ) :
    Yields (textAt (slice payload) part off len) fun s reads =>
      s = text payload off len ∧ reads = [⟨part, off, len⟩] := by
  refine (yields_slice part off len).bind ?_
  rintro bytes reads ⟨rfl, rfl⟩
  exact .pure ⟨rfl, rfl⟩

/-! Without the log, each stage is the decoder's. -/

theorem yields_dtypeAt (payload : List UInt8) (off : ℕ) (ext : CpuExt) :
    Yields (dtypeAt payload.length (slice payload) off ext) fun result reads =>
      readDtype payload off ext = .ok result ∧
        (off + 2 ≤ payload.length → ⟨.dtypeLen, off, 2⟩ ∈ reads) := by
  unfold dtypeAt readDtype
  by_cases hlen : off + 2 ≤ payload.length
  · rw [if_pos hlen, if_pos hlen]
    refine (yields_lenAt .dtypeLen hlen).bind ?_
    rintro n reads ⟨hn, rfl⟩
    rw [hn, ok_bind]
    by_cases hdtype : off + 2 + n ≤ payload.length
    · rw [if_pos hdtype, if_pos hdtype]
      refine (yields_textAt .dtype (off + 2) n).bind ?_
      rintro s reads ⟨rfl, rfl⟩
      exact .pure ⟨rfl, fun _ => by simp⟩
    · rw [if_neg hdtype, if_neg hdtype]
      exact .pure ⟨rfl, fun _ => by simp⟩
  · rw [if_neg hlen, if_neg hlen]
    exact .pure ⟨rfl, fun h => absurd h hlen⟩

theorem yields_shapeAt (payload : List UInt8) (off arrayNdim : ℕ) (ext : CpuExt) :
    Yields (shapeAt payload.length (slice payload) off arrayNdim ext) fun result _ =>
      readShape payload off arrayNdim ext = .ok result := by
  unfold shapeAt readShape
  by_cases hshape : 0 < arrayNdim ∧ off + arrayNdim * 8 ≤ payload.length
  · have hsize : size (List.replicate arrayNdim .Q) = arrayNdim * 8 := size_replicate _ _
    rw [if_pos hshape, if_pos hshape]
    refine (yields_unpackAt .shape (by omega)).bind ?_
    rintro shapeVals reads ⟨hvals, -⟩
    rw [hvals, ok_bind]
    exact (yields_dtypeAt payload _ _).mono fun _ _ h => h.1
  · rw [if_neg hshape, if_neg hshape]
    exact (yields_dtypeAt payload _ _).mono fun _ _ h => h.1

theorem yields_coreAt (payload : List UInt8) (off : ℕ) (ext : CpuExt) :
    Yields (coreAt payload.length (slice payload) off ext) fun result reads =>
      readCore payload off ext = .ok result ∧
        (off + cpuExtSize ≤ payload.length → ⟨.core, off, cpuExtSize⟩ ∈ reads) := by
  unfold coreAt readCore
  by_cases hcore : off + cpuExtSize ≤ payload.length
  · rw [if_pos hcore, if_pos hcore]
    refine (yields_unpackAt .core hcore).bind ?_
    rintro vs reads ⟨hvs, rfl⟩
    rw [hvs]
    rw [unpackFrom_ok hcore] at hvs
    cases hvs
    exact (yields_shapeAt payload _ _ _).mono fun _ _ h => ⟨h, fun _ => List.mem_cons_self ..⟩
  · rw [if_neg hcore, if_neg hcore]
    exact .pure ⟨rfl, fun h => absurd h hcore⟩

theorem yields_extAt (payload : List UInt8) (off : ℕ) :
    Yields (extAt payload.length (slice payload) off) fun result _ =>
      readExt payload off = .ok result := by
  unfold extAt readExt
  by_cases hlen : off + 2 ≤ payload.length
  · rw [if_pos hlen, if_pos hlen]
    refine (yields_lenAt .moduleNameLen hlen).bind ?_
    rintro n reads ⟨hn, -⟩
    rw [hn, ok_bind]
    by_cases hname : off + 2 + n ≤ payload.length
    · rw [if_pos hname, if_pos hname]
      refine (yields_textAt .moduleName (off + 2) n).bind ?_
      rintro s reads ⟨rfl, -⟩
      exact (yields_coreAt payload _ _).mono fun _ _ h => h.1
    · rw [if_neg hname, if_neg hname]
      exact (yields_coreAt payload _ _).mono fun _ _ h => h.1
  · rw [if_neg hlen, if_neg hlen]
    exact .pure rfl

/-- From the header on, the logged decoder returns the event of the decoder. -/
theorem yields_eventAt {payload : List UInt8} (h : 53 ≤ payload.length) :
    Yields (eventAt payload.length (slice payload)) fun event _ =>
      deserialize payload = .ok event := by
  have hsize : fixedSize = 53 := rfl
  have hheader : 0 + size fixedFmt ≤ payload.length := by
    change 0 + fixedSize ≤ payload.length
    omega
  have htake : (payload.take fixedSize).length = size fixedFmt := by
    exact List.length_take_of_le (by omega)
  unfold eventAt deserialize
  rw [if_neg (by omega), if_neg (by omega), unpack_ok htake]
  refine (yields_unpackAt .header hheader).bind ?_
  rintro vs reads ⟨hvs, -⟩
  rw [unpackFrom_ok hheader, List.drop_zero] at hvs
  cases hvs
  have hvalues : values fixedFmt (payload.take fixedSize) = values fixedFmt payload :=
    values_take fixedFmt payload
  rw [hvalues]
  dsimp only [fixedFmt, values]
  refine (yields_textAt .objectType fixedSize _).bind ?_
  rintro s reads ⟨rfl, -⟩
  refine (yields_extAt payload _).bind ?_
  intro ext reads hext
  rw [hext]
  exact .pure rfl

end

/-- The log changes nothing in what is decoded. -/
theorem deserializeLogged_fst (payload : List UInt8) :
    (deserializeLogged payload).map Prod.fst = deserialize payload := by
  by_cases h : payload.length < fixedSize
  · unfold deserializeLogged eventAt deserialize
    rw [if_pos h, if_pos h]
    rfl
  · obtain ⟨event, reads, hlogged, hevent⟩ := yields_eventAt (Nat.le_of_not_lt h) []
    unfold deserializeLogged
    rw [hlogged, hevent]
    rfl

end HpcProfiler.CpuReads
