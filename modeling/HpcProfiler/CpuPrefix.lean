import HpcProfiler.CpuReads
import HpcProfiler.WireFixpoint

/-!
Prefixes of CPU payloads. The decoder takes a field only if all of it is there, but
where a name or a shape is cut it goes on at the place where that field starts. What
is left of a long module name is then read as the block of numbers that follows it,
and what is left of a shape as the length of the data type. Every other prefix gives
each field its value or its default, from its own bytes.
-/

namespace HpcProfiler.CpuPrefix

open Events StructFormat Utf8Replace CpuCodec CpuRoundTrip WireFixpoint CpuReads

theorem unpackLen_take {payload : List UInt8} {off n : ℕ} (hn : n ≤ payload.length)
    (h : off + 2 ≤ n) : unpackLen (payload.take n) off = unpackLen payload off := by
  unfold unpackLen
  rw [unpackFrom_take hn h]

/-- Parts that stand one after another, from an offset on. -/
def placesFrom : ℕ → List (Part × ℕ) → List Read
  | _, [] => []
  | off, (part, len) :: rest => ⟨part, off, len⟩ :: placesFrom (off + len) rest

/-- Each field of the extension block is as in the full one or has its default. -/
structure Partial (full ext : CpuExt) : Prop where
  moduleName : ext.moduleName = full.moduleName ∨ ext.moduleName = ""
  peakRssKb : ext.peakRssKb = full.peakRssKb ∨ ext.peakRssKb = 0
  lifetimeNs : ext.lifetimeNs = full.lifetimeNs ∨ ext.lifetimeNs = 0
  isNumpy : ext.isNumpy = full.isNumpy ∨ ext.isNumpy = false
  bufferNbytes : ext.bufferNbytes = full.bufferNbytes ∨ ext.bufferNbytes = 0
  parentAddress : ext.parentAddress = full.parentAddress ∨ ext.parentAddress = 0
  pinnedAddress : ext.pinnedAddress = full.pinnedAddress ∨ ext.pinnedAddress = 0
  tracemallocSize : ext.tracemallocSize = full.tracemallocSize ∨ ext.tracemallocSize = 0
  arrayShape : ext.arrayShape = full.arrayShape ∨ ext.arrayShape = []
  arrayDtype : ext.arrayDtype = full.arrayDtype ∨ ext.arrayDtype = ""

/-- What is known when the reading of a stage begins: nothing, the name, the numbers
too, or all but the data type. -/
theorem Partial.empty (full : CpuExt) : Partial full {} := by
  constructor <;> exact Or.inr rfl

theorem Partial.name (full : CpuExt) : Partial full { moduleName := full.moduleName } := by
  constructor <;> first | exact Or.inl rfl | exact Or.inr rfl

theorem Partial.core (full : CpuExt) :
    Partial full { full with arrayShape := [], arrayDtype := "" } := by
  constructor <;> first | exact Or.inl rfl | exact Or.inr rfl

theorem Partial.shape (full : CpuExt) : Partial full { full with arrayDtype := "" } := by
  constructor <;> first | exact Or.inl rfl | exact Or.inr rfl

theorem Partial.refl (full : CpuExt) : Partial full full := by
  constructor <;> exact Or.inl rfl

section

variable {payload nameLen nameEnc core shapeBytes dtypeLen dtypeEnc : List UInt8} {off n : ℕ}
  {full : CpuExt} {places : List Read}

/-- A length that is in front of the cut is the one that was packed. -/
theorem yields_packedLen (part : Part) {lenBytes rest : List UInt8} {len : ℕ}
    (hpacked : Packed [.H] [(len : ℤ)] lenBytes) (hat : Remains payload off (lenBytes ++ rest))
    (hn : n ≤ payload.length) (hlen : off + 2 ≤ (payload.take n).length) :
    Yields (lenAt (slice (payload.take n)) part off) fun m reads =>
      m = len ∧ reads = [⟨part, off, 2⟩] := by
  refine (yields_lenAt part hlen).mono ?_
  rintro m reads ⟨hm, hreads⟩
  rw [List.length_take_of_le hn] at hlen
  rw [unpackLen_take hn hlen, unpackLen_eq hpacked hat] at hm
  cases hm
  exact ⟨rfl, hreads⟩

theorem dtypeAt_own (h : ExtParts full nameLen nameEnc core shapeBytes dtypeLen dtypeEnc)
    (hat : Remains payload off (dtypeLen ++ dtypeEnc)) (hn : n ≤ payload.length)
    (hlenPlace : ⟨.dtypeLen, off, 2⟩ ∈ places)
    (htextPlace : ⟨.dtype, off + 2, dtypeEnc.length⟩ ∈ places) :
    Yields (dtypeAt (payload.take n).length (slice (payload.take n)) off
        { full with arrayDtype := "" })
      fun ext reads => Partial full ext ∧ reads ⊆ places := by
  have hcut := List.length_take_of_le hn
  have hnext : Remains payload (off + 2) (dtypeEnc ++ []) := by
    rw [List.append_nil]
    exact hat.next h.dtypeLen.length_eq
  unfold dtypeAt
  by_cases hlen : off + 2 ≤ (payload.take n).length
  · rw [if_pos hlen]
    refine (yields_packedLen .dtypeLen h.dtypeLen hat hn hlen).bind ?_
    rintro m reads ⟨rfl, rfl⟩
    by_cases hdtype : off + 2 + dtypeEnc.length ≤ (payload.take n).length
    · rw [if_pos hdtype]
      refine (yields_textAt .dtype (off + 2) dtypeEnc.length).bind ?_
      rintro s reads ⟨rfl, rfl⟩
      rw [text_take (by omega), text_eq hnext, h.dtype]
      exact .pure ⟨Partial.refl full, by simp [hlenPlace, htextPlace]⟩
    · rw [if_neg hdtype]
      exact .pure ⟨Partial.shape full, by simp [hlenPlace]⟩
  · rw [if_neg hlen]
    exact .pure ⟨Partial.shape full, by simp⟩

/-- The shape is read from its own bytes unless the cut leaves two or more, not all. -/
theorem shapeAt_own (h : ExtParts full nameLen nameEnc core shapeBytes dtypeLen dtypeEnc)
    (hat : Remains payload off (shapeBytes ++ (dtypeLen ++ dtypeEnc))) (hn : n ≤ payload.length)
    (hwhole : ¬(off + 2 ≤ n ∧ n < off + full.arrayShape.length * 8))
    (hshapePlace : ⟨.shape, off, full.arrayShape.length * 8⟩ ∈ places)
    (hlenPlace : ⟨.dtypeLen, off + full.arrayShape.length * 8, 2⟩ ∈ places)
    (htextPlace : ⟨.dtype, off + full.arrayShape.length * 8 + 2, dtypeEnc.length⟩ ∈ places) :
    Yields (shapeAt (payload.take n).length (slice (payload.take n)) off full.arrayShape.length
        { full with arrayShape := [], arrayDtype := "" })
      fun ext reads => Partial full ext ∧ reads ⊆ places := by
  have hcut := List.length_take_of_le hn
  have hsize : size (List.replicate full.arrayShape.length .Q) = full.arrayShape.length * 8 :=
    size_replicate _ _
  have hnext : Remains payload (off + full.arrayShape.length * 8) (dtypeLen ++ dtypeEnc) :=
    hat.next (packShape_length h.shape)
  have hdtype := dtypeAt_own h hnext hn hlenPlace htextPlace
  unfold shapeAt
  by_cases hshape : 0 < full.arrayShape.length ∧
      off + full.arrayShape.length * 8 ≤ (payload.take n).length
  · obtain ⟨bytes, hbytes⟩ := exists_packed (fits_shape h.dims)
    have hsame : bytes = shapeBytes := by
      have hshapeBytes := h.shape
      rw [packShape, if_neg (by omega), hbytes.packs] at hshapeBytes
      exact Except.ok.inj hshapeBytes
    subst hsame
    rw [if_pos hshape]
    refine (yields_unpackAt .shape (by omega)).bind ?_
    rintro shapeVals reads ⟨hvals, rfl⟩
    rw [unpackFrom_take hn (by omega), hbytes.unpackFrom hat] at hvals
    cases hvals
    rw [hsize]
    refine hdtype.mono ?_
    rintro ext reads ⟨hext, hreads⟩
    exact ⟨hext, by simp [hshapePlace, hreads]⟩
  · rw [if_neg hshape]
    by_cases hnil : full.arrayShape.length = 0
    · have hempty : full.arrayShape = [] := List.length_eq_zero_iff.mp hnil
      rw [hnil, Nat.zero_mul, Nat.add_zero, hempty] at hdtype
      exact hdtype
    · have hshort : ¬off + 2 ≤ (payload.take n).length := by omega
      rw [dtypeAt, if_neg hshort]
      exact .pure ⟨Partial.core full, by simp⟩

/-- A shape that is cut behind its second byte makes the length of the data type come
from the first two. -/
theorem shapeAt_cut {arrayNdim : ℕ} (hn : n ≤ payload.length) (htwo : off + 2 ≤ n)
    (hcut : n < off + arrayNdim * 8) (ext : CpuExt) :
    Yields (shapeAt (payload.take n).length (slice (payload.take n)) off arrayNdim ext)
      fun _ reads => ⟨.dtypeLen, off, 2⟩ ∈ reads := by
  have hlen := List.length_take_of_le hn
  unfold shapeAt
  rw [if_neg (by omega)]
  exact (yields_dtypeAt _ off ext).mono fun _ _ h => h.2 (by omega)

theorem yields_core (h : ExtParts full nameLen nameEnc core shapeBytes dtypeLen dtypeEnc)
    (hat : Remains payload off (core ++ (shapeBytes ++ (dtypeLen ++ dtypeEnc))))
    (hn : n ≤ payload.length) (hcore : off + cpuExtSize ≤ n) :
    Yields (unpackAt (slice (payload.take n)) .core cpuExtFmt off) fun vs reads =>
      vs = coreValues full ∧ reads = [⟨.core, off, cpuExtSize⟩] := by
  have hcut := List.length_take_of_le hn
  have hread : off + size cpuExtFmt ≤ (payload.take n).length := by
    change off + cpuExtSize ≤ _
    omega
  refine (yields_unpackAt .core hread).mono ?_
  rintro vs reads ⟨hvs, rfl⟩
  rw [unpackFrom_take hn hcore, h.core.unpackFrom hat] at hvs
  cases hvs
  exact ⟨rfl, rfl⟩

theorem coreAt_own (h : ExtParts full nameLen nameEnc core shapeBytes dtypeLen dtypeEnc)
    (hat : Remains payload off (core ++ (shapeBytes ++ (dtypeLen ++ dtypeEnc))))
    (hn : n ≤ payload.length)
    (hwhole : ¬(off + cpuExtSize + 2 ≤ n ∧ n < off + cpuExtSize + full.arrayShape.length * 8))
    (hcorePlace : ⟨.core, off, cpuExtSize⟩ ∈ places)
    (hshapePlace : ⟨.shape, off + cpuExtSize, full.arrayShape.length * 8⟩ ∈ places)
    (hlenPlace : ⟨.dtypeLen, off + cpuExtSize + full.arrayShape.length * 8, 2⟩ ∈ places)
    (htextPlace :
      ⟨.dtype, off + cpuExtSize + full.arrayShape.length * 8 + 2, dtypeEnc.length⟩ ∈ places) :
    Yields (coreAt (payload.take n).length (slice (payload.take n)) off
        { moduleName := full.moduleName })
      fun ext reads => Partial full ext ∧ reads ⊆ places := by
  have hcut := List.length_take_of_le hn
  have hnext : Remains payload (off + cpuExtSize) (shapeBytes ++ (dtypeLen ++ dtypeEnc)) :=
    hat.next h.core.length_eq
  unfold coreAt
  by_cases hcore : off + cpuExtSize ≤ (payload.take n).length
  · rw [if_pos hcore]
    refine (yields_core h hat hn (by omega)).bind ?_
    rintro vs reads ⟨rfl, rfl⟩
    dsimp only [coreValues]
    rw [Int.toNat_natCast, byteOfBool_ne_zero]
    refine (shapeAt_own h hnext hn hwhole hshapePlace hlenPlace htextPlace).mono ?_
    rintro ext reads ⟨hext, hreads⟩
    exact ⟨hext, by simp [hcorePlace, hreads]⟩
  · rw [if_neg hcore]
    exact .pure ⟨Partial.name full, by simp⟩

theorem coreAt_cut (h : ExtParts full nameLen nameEnc core shapeBytes dtypeLen dtypeEnc)
    (hat : Remains payload off (core ++ (shapeBytes ++ (dtypeLen ++ dtypeEnc))))
    (hn : n ≤ payload.length) (htwo : off + cpuExtSize + 2 ≤ n)
    (hcut : n < off + cpuExtSize + full.arrayShape.length * 8) (ext : CpuExt) :
    Yields (coreAt (payload.take n).length (slice (payload.take n)) off ext)
      fun _ reads => ⟨.dtypeLen, off + cpuExtSize, 2⟩ ∈ reads := by
  have hlen := List.length_take_of_le hn
  unfold coreAt
  rw [if_pos (by omega)]
  refine (yields_core h hat hn (by omega)).bind ?_
  rintro vs reads ⟨rfl, rfl⟩
  dsimp only [coreValues]
  rw [Int.toNat_natCast]
  exact (shapeAt_cut hn htwo hcut _).mono fun _ _ hmem => List.mem_append_right _ hmem

/-- Where the whole name is there, or less of it than the numbers take, the extension
block is read from its own bytes as far as its shape is. -/
theorem extAt_own (h : ExtParts full nameLen nameEnc core shapeBytes dtypeLen dtypeEnc)
    (hat : Remains payload off
      (nameLen ++ (nameEnc ++ (core ++ (shapeBytes ++ (dtypeLen ++ dtypeEnc))))))
    (hn : n ≤ payload.length)
    (hname : ¬(off + 2 + cpuExtSize ≤ n ∧ n < off + 2 + nameEnc.length))
    (hwhole : ¬(off + 2 + nameEnc.length + cpuExtSize + 2 ≤ n ∧
      n < off + 2 + nameEnc.length + cpuExtSize + full.arrayShape.length * 8))
    (hplaces : placesFrom off [(.moduleNameLen, 2), (.moduleName, nameEnc.length),
      (.core, cpuExtSize), (.shape, full.arrayShape.length * 8), (.dtypeLen, 2),
      (.dtype, dtypeEnc.length)] ⊆ places) :
    Yields (extAt (payload.take n).length (slice (payload.take n)) off)
      fun ext reads => Partial full ext ∧ reads ⊆ places := by
  have hcut := List.length_take_of_le hn
  have htwo : nameLen.length = 2 := h.nameLen.length_eq
  have htext := hat.next htwo
  have hnext := htext.next rfl
  simp only [placesFrom, List.cons_subset, List.nil_subset, and_true] at hplaces
  obtain ⟨hnameLenPlace, hnamePlace, hcorePlace, hshapePlace, hlenPlace, htextPlace⟩ := hplaces
  unfold extAt
  by_cases hlen : off + 2 ≤ (payload.take n).length
  · rw [if_pos hlen]
    refine (yields_packedLen .moduleNameLen h.nameLen hat hn hlen).bind ?_
    rintro m reads ⟨rfl, rfl⟩
    by_cases hfits : off + 2 + nameEnc.length ≤ (payload.take n).length
    · rw [if_pos hfits]
      refine (yields_textAt .moduleName (off + 2) nameEnc.length).bind ?_
      rintro s reads ⟨rfl, rfl⟩
      rw [text_take (by omega), text_eq htext, h.name]
      refine (coreAt_own h hnext hn hwhole hcorePlace hshapePlace hlenPlace htextPlace).mono ?_
      rintro ext reads ⟨hext, hreads⟩
      exact ⟨hext, by simp [hnameLenPlace, hnamePlace, hreads]⟩
    · have hshort : ¬off + 2 + cpuExtSize ≤ (payload.take n).length := by omega
      rw [if_neg hfits, coreAt, if_neg hshort]
      exact .pure ⟨Partial.empty full, by simp [hnameLenPlace]⟩
  · rw [if_neg hlen]
    exact .pure ⟨Partial.empty full, by simp⟩

/-- A name of which as many bytes are left as the numbers take, but not all, makes the
numbers come from them. -/
theorem extAt_cutName (h : ExtParts full nameLen nameEnc core shapeBytes dtypeLen dtypeEnc)
    (hat : Remains payload off
      (nameLen ++ (nameEnc ++ (core ++ (shapeBytes ++ (dtypeLen ++ dtypeEnc))))))
    (hn : n ≤ payload.length) (hcore : off + 2 + cpuExtSize ≤ n)
    (hname : n < off + 2 + nameEnc.length) :
    Yields (extAt (payload.take n).length (slice (payload.take n)) off)
      fun _ reads => ⟨.core, off + 2, cpuExtSize⟩ ∈ reads := by
  have hcut := List.length_take_of_le hn
  have hlen : off + 2 ≤ (payload.take n).length := by omega
  unfold extAt
  rw [if_pos hlen]
  refine (yields_packedLen .moduleNameLen h.nameLen hat hn hlen).bind ?_
  rintro m reads ⟨rfl, rfl⟩
  rw [if_neg (by omega)]
  refine (yields_coreAt _ (off + 2) {}).mono ?_
  rintro ext reads ⟨-, hreads⟩
  exact List.mem_append_right _ (hreads (by omega))

theorem extAt_cutShape (h : ExtParts full nameLen nameEnc core shapeBytes dtypeLen dtypeEnc)
    (hat : Remains payload off
      (nameLen ++ (nameEnc ++ (core ++ (shapeBytes ++ (dtypeLen ++ dtypeEnc))))))
    (hn : n ≤ payload.length) (htwo : off + 2 + nameEnc.length + cpuExtSize + 2 ≤ n)
    (hshape : n < off + 2 + nameEnc.length + cpuExtSize + full.arrayShape.length * 8) :
    Yields (extAt (payload.take n).length (slice (payload.take n)) off)
      fun _ reads => ⟨.dtypeLen, off + 2 + nameEnc.length + cpuExtSize, 2⟩ ∈ reads := by
  have hcut := List.length_take_of_le hn
  have hlen : off + 2 ≤ (payload.take n).length := by omega
  have hnext := (hat.next h.nameLen.length_eq).next rfl
  unfold extAt
  rw [if_pos hlen]
  refine (yields_packedLen .moduleNameLen h.nameLen hat hn hlen).bind ?_
  rintro m reads ⟨rfl, rfl⟩
  rw [if_pos (by omega)]
  refine (yields_textAt .moduleName (off + 2) nameEnc.length).bind ?_
  rintro s reads ⟨rfl, rfl⟩
  refine (coreAt_cut h hnext hn htwo hshape _).mono ?_
  intro ext reads hreads
  exact List.mem_append_right _ (List.mem_append_right _ hreads)

end

/-- The parts of an event's payload, each with its place. -/
def places (event : CpuEvent) : List Read :=
  placesFrom 0 [(.header, 53), (.objectType, (encodeCapped event.objectType).length),
    (.moduleNameLen, 2), (.moduleName, (encodeCapped (event.moduleName.getD "")).length),
    (.core, 50), (.shape, (shapeDims event).length * 8), (.dtypeLen, 2),
    (.dtype, (encodeCapped (event.arrayDtype.getD "")).length)]

def nameStart (event : CpuEvent) : ℕ := 53 + (encodeCapped event.objectType).length + 2

def nameEnd (event : CpuEvent) : ℕ :=
  nameStart event + (encodeCapped (event.moduleName.getD "")).length

def shapeStart (event : CpuEvent) : ℕ := nameEnd event + 50

def shapeEnd (event : CpuEvent) : ℕ := shapeStart event + (shapeDims event).length * 8

/-- What a prefix of an event's payload should be decoded to, given the decoding of the
whole payload: the header is the event's, with a known event type; the name is read
from a prefix of its bytes; every other field is as in the whole decoding or has its
default; and no part is read but from its own place. -/
structure NeverInvents (event full r : CpuEvent) (reads : List Read) : Prop where
  base : r.base = { event.base with eventType := wireType event.base.eventType }
  allocAddress : r.allocAddress = event.allocAddress
  allocSizeBytes : r.allocSizeBytes = event.allocSizeBytes
  refCount : r.refCount = event.refCount
  gcGeneration : r.gcGeneration = event.gcGeneration
  isDealloc : r.isDealloc = event.isDealloc
  objectType : ∃ m, r.objectType = decodeReplace ((encode event.objectType).take m)
  callstack : r.callstack = full.callstack
  moduleName : r.moduleName = full.moduleName ∨ r.moduleName = some ""
  peakRssKb : r.peakRssKb = full.peakRssKb ∨ r.peakRssKb = some 0
  lifetimeNs : r.lifetimeNs = full.lifetimeNs ∨ r.lifetimeNs = some 0
  isNumpyBuffer : r.isNumpyBuffer = full.isNumpyBuffer ∨ r.isNumpyBuffer = some false
  bufferNbytes : r.bufferNbytes = full.bufferNbytes ∨ r.bufferNbytes = some 0
  parentAddress : r.parentAddress = full.parentAddress ∨ r.parentAddress = some 0
  pinnedAddress : r.pinnedAddress = full.pinnedAddress ∨ r.pinnedAddress = some 0
  tracemallocSize : r.tracemallocSize = full.tracemallocSize ∨ r.tracemallocSize = some 0
  arrayShape : r.arrayShape = full.arrayShape ∨ r.arrayShape = some []
  arrayDtype : r.arrayDtype = full.arrayDtype ∨ r.arrayDtype = some ""
  reads : reads ⊆ places event

/-- The event that the header, a name and an extension block make up. -/
def decodedWith (event : CpuEvent) (objectType : String) (ext : CpuExt) : CpuEvent :=
  { event with
    objectType
    callstack := []
    moduleName := some ext.moduleName
    peakRssKb := some ext.peakRssKb
    lifetimeNs := some ext.lifetimeNs
    isNumpyBuffer := some ext.isNumpy
    bufferNbytes := some ext.bufferNbytes
    parentAddress := some ext.parentAddress
    pinnedAddress := some ext.pinnedAddress
    tracemallocSize := some ext.tracemallocSize
    arrayShape := some ext.arrayShape
    arrayDtype := some ext.arrayDtype }

/-- The header and the name in front of an extension block. -/
theorem yields_decodedWith {event : CpuEvent} {eventType : ℤ} {isDealloc : Bool}
    {payload fixed rest : List UInt8} {n : ℕ} {P : CpuExt → List Read → Prop}
    (hrev : typeMapRev.lookup eventType = some event.base.eventType)
    (hdealloc : event.isDealloc = some isDealloc)
    (hfixed : Packed fixedFmt (fixedValues event eventType isDealloc) fixed)
    (hpayload : payload = fixed ++ rest) (hn : n ≤ payload.length) (hlong : 53 ≤ n)
    (hext : Yields (extAt (payload.take n).length (slice (payload.take n))
      (53 + (encodeCapped event.objectType).length)) P) :
    Yields (eventAt (payload.take n).length (slice (payload.take n))) fun r reads =>
      ∃ ext more, r = decodedWith event
          (text (payload.take n) 53 (encodeCapped event.objectType).length) ext ∧
        reads = ⟨.header, 0, 53⟩ ::
          ⟨.objectType, 53, (encodeCapped event.objectType).length⟩ :: more ∧ P ext more := by
  have hcut := List.length_take_of_le hn
  have hsize : fixedSize = 53 := rfl
  have hheader : 0 + size fixedFmt ≤ n := by
    change 0 + fixedSize ≤ n
    omega
  have hat : Remains payload 0 (fixed ++ rest) := ⟨Nat.zero_le _, hpayload⟩
  unfold eventAt
  rw [if_neg (by omega)]
  refine (yields_unpackAt .header (by omega)).bind ?_
  rintro vs reads ⟨hvs, rfl⟩
  rw [unpackFrom_take hn hheader, hfixed.unpackFrom hat] at hvs
  cases hvs
  dsimp only [fixedValues]
  rw [Int.toNat_natCast]
  refine (yields_textAt .objectType fixedSize _).bind ?_
  rintro s reads ⟨rfl, rfl⟩
  refine hext.bind ?_
  intro ext more hmore
  refine .pure ⟨ext, more, ?_, ?_, hmore⟩
  · rw [hrev, byteOfBool_ne_zero, ← hdealloc]
    rfl
  · rw [List.append_nil]
    rfl

theorem core_mem_places {event : CpuEvent} {off : ℕ} (h : ⟨.core, off, 50⟩ ∈ places event) :
    off = nameEnd event := by
  simp only [places, placesFrom, List.mem_cons, List.not_mem_nil, Read.mk.injEq, reduceCtorEq,
    false_and, or_false, false_or, true_and, and_true] at h
  unfold nameEnd nameStart
  omega

theorem dtypeLen_mem_places {event : CpuEvent} {off : ℕ}
    (h : ⟨.dtypeLen, off, 2⟩ ∈ places event) : off = shapeEnd event := by
  simp only [places, placesFrom, List.mem_cons, List.not_mem_nil, Read.mk.injEq, reduceCtorEq,
    false_and, or_false, false_or, true_and, and_true] at h
  unfold shapeEnd shapeStart nameEnd nameStart
  omega

/-- The name that is left of a payload is read from a prefix of its bytes. -/
theorem exists_text_prefix {payload fixed rest : List UInt8} {n : ℕ} (s : String)
    (hpayload : payload = fixed ++ (encodeCapped s ++ rest)) (hfixed : fixed.length = 53) :
    ∃ m, text (payload.take n) 53 (encodeCapped s).length =
      decodeReplace ((encode s).take m) := by
  refine ⟨min (min (encodeCapped s).length (n - 53)) 65535, ?_⟩
  have hdrop : payload.drop 53 = encodeCapped s ++ rest := by
    rw [hpayload, List.drop_left' hfixed]
  unfold text
  rw [List.drop_take, hdrop, List.take_take,
    List.take_append_of_le_length (Nat.min_le_left _ _)]
  exact congrArg decodeReplace List.take_take

theorem neverInvents_decodedWith {event : CpuEvent} {objectType : String} {ext : CpuExt}
    {reads : List Read}
    (hobject : ∃ m, objectType = decodeReplace ((encode event.objectType).take m))
    (hext : Partial (sentExt (carried event)) ext) (hreads : reads ⊆ places event) :
    NeverInvents event (received (carried event)) (decodedWith (carried event) objectType ext)
      reads where
  base := rfl
  allocAddress := rfl
  allocSizeBytes := rfl
  refCount := rfl
  gcGeneration := rfl
  isDealloc := rfl
  objectType := hobject
  callstack := rfl
  moduleName := hext.moduleName.imp (congrArg some) (congrArg some)
  peakRssKb := hext.peakRssKb.imp (congrArg some) (congrArg some)
  lifetimeNs := hext.lifetimeNs.imp (congrArg some) (congrArg some)
  isNumpyBuffer := hext.isNumpy.imp (congrArg some) (congrArg some)
  bufferNbytes := hext.bufferNbytes.imp (congrArg some) (congrArg some)
  parentAddress := hext.parentAddress.imp (congrArg some) (congrArg some)
  pinnedAddress := hext.pinnedAddress.imp (congrArg some) (congrArg some)
  tracemallocSize := hext.tracemallocSize.imp (congrArg some) (congrArg some)
  arrayShape := hext.arrayShape.imp (congrArg some) (congrArg some)
  arrayDtype := hext.arrayDtype.imp (congrArg some) (congrArg some)
  reads := hreads

/-- The bytes of a payload, part by part. -/
theorem payload_parts {event : CpuEvent} {payload : List UInt8}
    (h : serialize event = .ok payload) :
    ∃ eventType isDealloc fixed nameLen core shapeBytes dtypeLen,
      typeMapRev.lookup eventType = some (carried event).base.eventType ∧
      (carried event).isDealloc = some isDealloc ∧
      Packed fixedFmt (fixedValues (carried event) eventType isDealloc) fixed ∧
      ExtParts (sentExt (carried event)) nameLen (encodeCapped (event.moduleName.getD "")) core
        shapeBytes dtypeLen (encodeCapped (event.arrayDtype.getD "")) ∧
      payload = fixed ++ (encodeCapped event.objectType ++ (nameLen ++
        (encodeCapped (event.moduleName.getD "") ++ (core ++ (shapeBytes ++ (dtypeLen ++
          encodeCapped (event.arrayDtype.getD ""))))))) := by
  obtain ⟨eventType, isDealloc, fixed, nameLen, core, shapeBytes, dtypeLen, hrev, hdealloc,
    hfixed, hext, hserialize⟩ := serialize_parts (numbersFit_of_serialize h).fitsWire_carried
  rw [serialize_carried, h] at hserialize
  exact ⟨eventType, isDealloc, fixed, nameLen, core, shapeBytes, dtypeLen, hrev, hdealloc,
    hfixed, hext, Except.ok.inj hserialize⟩

/-- What a prefix is decoded to, given what its extension block is. -/
theorem deserialize_take {event : CpuEvent} {payload : List UInt8} {n : ℕ}
    (h : serialize event = .ok payload) (hn : n ≤ payload.length) (hlong : 53 ≤ n)
    {P : CpuExt → List Read → Prop}
    (hext : Yields (extAt (payload.take n).length (slice (payload.take n))
      (53 + (encodeCapped event.objectType).length)) P) :
    ∃ objectType ext more,
      deserialize (payload.take n) = .ok (decodedWith (carried event) objectType ext) ∧
      deserializeLogged (payload.take n) = .ok (decodedWith (carried event) objectType ext,
        ⟨.header, 0, 53⟩ :: ⟨.objectType, 53, (encodeCapped event.objectType).length⟩ :: more) ∧
      (∃ m, objectType = decodeReplace ((encode event.objectType).take m)) ∧ P ext more := by
  obtain ⟨eventType, isDealloc, fixed, nameLen, core, shapeBytes, dtypeLen, hrev, hdealloc,
    hfixed, -, hpayload⟩ := payload_parts h
  have hcut : 53 ≤ (payload.take n).length := by rwa [List.length_take_of_le hn]
  obtain ⟨r, reads, hlogged, ⟨ext, more, rfl, rfl, hmore⟩, hread⟩ :=
    (yields_decodedWith hrev hdealloc hfixed hpayload hn hlong hext).and (yields_eventAt hcut) []
  exact ⟨_, ext, more, hread, hlogged,
    exists_text_prefix event.objectType hpayload hfixed.length_eq, hmore⟩

theorem take_neverInvents_iff {event : CpuEvent} {payload : List UInt8} {n : ℕ}
    (h : serialize event = .ok payload) (hn : n ≤ payload.length) (hlong : 53 ≤ n) :
    ∃ r reads, deserialize (payload.take n) = .ok r ∧
      deserializeLogged (payload.take n) = .ok (r, reads) ∧
      (NeverInvents event (received (carried event)) r reads ↔
        ¬(nameStart event + 50 ≤ n ∧ n < nameEnd event) ∧
        ¬(shapeStart event + 2 ≤ n ∧ n < shapeEnd event)) := by
  obtain ⟨eventType, isDealloc, fixed, nameLen, core, shapeBytes, dtypeLen, -, -, hfixed, hext,
    hpayload⟩ := payload_parts h
  have hfixedLen : fixed.length = 53 := hfixed.length_eq
  have hat : Remains payload 53 _ := hpayload ▸ hfixedLen ▸ Remains.start fixed _
  have hrest := hat.next rfl
  have hdims : (sentExt (carried event)).arrayShape = shapeDims event := shapeDims_carried event
  by_cases hname : nameStart event + 50 ≤ n ∧ n < nameEnd event
  · obtain ⟨objectType, ext, more, hread, hlogged, -, hcore⟩ :=
      deserialize_take h hn hlong (extAt_cutName hext hrest hn hname.1 hname.2)
    refine ⟨_, _, hread, hlogged, ?_⟩
    constructor
    · intro hnever
      have hplace := core_mem_places (hnever.reads (List.mem_cons_of_mem _
        (List.mem_cons_of_mem _ hcore)))
      unfold nameEnd nameStart at *
      omega
    · intro hcond
      exact absurd hname hcond.1
  by_cases hshape : shapeStart event + 2 ≤ n ∧ n < shapeEnd event
  · have hbehind : n < 53 + (encodeCapped event.objectType).length + 2 +
        (encodeCapped (event.moduleName.getD "")).length + cpuExtSize +
        (sentExt (carried event)).arrayShape.length * 8 := by
      rw [hdims]
      exact hshape.2
    obtain ⟨objectType, ext, more, hread, hlogged, -, hdtypeLen⟩ :=
      deserialize_take h hn hlong (extAt_cutShape hext hrest hn hshape.1 hbehind)
    refine ⟨_, _, hread, hlogged, ?_⟩
    constructor
    · intro hnever
      have hplace : shapeStart event = shapeEnd event := dtypeLen_mem_places (hnever.reads
        (List.mem_cons_of_mem _ (List.mem_cons_of_mem _ hdtypeLen)))
      omega
    · intro hcond
      exact absurd hshape hcond.2
  · have hyields : Yields (extAt (payload.take n).length (slice (payload.take n))
        (53 + (encodeCapped event.objectType).length))
        fun ext reads => Partial (sentExt (carried event)) ext ∧ reads ⊆ places event := by
      refine extAt_own hext hrest hn hname ?_ ?_
      · rw [hdims]
        exact hshape
      · rw [hdims]
        exact fun read hread => List.mem_cons_of_mem _ (List.mem_cons_of_mem _ hread)
    obtain ⟨objectType, ext, more, hread, hlogged, hobject, hpartial, hmore⟩ :=
      deserialize_take h hn hlong hyields
    refine ⟨_, _, hread, hlogged, iff_of_true ?_ ⟨hname, hshape⟩⟩
    refine neverInvents_decodedWith hobject hpartial ?_
    simp only [List.cons_subset]
    exact ⟨List.mem_cons_self .., List.mem_cons_of_mem _ (List.mem_cons_self ..), hmore⟩

/-- A prefix of an event's payload with a whole header is decoded without inventing
anything exactly if the cut does not fall into the module name behind its fiftieth
byte, nor into the shape behind its second. -/
theorem prefix_neverInvents_iff (event : CpuEvent) (payload : List UInt8)
    (h : serialize event = .ok payload) (p : List UInt8) (hp : p <+: payload)
    (hlong : 53 ≤ p.length) :
    ∃ full r reads, deserialize payload = .ok full ∧ deserialize p = .ok r ∧
      deserializeLogged p = .ok (r, reads) ∧
      (NeverInvents event full r reads ↔
        ¬(nameStart event + 50 ≤ p.length ∧ p.length < nameEnd event) ∧
        ¬(shapeStart event + 2 ≤ p.length ∧ p.length < shapeEnd event)) := by
  obtain ⟨whole, hwhole, hfull⟩ := (numbersFit_of_serialize h).readBack
  cases Except.ok.inj (h.symm.trans hwhole)
  have hn := hp.length_le
  rw [List.prefix_iff_eq_take] at hp
  obtain ⟨r, reads, hread, hlogged, hiff⟩ := take_neverInvents_iff h hn hlong
  rw [← hp] at hread hlogged
  exact ⟨_, r, reads, hfull, hread, hlogged, hiff⟩

/-- An event with a module name that is longer than the numbers behind it. -/
def longModule : CpuEvent where
  base := {
    eventId := 7, timestampNs := 1000, processId := 42, threadId := 140, eventType := "ALLOC" }
  allocAddress := 4096
  allocSizeBytes := 1024
  objectType := "int"
  refCount := 2
  gcGeneration := -1
  isDealloc := some false
  callstack := []
  moduleName := some (String.ofList (List.replicate 60 'a'))
  peakRssKb := none
  lifetimeNs := none
  isNumpyBuffer := none
  bufferNbytes := none
  parentAddress := none
  pinnedAddress := none
  tracemallocSize := none
  arrayShape := none
  arrayDtype := none

/-- Fifty letters of the name are read as a peak of 0x6161616161616161 kilobytes. -/
example : ((serialize longModule).bind fun payload =>
    (deserialize (payload.take 108)).map CpuEvent.peakRssKb) = .ok (some 0x6161616161616161) := rfl

theorem longModule_fits : NumbersFit longModule := by
  constructor
  case isDealloc => rfl
  case shapeDims =>
    intro d hd
    cases hd
  all_goals exact ⟨by decide, by decide⟩

theorem exists_serialize_longModule :
    ∃ payload, serialize longModule = .ok payload ∧ payload.length = 170 := by
  obtain ⟨payload, hpayload, -⟩ := longModule_fits.readBack
  refine ⟨payload, hpayload, ?_⟩
  rw [serialize_length hpayload]
  decide

theorem prefix_neverInvents_iff_longModule :
    ∃ payload, serialize longModule = .ok payload ∧
      ∃ full r reads, deserialize payload = .ok full ∧ deserialize (payload.take 100) = .ok r ∧
        deserializeLogged (payload.take 100) = .ok (r, reads) ∧
        (NeverInvents longModule full r reads ↔
          ¬(nameStart longModule + 50 ≤ (payload.take 100).length ∧
            (payload.take 100).length < nameEnd longModule) ∧
          ¬(shapeStart longModule + 2 ≤ (payload.take 100).length ∧
            (payload.take 100).length < shapeEnd longModule)) := by
  obtain ⟨payload, hpayload, hlen⟩ := exists_serialize_longModule
  have hlong : 53 ≤ (payload.take 100).length := by
    rw [List.length_take]
    omega
  exact ⟨payload, hpayload, prefix_neverInvents_iff longModule payload hpayload _
    (List.take_prefix 100 payload) hlong⟩

/-- A cut inside this name makes the decoder invent the numbers. -/
theorem longModule_invented :
    ¬ ∀ (event : CpuEvent) (payload : List UInt8), serialize event = .ok payload →
      ∀ p : List UInt8, p <+: payload → 53 ≤ p.length →
      ∃ full r reads, deserialize payload = .ok full ∧ deserialize p = .ok r ∧
        deserializeLogged p = .ok (r, reads) ∧ NeverInvents event full r reads := by
  intro hclaim
  obtain ⟨payload, hpayload, hlen⟩ := exists_serialize_longModule
  have hcut : (payload.take 108).length = 108 := List.length_take_of_le (by omega)
  obtain ⟨full, r, reads, hfull, hread, hlogged, hnever⟩ :=
    hclaim longModule payload hpayload _ (List.take_prefix 108 payload) (by omega)
  obtain ⟨whole, hwhole, hreceived⟩ := (numbersFit_of_serialize hpayload).readBack
  cases Except.ok.inj (hpayload.symm.trans hwhole)
  cases Except.ok.inj (hfull.symm.trans hreceived)
  obtain ⟨r', reads', -, hlogged', hiff⟩ :=
    take_neverInvents_iff (n := 108) hpayload (by omega) (by omega)
  cases Except.ok.inj (hlogged.symm.trans hlogged')
  exact absurd (hiff.mp hnever).1 (by decide)

end HpcProfiler.CpuPrefix
