import HpcProfiler.SaturatingSum
import HpcProfiler.TracerCallbacks
import Mathlib.Algebra.BigOperators.Group.Finset.Sigma
import Mathlib.Algebra.Order.BigOperators.Group.Finset

/-!
The counters of the matrix demo. Records of copies and of the unified memory are summed up
by kind, and the bytes that migrate are charged to the array they belong to. The counters
stop at the largest word, so what they show does not depend on the order of the records.
-/

namespace HpcProfiler.MigrationCounts

open SaturatingSum
open TracerCallbacks (CopyKind)

def UINT64_MAX : UInt64 := 0xFFFFFFFFFFFFFFFF

/-- The start and the end of a range; the end is clamped if it would overflow. -/
def safeRange (addr len : UInt64) : UInt64 × UInt64 :=
  (addr, if len > UINT64_MAX - addr then UINT64_MAX else addr + len)

def satAddU64 (acc inc : UInt64) : UInt64 :=
  if acc > UINT64_MAX - inc then UINT64_MAX else acc + inc

inductive CounterKind
  | bytesTransferHtod
  | bytesTransferDtoh
  | bytesTransferDtod
  | cpuPageFaultCount
  | gpuPageFault
  | other
  deriving DecidableEq

/-- The kinds whose records are charged to an array. -/
def CounterKind.IsTransfer (k : CounterKind) : Prop :=
  k = .bytesTransferHtod ∨ k = .bytesTransferDtoh ∨ k = .bytesTransferDtod

instance (k : CounterKind) : Decidable k.IsTransfer := inferInstanceAs (Decidable (_ ∨ _ ∨ _))

structure MemcpyRecord where
  copyKind : CopyKind
  bytes : UInt64

structure UnifiedMemoryCounter2 where
  counterKind : CounterKind
  address : UInt64
  value : UInt64

inductive Activity
  | memcpy (m : MemcpyRecord)
  | unifiedMemoryCounter (u : UnifiedMemoryCounter2)
  | pcSampling
  | globalAccess
  | other

/-- The counters of an array are those of the unified memory, less the last one. -/
structure ArrayInfo where
  name : String
  base : UInt64
  size : UInt64
  um : CounterKind → UInt64

/-- The registry and the global counters. -/
structure Counters where
  arrays : List ArrayInfo
  bytes : CopyKind → UInt64
  um : CounterKind → UInt64
  pcSamplingRecords : UInt64
  globalAccessRecords : UInt64

def start : Counters := ⟨[], fun _ => 0, fun _ => 0, 0, 0⟩

/-- The registry has four slots; a fifth array is ignored with a message. -/
def registerArray (s : Counters) (name : String) (ptr size : UInt64) : Counters :=
  if s.arrays.length ≥ 4 then s
  else { s with arrays := s.arrays ++ [⟨name, ptr, size, fun _ => 0⟩] }

def ArrayInfo.Overlaps (a : ArrayInfo) (addr len : UInt64) : Prop :=
  (safeRange addr len).1 < (safeRange a.base a.size).2 ∧
    (safeRange addr len).2 > (safeRange a.base a.size).1

instance (a : ArrayInfo) (addr len : UInt64) : Decidable (a.Overlaps addr len) :=
  inferInstanceAs (Decidable (_ ∧ _))

def findArrayForRange (arrays : List ArrayInfo) (addr len : UInt64) : Option ℕ :=
  arrays.findIdx? fun a => a.Overlaps addr len

/-- The array that a record is charged to. What belongs to none of the arrays goes to the
last one. -/
def chargedArray (arrays : List ArrayInfo) (u : UnifiedMemoryCounter2) : Option ℕ :=
  if u.counterKind.IsTransfer then
    match findArrayForRange arrays u.address u.value with
    | some i => some i
    | none => if arrays.length > 0 then some (arrays.length - 1) else none
  else none

def bump {κ : Type*} [DecidableEq κ] (counters : κ → UInt64) (k : κ) (inc : UInt64) : κ → UInt64 :=
  Function.update counters k (satAddU64 (counters k) inc)

/-- One amount for the global counter and for that of the array. -/
def Counters.count (s : Counters) (arr : Option ℕ) (k : CounterKind) (inc : UInt64) : Counters :=
  { s with
    um := bump s.um k inc
    arrays := match arr with
      | some i => s.arrays.modify i fun a => { a with um := bump a.um k inc }
      | none => s.arrays }

/-- The records of sampling and of global access fall through to the kinds that are
ignored. -/
def handleActivityRecord (s : Counters) : Activity → Counters
  | .memcpy m => { s with bytes := bump s.bytes m.copyKind m.bytes }
  | .unifiedMemoryCounter u =>
    let arr := chargedArray s.arrays u
    match u.counterKind with
    | .bytesTransferHtod => s.count arr .bytesTransferHtod u.value
    | .bytesTransferDtoh => s.count arr .bytesTransferDtoh u.value
    | .bytesTransferDtod => s.count arr .bytesTransferDtod u.value
    | .cpuPageFaultCount => s.count arr .cpuPageFaultCount 1 -- the value is the PC
    | .gpuPageFault => s.count arr .gpuPageFault u.value
    | .other => { s with um := bump s.um .other u.value }
  | .pcSampling => s
  | .globalAccess => s
  | .other => s

def bufferCompleted (s : Counters) (buffer : List Activity) : Counters :=
  buffer.foldl handleActivityRecord s

/-- The sum of the report wraps. -/
def totalBytes (s : Counters) : UInt64 :=
  s.um .bytesTransferHtod + s.um .bytesTransferDtoh + s.um .bytesTransferDtod + s.um .other

def registered (regs : List (String × UInt64 × UInt64)) : Counters :=
  regs.foldl (fun s r => registerArray s r.1 r.2.1 r.2.2) start

/-! What the records say. -/

abbrev top : ℕ := 2 ^ 64 - 1

def amount (u : UnifiedMemoryCounter2) : ℕ :=
  if u.counterKind = .cpuPageFaultCount then 1 else u.value.toNat

def copyOf : Activity → Option MemcpyRecord
  | .memcpy m => some m
  | _ => none

def counterOf : Activity → Option UnifiedMemoryCounter2
  | .unifiedMemoryCounter u => some u
  | _ => none

/-- The bytes of all copies of a kind. -/
def copied (k : CopyKind) (rs : List Activity) : ℕ :=
  share (fun m => some m.copyKind) (fun m => m.bytes.toNat) k (rs.filterMap copyOf)

/-- What the records of a counter add up to. -/
def counted (k : CounterKind) (rs : List Activity) : ℕ :=
  share (fun u => some u.counterKind) amount k (rs.filterMap counterOf)

/-- An array and a counter of it. -/
def cell (arrays : List ArrayInfo) (u : UnifiedMemoryCounter2) : Option (ℕ × CounterKind) :=
  (chargedArray arrays u).map fun i => (i, u.counterKind)

def charged (arrays : List ArrayInfo) (i : ℕ) (k : CounterKind) (rs : List Activity) : ℕ :=
  share (cell arrays) amount (i, k) (rs.filterMap counterOf)

/-! One record. -/

theorem toNat_le_top (n : UInt64) : n.toNat ≤ top := Nat.le_sub_one_of_lt n.toNat_lt

theorem toNat_max : UINT64_MAX.toNat = top := rfl

theorem toNat_max_sub (n : UInt64) : (UINT64_MAX - n).toNat = top - n.toNat := by
  rw [UInt64.toNat_sub_of_le, toNat_max]
  rw [UInt64.le_iff_toNat_le, toNat_max]
  exact toNat_le_top n

theorem toNat_satAddU64 (acc inc : UInt64) :
    (satAddU64 acc inc).toNat = satAdd top acc.toNat inc.toNat := by
  have hinc := toNat_le_top inc
  unfold satAddU64 satAdd
  simp only [gt_iff_lt, UInt64.lt_iff_toNat_lt, toNat_max_sub]
  split
  · exact toNat_max
  next hroom =>
    rw [UInt64.toNat_add]
    apply Nat.mod_eq_of_lt
    unfold top at hroom hinc
    omega

section

variable {κ : Type*} [DecidableEq κ] {counters : κ → UInt64} {sums : κ → ℕ}

/-- A counter shows its sum, or the largest word. -/
def Shows (counters : κ → UInt64) (sums : κ → ℕ) : Prop :=
  ∀ k, (counters k).toNat = min top (sums k)

theorem Shows.bump (h : Shows counters sums) (k : κ) (inc : UInt64) :
    Shows (bump counters k inc) fun j => sums j + if some k = some j then inc.toNat else 0 := by
  intro j
  by_cases hj : j = k
  · rw [hj, MigrationCounts.bump, Function.update_self, toNat_satAddU64, h k,
      satAdd_min (toNat_le_top inc)]
    simp only [if_true]
  · have hne : some k ≠ some j := fun heq => hj (Option.some.inj heq).symm
    simp only [MigrationCounts.bump, Function.update_of_ne hj, h j, if_neg hne, Nat.add_zero]

omit [DecidableEq κ] in
theorem Shows.zero (h : ∀ k, sums k = 0) : Shows (fun _ => 0) sums := by
  intro k
  rw [h k]
  rfl

end

def ArrayInfo.place (a : ArrayInfo) : String × UInt64 × UInt64 := (a.name, a.base, a.size)

theorem findArrayForRange_congr {xs ys : List ArrayInfo}
    (h : xs.map ArrayInfo.place = ys.map ArrayInfo.place) (addr len : UInt64) :
    findArrayForRange xs addr len = findArrayForRange ys addr len := by
  have hplace : ∀ zs : List ArrayInfo, findArrayForRange zs addr len =
      (zs.map ArrayInfo.place).findIdx? fun p =>
        (⟨p.1, p.2.1, p.2.2, fun _ => 0⟩ : ArrayInfo).Overlaps addr len := by
    intro zs
    rw [List.findIdx?_map]
    rfl
  rw [hplace, hplace, h]

theorem chargedArray_congr {xs ys : List ArrayInfo}
    (h : xs.map ArrayInfo.place = ys.map ArrayInfo.place) (u : UnifiedMemoryCounter2) :
    chargedArray xs u = chargedArray ys u := by
  have hlen : xs.length = ys.length := by
    rw [← List.length_map ArrayInfo.place, h, List.length_map]
  unfold chargedArray
  rw [findArrayForRange_congr h, hlen]

theorem chargedArray_none {arrays : List ArrayInfo} {u : UnifiedMemoryCounter2}
    (h : ¬ u.counterKind.IsTransfer) : chargedArray arrays u = none := if_neg h

theorem handle_counter (s : Counters) (u : UnifiedMemoryCounter2) :
    ∃ inc : UInt64, inc.toNat = amount u ∧
      handleActivityRecord s (.unifiedMemoryCounter u) =
        s.count (chargedArray s.arrays u) u.counterKind inc := by
  obtain ⟨kind, address, value⟩ := u
  cases kind with
  | cpuPageFaultCount => exact ⟨1, rfl, rfl⟩
  | other =>
    refine ⟨value, rfl, ?_⟩
    have hnone : chargedArray s.arrays ⟨.other, address, value⟩ = none := by
      apply chargedArray_none
      rintro (h | h | h) <;> cases h
    rw [hnone]
    rfl
  | _ => exact ⟨value, rfl, rfl⟩

theorem count_places (s : Counters) (arr : Option ℕ) (k : CounterKind) (inc : UInt64) :
    (s.count arr k inc).arrays.map ArrayInfo.place = s.arrays.map ArrayInfo.place := by
  cases arr with
  | none => rfl
  | some i =>
    apply List.ext_getElem?
    intro j
    simp only [Counters.count, List.getElem?_map, List.getElem?_modify]
    cases s.arrays[j]? with
    | none => rfl
    | some a => by_cases hj : i = j <;> simp [hj, ArrayInfo.place]

/-! All records. -/

/-- Behind the records rs, handled with the arrays of first. -/
structure Reported (first : List ArrayInfo) (rs : List Activity) (s : Counters) : Prop where
  bytes : Shows s.bytes fun k => copied k rs
  um : Shows s.um fun k => counted k rs
  places : s.arrays.map ArrayInfo.place = first.map ArrayInfo.place
  arrays : ∀ i a, s.arrays[i]? = some a → Shows a.um fun k => charged first i k rs
  pcSampling : s.pcSamplingRecords = 0
  globalAccess : s.globalAccessRecords = 0

variable {first : List ArrayInfo} {rs : List Activity} {s : Counters}

theorem filterMap_concat {α β : Type*} {f : α → Option β} {r : α} {x : β} (rs : List α)
    (h : f r = some x) : (rs ++ [r]).filterMap f = rs.filterMap f ++ [x] := by
  rw [List.filterMap_append, List.filterMap_cons_some h, List.filterMap_nil]

theorem filterMap_concat_none {α β : Type*} {f : α → Option β} {r : α} (rs : List α)
    (h : f r = none) : (rs ++ [r]).filterMap f = rs.filterMap f := by
  rw [List.filterMap_append, List.filterMap_cons_none h, List.filterMap_nil, List.append_nil]

theorem Reported.memcpy (h : Reported first rs s) (m : MemcpyRecord) :
    Reported first (rs ++ [.memcpy m]) (handleActivityRecord s (.memcpy m)) := by
  have hcopies := filterMap_concat (f := copyOf) (r := .memcpy m) rs rfl
  have hcounters := filterMap_concat_none (f := counterOf) (r := .memcpy m) rs rfl
  refine ⟨?_, ?_, h.places, ?_, h.pcSampling, h.globalAccess⟩
  · simp only [copied, hcopies, share_concat]
    exact h.bytes.bump m.copyKind m.bytes
  · simp only [counted, hcounters]
    exact h.um
  · simp only [charged, hcounters]
    exact h.arrays

theorem Reported.counter (h : Reported first rs s) (u : UnifiedMemoryCounter2) :
    Reported first (rs ++ [.unifiedMemoryCounter u])
      (handleActivityRecord s (.unifiedMemoryCounter u)) := by
  obtain ⟨inc, hinc, hhandle⟩ := handle_counter s u
  have hcopies := filterMap_concat_none (f := copyOf) (r := .unifiedMemoryCounter u) rs rfl
  have hcounters := filterMap_concat (f := counterOf) (r := .unifiedMemoryCounter u) rs rfl
  have hcell : cell first u = (chargedArray s.arrays u).map fun i => (i, u.counterKind) := by
    rw [cell, chargedArray_congr h.places]
  rw [hhandle]
  refine ⟨?_, ?_, ?_, ?_, h.pcSampling, h.globalAccess⟩
  · simp only [copied, hcopies]
    exact h.bytes
  · simp only [counted, hcounters, share_concat, ← hinc]
    exact h.um.bump u.counterKind inc
  · rw [count_places]
    exact h.places
  · intro i a ha
    simp only [charged, hcounters, share_concat, hcell, ← hinc]
    cases harr : chargedArray s.arrays u with
    | none =>
      rw [harr] at ha
      exact h.arrays i a ha
    | some j =>
      simp only [harr, Counters.count, List.getElem?_modify, Option.map_eq_map,
        Option.map_eq_some_iff] at ha
      obtain ⟨a₀, ha₀, hnext⟩ := ha
      have hbefore := h.arrays i a₀ ha₀
      rw [← hnext]
      by_cases hij : j = i
      · simpa [hij, charged] using hbefore.bump u.counterKind inc
      · simpa [hij, charged] using hbefore

theorem Reported.ignored (h : Reported first rs s) {r : Activity} (hcopy : copyOf r = none)
    (hcounter : counterOf r = none) : Reported first (rs ++ [r]) s := by
  have hcopies := filterMap_concat_none rs hcopy
  have hcounters := filterMap_concat_none rs hcounter
  refine ⟨?_, ?_, h.places, ?_, h.pcSampling, h.globalAccess⟩
  · simp only [copied, hcopies]
    exact h.bytes
  · simp only [counted, hcounters]
    exact h.um
  · simp only [charged, hcounters]
    exact h.arrays

theorem Reported.handle (h : Reported first rs s) (r : Activity) :
    Reported first (rs ++ [r]) (handleActivityRecord s r) := by
  cases r with
  | memcpy m => exact h.memcpy m
  | unifiedMemoryCounter u => exact h.counter u
  | pcSampling => exact h.ignored rfl rfl
  | globalAccess => exact h.ignored rfl rfl
  | other => exact h.ignored rfl rfl

theorem Reported.run (h : Reported first rs s) (more : List Activity) :
    Reported first (rs ++ more) (more.foldl handleActivityRecord s) := by
  induction more generalizing rs s with
  | nil =>
    rw [List.append_nil]
    exact h
  | cons r more ih =>
    rw [List.append_cons]
    exact ih (h.handle r)

theorem fresh_registered (regs : List (String × UInt64 × UInt64)) :
    ∃ arrays : List ArrayInfo, registered regs = { start with arrays := arrays } ∧
      arrays.map ArrayInfo.place = regs.take 4 ∧ ∀ a ∈ arrays, a.um = fun _ => 0 := by
  induction regs using List.reverseRecOn with
  | nil => exact ⟨[], rfl, rfl, by simp⟩
  | append_singleton regs r ih =>
    obtain ⟨arrays, hreg, hplaces, hzero⟩ := ih
    have hlen : arrays.length = min 4 regs.length := by
      rw [← List.length_map ArrayInfo.place, hplaces, List.length_take]
    have hstep : registered (regs ++ [r]) =
        registerArray { start with arrays := arrays } r.1 r.2.1 r.2.2 := by
      rw [registered, List.foldl_append, ← hreg]
      rfl
    rw [hstep, registerArray]
    split
    next hfull =>
      refine ⟨arrays, rfl, ?_, hzero⟩
      rw [hplaces, List.take_append_of_le_length]
      change arrays.length ≥ 4 at hfull
      omega
    next hroom =>
      refine ⟨arrays ++ [⟨r.1, r.2.1, r.2.2, fun _ => 0⟩], rfl, ?_, ?_⟩
      · change ¬ arrays.length ≥ 4 at hroom
        rw [List.map_append, hplaces, List.take_of_length_le (by omega),
          List.take_of_length_le]
        · rfl
        · rw [List.length_append, List.length_singleton]
          omega
      · intro a ha
        rcases List.mem_append.mp ha with hold | hnew
        · exact hzero a hold
        · rw [List.mem_singleton.mp hnew]

theorem reported_registered (regs : List (String × UInt64 × UInt64)) :
    Reported (registered regs).arrays [] (registered regs) := by
  obtain ⟨arrays, hreg, -, hzero⟩ := fresh_registered regs
  rw [hreg]
  refine ⟨Shows.zero fun _ => rfl, Shows.zero fun _ => rfl, rfl, ?_, rfl, rfl⟩
  intro i a ha
  rw [hzero a (List.mem_of_getElem? ha)]
  exact Shows.zero fun _ => rfl

/-- What the demo has counted when it prints its report: the arrays are registered, then
the buffers come in. -/
def collected (regs : List (String × UInt64 × UInt64)) (buffers : List (List Activity)) :
    Counters :=
  buffers.foldl bufferCompleted (registered regs)

theorem reported_collected (regs : List (String × UInt64 × UInt64))
    (buffers : List (List Activity)) :
    Reported (registered regs).arrays buffers.flatten (collected regs buffers) := by
  have hrun := (reported_registered regs).run buffers.flatten
  rw [List.nil_append, List.foldl_flatten] at hrun
  exact hrun

theorem Reported.length (h : Reported first rs s) : s.arrays.length = first.length := by
  rw [← List.length_map ArrayInfo.place, h.places, List.length_map]

/-- The records determine the counters. -/
theorem Reported.unique {s' : Counters} (h : Reported first rs s) (h' : Reported first rs s') :
    s = s' := by
  have hshows : ∀ {κ : Type} {c c' : κ → UInt64} {sums : κ → ℕ}, Shows c sums → Shows c' sums →
      c = c' := by
    intro κ c c' sums hc hc'
    funext k
    apply UInt64.toNat_inj.mp
    rw [hc k, hc' k]
  have harrays : s.arrays = s'.arrays := by
    apply List.ext_getElem (by rw [h.length, h'.length])
    intro i hi hi'
    have hplace : s.arrays[i].place = s'.arrays[i].place := by
      have hplaces := h.places.trans h'.places.symm
      have hat := congrArg (fun l => l[i]?) hplaces
      simpa [List.getElem?_eq_getElem hi, List.getElem?_eq_getElem hi'] using hat
    have hum := hshows (h.arrays i _ (List.getElem?_eq_getElem hi))
      (h'.arrays i _ (List.getElem?_eq_getElem hi'))
    simp only [ArrayInfo.place, Prod.mk.injEq] at hplace
    obtain ⟨hname, hbase, hsize⟩ := hplace
    calc s.arrays[i] = ⟨s.arrays[i].name, s.arrays[i].base, s.arrays[i].size, s.arrays[i].um⟩ := rfl
      _ = s'.arrays[i] := by rw [hname, hbase, hsize, hum]
  have hbytes := hshows h.bytes h'.bytes
  have hum := hshows h.um h'.um
  have hpc := h.pcSampling.trans h'.pcSampling.symm
  have hglobal := h.globalAccess.trans h'.globalAccess.symm
  cases s
  cases s'
  simp only at harrays hbytes hum hpc hglobal
  rw [harrays, hbytes, hum, hpc, hglobal]

theorem Reported.perm {rs' : List Activity} (h : Reported first rs s) (hperm : rs.Perm rs') :
    Reported first rs' s := by
  have hcopied : ∀ k, copied k rs' = copied k rs :=
    fun k => share_perm (hperm.symm.filterMap copyOf) k
  have hcounted : ∀ k, counted k rs' = counted k rs :=
    fun k => share_perm (hperm.symm.filterMap counterOf) k
  have hcharged : ∀ i k, charged first i k rs' = charged first i k rs :=
    fun i k => share_perm (hperm.symm.filterMap counterOf) (i, k)
  refine ⟨?_, ?_, h.places, ?_, h.pcSampling, h.globalAccess⟩
  · simp only [hcopied]
    exact h.bytes
  · simp only [hcounted]
    exact h.um
  · simp only [hcharged]
    exact h.arrays

theorem findArrayForRange_lt {arrays : List ArrayInfo} {addr len : UInt64} {i : ℕ}
    (h : findArrayForRange arrays addr len = some i) : i < arrays.length :=
  (List.findIdx?_eq_some_iff_getElem.mp h).1

theorem charged_of_transfer {arrays : List ArrayInfo} (hne : arrays ≠ [])
    {u : UnifiedMemoryCounter2} (h : u.counterKind.IsTransfer) :
    ∃ i < arrays.length, chargedArray arrays u = some i := by
  have hpos : arrays.length > 0 := List.length_pos_iff.mpr hne
  unfold chargedArray
  rw [if_pos h]
  cases hfind : findArrayForRange arrays u.address u.value with
  | some i => exact ⟨i, findArrayForRange_lt hfind, rfl⟩
  | none => exact ⟨arrays.length - 1, by omega, if_pos hpos⟩

/-- No byte of a transfer is lost or charged twice. -/
theorem sum_charged {arrays : List ArrayInfo} (hne : arrays ≠ []) {k : CounterKind}
    (hk : k.IsTransfer) (rs : List Activity) :
    ∑ i ∈ Finset.range arrays.length, charged arrays i k rs = counted k rs := by
  have hparts : ∑ c ∈ Finset.range arrays.length ×ˢ {k},
      share (cell arrays) amount c (rs.filterMap counterOf) = counted k rs := by
    apply sum_share
    intro u _
    constructor
    · intro hu
      have hkind := Option.some.inj hu
      obtain ⟨i, hi, harr⟩ := charged_of_transfer hne (hkind ▸ hk)
      refine ⟨(i, k), ?_, ?_⟩
      · rw [Finset.mem_product]
        exact ⟨Finset.mem_range.mpr hi, Finset.mem_singleton.mpr rfl⟩
      · rw [cell, harr, Option.map_some, hkind]
    · intro ⟨c, hc, hu⟩
      obtain ⟨i, _, rfl⟩ := Option.map_eq_some_iff.mp hu
      rw [Finset.mem_product, Finset.mem_singleton] at hc
      exact congrArg some hc.2
  rw [Finset.sum_product] at hparts
  simpa [charged] using hparts

theorem charged_eq_zero {arrays : List ArrayInfo} {k : CounterKind} (hk : ¬ k.IsTransfer)
    (i : ℕ) (rs : List Activity) : charged arrays i k rs = 0 := by
  apply share_eq_zero
  intro u _ hu
  obtain ⟨j, harr, hcell⟩ := Option.map_eq_some_iff.mp hu
  have hkind : u.counterKind = k := congrArg Prod.snd hcell
  rw [chargedArray_none (hkind ▸ hk)] at harr
  cases harr

theorem charged_le_counted {arrays : List ArrayInfo} {k : CounterKind} (hk : k.IsTransfer)
    {i : ℕ} (hi : i < arrays.length) (rs : List Activity) :
    charged arrays i k rs ≤ counted k rs := by
  have hne : arrays ≠ [] := List.length_pos_iff.mp (by omega)
  rw [← sum_charged hne hk]
  exact Finset.single_le_sum (f := fun j => charged arrays j k rs) (fun _ _ => Nat.zero_le _)
    (Finset.mem_range.mpr hi)

/-- As long as a counter of the unified memory has not reached the top, the arrays show
together what it shows. -/
theorem Reported.sum_arrays (h : Reported first rs s) (hne : first ≠ []) {k : CounterKind}
    (hk : k.IsTransfer) (hroom : counted k rs ≤ top) :
    (s.arrays.map fun a => (a.um k).toNat).sum = (s.um k).toNat := by
  have heach : (s.arrays.map fun a => (a.um k).toNat) =
      (List.range first.length).map fun i => charged first i k rs := by
    apply List.ext_getElem
    · rw [List.length_map, List.length_map, List.length_range, h.length]
    · intro i hi _
      rw [List.length_map] at hi
      have hshow := h.arrays i _ (List.getElem?_eq_getElem hi) k
      have hle := charged_le_counted hk (h.length ▸ hi) rs
      rw [List.getElem_map, List.getElem_map, List.getElem_range, hshow]
      exact Nat.min_eq_right (hle.trans hroom)
  calc (s.arrays.map fun a => (a.um k).toNat).sum
      = ∑ i ∈ Finset.range first.length, charged first i k rs := by
        rw [heach]
        rfl
    _ = counted k rs := sum_charged hne hk rs
    _ = (s.um k).toNat := by
        rw [h.um k]
        exact (Nat.min_eq_right hroom).symm

theorem Reported.totalBytes (h : Reported first rs s)
    (hroom : counted .bytesTransferHtod rs + counted .bytesTransferDtoh rs +
      counted .bytesTransferDtod rs + counted .other rs ≤ top) :
    (totalBytes s).toNat = counted .bytesTransferHtod rs + counted .bytesTransferDtoh rs +
      counted .bytesTransferDtod rs + counted .other rs := by
  have hshow : ∀ k, counted k rs ≤ top → (s.um k).toNat = counted k rs := by
    intro k hk
    rw [h.um k]
    exact Nat.min_eq_right hk
  have hhtod := hshow .bytesTransferHtod (by omega)
  have hdtoh := hshow .bytesTransferDtoh (by omega)
  have hdtod := hshow .bytesTransferDtod (by omega)
  have hother := hshow .other (by omega)
  unfold MigrationCounts.totalBytes
  rw [UInt64.toNat_add, UInt64.toNat_add, UInt64.toNat_add, hhtod, hdtoh, hdtod, hother]
  unfold top at hroom
  omega

theorem registered_ne_nil {regs : List (String × UInt64 × UInt64)} (h : regs ≠ []) :
    (registered regs).arrays ≠ [] := by
  obtain ⟨arrays, hreg, hplaces, -⟩ := fresh_registered regs
  intro hnil
  rw [hreg] at hnil
  rw [show arrays = [] from hnil, List.map_nil] at hplaces
  cases List.take_eq_nil_iff.mp hplaces.symm with
  | inl hfour => cases hfour
  | inr hregs => exact h hregs

/-- A range of an array: its first byte, and the one behind its last. -/
def ends (r : String × UInt64 × UInt64) : ℕ × ℕ := (r.2.1.toNat, r.2.1.toNat + r.2.2.toNat)

/-- Up to three arrays that do not share a byte. -/
structure LaidOut (regs : List (String × UInt64 × UInt64)) : Prop where
  few : regs.length ≤ 3
  fit : ∀ r ∈ regs, (ends r).2 ≤ top
  apart : regs.Pairwise fun r r' => (ends r).2 ≤ (ends r').1 ∨ (ends r').2 ≤ (ends r).1

/-- The range of a record lies in an array. -/
def Holds (r : String × UInt64 × UInt64) (u : UnifiedMemoryCounter2) : Prop :=
  (ends r).1 ≤ u.address.toNat ∧ u.address.toNat + u.value.toNat ≤ (ends r).2 ∧ 0 < u.value.toNat

/-- It has no byte of the array. -/
def Misses (r : String × UInt64 × UInt64) (u : UnifiedMemoryCounter2) : Prop :=
  u.address.toNat + u.value.toNat ≤ (ends r).1 ∨ (ends r).2 ≤ u.address.toNat

instance (r : String × UInt64 × UInt64) (u : UnifiedMemoryCounter2) : Decidable (Holds r u) :=
  inferInstanceAs (Decidable (_ ∧ _))

instance (r : String × UInt64 × UInt64) (u : UnifiedMemoryCounter2) : Decidable (Misses r u) :=
  inferInstanceAs (Decidable (_ ∨ _))

theorem toNat_safeRange (addr len : UInt64) :
    (safeRange addr len).2.toNat = min top (addr.toNat + len.toNat) := by
  have haddr := toNat_le_top addr
  unfold safeRange
  simp only [gt_iff_lt, UInt64.lt_iff_toNat_lt, toNat_max_sub]
  split
  next hover =>
    rw [toNat_max]
    omega
  next hroom =>
    rw [UInt64.toNat_add]
    unfold top at *
    omega

variable {r : String × UInt64 × UInt64} {u : UnifiedMemoryCounter2}

theorem ends_place (a : ArrayInfo) :
    ends a.place = (a.base.toNat, a.base.toNat + a.size.toNat) := rfl

theorem overlaps_iff (a : ArrayInfo) (addr len : UInt64) : a.Overlaps addr len ↔
    addr.toNat < min top (a.base.toNat + a.size.toNat) ∧
      a.base.toNat < min top (addr.toNat + len.toNat) := by
  unfold ArrayInfo.Overlaps
  rw [UInt64.lt_iff_toNat_lt, gt_iff_lt, UInt64.lt_iff_toNat_lt, toNat_safeRange,
    toNat_safeRange]
  rfl

theorem overlaps_of_holds {a : ArrayInfo} (hfit : (ends a.place).2 ≤ top) (h : Holds a.place u) :
    a.Overlaps u.address u.value := by
  simp only [Holds, ends_place] at h
  simp only [ends_place] at hfit
  rw [overlaps_iff]
  omega

theorem not_overlaps_of_misses {a : ArrayInfo} (h : Misses a.place u) :
    ¬ a.Overlaps u.address u.value := by
  simp only [Misses, ends_place] at h
  rw [overlaps_iff]
  omega

theorem misses_of_holds {r' : String × UInt64 × UInt64} (h : Holds r u)
    (hapart : (ends r).2 ≤ (ends r').1 ∨ (ends r').2 ≤ (ends r).1) : Misses r' u := by
  unfold Holds at h
  unfold Misses
  omega

theorem LaidOut.apart_of_ne {regs : List (String × UInt64 × UInt64)} (h : LaidOut regs)
    {i j : ℕ} (hi : i < regs.length) (hj : j < regs.length) (hne : i ≠ j) :
    (ends regs[i]).2 ≤ (ends regs[j]).1 ∨ (ends regs[j]).2 ≤ (ends regs[i]).1 := by
  rcases Nat.lt_or_gt_of_ne hne with hlt | hgt
  · exact List.pairwise_iff_getElem.mp h.apart i j hi hj hlt
  · exact (List.pairwise_iff_getElem.mp h.apart j i hj hi hgt).symm

/-- The slot behind the arrays. -/
def other : String × UInt64 × UInt64 := ("Other", 0, 0)

theorem misses_other (u : UnifiedMemoryCounter2) : Misses other u := Or.inr (Nat.zero_le _)

section

variable {regs : List (String × UInt64 × UInt64)} {arrays : List ArrayInfo}

theorem place_getElem (hplaces : arrays.map ArrayInfo.place = regs ++ [other]) {i : ℕ}
    (hi : i < regs.length) (hi' : i < arrays.length) : arrays[i].place = regs[i] := by
  have hat := congrArg (fun l => l[i]?) hplaces
  simp only [List.getElem?_map, List.getElem?_append_left hi] at hat
  simpa [hi, hi'] using hat

theorem length_arrays (hplaces : arrays.map ArrayInfo.place = regs ++ [other]) :
    arrays.length = regs.length + 1 := by
  rw [← List.length_map ArrayInfo.place, hplaces, List.length_append, List.length_singleton]

theorem charged_of_holds (hlaid : LaidOut regs)
    (hplaces : arrays.map ArrayInfo.place = regs ++ [other]) (hkind : u.counterKind.IsTransfer)
    {i : ℕ} (hi : i < regs.length) (hholds : Holds regs[i] u) :
    chargedArray arrays u = some i := by
  have hlen := length_arrays hplaces
  have hi' : i < arrays.length := by omega
  have hfind : findArrayForRange arrays u.address u.value = some i := by
    apply List.findIdx?_eq_some_iff_getElem.mpr
    refine ⟨hi', ?_, ?_⟩
    · apply decide_eq_true
      apply overlaps_of_holds
      · rw [place_getElem hplaces hi]
        exact hlaid.fit _ (List.getElem_mem hi)
      · rw [place_getElem hplaces hi]
        exact hholds
    · intro j hji
      have hj : j < regs.length := by omega
      rw [decide_eq_true_iff]
      apply not_overlaps_of_misses
      rw [place_getElem hplaces hj]
      exact misses_of_holds hholds (hlaid.apart_of_ne hi hj (by omega))
  rw [chargedArray, if_pos hkind, hfind]

theorem charged_of_misses (hplaces : arrays.map ArrayInfo.place = regs ++ [other])
    (hkind : u.counterKind.IsTransfer) (hmisses : ∀ r ∈ regs, Misses r u) :
    chargedArray arrays u = some regs.length := by
  have hlen := length_arrays hplaces
  have hfind : findArrayForRange arrays u.address u.value = none := by
    apply List.findIdx?_eq_none_iff.mpr
    intro a ha
    apply decide_eq_false
    apply not_overlaps_of_misses
    have hplace : a.place ∈ regs ++ [other] := hplaces ▸ List.mem_map_of_mem ha
    rcases List.mem_append.mp hplace with hreg | hother
    · exact hmisses _ hreg
    · rw [List.mem_singleton.mp hother]
      exact misses_other u
  rw [chargedArray, if_pos hkind, hfind]
  simp only [hlen]
  rw [if_pos (by omega), Nat.add_sub_cancel]

/-- In an array, or in none. -/
def Whole (regs : List (String × UInt64 × UInt64)) (u : UnifiedMemoryCounter2) : Prop :=
  (∃ r ∈ regs, Holds r u) ∨ ∀ r ∈ regs, Misses r u

theorem charged_iff_holds (hlaid : LaidOut regs)
    (hplaces : arrays.map ArrayInfo.place = regs ++ [other]) (hkind : u.counterKind.IsTransfer)
    (hwhole : Whole regs u) {i : ℕ} (hi : i < regs.length) :
    chargedArray arrays u = some i ↔ Holds regs[i] u := by
  constructor
  · intro hcharged
    rcases hwhole with ⟨r, hr, hholds⟩ | hmisses
    · obtain ⟨j, hj, rfl⟩ := List.getElem_of_mem hr
      have hj' := charged_of_holds hlaid hplaces hkind hj hholds
      obtain rfl : i = j := Option.some.inj (hcharged.symm.trans hj')
      exact hholds
    · have hlast := charged_of_misses hplaces hkind hmisses
      have := Option.some.inj (hcharged.symm.trans hlast)
      omega
  · exact charged_of_holds hlaid hplaces hkind hi

theorem charged_iff_misses (hlaid : LaidOut regs)
    (hplaces : arrays.map ArrayInfo.place = regs ++ [other]) (hkind : u.counterKind.IsTransfer)
    (hwhole : Whole regs u) :
    chargedArray arrays u = some regs.length ↔ ∀ r ∈ regs, Misses r u := by
  constructor
  · intro hcharged
    rcases hwhole with ⟨r, hr, hholds⟩ | hmisses
    · obtain ⟨j, hj, rfl⟩ := List.getElem_of_mem hr
      have hj' := charged_of_holds hlaid hplaces hkind hj hholds
      have := Option.some.inj (hcharged.symm.trans hj')
      omega
    · exact hmisses
  · exact charged_of_misses hplaces hkind

/-- The bytes of the records that p picks. -/
def migrated (p : UnifiedMemoryCounter2 → Prop) [DecidablePred p] (k : CounterKind)
    (rs : List Activity) : ℕ :=
  (((rs.filterMap counterOf).filter fun u => u.counterKind = k ∧ p u).map
    fun u => u.value.toNat).sum

theorem charged_eq_migrated {p : UnifiedMemoryCounter2 → Prop} [DecidablePred p]
    {k : CounterKind} (hk : k.IsTransfer) {i : ℕ} {rs : List Activity}
    (h : ∀ u ∈ rs.filterMap counterOf, u.counterKind = k → (chargedArray arrays u = some i ↔ p u)) :
    charged arrays i k rs = migrated p k rs := by
  unfold charged migrated share
  have hsame : ((rs.filterMap counterOf).filter fun u => cell arrays u = some (i, k)) =
      (rs.filterMap counterOf).filter fun u => u.counterKind = k ∧ p u := by
    apply List.filter_congr
    intro u hu
    apply decide_eq_decide.mpr
    rw [cell, Option.map_eq_some_iff]
    constructor
    · intro ⟨j, harr, hcell⟩
      obtain ⟨rfl, hkind⟩ := Prod.mk.inj hcell
      exact ⟨hkind, (h u hu hkind).mp harr⟩
    · intro ⟨hkind, hp⟩
      exact ⟨i, (h u hu hkind).mpr hp, by rw [hkind]⟩
  rw [hsame]
  congr 1
  apply List.map_congr_left
  intro u hu
  have hkind := (of_decide_eq_true (List.mem_filter.mp hu).2).1
  rw [amount, if_neg]
  intro hfault
  rw [hkind] at hfault
  rw [hfault] at hk
  rcases hk with h | h | h <;> cases h

end

end HpcProfiler.MigrationCounts
