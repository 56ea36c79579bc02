import HpcProfiler.FieldFrames
import HpcProfiler.StableSort
import HpcProfiler.TraceEvents

/-!
The alignment of the clocks of a merged trace. Callbacks are moved to the clock of the host
by the earliest times of both, GPU activities to the callbacks by the median of the offsets
between matching pairs, and every other event keeps its time. Each stage writes its own
fields of the events; an error of int in a correlation id ends the alignment.
-/

namespace HpcProfiler.TraceAlignment

open TraceEvents FieldFrames StableSort

/-- Two middle elements are averaged downwards. -/
def medianInt (xs : List ℤ) : Option ℤ :=
  if xs = [] then none
  else
    let sorted := sortBy id xs
    let m := sorted.length / 2
    if sorted.length % 2 = 1 then some (sorted.getD m 0)
    else some ((sorted.getD (m - 1) 0 + sorted.getD m 0) / 2)

def classifySource (e : Event) : Value :=
  if e.has "type" "host_stats" || (e.has "type" "marker" && e.has "source" "cpu") then .str "cpu"
  else if e.has "type" "callback" && e.has "side" "cpu" then .str "cpu"
  else if e.has "type" "activity" && e.has "side" "gpu" then .str "gpu"
  else (e "source").getD (.str "unknown")

/-- The older fields count only where t_ns is missing. -/
def getTNs (e : Event) : Option ℤ :=
  if (e "t_ns").isSome then e.intAt "t_ns"
  else e.firstInt ["cpu_t_ns", "recorder_t_ns", "merged_t_ns"]

def getGpuStartEnd (e : Event) : Option ℤ × Option ℤ :=
  (e.firstInt ["start", "gpu_start"], e.firstInt ["end", "gpu_end"])

def cpuKindFromApi (api : String) : String :=
  if api = "" then "other"
  else if "cudaMemcpy".toList.isPrefixOf api.toList then "memcpy"
  else if api = "cudaLaunchKernel" then "kernel_launch"
  else "other"

def isHost (e : Event) : Bool :=
  e.has "source" "cpu" &&
    (e.has "type" "host_stats" || e.has "type" "marker" || e.has "type" "gc")

def isCallback (e : Event) : Bool := e.has "type" "callback" && e.has "side" "cpu"

def isGpuAct (e : Event) : Bool := e.has "type" "activity" && e.has "side" "gpu"

/-- Times of entering callbacks under correlation id and kind. -/
abbrev EnterIndex := ℤ × String → Option ℤ

/-- The key and the time under which a callback is entered; no result is an error of int. -/
def enterEntry (e : Event) : Option (Option ((ℤ × String) × ℤ)) :=
  if ¬isCallback e then some none
  else if ¬e.has "site" "enter" then some none
  else
    match e.given "corr", getTNs e with
    | some corr, some t =>
      corr.toInt.map fun c =>
        some ((c, cpuKindFromApi ((e "api").getD (.str "")).text), t)
    | _, _ => some none

/-- The last callback of a key counts. -/
def buildCpuEnterIndex (idx : EnterIndex) : List Event → Option EnterIndex
  | [] => some idx
  | e :: es =>
    (enterEntry e).bind fun
      | some (key, t) => buildCpuEnterIndex (Function.update idx key (some t)) es
      | none => buildCpuEnterIndex idx es

def estimateCbToHostOffsetNs (cpuCallbacks hostEvents : List Event) : ℤ :=
  match (cpuCallbacks.filterMap getTNs).min?, (hostEvents.filterMap getTNs).min? with
  | some cb0, some host0 => host0 - cb0
  | _, _ => 0

def gpuKind (g : Event) : String :=
  if g.has "kind" "memcpy" then "memcpy"
  else if g.has "kind" "kernel" then "kernel_launch"
  else "other"

/-- The offset between an activity and its callback; no result is an error of int. -/
def gpuOffset (idx : EnterIndex) (g : Event) : Option (Option ℤ) :=
  if ¬isGpuAct g then some none
  else
    match g.given "corr", (getGpuStartEnd g).1 with
    | some corr, some s =>
      corr.toInt.map fun c => (idx (c, gpuKind g)).map fun cpuEnter => cpuEnter - s
    | _, _ => some none

def gpuOffsets (idx : EnterIndex) : List Event → Option (List ℤ)
  | [] => some []
  | g :: gs =>
    (gpuOffset idx g).bind fun offset => (gpuOffsets idx gs).map fun rest => offset.toList ++ rest

def estimateGpuToCpuOffsetNs (cpuCallbacksAligned gpuActs : List Event) : Option ℤ :=
  (buildCpuEnterIndex (fun _ => none) cpuCallbacksAligned).bind fun idx =>
    (gpuOffsets idx gpuActs).map fun offsets => (medianInt offsets).getD 0

def reclassify (e : Event) : Event := e.set "source" (classifySource e)

/-- The aligned time is written, if there is a time. -/
def alignTime : Option ℤ → Event → Event
  | some t, e => e.set "aligned_t_ns" (.int t)
  | none, e => e

def alignCallback (cbToHost : ℤ) (e : Event) : Event :=
  if isCallback e then alignTime ((getTNs e).map (· + cbToHost)) e else e

def alignHost (e : Event) : Event := if isHost e then alignTime (getTNs e) e else e

def isAligned (e : Event) : Bool := (e "aligned_t_ns").isSome

/-- A copy of a callback whose time is the aligned one. -/
def retimed (e : Event) : Event := e.set "t_ns" ((e "aligned_t_ns").getD .null)

def tmpCallbacks (events : List Event) : List Event :=
  ((events.filter isCallback).filter isAligned).map retimed

def alignEnd : Option ℤ → Event → Event
  | some t, g => g.set "aligned_end_ns" (.int t)
  | none, g => g

def alignGpu (gpuToCpu : ℤ) (g : Event) : Event :=
  if isGpuAct g then
    match (getGpuStartEnd g).1 with
    | none => g
    | some s =>
      (alignEnd ((getGpuStartEnd g).2.map (· + gpuToCpu))
        (g.set "aligned_start_ns" (.int (s + gpuToCpu)))).set "aligned_t_ns" (.int (s + gpuToCpu))
  else g

def alignRest (e : Event) : Event := if isAligned e then e else alignTime (getTNs e) e

/-- An aligned time that an event had before is taken to be an integer. -/
def alignedTNs (e : Event) : ℤ := (e.intAt "aligned_t_ns").getD 0

/-- The aligned events and the two offsets. -/
def alignEvents (events : List Event) : Option (List Event × ℤ × ℤ) :=
  let events := events.map reclassify
  let hostEvents := events.filter isHost
  let cpuCallbacks := events.filter isCallback
  let cbToHost := estimateCbToHostOffsetNs cpuCallbacks hostEvents
  let events := events.map (alignCallback cbToHost)
  let events := events.map alignHost
  (estimateGpuToCpuOffsetNs (tmpCallbacks events) (events.filter isGpuAct)).map fun gpuToCpu =>
    let events := events.map (alignGpu gpuToCpu)
    let events := events.map alignRest
    (sortBy alignedTNs (events.filter isAligned), cbToHost, gpuToCpu)

theorem medianInt_perm {xs ys : List ℤ} (h : xs.Perm ys) : medianInt xs = medianInt ys := by
  unfold medianInt
  rw [sortBy_id_congr h]
  exact if_congr ⟨fun hnil => by rw [hnil] at h; exact h.symm.eq_nil,
    fun hnil => by rw [hnil] at h; exact h.eq_nil⟩ rfl rfl

theorem getD_map_add {xs : List ℤ} {m : ℕ} (hm : m < xs.length) (k : ℤ) :
    (xs.map (· + k)).getD m 0 = xs.getD m 0 + k := by
  rw [List.getD_eq_getElem?_getD, List.getD_eq_getElem?_getD, List.getElem?_map,
    List.getElem?_eq_getElem hm]
  rfl

theorem medianInt_map_add (xs : List ℤ) (k : ℤ) :
    medianInt (xs.map (· + k)) = (medianInt xs).map (· + k) := by
  have hsorted : sortBy id (xs.map (· + k)) = (sortBy id xs).map (· + k) :=
    map_sortBy_of_iff fun a _ b _ => (Int.add_le_add_iff_right k).symm
  have hlength : (sortBy id xs).length = xs.length := (sortBy_perm id xs).length_eq
  unfold medianInt
  dsimp only
  rw [hsorted, List.length_map]
  by_cases hnil : xs = []
  · rw [hnil]
    rfl
  · have hpos : 0 < (sortBy id xs).length := by
      rw [hlength]
      exact List.length_pos_iff.mpr hnil
    have hm : (sortBy id xs).length / 2 < (sortBy id xs).length := Nat.div_lt_self hpos (by decide)
    rw [if_neg (by simpa using hnil), if_neg hnil, getD_map_add hm, getD_map_add (by omega)]
    split
    · rfl
    · rw [Option.map_some]
      congr 1
      omega

theorem medianInt_isSome {xs : List ℤ} (h : xs ≠ []) : (medianInt xs).isSome := by
  rw [medianInt, if_neg h]
  dsimp only
  split <;> rfl

/-- The fields that the stages write. -/
def written : List String := ["source", "aligned_t_ns", "aligned_start_ns", "aligned_end_ns"]

def timeKeys : List String := ["t_ns", "cpu_t_ns", "recorder_t_ns", "merged_t_ns"]

def gpuKeys : List String := ["start", "gpu_start", "end", "gpu_end"]

theorem reads_isCallback : Reads ["type", "side"] isCallback := by
  intro e e' h
  simp only [isCallback, Event.has_congr (h "type" (by simp)), Event.has_congr (h "side" (by simp))]

theorem reads_isGpuAct : Reads ["type", "side"] isGpuAct := by
  intro e e' h
  simp only [isGpuAct, Event.has_congr (h "type" (by simp)), Event.has_congr (h "side" (by simp))]

theorem reads_isHost : Reads ["type", "source"] isHost := by
  intro e e' h
  simp only [isHost, Event.has_congr (h "type" (by simp)), Event.has_congr (h "source" (by simp))]

theorem reads_classifySource : Reads ["type", "side", "source"] classifySource := by
  intro e e' h
  simp only [classifySource, Event.has_congr (h "type" (by simp)),
    Event.has_congr (h "side" (by simp)), Event.has_congr (h "source" (by simp)),
    h "source" (by simp)]

theorem reads_getTNs : Reads timeKeys getTNs := by
  intro e e' h
  have holder : Event.firstInt e' ["cpu_t_ns", "recorder_t_ns", "merged_t_ns"] =
      Event.firstInt e ["cpu_t_ns", "recorder_t_ns", "merged_t_ns"] :=
    Event.firstInt_congr fun key hkey => h key (List.mem_cons_of_mem _ hkey)
  simp only [getTNs, Event.intAt, h "t_ns" (List.mem_cons_self ..), holder]

theorem reads_getGpuStartEnd : Reads gpuKeys getGpuStartEnd := by
  intro e e' h
  have hstart : Event.firstInt e' ["start", "gpu_start"] =
      Event.firstInt e ["start", "gpu_start"] :=
    Event.firstInt_congr fun key hkey => h key (List.mem_append_left ["end", "gpu_end"] hkey)
  have hend : Event.firstInt e' ["end", "gpu_end"] = Event.firstInt e ["end", "gpu_end"] :=
    Event.firstInt_congr fun key hkey => h key (List.mem_append_right ["start", "gpu_start"] hkey)
  rw [getGpuStartEnd, hstart, hend, getGpuStartEnd]

theorem reads_gpuKind : Reads ["kind"] gpuKind := by
  intro e e' h
  simp only [gpuKind, Event.has_congr (h "kind" (by simp))]

theorem reads_gpuOffset (idx : EnterIndex) :
    Reads (["type", "side", "corr", "kind"] ++ gpuKeys) (gpuOffset idx) := by
  intro e e' h
  have hact := reads_isGpuAct e e' fun key hkey => h key (by
    simp only [List.mem_cons, List.not_mem_nil, or_false] at hkey
    rcases hkey with rfl | rfl <;> simp)
  have htimes := reads_getGpuStartEnd e e' fun key hkey => h key (List.mem_append_right _ hkey)
  have hkind := reads_gpuKind e e' fun key hkey => h key (by
    rw [List.mem_singleton] at hkey
    simp [hkey])
  simp only [gpuOffset, Event.given, hact, htimes, hkind, h "corr" (by simp)]

theorem enterEntry_congr {e e' : Event}
    (h : ∀ key ∈ ["type", "side", "site", "corr", "api"], e' key = e key)
    (htime : getTNs e' = getTNs e) : enterEntry e' = enterEntry e := by
  have hcallback := reads_isCallback e e' fun key hkey => h key (by
    simp only [List.mem_cons, List.not_mem_nil, or_false] at hkey
    rcases hkey with rfl | rfl <;> simp)
  simp only [enterEntry, Event.given, hcallback, Event.has_congr (h "site" (by simp)), htime,
    h "corr" (by simp), h "api" (by simp)]

theorem buildCpuEnterIndex_congr {α : Type*} {f f' : α → Event} {xs : List α} (idx : EnterIndex)
    (h : ∀ x ∈ xs, enterEntry (f' x) = enterEntry (f x)) :
    buildCpuEnterIndex idx (xs.map f') = buildCpuEnterIndex idx (xs.map f) := by
  induction xs generalizing idx with
  | nil => rfl
  | cons x xs ih =>
    have hrest := fun idx => ih idx fun other hother => h other (List.mem_cons_of_mem _ hother)
    rw [List.map_cons, List.map_cons, buildCpuEnterIndex, buildCpuEnterIndex,
      h x (List.mem_cons_self ..)]
    congr 1
    funext entry
    cases entry with
    | none => exact hrest idx
    | some entry => exact hrest _

/-- A key that is entered stays in the index. -/
theorem buildCpuEnterIndex_isSome {key : ℤ × String} {es : List Event} {idx idx' : EnterIndex}
    (h : buildCpuEnterIndex idx es = some idx')
    (hkey : (idx key).isSome ∨ ∃ e ∈ es, ∃ t, enterEntry e = some (some (key, t))) :
    (idx' key).isSome := by
  induction es generalizing idx with
  | nil =>
    cases h
    rcases hkey with hkey | ⟨e, he, -⟩
    · exact hkey
    · cases he
  | cons e es ih =>
    obtain ⟨entry, hentry, hrest⟩ := Option.bind_eq_some_iff.mp h
    cases entry with
    | none =>
      refine ih hrest (hkey.imp_right ?_)
      rintro ⟨c, hc, t, ht⟩
      rcases List.mem_cons.mp hc with rfl | hc
      · rw [hentry] at ht
        cases ht
      · exact ⟨c, hc, t, ht⟩
    | some entry =>
      obtain ⟨entered, time⟩ := entry
      refine ih hrest ?_
      by_cases hsame : entered = key
      · left
        rw [hsame, Function.update_self]
        rfl
      · rw [Function.update_of_ne fun heq => hsame heq.symm]
        refine hkey.imp_right ?_
        rintro ⟨c, hc, t, ht⟩
        rcases List.mem_cons.mp hc with rfl | hc
        · rw [hentry] at ht
          cases ht
          exact absurd rfl hsame
        · exact ⟨c, hc, t, ht⟩

theorem gpuOffsets_eq_some_iff {idx : EnterIndex} {gs : List Event} {offsets : List ℤ} :
    gpuOffsets idx gs = some offsets ↔
      (∀ g ∈ gs, (gpuOffset idx g).isSome) ∧
        gs.filterMap (fun g => (gpuOffset idx g).join) = offsets := by
  induction gs generalizing offsets with
  | nil => simp [gpuOffsets]
  | cons g gs ih =>
    rw [gpuOffsets, List.forall_mem_cons, List.filterMap_cons]
    cases hoffset : gpuOffset idx g with
    | none => simp
    | some offset =>
      rw [Option.bind_some, Option.map_eq_some_iff]
      simp only [ih, Option.isSome_some, true_and, Option.join_some]
      cases offset with
      | none => simp
      | some n => simp

theorem writesOnly_set (key : String) (value : Event → Value) :
    WritesOnly [key] fun e : Event => e.set key (value e) :=
  writesOnly_update key fun e => some (value e)

theorem writesOnly_retimed : WritesOnly ["t_ns"] retimed := writesOnly_set _ _

theorem writesOnly_reclassify : WritesOnly ["source"] reclassify := writesOnly_set _ _

theorem writesOnly_alignTime (t : Event → Option ℤ) :
    WritesOnly ["aligned_t_ns"] fun e => alignTime (t e) e := by
  intro e key hkey
  dsimp only
  cases t e with
  | none => rfl
  | some n => exact writesOnly_set "aligned_t_ns" (fun _ => .int n) e key hkey

theorem writesOnly_alignCallback (a : ℤ) : WritesOnly ["aligned_t_ns"] (alignCallback a) :=
  writesOnly_ite (writesOnly_alignTime _)

theorem writesOnly_alignHost : WritesOnly ["aligned_t_ns"] alignHost :=
  writesOnly_ite (writesOnly_alignTime _)

theorem writesOnly_alignRest : WritesOnly ["aligned_t_ns"] alignRest := by
  intro e key hkey
  unfold alignRest
  split
  · rfl
  · exact writesOnly_alignTime getTNs e key hkey

theorem writesOnly_alignEnd (t : Option ℤ) : WritesOnly ["aligned_end_ns"] (alignEnd t) := by
  cases t with
  | none => exact fun _ _ _ => rfl
  | some n => exact writesOnly_set "aligned_end_ns" fun _ => .int n

theorem writesOnly_alignGpu (b : ℤ) :
    WritesOnly ["aligned_t_ns", "aligned_start_ns", "aligned_end_ns"] (alignGpu b) := by
  refine writesOnly_ite fun e key hkey => ?_
  simp only [List.mem_cons, List.not_mem_nil, or_false, not_or] at hkey
  obtain ⟨htime, hstart, hend⟩ := hkey
  cases (getGpuStartEnd e).1 with
  | none => rfl
  | some s =>
    dsimp only
    rw [Event.set_other _ _ htime, writesOnly_alignEnd _ _ _ (by simpa using hend),
      Event.set_other _ _ hstart]

/-- The stages before the activities. -/
def towardsHost (a : ℤ) (e : Event) : Event := alignHost (alignCallback a (reclassify e))

/-- All stages at one event. -/
def alignOne (a b : ℤ) (e : Event) : Event := alignRest (alignGpu b (towardsHost a e))

def cbToHost (events : List Event) : ℤ :=
  estimateCbToHostOffsetNs ((events.map reclassify).filter isCallback)
    ((events.map reclassify).filter isHost)

def gpuToCpu (events : List Event) : Option ℤ :=
  estimateGpuToCpuOffsetNs (tmpCallbacks (events.map (towardsHost (cbToHost events))))
    ((events.map (towardsHost (cbToHost events))).filter isGpuAct)

theorem alignEvents_eq (events : List Event) :
    alignEvents events = (gpuToCpu events).map fun b =>
      (sortBy alignedTNs ((events.map (alignOne (cbToHost events) b)).filter isAligned),
        cbToHost events, b) := by
  unfold alignEvents gpuToCpu
  dsimp only
  simp only [List.map_map]
  rfl

theorem writesOnly_towardsHost (a : ℤ) : WritesOnly ["source", "aligned_t_ns"] (towardsHost a) :=
  ((writesOnly_reclassify.mono (by simp)).comp ((writesOnly_alignCallback a).mono (by simp))).comp
    (writesOnly_alignHost.mono (by simp))

theorem writesOnly_alignOne (a b : ℤ) : WritesOnly written (alignOne a b) :=
  (((writesOnly_towardsHost a).mono (by simp [written])).comp
    ((writesOnly_alignGpu b).mono (by simp [written]))).comp
      (writesOnly_alignRest.mono (by simp [written]))

theorem not_host_of_callback {e : Event} (h : isCallback e = true) : isHost e = false := by
  simp only [isCallback, Event.has, Bool.and_eq_true, decide_eq_true_eq] at h
  simp [isHost, Event.has, h.1]

theorem not_gpu_of_callback {e : Event} (h : isCallback e = true) : isGpuAct e = false := by
  simp only [isCallback, Event.has, Bool.and_eq_true, decide_eq_true_eq] at h
  simp [isGpuAct, Event.has, h.1]

theorem not_host_of_gpu {e : Event} (h : isGpuAct e = true) : isHost e = false := by
  simp only [isGpuAct, Event.has, Bool.and_eq_true, decide_eq_true_eq] at h
  simp [isHost, Event.has, h.1]

section

variable {a b : ℤ} {e : Event}

theorem isAligned_set (e : Event) (value : Value) :
    isAligned (e.set "aligned_t_ns" value) = true := by
  rw [isAligned, Event.set_same]
  rfl

/-- A written time is not written again. -/
theorem alignRest_alignTime {t : Option ℤ} (h : t = none → getTNs e = none) :
    alignRest (alignTime t e) = alignTime t e := by
  cases t with
  | none =>
    rw [alignTime, alignRest, h rfl]
    split <;> rfl
  | some n => exact if_pos (isAligned_set e _)

theorem towardsHost_of_callback (h : isCallback e = true) :
    towardsHost a e = alignTime ((getTNs e).map (· + a)) (reclassify e) := by
  have hcallback := (reads_isCallback.after writesOnly_reclassify rfl e).trans h
  have hwritten := (reads_isCallback.after (writesOnly_alignCallback a) rfl _).trans hcallback
  rw [towardsHost, alignHost, not_host_of_callback hwritten, if_neg Bool.false_ne_true,
    alignCallback, if_pos hcallback, reads_getTNs.after writesOnly_reclassify rfl]

theorem alignOne_of_callback (h : isCallback e = true) : alignOne a b e = towardsHost a e := by
  have hhosted := (reads_isCallback.after (writesOnly_towardsHost a) rfl e).trans h
  rw [alignOne, alignGpu, not_gpu_of_callback hhosted, if_neg Bool.false_ne_true,
    towardsHost_of_callback h]
  refine alignRest_alignTime fun hnone => ?_
  rw [reads_getTNs.after writesOnly_reclassify rfl]
  exact Option.map_eq_none_iff.mp hnone

theorem towardsHost_of_not_callback (h : isCallback e = false) :
    towardsHost a e = alignHost (reclassify e) := by
  have hcallback := (reads_isCallback.after writesOnly_reclassify rfl e).trans h
  rw [towardsHost, alignCallback, hcallback, if_neg Bool.false_ne_true]

end

/-- A sample of the host's memory. -/
def hostAt (t : ℤ) : Event :=
  ofFields [("type", .str "host_stats"), ("source", .str "cpu"), ("t_ns", .int t)]

/-- The begin of a copy on the side of the CPU. -/
def enterAt (corr t : ℤ) : Event :=
  ofFields [("type", .str "callback"), ("side", .str "cpu"), ("site", .str "enter"),
    ("api", .str "cudaMemcpyAsync"), ("corr", .int corr), ("t_ns", .int t)]

/-- A copy on the side of the GPU. -/
def copyAt (corr s t : ℤ) : Event :=
  ofFields [("type", .str "activity"), ("side", .str "gpu"), ("kind", .str "memcpy"),
    ("corr", .int corr), ("start", .int s), ("end", .int t)]

/-- Three clocks: the sample, the callback and the copy are of one moment. -/
def shortTrace : List Event := [hostAt 1000, enterAt 7 40, copyAt 7 900 950]

example : (alignEvents shortTrace).map (fun result => (result.1.map alignedTNs, result.2)) =
    some ([1000, 1000, 1000], 960, 100) := by decide

end HpcProfiler.TraceAlignment
