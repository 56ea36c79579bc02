import HpcProfiler.AlignmentBounds
import HpcProfiler.AlignmentShift
import HpcProfiler.TraceMerge
import HpcProfiler.TracerCallbacks

/-!
From the tracer to the aligned trace. The lines of the tracer are merged with the samples of
the host and aligned. Whatever the threads of the traced program did, this succeeds, and the
offset of the GPU is the median of the distances from the start of each activity to the
entry of the very call that has started it.
-/

namespace HpcProfiler.TracedAlignment

open TraceEvents TraceAlignment AlignmentFixpoint FieldFrames StableSort TraceMerge TracerCallbacks
open AlignmentShift AlignmentBounds StepSystem

/-- The digits behind the point, without zeros at the end. -/
def decimals (n : ℕ) : String :=
  if n % 100 = 0 then toString (n / 100)
  else if n % 10 = 0 then toString (n / 100) ++ toString (n / 10 % 10)
  else toString (n / 100) ++ toString (n / 10 % 10) ++ toString (n % 10)

/-- A duration as it is read again: it is written in microseconds with three decimals. -/
def microseconds (ns : ℕ) : Value :=
  .float (toString (ns / 1000) ++ "." ++ decimals (ns % 1000)) (some (ns / 1000 : ℕ))
    (toString (ns / 1000 / 1048576) ++ ".0")

def exitDuration : Option ℕ → Value
  | some ns => microseconds ns
  | none => .float "-1.0" (some (-1)) "-1.0"

def triple (xyz : ℕ × ℕ × ℕ) : Value :=
  .compound s!"[{xyz.1}, {xyz.2.1}, {xyz.2.2}]"

def mebibytes (bytes : UInt64) : Value := .int (bytes / 1048576).toNat

/-- The object that a line of the tracer is read as. -/
def event : TracerCallbacks.Line → Event
  | .status msg => ofFields [("type", .str "meta"), ("msg", .str msg)]
  | .enter api corr t => ofFields
      [("type", .str "callback"), ("side", .str "cpu"), ("site", .str "enter"), ("api", .str api),
        ("corr", .int corr.toNat), ("t_ns", .int t)]
  | .exit api corr t dur => ofFields
      [("type", .str "callback"), ("side", .str "cpu"), ("site", .str "exit"), ("api", .str api),
        ("corr", .int corr.toNat), ("t_ns", .int t), ("dur_us", exitDuration dur)]
  | .meminfo tag t freeB totalB => ofFields
      [("type", .str "meminfo"), ("side", .str "device"), ("tag", .str tag), ("t_ns", .int t),
        ("free_mb", mebibytes freeB), ("total_mb", mebibytes totalB),
        ("used_mb", mebibytes (totalB - freeB))]
  | .memcpy m dur => ofFields
      [("type", .str "activity"), ("side", .str "gpu"), ("kind", .str "memcpy"),
        ("op", .str m.copyKind.op), ("bytes", .int m.bytes.toNat), ("start", .int m.start.toNat),
        ("end", .int m.finish.toNat), ("dur_us", microseconds dur),
        ("stream", .int m.streamId.toNat), ("corr", .int m.correlationId.toNat)]
  | .kernel k name dur => ofFields
      [("type", .str "activity"), ("side", .str "gpu"), ("kind", .str "kernel"),
        ("name", .str name), ("start", .int k.start.toNat), ("end", .int k.finish.toNat),
        ("dur_us", microseconds dur), ("grid", triple k.grid), ("block", triple k.block),
        ("stream", .int k.streamId.toNat), ("corr", .int k.correlationId.toNat)]

/-- The file of the tracer. -/
def traceFile (lines : List TracerCallbacks.Line) : List TraceMerge.Line :=
  lines.map fun line => .object (event line)

/-- What the program itself writes: a mark with a time. -/
structure Mark (e : Event) : Prop where
  kind : e "type" = some (.str "marker")
  time : ∃ t, e "t_ns" = some (.int t)
  fresh : e "aligned_t_ns" = none

/-- What is written for the host: a sample or a mark, each with a time. -/
structure HostLine (e : Event) : Prop where
  kind : e "type" = some (.str "host_stats") ∨ e "type" = some (.str "marker")
  time : ∃ t, e "t_ns" = some (.int t)
  fresh : e "aligned_t_ns" = none

theorem Mark.hostLine {e : Event} (h : Mark e) : HostLine e := ⟨.inr h.kind, h.time, h.fresh⟩

/-- The time of a line of the tracer, on the clock of its kind. -/
def lineTime : TracerCallbacks.Line → Option ℤ
  | .status _ => none
  | .enter _ _ t | .exit _ _ t _ | .meminfo _ t _ _ => some t
  | .memcpy m _ => some m.start.toNat
  | .kernel k _ _ => some k.start.toNat

def callbackTime : TracerCallbacks.Line → Option ℤ
  | .enter _ _ t | .exit _ _ t _ => some t
  | _ => none

/-- The earliest time of the host less the earliest time of a callback. -/
def clockOffset (cpu : List TraceMerge.Line) (lines : List TracerCallbacks.Line) : ℤ :=
  match (lines.filterMap callbackTime).min?,
    ((objects cpu).filterMap fun e => e.intAt "t_ns").min? with
  | some cb0, some host0 => host0 - cb0
  | _, _ => 0

/-- The time of entry in the line of a call with this id and of this kind. -/
def entryTime (lines : List TracerCallbacks.Line) (corr : UInt32) (kind : String) : Option ℕ :=
  lines.findSome? fun
    | .enter api corr' t => if corr' = corr ∧ cpuKindFromApi api = kind then some t else none
    | _ => none

/-- From the start of an activity to the entry of its call, on the clock of the host. -/
def ownOffset (lines : List TracerCallbacks.Line) (a : ℤ) : TracerCallbacks.Line → Option ℤ
  | .memcpy m _ =>
    (entryTime lines m.correlationId "memcpy").map fun t : ℕ => (t : ℤ) + a - m.start.toNat
  | .kernel k _ _ =>
    (entryTime lines k.correlationId "kernel_launch").map fun t : ℕ => (t : ℤ) + a - k.start.toNat
  | _ => none

def deviceOffset (lines : List TracerCallbacks.Line) (a : ℤ) : ℤ :=
  (medianInt (lines.filterMap (ownOffset lines a))).getD 0

/-- Callbacks are moved by the one offset and activities by the other; the lines of the
memory stay on the clock of the callbacks. -/
def alignedTime (a b : ℤ) (line : TracerCallbacks.Line) : Option ℤ :=
  match line with
  | .status _ => none
  | .enter _ _ t | .exit _ _ t _ => some (t + a)
  | .meminfo _ t _ _ => some t
  | .memcpy m _ => some (m.start.toNat + b)
  | .kernel k _ _ => some (k.start.toNat + b)

/-! The merge. -/

/-- What is loaded of one object. -/
def loaded (source : String) (e : Event) : Option Event :=
  (extractTimestamp e).join.map fun ts => stamp source ts e

theorem loadJsonl_eq (source : String) {lines : List TraceMerge.Line}
    (h : ∀ e ∈ objects lines, (extractTimestamp e).isSome) :
    loadJsonl source lines = some ((objects lines).filterMap (loaded source)) := by
  induction lines with
  | nil => rfl
  | cons line lines ih =>
    cases line with
    | blank => exact ih h
    | corrupt => exact ih h
    | object e =>
      have hobjects : objects (.object e :: lines) = e :: objects lines := rfl
      rw [hobjects, List.forall_mem_cons] at h
      obtain ⟨found, hfound⟩ := Option.isSome_iff_exists.mp h.1
      rw [loadJsonl, hfound, Option.bind_some, hobjects, ih h.2]
      cases found with
      | none =>
        rw [List.filterMap_cons_none]
        rw [loaded, hfound]
        rfl
      | some ts =>
        rw [List.filterMap_cons_some (b := stamp source ts e)]
        · rfl
        · rw [loaded, hfound]
          rfl

theorem extractTimestamp_event (line : TracerCallbacks.Line) :
    extractTimestamp (event line) = some (lineTime line) := by
  cases line <;> rfl

theorem HostLine.extractTimestamp_eq {e : Event} (h : HostLine e) :
    extractTimestamp e = some (e.intAt "t_ns") := by
  obtain ⟨t, ht⟩ := h.time
  rw [extractTimestamp, timestampKeys, List.findSome?_cons, ht, Event.intAt, ht]
  rfl

theorem objects_append (lines lines' : List TraceMerge.Line) :
    objects (lines ++ lines') = objects lines ++ objects lines' := by
  rw [objects, List.filterMap_append, objects, objects]

theorem objects_traceFile (lines : List TracerCallbacks.Line) :
    objects (traceFile lines) = lines.map event := by
  rw [objects, traceFile, List.filterMap_map, ← List.filterMap_eq_map]
  rfl

/-- The events of the merged file. -/
def merged (cpu marks : List TraceMerge.Line) (lines : List TracerCallbacks.Line) : List Event :=
  sortBy mergedTNs
    ((objects cpu).filterMap (loaded "cpu") ++
      ((lines.map event).filterMap (loaded "gpu") ++ (objects marks).filterMap (loaded "gpu")))

theorem main_eq {cpu marks : List TraceMerge.Line} (lines : List TracerCallbacks.Line)
    (hcpu : ∀ e ∈ objects cpu, HostLine e) (hmarks : ∀ e ∈ objects marks, Mark e) :
    main cpu (traceFile lines ++ marks) = some (merged cpu marks lines) := by
  have hhost : loadJsonl "cpu" cpu = some ((objects cpu).filterMap (loaded "cpu")) := by
    apply loadJsonl_eq
    intro e he
    rw [(hcpu e he).extractTimestamp_eq]
    rfl
  have hobjects : objects (traceFile lines ++ marks) = lines.map event ++ objects marks := by
    rw [objects_append, objects_traceFile]
  have hdevice : loadJsonl "gpu" (traceFile lines ++ marks) =
      some ((lines.map event ++ objects marks).filterMap (loaded "gpu")) := by
    rw [← hobjects]
    apply loadJsonl_eq
    intro e he
    rw [hobjects, List.mem_append] at he
    rcases he with he | he
    · obtain ⟨line, -, rfl⟩ := List.mem_map.mp he
      rw [extractTimestamp_event]
      rfl
    · rw [(hmarks e he).hostLine.extractTimestamp_eq]
      rfl
  rw [main, hhost, hdevice, Option.bind_some, Option.map_some, List.filterMap_append, merged]

theorem loaded_event (source : String) (line : TracerCallbacks.Line) :
    loaded source (event line) = (lineTime line).map fun ts => stamp source ts (event line) := by
  rw [loaded, extractTimestamp_event, Option.join_some]

theorem HostLine.loaded_eq {e : Event} (h : HostLine e) (source : String) :
    loaded source e = (e.intAt "t_ns").map fun ts => stamp source ts e := by
  rw [loaded, h.extractTimestamp_eq, Option.join_some]

theorem mem_merged {cpu marks : List TraceMerge.Line} {lines : List TracerCallbacks.Line}
    {x : Event} : x ∈ merged cpu marks lines ↔
      (∃ e ∈ objects cpu, loaded "cpu" e = some x) ∨
        (∃ line ∈ lines, loaded "gpu" (event line) = some x) ∨
          ∃ e ∈ objects marks, loaded "gpu" e = some x := by
  rw [merged, mem_sortBy, List.mem_append, List.mem_append, List.mem_filterMap, List.mem_filterMap,
    List.mem_filterMap]
  simp only [List.mem_map, exists_exists_and_eq_and]

/-! The index of the callbacks. -/

theorem buildCpuEnterIndex_total {es : List Event} (h : ∀ e ∈ es, (enterEntry e).isSome)
    (idx : EnterIndex) : (buildCpuEnterIndex idx es).isSome := by
  induction es generalizing idx with
  | nil => rfl
  | cons e es ih =>
    obtain ⟨hfirst, hrest⟩ := List.forall_mem_cons.mp h
    obtain ⟨entry, hentry⟩ := Option.isSome_iff_exists.mp hfirst
    rw [buildCpuEnterIndex, hentry, Option.bind_some]
    cases entry with
    | none => exact ih hrest idx
    | some entry => exact ih hrest _

/-- What the index has has been entered. -/
theorem buildCpuEnterIndex_source {key : ℤ × String} {t : ℤ} {es : List Event}
    {idx idx' : EnterIndex} (h : buildCpuEnterIndex idx es = some idx') (hkey : idx' key = some t) :
    idx key = some t ∨ ∃ e ∈ es, enterEntry e = some (some (key, t)) := by
  induction es generalizing idx with
  | nil =>
    cases h
    exact .inl hkey
  | cons e es ih =>
    obtain ⟨entry, hentry, hrest⟩ := Option.bind_eq_some_iff.mp h
    have hlater : (∃ e ∈ es, enterEntry e = some (some (key, t))) →
        ∃ c ∈ e :: es, enterEntry c = some (some (key, t)) := by
      intro ⟨c, hc, hentered⟩
      exact ⟨c, List.mem_cons_of_mem e hc, hentered⟩
    cases entry with
    | none => exact (ih hrest).imp_right hlater
    | some entry =>
      rcases ih hrest with hhere | hthere
      · by_cases hsame : key = entry.1
        · right
          rw [hsame, Function.update_self] at hhere
          refine ⟨e, List.mem_cons_self .., ?_⟩
          rw [hentry, hsame, ← Option.some.inj hhere]
        · left
          rw [← hhere, Function.update_of_ne hsame]
      · exact .inr (hlater hthere)

/-- Where all entries of a key have one time, the index has it. -/
theorem buildCpuEnterIndex_eq {key : ℤ × String} {found : Option ℤ} {es : List Event}
    {idx : EnterIndex} (h : buildCpuEnterIndex (fun _ => none) es = some idx)
    (hfound : ∀ t, found = some t ↔ ∃ e ∈ es, enterEntry e = some (some (key, t))) :
    idx key = found := by
  cases hvalue : idx key with
  | none =>
    cases found with
    | none => rfl
    | some t =>
      obtain ⟨e, he, hentered⟩ := (hfound t).mp rfl
      have hsome := buildCpuEnterIndex_isSome h (.inr ⟨e, he, t, hentered⟩)
      rw [hvalue] at hsome
      cases hsome
  | some t =>
    rcases buildCpuEnterIndex_source h hvalue with hnone | hentered
    · cases hnone
    · exact ((hfound t).mpr hentered).symm

/-! The merged events of the tracer. -/

section

variable {source : String} {ts a : ℤ}

theorem stamp_other {e : Event} {key : String} (hkey : key ∉ ["merged_t_ns", "source"]) :
    stamp source ts e key = e key :=
  writesOnly_stamp e key hkey

theorem isCallback_loaded (line : TracerCallbacks.Line) :
    isCallback (stamp source ts (event line)) = (callbackTime line).isSome := by
  rw [isCallback_stamp]
  cases line <;> rfl

theorem isGpuAct_stamp (e : Event) : isGpuAct (stamp source ts e) = isGpuAct e :=
  reads_isGpuAct.after writesOnly_stamp rfl e

theorem HostLine.not_callback {e : Event} (h : HostLine e) : isCallback e = false := by
  unfold isCallback Event.has
  rcases h.kind with hkind | hkind <;> rw [hkind] <;> rfl

theorem HostLine.not_gpuAct {e : Event} (h : HostLine e) : isGpuAct e = false := by
  unfold isGpuAct Event.has
  rcases h.kind with hkind | hkind <;> rw [hkind] <;> rfl

theorem HostLine.getTNs_stamp {e : Event} (h : HostLine e) :
    getTNs (stamp source ts e) = e.intAt "t_ns" := by
  obtain ⟨t, ht⟩ := h.time
  rw [getTNs, Event.intAt, stamp_other (by decide), ht, Event.intAt, ht]
  rfl

theorem source_stamp (e : Event) : stamp source ts e "source" = some (.str source) :=
  Event.set_same ..

theorem reclassify_type (e : Event) : reclassify (stamp source ts e) "type" = e "type" := by
  rw [writesOnly_reclassify _ _ (by decide), stamp_other (by decide)]

theorem not_host_event (line : TracerCallbacks.Line) :
    isHost (reclassify (stamp source ts (event line))) = false := by
  unfold isHost Event.has
  rw [reclassify_type]
  cases line <;> simp [event, ofFields]

theorem Mark.not_host {e : Event} (h : Mark e) :
    isHost (reclassify (stamp "gpu" ts e)) = false := by
  have hside : ∀ key, key ∉ ["merged_t_ns", "source"] → stamp "gpu" ts e key = e key :=
    fun key hkey => stamp_other hkey
  have hclass : classifySource (stamp "gpu" ts e) = .str "gpu" := by
    unfold classifySource Event.has
    rw [hside "type" (by decide), h.kind, source_stamp]
    rfl
  unfold isHost Event.has
  rw [reclassify, hclass, Event.set_same]
  rfl

theorem HostLine.isHost_stamp {e : Event} (h : HostLine e) :
    isHost (reclassify (stamp "cpu" ts e)) = true := by
  have hclass : classifySource (stamp "cpu" ts e) = .str "cpu" := by
    unfold classifySource Event.has
    rw [stamp_other (by decide), source_stamp]
    rcases h.kind with hkind | hkind <;> rw [hkind] <;> rfl
  unfold isHost Event.has
  rw [reclassify_type, reclassify, hclass, Event.set_same]
  rcases h.kind with hkind | hkind <;> rw [hkind] <;> rfl

theorem getTNs_loaded_callback {line : TracerCallbacks.Line} {t : ℤ}
    (h : callbackTime line = some t) : getTNs (stamp source ts (event line)) = some t := by
  cases line <;> cases h <;> rfl

end

section

variable {cpu marks : List TraceMerge.Line} {lines : List TracerCallbacks.Line}
variable (hcpu : ∀ e ∈ objects cpu, HostLine e) (hmarks : ∀ e ∈ objects marks, Mark e)

include hcpu hmarks

/-- The callbacks of the merged file are the tracer's. -/
theorem callback_merged {x : Event} : x ∈ merged cpu marks lines ∧ isCallback x = true ↔
    ∃ line ∈ lines, ∃ t, callbackTime line = some t ∧ x = stamp "gpu" t (event line) := by
  rw [mem_merged]
  constructor
  · rintro ⟨⟨e, he, hx⟩ | ⟨line, hline, hx⟩ | ⟨e, he, hx⟩, hcallback⟩
    · rw [(hcpu e he).loaded_eq] at hx
      obtain ⟨ts, -, rfl⟩ := Option.map_eq_some_iff.mp hx
      rw [isCallback_stamp, (hcpu e he).not_callback] at hcallback
      cases hcallback
    · rw [loaded_event] at hx
      obtain ⟨ts, hts, rfl⟩ := Option.map_eq_some_iff.mp hx
      rw [isCallback_loaded] at hcallback
      obtain ⟨t, ht⟩ := Option.isSome_iff_exists.mp hcallback
      refine ⟨line, hline, t, ht, ?_⟩
      cases line <;> cases ht <;> cases hts <;> rfl
    · have hhost := (hmarks e he).hostLine
      rw [hhost.loaded_eq] at hx
      obtain ⟨ts, -, rfl⟩ := Option.map_eq_some_iff.mp hx
      rw [isCallback_stamp, hhost.not_callback] at hcallback
      cases hcallback
  · intro ⟨line, hline, t, ht, hx⟩
    refine ⟨.inr (.inl ⟨line, hline, ?_⟩), ?_⟩
    · rw [loaded_event, hx]
      cases line <;> cases ht <;> rfl
    · rw [hx, isCallback_loaded, ht]
      rfl

/-- The events of the host are those of the first file. -/
theorem host_merged {x : Event} : x ∈ merged cpu marks lines ∧ isHost (reclassify x) = true ↔
    ∃ e ∈ objects cpu, ∃ t, e.intAt "t_ns" = some t ∧ x = stamp "cpu" t e := by
  rw [mem_merged]
  constructor
  · rintro ⟨⟨e, he, hx⟩ | ⟨line, hline, hx⟩ | ⟨e, he, hx⟩, hhost⟩
    · rw [(hcpu e he).loaded_eq] at hx
      obtain ⟨t, ht, rfl⟩ := Option.map_eq_some_iff.mp hx
      exact ⟨e, he, t, ht, rfl⟩
    · rw [loaded_event] at hx
      obtain ⟨ts, -, rfl⟩ := Option.map_eq_some_iff.mp hx
      rw [not_host_event] at hhost
      cases hhost
    · rw [(hmarks e he).hostLine.loaded_eq] at hx
      obtain ⟨ts, -, rfl⟩ := Option.map_eq_some_iff.mp hx
      rw [(hmarks e he).not_host] at hhost
      cases hhost
  · rintro ⟨e, he, t, ht, rfl⟩
    refine ⟨.inl ⟨e, he, ?_⟩, (hcpu e he).isHost_stamp⟩
    rw [(hcpu e he).loaded_eq, ht]
    rfl

theorem cbToHost_merged : cbToHost (merged cpu marks lines) = clockOffset cpu lines := by
  have hreclassified : ∀ e, isCallback (reclassify e) = isCallback e :=
    reads_isCallback.after writesOnly_reclassify rfl
  have htime : ∀ e, getTNs (reclassify e) = getTNs e :=
    reads_getTNs.after writesOnly_reclassify rfl
  have hcallbacks : ∀ t, t ∈ (((merged cpu marks lines).map reclassify).filter isCallback).filterMap
      getTNs ↔ t ∈ lines.filterMap callbackTime := by
    intro t
    simp only [List.mem_filterMap, List.mem_filter, List.mem_map]
    constructor
    · rintro ⟨_, ⟨⟨x, hx, rfl⟩, hcallback⟩, ht⟩
      rw [hreclassified] at hcallback
      obtain ⟨line, hline, t', ht', rfl⟩ := (callback_merged hcpu hmarks).mp ⟨hx, hcallback⟩
      rw [htime, getTNs_loaded_callback ht'] at ht
      exact ⟨line, hline, ht'.trans ht⟩
    · intro ⟨line, hline, ht⟩
      obtain ⟨hx, hcallback⟩ := (callback_merged hcpu hmarks).mpr ⟨line, hline, t, ht, rfl⟩
      refine ⟨_, ⟨⟨_, hx, rfl⟩, (hreclassified _).trans hcallback⟩, ?_⟩
      rw [htime, getTNs_loaded_callback ht]
  have hhosts : ∀ t, t ∈ (((merged cpu marks lines).map reclassify).filter isHost).filterMap
      getTNs ↔ t ∈ (objects cpu).filterMap fun e => e.intAt "t_ns" := by
    intro t
    simp only [List.mem_filterMap, List.mem_filter, List.mem_map]
    constructor
    · rintro ⟨_, ⟨⟨x, hx, rfl⟩, hhost⟩, ht⟩
      obtain ⟨e, he, t', ht', rfl⟩ := (host_merged hcpu hmarks).mp ⟨hx, hhost⟩
      rw [htime, (hcpu e he).getTNs_stamp] at ht
      exact ⟨e, he, ht⟩
    · intro ⟨e, he, ht⟩
      obtain ⟨hx, hhost⟩ := (host_merged hcpu hmarks).mpr ⟨e, he, t, ht, rfl⟩
      refine ⟨_, ⟨⟨_, hx, rfl⟩, hhost⟩, ?_⟩
      rw [htime, (hcpu e he).getTNs_stamp, ht]
  rw [cbToHost, estimateCbToHostOffsetNs, min_congr hcallbacks, min_congr hhosts]
  rfl

theorem mem_tmpCallbacks (a : ℤ) {x : Event} :
    x ∈ tmpCallbacks ((merged cpu marks lines).map (towardsHost a)) ↔
      ∃ line ∈ lines, ∃ t, callbackTime line = some t ∧
        x = retimed (towardsHost a (stamp "gpu" t (event line))) := by
  have hcallback : ∀ e, isCallback (towardsHost a e) = isCallback e :=
    reads_isCallback.after (writesOnly_towardsHost a) rfl
  simp only [tmpCallbacks, List.mem_map, List.mem_filter]
  constructor
  · rintro ⟨_, ⟨⟨⟨e, he, rfl⟩, hcalled⟩, -⟩, rfl⟩
    rw [hcallback] at hcalled
    obtain ⟨line, hline, t, ht, rfl⟩ := (callback_merged hcpu hmarks).mp ⟨he, hcalled⟩
    exact ⟨line, hline, t, ht, rfl⟩
  · rintro ⟨line, hline, t, ht, rfl⟩
    obtain ⟨hx, hcalled⟩ := (callback_merged hcpu hmarks).mpr ⟨line, hline, t, ht, rfl⟩
    refine ⟨_, ⟨⟨⟨_, hx, rfl⟩, (hcallback _).trans hcalled⟩, ?_⟩, rfl⟩
    rw [towardsHost_of_callback hcalled, getTNs_loaded_callback ht]
    exact isAligned_set _ _

end

/-- The key of a line in the index, if it is that of an entry. -/
def entryKey : TracerCallbacks.Line → Option (ℤ × String)
  | .enter api corr _ => some (corr.toNat, cpuKindFromApi api)
  | _ => none

theorem enterEntry_line {a t : ℤ} {line : TracerCallbacks.Line} (ht : callbackTime line = some t) :
    enterEntry (retimed (towardsHost a (stamp "gpu" t (event line)))) =
      some ((entryKey line).map fun key => (key, t + a)) := by
  cases line with
  | enter api corr time =>
    rw [enterEntry_hosted rfl rfl (getTNs_loaded_callback ht) (n := corr.toNat) rfl]
    rfl
  | exit api corr time dur =>
    have hkept : retimed (towardsHost a (stamp "gpu" t (event (.exit api corr time dur)))) "site" =
        some (.str "exit") := by
      rw [writesOnly_retimed _ _ (by decide), writesOnly_towardsHost a _ _ (by decide)]
      rfl
    have hexit : (retimed (towardsHost a (stamp "gpu" t (event (.exit api corr time dur))))).has
        "site" "enter" = false := by
      unfold Event.has
      rw [hkept]
      rfl
    rw [enterEntry, hexit]
    split
    · rfl
    · rfl
  | status msg => cases ht
  | meminfo tag time freeB totalB => cases ht
  | memcpy m dur => cases ht
  | kernel k name dur => cases ht

/-- An id is entered once for each kind that activities are of. -/
def EntersOnce (lines : List TracerCallbacks.Line) : Prop :=
  ∀ api api' corr t t', .enter api corr t ∈ lines → .enter api' corr t' ∈ lines →
    cpuKindFromApi api = cpuKindFromApi api' → cpuKindFromApi api ≠ "other" → t = t'

theorem entryTime_iff {lines : List TracerCallbacks.Line} (honce : EntersOnce lines) {corr : UInt32}
    {kind : String} (hkind : kind ≠ "other") {t : ℕ} : entryTime lines corr kind = some t ↔
      ∃ api, .enter api corr t ∈ lines ∧ cpuKindFromApi api = kind := by
  have hsound : ∀ t, entryTime lines corr kind = some t →
      ∃ api, .enter api corr t ∈ lines ∧ cpuKindFromApi api = kind := by
    intro t ht
    obtain ⟨line, hline, hfound⟩ := List.exists_of_findSome?_eq_some ht
    cases line with
    | enter api corr' t' =>
      dsimp only at hfound
      split at hfound
      · rename_i hsame
        cases hfound
        rw [← hsame.1]
        exact ⟨api, hline, hsame.2⟩
      · cases hfound
    | status msg => cases hfound
    | exit api corr' t' dur => cases hfound
    | meminfo tag t' freeB totalB => cases hfound
    | memcpy m dur => cases hfound
    | kernel k name dur => cases hfound
  refine ⟨hsound t, ?_⟩
  intro ⟨api, hmem, hapi⟩
  cases hfound : entryTime lines corr kind with
  | some t' =>
    obtain ⟨api', hmem', hapi'⟩ := hsound t' hfound
    rw [honce api api' corr t t' hmem hmem' (hapi.trans hapi'.symm) (hapi ▸ hkind)]
  | none =>
    have hnone := List.findSome?_eq_none_iff.mp hfound _ hmem
    dsimp only at hnone
    rw [if_pos ⟨rfl, hapi⟩] at hnone
    cases hnone

section

variable {cpu marks : List TraceMerge.Line} {lines : List TracerCallbacks.Line}
variable (hcpu : ∀ e ∈ objects cpu, HostLine e) (hmarks : ∀ e ∈ objects marks, Mark e)

include hcpu hmarks

/-- The index has the time of entry of the call itself. -/
theorem index_merged (honce : EntersOnce lines) {a : ℤ} {idx : EnterIndex} {corr : UInt32}
    {kind : String} (hkind : kind ≠ "other")
    (hidx : buildCpuEnterIndex (fun _ => none)
      (tmpCallbacks ((merged cpu marks lines).map (towardsHost a))) = some idx) :
    idx (corr.toNat, kind) = (entryTime lines corr kind).map fun t : ℕ => (t : ℤ) + a := by
  apply buildCpuEnterIndex_eq hidx
  intro time
  rw [Option.map_eq_some_iff]
  constructor
  · rintro ⟨t, ht, rfl⟩
    obtain ⟨api, hline, hapi⟩ := (entryTime_iff honce hkind).mp ht
    refine ⟨_, (mem_tmpCallbacks hcpu hmarks a).mpr ⟨_, hline, t, rfl, rfl⟩, ?_⟩
    rw [enterEntry_line rfl, entryKey, Option.map_some, hapi]
  · intro ⟨e, he, hentry⟩
    obtain ⟨line, hline, t, ht, rfl⟩ := (mem_tmpCallbacks hcpu hmarks a).mp he
    rw [enterEntry_line ht, Option.some.injEq] at hentry
    obtain ⟨key, hkey, hsame⟩ := Option.map_eq_some_iff.mp hentry
    cases line with
    | enter api corr' time' =>
      cases ht
      cases hkey
      obtain ⟨hkeys, htimes⟩ := Prod.mk.inj hsame
      obtain ⟨hcorr, hapi⟩ := Prod.mk.inj hkeys
      have hsame : corr' = corr := UInt32.toNat_inj.mp (Int.ofNat_inj.mp hcorr)
      rw [hsame] at hline
      exact ⟨time', (entryTime_iff honce hkind).mpr ⟨api, hline, hapi⟩, htimes⟩
    | status msg => cases hkey
    | exit api corr' t' dur => cases hkey
    | meminfo tag t' freeB totalB => cases hkey
    | memcpy m dur => cases hkey
    | kernel k name dur => cases hkey

end

section

variable {idx : EnterIndex} {source : String} {ts : ℤ}

theorem HostLine.gpuOffset_eq {e : Event} (h : HostLine e) :
    gpuOffset idx (stamp source ts e) = some none := by
  rw [gpuOffset, isGpuAct_stamp, h.not_gpuAct]
  rfl

/-- What the alignment computes of a line of the tracer. -/
theorem gpuOffset_line (line : TracerCallbacks.Line) :
    gpuOffset idx (stamp source ts (event line)) =
    some (match line with
    | .memcpy m _ => (idx (m.correlationId.toNat, "memcpy")).map (· - (m.start.toNat : ℤ))
    | .kernel k _ _ => (idx (k.correlationId.toNat, "kernel_launch")).map (· - (k.start.toNat : ℤ))
    | _ => none) := by
  cases line <;> rfl

/-- Of an activity it is the offset to its own call. -/
theorem loaded_offset {lines : List TracerCallbacks.Line} {a : ℤ}
    (hindex : ∀ corr kind, kind ≠ "other" → idx ((corr : UInt32).toNat, kind) =
      (entryTime lines corr kind).map fun t : ℕ => (t : ℤ) + a) (line : TracerCallbacks.Line) :
    ((loaded "gpu" (event line)).bind fun x => (gpuOffset idx x).join) =
      ownOffset lines a line := by
  rw [loaded_event, Option.bind_map]
  cases line with
  | memcpy m dur =>
    rw [lineTime, Option.bind_some, Function.comp_apply, gpuOffset_line, Option.join_some]
    dsimp only
    rw [hindex _ "memcpy" (by decide), Option.map_map, ownOffset]
    rfl
  | kernel k name dur =>
    rw [lineTime, Option.bind_some, Function.comp_apply, gpuOffset_line, Option.join_some]
    dsimp only
    rw [hindex _ "kernel_launch" (by decide), Option.map_map, ownOffset]
    rfl
  | status msg => rfl
  | enter api corr t => rfl
  | exit api corr t dur => rfl
  | meminfo tag t freeB totalB => rfl

end

section

variable {cpu marks : List TraceMerge.Line} {lines : List TracerCallbacks.Line}
variable (hcpu : ∀ e ∈ objects cpu, HostLine e) (hmarks : ∀ e ∈ objects marks, Mark e)

include hcpu hmarks

/-- The lines of the host and the marks have no part in it. -/
theorem filterMap_gpuOffset {idx : EnterIndex} {a : ℤ}
    (hindex : ∀ corr kind, kind ≠ "other" → idx ((corr : UInt32).toNat, kind) =
      (entryTime lines corr kind).map fun t : ℕ => (t : ℤ) + a) :
    ((merged cpu marks lines).filterMap fun x => (gpuOffset idx x).join).Perm
      (lines.filterMap (ownOffset lines a)) := by
  have hnone : ∀ (source : String) (es : List Event), (∀ e ∈ es, HostLine e) →
      (es.filterMap (loaded source)).filterMap (fun x => (gpuOffset idx x).join) = [] := by
    intro source es hes
    rw [List.filterMap_filterMap, List.filterMap_eq_nil_iff]
    intro e he
    rw [(hes e he).loaded_eq, Option.bind_map]
    cases e.intAt "t_ns" with
    | none => rfl
    | some t => exact congrArg Option.join (hes e he).gpuOffset_eq
  have hlines : ((lines.map event).filterMap (loaded "gpu")).filterMap
      (fun x => (gpuOffset idx x).join) = lines.filterMap (ownOffset lines a) := by
    rw [List.filterMap_filterMap, List.filterMap_map]
    congr 1
    funext line
    exact loaded_offset hindex line
  refine ((sortBy_perm mergedTNs _).filterMap _).trans ?_
  rw [List.filterMap_append, List.filterMap_append, hnone "cpu" _ hcpu, hlines,
    hnone "gpu" _ fun e he => (hmarks e he).hostLine, List.append_nil, List.nil_append]

theorem gpuOffset_isSome {idx : EnterIndex} {x : Event} (hx : x ∈ merged cpu marks lines) :
    (gpuOffset idx x).isSome := by
  rcases mem_merged.mp hx with ⟨e, he, hload⟩ | ⟨line, -, hload⟩ | ⟨e, he, hload⟩
  · rw [(hcpu e he).loaded_eq] at hload
    obtain ⟨ts, -, rfl⟩ := Option.map_eq_some_iff.mp hload
    rw [(hcpu e he).gpuOffset_eq]
    rfl
  · rw [loaded_event] at hload
    obtain ⟨ts, -, rfl⟩ := Option.map_eq_some_iff.mp hload
    rw [gpuOffset_line]
    rfl
  · have hhost := (hmarks e he).hostLine
    rw [hhost.loaded_eq] at hload
    obtain ⟨ts, -, rfl⟩ := Option.map_eq_some_iff.mp hload
    rw [hhost.gpuOffset_eq]
    rfl

/-- The offset of the activities is the median of those to their own calls. -/
theorem gpuToCpu_merged (honce : EntersOnce lines) :
    gpuToCpu (merged cpu marks lines) = some (deviceOffset lines (clockOffset cpu lines)) := by
  have htotal : (buildCpuEnterIndex (fun _ => none) (tmpCallbacks
      ((merged cpu marks lines).map (towardsHost (clockOffset cpu lines))))).isSome := by
    apply buildCpuEnterIndex_total
    intro e he
    obtain ⟨line, -, t, ht, rfl⟩ := (mem_tmpCallbacks hcpu hmarks _).mp he
    rw [enterEntry_line ht]
    rfl
  obtain ⟨idx, hidx⟩ := Option.isSome_iff_exists.mp htotal
  have hread : ∀ x, gpuOffset idx (towardsHost (clockOffset cpu lines) x) = gpuOffset idx x :=
    (reads_gpuOffset idx).after (writesOnly_towardsHost _) rfl
  have hact : ∀ x, isGpuAct (towardsHost (clockOffset cpu lines) x) = isGpuAct x :=
    reads_isGpuAct.after (writesOnly_towardsHost _) rfl
  have hoffsets : gpuOffsets idx (((merged cpu marks lines).map
      (towardsHost (clockOffset cpu lines))).filter isGpuAct) =
        some ((merged cpu marks lines).filterMap fun x => (gpuOffset idx x).join) := by
    rw [gpuOffsets_eq_some_iff]
    constructor
    · intro g hg
      obtain ⟨x, hx, rfl⟩ := List.mem_map.mp (List.mem_filter.mp hg).1
      rw [hread]
      exact gpuOffset_isSome hcpu hmarks hx
    · rw [List.filterMap_filter, List.filterMap_map]
      congr 1
      funext x
      rw [Function.comp_apply, hread, hact]
      split
      · rfl
      · rename_i hnot
        rw [gpuOffset, if_pos hnot]
        rfl
  rw [gpuToCpu, cbToHost_merged hcpu hmarks, estimateGpuToCpuOffsetNs, hidx, Option.bind_some,
    hoffsets, Option.map_some, deviceOffset]
  congr 2
  apply medianInt_perm
  apply filterMap_gpuOffset hcpu hmarks
  intro corr kind hkind
  exact index_merged hcpu hmarks honce hkind hidx

end

/-! The aligned times. -/

section

variable {a b t ts : ℤ} {source : String}

theorem fresh_line (line : TracerCallbacks.Line) :
    isAligned (stamp source ts (event line)) = false := by
  rw [isAligned_stamp]
  cases line <;> rfl

theorem aligned_line {line : TracerCallbacks.Line} (hts : lineTime line = some ts) :
    isAligned (alignOne a b (stamp "gpu" ts (event line))) = true := by
  apply isAligned_alignOne
  apply getTNs_stamp_isSome
  rw [extractTimestamp_event, hts]

theorem alignedTNs_alignTime (e : Event) : alignedTNs (alignTime (some t) e) = t := by
  rw [alignTime, alignedTNs, Event.intAt, Event.set_same]
  rfl

/-- What is none of the three kinds keeps its time. -/
theorem alignedTNs_rest {e : Event} (hcallback : isCallback e = false)
    (hhost : isHost (reclassify e) = false) (hgpu : isGpuAct e = false)
    (hfresh : isAligned e = false) (htime : getTNs e = some t) :
    alignedTNs (alignOne a b e) = t := by
  have hact : isGpuAct (reclassify e) = false :=
    (reads_isGpuAct.after writesOnly_reclassify rfl e).trans hgpu
  have hunaligned : isAligned (reclassify e) = false := by
    rw [isAligned, writesOnly_reclassify _ _ (by decide), ← isAligned]
    exact hfresh
  have hkept : getTNs (reclassify e) = some t :=
    (reads_getTNs.after writesOnly_reclassify rfl e).trans htime
  rw [alignOne, towardsHost_of_not_callback hcallback, alignHost, hhost, if_neg Bool.false_ne_true,
    alignGpu, hact, if_neg Bool.false_ne_true, alignRest, hunaligned, if_neg Bool.false_ne_true,
    hkept, alignedTNs_alignTime]

/-- A line of the memory keeps its time. -/
theorem alignedTNs_meminfo (tag : String) (n : ℕ) (freeB totalB : UInt64) :
    alignedTNs (alignOne a b (stamp "gpu" n (event (.meminfo tag n freeB totalB)))) = n :=
  alignedTNs_rest (isCallback_loaded _) (not_host_event _) (isGpuAct_stamp _) (fresh_line _) rfl

theorem alignedTNs_line {line : TracerCallbacks.Line} (hts : lineTime line = some ts)
    (ht : alignedTime a b line = some t) :
    alignedTNs (alignOne a b (stamp "gpu" ts (event line))) = t := by
  have hcalled : ∀ {line : TracerCallbacks.Line} {n : ℤ}, callbackTime line = some n →
      lineTime line = some ts →
      alignedTNs (alignOne a b (stamp "gpu" ts (event line))) = n + a := by
    intro line n hn hts
    have hcallback : isCallback (stamp "gpu" ts (event line)) = true := by
      rw [isCallback_loaded, hn]
      rfl
    obtain ⟨t', ht', haligned⟩ :=
      alignedTNs_of_callback hcallback (fresh_line line) (aligned_line (a := a) (b := b) hts)
    rw [getTNs_loaded_callback hn] at ht'
    rw [haligned, Option.some.inj ht']
  cases line with
  | enter api corr n =>
    cases ht
    exact hcalled rfl hts
  | exit api corr n dur =>
    cases ht
    exact hcalled rfl hts
  | meminfo tag n freeB totalB =>
    cases hts
    cases ht
    exact alignedTNs_meminfo tag n freeB totalB
  | memcpy m dur =>
    cases ht
    exact alignedTNs_of_gpu (by rw [isGpuAct_stamp]; rfl) rfl
  | kernel k name dur =>
    cases ht
    exact alignedTNs_of_gpu (by rw [isGpuAct_stamp]; rfl) rfl
  | status msg => cases ht

theorem HostLine.alignedTNs_eq {e : Event} (h : HostLine e) (ht : e.intAt "t_ns" = some t) :
    alignedTNs (alignOne a b (stamp "cpu" t e)) = t := by
  rw [alignOne_of_host h.isHost_stamp, h.getTNs_stamp, ht, alignedTNs_alignTime]

/-- A mark in the file of the tracer is no host line and no callback, and keeps its time. -/
theorem Mark.alignedTNs_eq {e : Event} (h : Mark e) (ht : e.intAt "t_ns" = some t) :
    alignedTNs (alignOne a b (stamp "gpu" t e)) = t := by
  have hcallback : isCallback (stamp "gpu" t e) = false :=
    isCallback_stamp.trans h.hostLine.not_callback
  have hgpu : isGpuAct (stamp "gpu" t e) = false :=
    (isGpuAct_stamp e).trans h.hostLine.not_gpuAct
  have hfresh : isAligned (stamp "gpu" t e) = false := by
    rw [isAligned_stamp, isAligned, h.fresh]
    rfl
  exact alignedTNs_rest hcallback h.not_host hgpu hfresh (h.hostLine.getTNs_stamp.trans ht)

end

/-! The lines of the tracer. -/

/-- A call prints one line at its entry. -/
theorem enter_unique {call : Call} {api api' : String} {corr corr' : UInt32} {t t' : ℕ}
    (h : .enter api corr t ∈ call.lines) (h' : .enter api' corr' t' ∈ call.lines) : t = t' := by
  unfold Call.lines at h h'
  cases hstage : call.stage <;> rw [hstage] at h h' <;> simp at h h'
  all_goals omega

/-- The tracer's own calls are of no kind that activities are of, and other calls have ids
of their own. -/
theorem entersOnce_trace {s : Tracer} (hs : Consistent s) : EntersOnce (trace s) := by
  have howner : ∀ {line}, line ∈ trace s → line.call ≠ none →
      ∃ (j : ℕ) (call : Call), s.calls[j]? = some call ∧ line ∈ call.lines := by
    intro line hline hcall
    obtain ⟨⟨owner, _⟩, hmem, rfl⟩ := List.mem_map.mp hline
    cases owner with
    | none => exact absurd (hs.untagged _ hmem) hcall
    | some j =>
      obtain ⟨call, hj, hown⟩ := hs.call_of_mem hmem
      exact ⟨j, call, hj, hown⟩
  intro api api' corr t t' hline hline' hkinds hkind
  obtain ⟨i, x, hi, hx⟩ := howner hline (by simp [Line.call])
  obtain ⟨j, y, hj, hy⟩ := howner hline' (by simp [Line.call])
  obtain ⟨hxcorr, hxapi⟩ := Prod.mk.inj (Option.some.inj (Call.call_of_mem_lines hx))
  obtain ⟨hycorr, hyapi⟩ := Prod.mk.inj (Option.some.inj (Call.call_of_mem_lines hy))
  have hcorr : x.corr = y.corr := hxcorr.symm.trans hycorr
  rcases Nat.lt_trichotomy i j with hlt | heq | hgt
  · have hown := (hs.family i j x y hi hj hlt hcorr).2.2
    rw [hkinds, hyapi, hown] at hkind
    exact absurd rfl hkind
  · rw [heq, hj] at hi
    cases hi
    exact enter_unique hx hy
  · have hown := (hs.family j i y x hj hi hgt hcorr.symm).2.2
    rw [hxapi, hown] at hkind
    exact absurd rfl hkind

theorem getTNs_merged {cpu marks : List TraceMerge.Line} {lines : List TracerCallbacks.Line}
    {x : Event} (hx : x ∈ merged cpu marks lines) : (getTNs x).isSome := by
  have hloaded : ∀ {source e}, loaded source e = some x → (getTNs x).isSome := by
    intro source e hload
    obtain ⟨ts, hts, rfl⟩ := Option.map_eq_some_iff.mp hload
    exact getTNs_stamp_isSome (Option.join_eq_some_iff.mp hts)
  rcases mem_merged.mp hx with ⟨_, _, hload⟩ | ⟨_, _, hload⟩ | ⟨_, _, hload⟩
  · exact hloaded hload
  · exact hloaded hload
  · exact hloaded hload

theorem alignedTime_isSome (a b : ℤ) {line : TracerCallbacks.Line} {ts : ℤ}
    (h : lineTime line = some ts) : ∃ t, alignedTime a b line = some t := by
  cases line with
  | status msg => cases h
  | enter api corr t => exact ⟨_, rfl⟩
  | exit api corr t dur => exact ⟨_, rfl⟩
  | meminfo tag t freeB totalB => exact ⟨_, rfl⟩
  | memcpy m dur => exact ⟨_, rfl⟩
  | kernel k name dur => exact ⟨_, rfl⟩

/-- Whatever the threads of the traced program do, in whatever order, and whatever is sampled
and marked: the files merge and align without an error; callbacks are moved by the way from
their earliest time to the earliest of the host, and activities by the median of the ways
from the start of each to the entry of its own call; no line with a time is lost, and each
has the time of its kind, the marks in both files their own. -/
theorem tracer_alignment (as : List Action) (s : Tracer) (hrun : run step init as = some s)
    (cpu marks : List TraceMerge.Line) (hcpu : ∀ e ∈ objects cpu, HostLine e)
    (hmarks : ∀ e ∈ objects marks, Mark e) :
    ∃ events out a b, main cpu (traceFile (trace s) ++ marks) = some events ∧
      alignEvents events = some (out, a, b) ∧ out.Perm (events.map (alignOne a b)) ∧
      a = clockOffset cpu (trace s) ∧ b = deviceOffset (trace s) a ∧
      (∀ line ∈ trace s, ∀ ts, lineTime line = some ts →
        ∃ x ∈ out, x = alignOne a b (stamp "gpu" ts (event line)) ∧
          alignedTime a b line = some (alignedTNs x)) ∧
      (∀ e ∈ objects cpu, ∀ t, e.intAt "t_ns" = some t →
        ∃ x ∈ out, x = alignOne a b (stamp "cpu" t e) ∧ alignedTNs x = t) ∧
      ∀ e ∈ objects marks, ∀ t, e.intAt "t_ns" = some t →
        ∃ x ∈ out, x = alignOne a b (stamp "gpu" t e) ∧ alignedTNs x = t := by
  have honce := entersOnce_trace (run_consistent hrun)
  have hall : ((merged cpu marks (trace s)).map (alignOne (clockOffset cpu (trace s))
      (deviceOffset (trace s) (clockOffset cpu (trace s))))).filter isAligned =
        (merged cpu marks (trace s)).map (alignOne (clockOffset cpu (trace s))
          (deviceOffset (trace s) (clockOffset cpu (trace s)))) := by
    rw [List.filter_eq_self]
    intro y hy
    obtain ⟨x, hx, rfl⟩ := List.mem_map.mp hy
    exact isAligned_alignOne (getTNs_merged hx)
  refine ⟨_, _, _, _, main_eq (trace s) hcpu hmarks, ?_, sortBy_perm alignedTNs _, rfl, rfl,
    ?_, ?_, ?_⟩
  · rw [alignEvents_eq, gpuToCpu_merged hcpu hmarks honce, cbToHost_merged hcpu hmarks,
      Option.map_some, hall]
  · intro line hline ts hts
    have hmem : stamp "gpu" ts (event line) ∈ merged cpu marks (trace s) := by
      apply mem_merged.mpr
      refine .inr (.inl ⟨line, hline, ?_⟩)
      rw [loaded_event, hts]
      rfl
    refine ⟨_, mem_sortBy.mpr (List.mem_map_of_mem hmem), rfl, ?_⟩
    obtain ⟨t, ht⟩ := alignedTime_isSome (clockOffset cpu (trace s))
      (deviceOffset (trace s) (clockOffset cpu (trace s))) hts
    rw [ht, alignedTNs_line hts ht]
  · intro e he t ht
    have hmem : stamp "cpu" t e ∈ merged cpu marks (trace s) := by
      apply mem_merged.mpr
      refine .inl ⟨e, he, ?_⟩
      rw [(hcpu e he).loaded_eq, ht]
      rfl
    exact ⟨_, mem_sortBy.mpr (List.mem_map_of_mem hmem), rfl, (hcpu e he).alignedTNs_eq ht⟩
  · intro e he t ht
    have hmem : stamp "gpu" t e ∈ merged cpu marks (trace s) := by
      apply mem_merged.mpr
      refine .inr (.inr ⟨e, he, ?_⟩)
      rw [(hmarks e he).hostLine.loaded_eq, ht]
      rfl
    exact ⟨_, mem_sortBy.mpr (List.mem_map_of_mem hmem), rfl, (hmarks e he).alignedTNs_eq ht⟩

/-- The lines of the run of two threads, behind a sample of the host and a mark. -/
def sampledHost : List TraceMerge.Line :=
  [.object (ofFields [("type", .str "host_stats"), ("t_ns", .int 1000)]), .corrupt]

def markedDevice : List TraceMerge.Line :=
  [.corrupt, .object (ofFields [("type", .str "marker"), ("msg", .str "htoD_end"),
    ("t_ns", .int 1020)])]

theorem sampledHost_lines : ∀ e ∈ objects sampledHost, HostLine e :=
  List.forall_mem_singleton.mpr ⟨.inl rfl, ⟨1000, rfl⟩, rfl⟩

theorem markedDevice_marks : ∀ e ∈ objects markedDevice, Mark e :=
  List.forall_mem_singleton.mpr ⟨rfl, ⟨1020, rfl⟩, rfl⟩

theorem tracer_alignment_twoThreads : ∃ s, run step init twoThreads = some s ∧
    ∃ events out a b, main sampledHost (traceFile (trace s) ++ markedDevice) = some events ∧
      alignEvents events = some (out, a, b) ∧ out.Perm (events.map (alignOne a b)) ∧
      a = clockOffset sampledHost (trace s) ∧ b = deviceOffset (trace s) a ∧
      (∀ line ∈ trace s, ∀ ts, lineTime line = some ts →
        ∃ x ∈ out, x = alignOne a b (stamp "gpu" ts (event line)) ∧
          alignedTime a b line = some (alignedTNs x)) ∧
      (∀ e ∈ objects sampledHost, ∀ t, e.intAt "t_ns" = some t →
        ∃ x ∈ out, x = alignOne a b (stamp "cpu" t e) ∧ alignedTNs x = t) ∧
      ∀ e ∈ objects markedDevice, ∀ t, e.intAt "t_ns" = some t →
        ∃ x ∈ out, x = alignOne a b (stamp "gpu" t e) ∧ alignedTNs x = t := by
  have hsome : (run step init twoThreads).isSome := by decide +kernel
  obtain ⟨s, hrun⟩ := Option.isSome_iff_exists.mp hsome
  exact ⟨s, hrun, tracer_alignment twoThreads s hrun sampledHost markedDevice sampledHost_lines
    markedDevice_marks⟩

end HpcProfiler.TracedAlignment
