import HpcProfiler.AlignmentFixpoint

/-!
The merge of the CPU and the GPU trace into one file, and what the alignment makes of a
merged file. Every merged event has a time that the alignment finds, and callbacks with a
time of their own come in its order, so the alignment of a merged file loses no event and
does nothing more when it is repeated.
-/

namespace HpcProfiler.TraceMerge

open TraceEvents TraceAlignment AlignmentFixpoint FieldFrames StableSort

/-- A line of a trace file: blank, not JSON, or an object. -/
inductive Line
  | blank
  | corrupt
  | object (e : Event)

/-- The fields that a timestamp is taken from, in the order of preference. -/
def timestampKeys : List String := ["t_ns", "recorder_t_ns", "gpu_start", "start"]

/-- The outer result is missing where int raises an error, the inner one where there is no
timestamp. -/
def extractTimestamp (e : Event) : Option (Option ℤ) :=
  match timestampKeys.findSome? e with
  | some value => value.toInt.map some
  | none => some none

def stamp (source : String) (ts : ℤ) (e : Event) : Event :=
  (e.set "merged_t_ns" (.int ts)).set "source" (.str source)

/-- The events of a file; an error of int ends the merge. -/
def loadJsonl (source : String) : List Line → Option (List Event)
  | [] => some []
  | .blank :: lines => loadJsonl source lines
  | .corrupt :: lines => loadJsonl source lines
  | .object e :: lines =>
    (extractTimestamp e).bind fun
      | none => loadJsonl source lines
      | some ts => (loadJsonl source lines).map (stamp source ts e :: ·)

def mergedTNs (e : Event) : ℤ := (e.intAt "merged_t_ns").getD 0

def main (cpu gpu : List Line) : Option (List Event) :=
  (loadJsonl "cpu" cpu).bind fun cpuEvents =>
    (loadJsonl "gpu" gpu).map fun gpuEvents => sortBy mergedTNs (cpuEvents ++ gpuEvents)

/-- The objects of a file. -/
def objects (lines : List Line) : List Event :=
  lines.filterMap fun
    | .object e => some e
    | _ => none

/-- A merged event is an object of a file with its timestamp and its source. -/
structure Stamped (source : String) (lines : List Line) (x : Event) : Prop where
  exists_object : ∃ e ∈ objects lines, ∃ ts, extractTimestamp e = some (some ts) ∧
    x = stamp source ts e

theorem Stamped.cons {source : String} {lines : List Line} {x : Event}
    (h : Stamped source lines x) (line : Line) : Stamped source (line :: lines) x := by
  obtain ⟨e, he, hstamp⟩ := h.exists_object
  refine ⟨e, ?_, hstamp⟩
  unfold objects at he ⊢
  rw [List.mem_filterMap] at he ⊢
  obtain ⟨l, hl, hle⟩ := he
  exact ⟨l, List.mem_cons_of_mem _ hl, hle⟩

theorem loadJsonl_stamped {source : String} {lines : List Line} {events : List Event}
    (h : loadJsonl source lines = some events) : ∀ x ∈ events, Stamped source lines x := by
  induction lines generalizing events with
  | nil =>
    cases h
    simp
  | cons line lines ih =>
    cases line with
    | blank =>
      intro x hx
      exact (ih h x hx).cons .blank
    | corrupt =>
      intro x hx
      exact (ih h x hx).cons .corrupt
    | object e =>
      obtain ⟨found, hfound, hrest⟩ := Option.bind_eq_some_iff.mp h
      cases found with
      | none =>
        intro x hx
        exact (ih hrest x hx).cons (.object e)
      | some ts =>
        obtain ⟨rest, hload, rfl⟩ := Option.map_eq_some_iff.mp hrest
        intro x hx
        rcases List.mem_cons.mp hx with rfl | hx
        · exact ⟨e, by simp [objects], ts, hfound, rfl⟩
        · exact (ih hload x hx).cons (.object e)

theorem main_perm {cpu gpu : List Line} {events : List Event} (h : main cpu gpu = some events) :
    ∃ cpuEvents gpuEvents, loadJsonl "cpu" cpu = some cpuEvents ∧
      loadJsonl "gpu" gpu = some gpuEvents ∧
      events = sortBy mergedTNs (cpuEvents ++ gpuEvents) := by
  obtain ⟨cpuEvents, hcpu, hrest⟩ := Option.bind_eq_some_iff.mp h
  obtain ⟨gpuEvents, hgpu, rfl⟩ := Option.map_eq_some_iff.mp hrest
  exact ⟨cpuEvents, gpuEvents, hcpu, hgpu, rfl⟩

/-- Every merged event comes from one of the files. -/
theorem main_stamped {cpu gpu : List Line} {events : List Event} (h : main cpu gpu = some events)
    {x : Event} (hx : x ∈ events) : Stamped "cpu" cpu x ∨ Stamped "gpu" gpu x := by
  obtain ⟨cpuEvents, gpuEvents, hcpu, hgpu, rfl⟩ := main_perm h
  rcases List.mem_append.mp (mem_sortBy.mp hx) with hx | hx
  · exact Or.inl (loadJsonl_stamped hcpu x hx)
  · exact Or.inr (loadJsonl_stamped hgpu x hx)

section

variable {source : String} {ts : ℤ} {e : Event}

theorem stamp_merged : stamp source ts e "merged_t_ns" = some (.int ts) := by
  rw [stamp, Event.set_other _ _ (by decide), Event.set_same]

theorem writesOnly_stamp : WritesOnly ["merged_t_ns", "source"] (stamp source ts) := by
  intro e key hkey
  have hsource : key ≠ "source" := by
    rintro rfl
    exact hkey (by simp)
  have hmerged : key ≠ "merged_t_ns" := by
    rintro rfl
    exact hkey (by simp)
  rw [stamp, Event.set_other _ _ hsource, Event.set_other _ _ hmerged]

theorem mergedTNs_stamp : mergedTNs (stamp source ts e) = ts := by
  rw [mergedTNs, Event.intAt, stamp_merged]
  rfl

/-- A timestamp is there, so if there is a t_ns, it is an integer, and it is the one. -/
theorem getTNs_stamp_of_tNs (h : extractTimestamp e = some (some ts)) (htime : (e "t_ns").isSome) :
    getTNs (stamp source ts e) = some ts := by
  have hkept : stamp source ts e "t_ns" = e "t_ns" := writesOnly_stamp e "t_ns" (by decide)
  obtain ⟨value, hvalue⟩ := Option.isSome_iff_exists.mp htime
  have hint : value.toInt = some ts := by
    rw [extractTimestamp, timestampKeys, List.findSome?_cons, hvalue] at h
    obtain ⟨n, hn, hsame⟩ := Option.map_eq_some_iff.mp h
    rw [hn, Option.some.inj hsame]
  rw [getTNs, hkept, if_pos htime, Event.intAt, hkept, hvalue]
  exact hint

/-- Every merged event has a time for the alignment. -/
theorem getTNs_stamp_isSome (h : extractTimestamp e = some (some ts)) :
    (getTNs (stamp source ts e)).isSome := by
  by_cases htime : (e "t_ns").isSome
  · rw [getTNs_stamp_of_tNs h htime]
    rfl
  · have hkept : stamp source ts e "t_ns" = e "t_ns" := writesOnly_stamp e "t_ns" (by decide)
    have hint : (stamp source ts e).intAt "merged_t_ns" = some ts := by
      rw [Event.intAt, stamp_merged]
      rfl
    rw [getTNs, hkept, if_neg htime, Event.firstInt, List.findSome?_isSome_iff]
    exact ⟨"merged_t_ns", by simp, by rw [hint]; rfl⟩

theorem isAligned_stamp : isAligned (stamp source ts e) = isAligned e := by
  rw [isAligned, writesOnly_stamp e "aligned_t_ns" (by decide), isAligned]

theorem isCallback_stamp : isCallback (stamp source ts e) = isCallback e :=
  reads_isCallback.after writesOnly_stamp (by decide) e

end

/-- No object of the lines has been aligned before, and every callback has a t_ns, which
the tracer writes into each of its callback lines. -/
structure Recorded (lines : List Line) : Prop where
  fresh : ∀ e ∈ objects lines, isAligned e = false
  timed : ∀ e ∈ objects lines, isCallback e = true → (e "t_ns").isSome

/-- What the alignment needs of an event of a merged file. -/
structure Ready (x : Event) : Prop where
  timed : (getTNs x).isSome
  fresh : isAligned x = false
  callback : isCallback x = true → getTNs x = some (mergedTNs x)

theorem Stamped.ready {source : String} {lines : List Line} {x : Event}
    (h : Stamped source lines x) (hlines : Recorded lines) : Ready x := by
  obtain ⟨e, he, ts, hts, rfl⟩ := h.exists_object
  refine ⟨getTNs_stamp_isSome hts, ?_, ?_⟩
  · rw [isAligned_stamp]
    exact hlines.fresh e he
  · intro hcallback
    rw [isCallback_stamp] at hcallback
    rw [mergedTNs_stamp]
    exact getTNs_stamp_of_tNs hts (hlines.timed e he hcallback)

theorem callbacks_ordered {events : List Event} (hready : ∀ x ∈ events, Ready x)
    (hsorted : events.Pairwise fun x y => mergedTNs x ≤ mergedTNs y) :
    ((events.filter isCallback).filterMap getTNs).Pairwise (· ≤ ·) := by
  rw [List.pairwise_filterMap, List.pairwise_filter]
  refine hsorted.imp_of_mem ?_
  intro x y hx hy hle hcall hcall' t ht t' ht'
  have htx := (hready x hx).callback hcall
  have hty := (hready y hy).callback hcall'
  rw [htx] at ht
  rw [hty] at ht'
  rw [← Option.some.inj ht, ← Option.some.inj ht']
  exact hle

/-- Whatever the two files hold: the alignment of the merged file keeps every event of it,
each with an aligned time, and changes nothing when it is repeated. -/
theorem merge_then_align (cpu gpu : List Line) (events out : List Event) (a b : ℤ)
    (hcpu : Recorded cpu) (hgpu : Recorded gpu) (hmerge : main cpu gpu = some events)
    (halign : alignEvents events = some (out, a, b)) :
    out.Perm (events.map (alignOne a b)) ∧ (∀ x ∈ out, isAligned x = true) ∧
      alignEvents out = some (out, a, b) := by
  have hready : ∀ x ∈ events, Ready x := by
    intro x hx
    rcases main_stamped hmerge hx with hx | hx
    · exact hx.ready hcpu
    · exact hx.ready hgpu
  have hsorted : events.Pairwise fun x y => mergedTNs x ≤ mergedTNs y := by
    obtain ⟨cpuEvents, gpuEvents, -, -, rfl⟩ := main_perm hmerge
    exact sortBy_pairwise mergedTNs _
  have hagain := align_again (fun x hx => (hready x hx).fresh)
    (callbacks_ordered hready hsorted) halign
  rw [alignEvents_eq] at halign
  obtain ⟨n, -, hresult⟩ := Option.map_eq_some_iff.mp halign
  have hpair := Prod.mk.inj hresult
  have hoffsets := Prod.mk.inj hpair.2
  have hall : (events.map (alignOne a b)).filter isAligned = events.map (alignOne a b) := by
    rw [List.filter_eq_self]
    intro y hy
    obtain ⟨x, hx, rfl⟩ := List.mem_map.mp hy
    exact isAligned_alignOne (hready x hx).timed
  have hout : out = sortBy alignedTNs (events.map (alignOne a b)) := by
    rw [← hpair.1, hoffsets.1, hoffsets.2, hall]
  refine ⟨?_, ?_, hagain⟩
  · rw [hout]
    exact sortBy_perm _ _
  · intro x hx
    rw [hout, mem_sortBy, ← hall] at hx
    exact (List.mem_filter.mp hx).2

/-- A sample of the host, and a copy with its callback, each in its file. -/
def hostFile : List Line :=
  [.object (ofFields [("type", .str "host_stats"), ("recorder_t_ns", .int 1000)]), .blank]

def deviceFile : List Line :=
  [.object (ofFields [("type", .str "callback"), ("side", .str "cpu"), ("site", .str "enter"),
      ("api", .str "cudaMemcpy"), ("corr", .int 1), ("t_ns", .int 40)]),
    .corrupt,
    .object (ofFields [("type", .str "activity"), ("side", .str "gpu"), ("kind", .str "memcpy"),
      ("start", .int 7), ("end", .int 9), ("corr", .int 1)])]

theorem recorded_hostFile : Recorded hostFile where
  fresh := List.forall_mem_singleton.mpr rfl
  timed := List.forall_mem_singleton.mpr fun h => absurd h (by decide)

theorem recorded_deviceFile : Recorded deviceFile where
  fresh := List.forall_mem_cons.mpr ⟨rfl, List.forall_mem_singleton.mpr rfl⟩
  timed := List.forall_mem_cons.mpr
    ⟨fun _ => rfl, List.forall_mem_singleton.mpr fun h => absurd h (by decide)⟩

theorem merge_then_align_small : ∃ events out a b,
    main hostFile deviceFile = some events ∧ alignEvents events = some (out, a, b) ∧
      out.Perm (events.map (alignOne a b)) ∧ (∀ x ∈ out, isAligned x = true) ∧
      alignEvents out = some (out, a, b) := by
  have hmain : (main hostFile deviceFile).isSome := rfl
  obtain ⟨events, hevents⟩ := Option.isSome_iff_exists.mp hmain
  have hsome : ((main hostFile deviceFile).bind alignEvents).isSome := rfl
  rw [hevents, Option.bind_some] at hsome
  obtain ⟨⟨out, a, b⟩, h⟩ := Option.isSome_iff_exists.mp hsome
  exact ⟨events, out, a, b, hevents, h, merge_then_align hostFile deviceFile events out a b
    recorded_hostFile recorded_deviceFile hevents h⟩

end HpcProfiler.TraceMerge
