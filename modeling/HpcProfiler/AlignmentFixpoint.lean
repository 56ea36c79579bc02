import HpcProfiler.TraceAlignment

/-!
An aligned trace is aligned already. The second run reads of each event what the first one
read, writes the times that stand there, and finds the callbacks in the order in which the
first run found them; so both offsets come out again, and the list is in order.
-/

namespace HpcProfiler.AlignmentFixpoint

open TraceEvents FieldFrames StableSort TraceAlignment

/-- No stage changes the event. -/
structure Settled (a b : ℤ) (x : Event) : Prop where
  reclassify_eq : reclassify x = x
  alignCallback_eq : alignCallback a x = x
  alignHost_eq : alignHost x = x
  alignGpu_eq : alignGpu b x = x
  alignRest_eq : alignRest x = x

section

variable {a b : ℤ} {e x : Event}

theorem Settled.towardsHost_eq (h : Settled a b x) : towardsHost a x = x := by
  rw [towardsHost, h.reclassify_eq, h.alignCallback_eq, h.alignHost_eq]

theorem Settled.alignOne_eq (h : Settled a b x) : alignOne a b x = x := by
  rw [alignOne, h.towardsHost_eq, h.alignGpu_eq, h.alignRest_eq]

/-- The source that was found is found again. -/
theorem classifySource_again (htype : x "type" = e "type") (hside : x "side" = e "side")
    (hsource : x "source" = some (classifySource e)) : classifySource x = classifySource e := by
  have hcpu : x.has "source" "cpu" = decide (classifySource e = .str "cpu") := by
    rw [Event.has, hsource]
    simp
  have hdefault : (x "source").getD (.str "unknown") = classifySource e := by
    rw [hsource, Option.getD_some]
  rw [classifySource, Event.has_congr htype, Event.has_congr htype, Event.has_congr htype,
    Event.has_congr htype, Event.has_congr hside, Event.has_congr hside, hcpu, hdefault]
  have hfound : classifySource e =
      if e.has "type" "host_stats" || (e.has "type" "marker" && e.has "source" "cpu") then
        .str "cpu"
      else if e.has "type" "callback" && e.has "side" "cpu" then .str "cpu"
      else if e.has "type" "activity" && e.has "side" "gpu" then .str "gpu"
      else (e "source").getD (.str "unknown") := rfl
  split_ifs at hfound with hcpuSide hcallback hactivity
  · -- Whatever made it an event of the CPU does so again.
    rw [Bool.or_eq_true, Bool.and_eq_true] at hcpuSide
    rcases hcpuSide with hhost | ⟨hmarker, -⟩
    · simp [hhost, hfound]
    · simp [hmarker, hfound]
  · simp [hcallback, hfound]
  · rw [Bool.or_eq_true, not_or] at hcpuSide
    simp [hcpuSide.1, hcallback, hactivity, hfound]
  · rw [Bool.or_eq_true, not_or] at hcpuSide
    rw [if_neg hcallback, if_neg hactivity]
    split
    · rename_i hmarker
      simp only [hcpuSide.1, Bool.false_or, Bool.and_eq_true, decide_eq_true_eq] at hmarker
      exact hmarker.2.symm
    · rfl

theorem alignTime_again (t : Option ℤ) : alignTime t (alignTime t e) = alignTime t e := by
  cases t with
  | none => rfl
  | some n => exact Event.set_eq_self (Event.set_same ..)

theorem alignRest_again : alignRest (alignRest e) = alignRest e := by
  by_cases haligned : isAligned e = true
  · rw [alignRest, alignRest, if_pos haligned, if_pos haligned]
  · have hrest : alignRest e = alignTime (getTNs e) e := if_neg haligned
    rw [hrest]
    exact alignRest_alignTime id

theorem isAligned_alignOne (h : (getTNs e).isSome) : isAligned (alignOne a b e) = true := by
  obtain ⟨t, ht⟩ := Option.isSome_iff_exists.mp h
  have hkept : getTNs (alignGpu b (towardsHost a e)) = some t := by
    rw [reads_getTNs.after (writesOnly_alignGpu b) rfl,
      reads_getTNs.after (writesOnly_towardsHost a) rfl, ht]
  rw [alignOne, alignRest]
  split
  · assumption
  · rw [hkept]
    exact isAligned_set _ _

theorem alignEnd_again {t : Option ℤ} (h : ∀ n ∈ t, e "aligned_end_ns" = some (.int n)) :
    alignEnd t e = e := by
  cases t with
  | none => rfl
  | some n => exact Event.set_eq_self (h n rfl)

theorem alignGpu_again : alignGpu b (alignGpu b e) = alignGpu b e := by
  have hact : isGpuAct (alignGpu b e) = isGpuAct e :=
    reads_isGpuAct.after (writesOnly_alignGpu b) rfl e
  have htimes : getGpuStartEnd (alignGpu b e) = getGpuStartEnd e :=
    reads_getGpuStartEnd.after (writesOnly_alignGpu b) rfl e
  rw [alignGpu, hact, htimes]
  by_cases hgpu : isGpuAct e = true
  · rw [if_pos hgpu]
    cases hstart : (getGpuStartEnd e).1 with
    | none => rfl
    | some s =>
      have hvalue : alignGpu b e = (alignEnd ((getGpuStartEnd e).2.map (· + b))
          (e.set "aligned_start_ns" (.int (s + b)))).set "aligned_t_ns" (.int (s + b)) := by
        rw [alignGpu, if_pos hgpu, hstart]
      have hstartValue : alignGpu b e "aligned_start_ns" = some (.int (s + b)) := by
        rw [hvalue, Event.set_other _ _ (by decide), writesOnly_alignEnd _ _ _ (by decide),
          Event.set_same]
      have hendValue : ∀ n ∈ (getGpuStartEnd e).2.map (· + b),
          alignGpu b e "aligned_end_ns" = some (.int n) := by
        intro n hn
        rw [hvalue, Event.set_other _ _ (by decide), Option.mem_def.mp hn]
        exact Event.set_same ..
      have htimeValue : alignGpu b e "aligned_t_ns" = some (.int (s + b)) := by
        rw [hvalue, Event.set_same]
      dsimp only
      rw [Event.set_eq_self hstartValue, alignEnd_again hendValue, Event.set_eq_self htimeValue]
  · rw [if_neg hgpu]

theorem alignOne_of_host (h : isHost (reclassify e) = true) :
    alignOne a b e = alignTime (getTNs e) (reclassify e) := by
  have hcallback : isCallback e = false := by
    by_contra hnot
    have hcalled := (reads_isCallback.after writesOnly_reclassify rfl e).trans (by simpa using hnot)
    rw [not_host_of_callback hcalled] at h
    cases h
  have htime : getTNs (reclassify e) = getTNs e := reads_getTNs.after writesOnly_reclassify rfl e
  have hhosted : towardsHost a e = alignTime (getTNs e) (reclassify e) := by
    rw [towardsHost_of_not_callback hcallback, alignHost, if_pos h, htime]
  have hact : isGpuAct (towardsHost a e) = false := by
    by_contra hnot
    have hsame := reads_isGpuAct.after (writesOnly_towardsHost a) rfl e
    have hagain := reads_isGpuAct.after writesOnly_reclassify rfl e
    rw [not_host_of_gpu (hagain.trans (hsame.symm.trans (by simpa using hnot)))] at h
    cases h
  rw [alignOne, alignGpu, hact, if_neg Bool.false_ne_true, hhosted]
  refine alignRest_alignTime fun hnone => ?_
  rw [htime, hnone]

theorem alignOne_of_gpu (h : isGpuAct e = true) :
    alignOne a b e = alignRest (alignGpu b (reclassify e)) := by
  have hcallback : isCallback e = false := by
    by_contra hnot
    rw [not_gpu_of_callback (by simpa using hnot)] at h
    cases h
  have hact : isGpuAct (reclassify e) = true :=
    (reads_isGpuAct.after writesOnly_reclassify rfl e).trans h
  rw [alignOne, towardsHost_of_not_callback hcallback, alignHost, not_host_of_gpu hact,
    if_neg Bool.false_ne_true]

theorem isAligned_alignGpu (h : isGpuAct e = true) {s : ℤ} (hs : (getGpuStartEnd e).1 = some s) :
    isAligned (alignGpu b (reclassify e)) = true := by
  rw [alignGpu, reads_isGpuAct.after writesOnly_reclassify rfl, if_pos h,
    reads_getGpuStartEnd.after writesOnly_reclassify rfl, hs]
  exact isAligned_set _ _

theorem source_alignOne (a b : ℤ) (e : Event) :
    alignOne a b e "source" = some (classifySource e) := by
  have hrest : ∀ f : Event → Event, WritesOnly ["aligned_t_ns"] f → ∀ y,
      f y "source" = y "source" := fun f hf y => hf y _ (by decide)
  rw [alignOne, hrest _ writesOnly_alignRest, writesOnly_alignGpu b _ _ (by decide), towardsHost,
    hrest _ writesOnly_alignHost, hrest _ (writesOnly_alignCallback a), reclassify, Event.set_same]

theorem isHost_alignOne (a b : ℤ) (e : Event) :
    isHost (alignOne a b e) = isHost (reclassify e) := by
  have htype : alignOne a b e "type" = reclassify e "type" :=
    (writesOnly_alignOne a b e _ (by decide)).trans (writesOnly_reclassify e _ (by decide)).symm
  have hsource : alignOne a b e "source" = reclassify e "source" := by
    rw [source_alignOne, reclassify, Event.set_same]
  refine reads_isHost _ _ fun key hkey => ?_
  simp only [List.mem_cons, List.not_mem_nil, or_false] at hkey
  rcases hkey with rfl | rfl
  · exact htype
  · exact hsource

/-- What the stages leave is left by all of them. -/
theorem settled_alignOne (a b : ℤ) (e : Event) : Settled a b (alignOne a b e) := by
  have hkept : ∀ key, key ∉ written → alignOne a b e key = e key := writesOnly_alignOne a b e
  have htime : getTNs (alignOne a b e) = getTNs e :=
    reads_getTNs.after (writesOnly_alignOne a b) rfl e
  have hcallback : isCallback (alignOne a b e) = isCallback e :=
    reads_isCallback.after (writesOnly_alignOne a b) rfl e
  have hact : isGpuAct (alignOne a b e) = isGpuAct e :=
    reads_isGpuAct.after (writesOnly_alignOne a b) rfl e
  refine ⟨?_, ?_, ?_, ?_, alignRest_again⟩
  · refine Event.set_eq_self ?_
    rw [source_alignOne, classifySource_again (hkept _ (by decide)) (hkept _ (by decide))
      (source_alignOne a b e)]
  · rw [alignCallback, hcallback, htime]
    split
    · rename_i hcalled
      rw [alignOne_of_callback hcalled, towardsHost_of_callback hcalled]
      exact alignTime_again _
    · rfl
  · rw [alignHost, isHost_alignOne, htime]
    split
    · rename_i hhosted
      rw [alignOne_of_host hhosted]
      exact alignTime_again _
    · rfl
  · by_cases hgpu : isGpuAct e = true
    · cases hstart : (getGpuStartEnd e).1 with
      | none =>
        have hstart' : getGpuStartEnd (alignOne a b e) = getGpuStartEnd e :=
          reads_getGpuStartEnd.after (writesOnly_alignOne a b) rfl e
        rw [alignGpu, hact, if_pos hgpu, hstart', hstart]
      | some s =>
        have hrest : alignOne a b e = alignGpu b (reclassify e) := by
          rw [alignOne_of_gpu hgpu, alignRest, if_pos (isAligned_alignGpu hgpu hstart)]
        rw [hrest, alignGpu_again]
    · rw [alignGpu, hact, if_neg hgpu]

theorem map_eq_self {f : Event → Event} {xs : List Event} (h : ∀ x ∈ xs, f x = x) :
    xs.map f = xs := by
  conv_rhs => rw [← List.map_id xs]
  exact List.map_congr_left h

theorem min_congr {xs ys : List ℤ} (h : ∀ t, t ∈ xs ↔ t ∈ ys) : xs.min? = ys.min? := by
  cases hys : ys.min? with
  | none =>
    rw [List.min?_eq_none_iff, List.eq_nil_iff_forall_not_mem] at hys ⊢
    exact fun t ht => hys t ((h t).mp ht)
  | some m =>
    obtain ⟨hmem, hle⟩ := List.min?_eq_some_iff.mp hys
    exact List.min?_eq_some_iff.mpr ⟨(h m).mpr hmem, fun t ht => hle t ((h t).mp ht)⟩

/-- The events of a run with their aligned times, before they are sorted. -/
def alignedEvents (a b : ℤ) (events : List Event) : List Event :=
  (events.map (alignOne a b)).filter isAligned

/-- The times among some kind of events: an event with a time is kept. -/
theorem mem_times {events : List Event} {p : Event → Bool} {t : ℤ}
    (hp : ∀ e, p (alignOne a b e) = p (reclassify e)) :
    t ∈ ((sortBy alignedTNs (alignedEvents a b events)).filter p).filterMap getTNs ↔
      t ∈ ((events.map reclassify).filter p).filterMap getTNs := by
  have htime : ∀ e, getTNs (alignOne a b e) = getTNs e :=
    reads_getTNs.after (writesOnly_alignOne a b) rfl
  have htime' : ∀ e, getTNs (reclassify e) = getTNs e :=
    reads_getTNs.after writesOnly_reclassify rfl
  simp only [List.mem_filterMap, List.mem_filter, mem_sortBy, alignedEvents, List.mem_map]
  constructor
  · rintro ⟨x, ⟨⟨⟨e, he, rfl⟩, -⟩, hpx⟩, ht⟩
    exact ⟨_, ⟨⟨e, he, rfl⟩, (hp e).symm.trans hpx⟩, (htime' e).trans ((htime e).symm.trans ht)⟩
  · rintro ⟨x, ⟨⟨e, he, rfl⟩, hpx⟩, ht⟩
    have hsome : getTNs e = some t := (htime' e).symm.trans ht
    have haligned : isAligned (alignOne a b e) = true := isAligned_alignOne (by rw [hsome]; rfl)
    exact ⟨_, ⟨⟨⟨e, he, rfl⟩, haligned⟩, (hp e).trans hpx⟩, (htime e).trans hsome⟩

theorem filter_map_congr {f g : Event → Event} {p : Event → Bool} {events : List Event}
    (hp : ∀ e, p (f e) = p (g e)) (h : ∀ e ∈ events, p (g e) = true → f e = g e) :
    (events.map f).filter p = (events.map g).filter p := by
  have hcomp : p ∘ f = p ∘ g := funext hp
  rw [List.filter_map, List.filter_map, hcomp]
  exact List.map_congr_left fun e he => h e (List.mem_filter.mp he).1 (List.mem_filter.mp he).2

theorem cbToHost_again {events : List Event} :
    cbToHost (sortBy alignedTNs (alignedEvents a b events)) = cbToHost events := by
  have hreclassified : (sortBy alignedTNs (alignedEvents a b events)).map reclassify =
      sortBy alignedTNs (alignedEvents a b events) := by
    refine map_eq_self fun x hx => ?_
    obtain ⟨e, -, rfl⟩ := List.mem_map.mp (List.mem_filter.mp (mem_sortBy.mp hx)).1
    exact (settled_alignOne a b e).reclassify_eq
  have hcallbacks : ∀ e, isCallback (alignOne a b e) = isCallback (reclassify e) := fun e =>
    (reads_isCallback.after (writesOnly_alignOne a b) rfl e).trans
      (reads_isCallback.after writesOnly_reclassify rfl e).symm
  rw [cbToHost, hreclassified, estimateCbToHostOffsetNs, min_congr fun t => mem_times hcallbacks,
    min_congr fun t => mem_times (isHost_alignOne a b), cbToHost, estimateCbToHostOffsetNs]

theorem alignedTNs_of_callback (hcallback : isCallback e = true) (hfresh : isAligned e = false)
    (haligned : isAligned (alignOne a b e) = true) :
    ∃ t, getTNs e = some t ∧ alignedTNs (alignOne a b e) = t + a := by
  rw [alignOne_of_callback hcallback, towardsHost_of_callback hcallback] at haligned ⊢
  cases ht : getTNs e with
  | none =>
    rw [ht, Option.map_none, alignTime, isAligned,
      writesOnly_reclassify e _ (by decide), ← isAligned, hfresh] at haligned
    cases haligned
  | some t =>
    refine ⟨t, rfl, ?_⟩
    rw [Option.map_some, alignTime, alignedTNs, Event.intAt, Event.set_same]
    rfl

/-- Callbacks in the order of their times are in the order of their aligned times. -/
theorem callbacks_pairwise {events : List Event} (hfresh : ∀ e ∈ events, isAligned e = false)
    (horder : ((events.filter isCallback).filterMap getTNs).Pairwise (· ≤ ·)) :
    ((alignedEvents a b events).filter isCallback).Pairwise
      fun x y => alignedTNs x ≤ alignedTNs y := by
  have hcallback : ∀ e, isCallback (alignOne a b e) = isCallback e :=
    reads_isCallback.after (writesOnly_alignOne a b) rfl
  rw [List.pairwise_filterMap, List.pairwise_filter] at horder
  rw [List.pairwise_filter, alignedEvents, List.pairwise_filter, List.pairwise_map]
  refine horder.imp_of_mem ?_
  intro e e' he he' hle haligned haligned' hcalled hcalled'
  rw [hcallback] at hcalled hcalled'
  obtain ⟨t, ht, hkey⟩ := alignedTNs_of_callback hcalled (hfresh e he) haligned
  obtain ⟨t', ht', hkey'⟩ := alignedTNs_of_callback hcalled' (hfresh e' he') haligned'
  rw [hkey, hkey']
  exact Int.add_le_add_right (hle hcalled hcalled' t ht t' ht') a

theorem tmpCallbacks_again {events : List Event} (hfresh : ∀ e ∈ events, isAligned e = false)
    (horder : ((events.filter isCallback).filterMap getTNs).Pairwise (· ≤ ·)) :
    tmpCallbacks (sortBy alignedTNs (alignedEvents a b events)) =
      tmpCallbacks (events.map (towardsHost a)) := by
  have hkinds : (events.map (alignOne a b)).filter isCallback =
      (events.map (towardsHost a)).filter isCallback := by
    refine filter_map_congr (fun e => ?_) fun e _ hcalled => ?_
    · rw [reads_isCallback.after (writesOnly_alignOne a b) rfl,
        reads_isCallback.after (writesOnly_towardsHost a) rfl]
    · rw [reads_isCallback.after (writesOnly_towardsHost a) rfl] at hcalled
      exact alignOne_of_callback hcalled
  have hall : ((alignedEvents a b events).filter isCallback).filter isAligned =
      (alignedEvents a b events).filter isCallback :=
    List.filter_eq_self.mpr fun x hx => (List.mem_filter.mp (List.mem_filter.mp hx).1).2
  rw [tmpCallbacks, filter_sortBy (callbacks_pairwise hfresh horder), hall, alignedEvents,
    List.filter_comm, hkinds, tmpCallbacks]

/-- An activity that is dropped has no start, and so no offset. -/
theorem gpuOffset_dropped {idx : EnterIndex} (h : isAligned (alignOne a b e) = false) :
    gpuOffset idx e = some none := by
  by_cases hgpu : isGpuAct e = true
  · have hstart : (getGpuStartEnd e).1 = none := by
      cases hs : (getGpuStartEnd e).1 with
      | none => rfl
      | some s =>
        have haligned := isAligned_alignGpu (b := b) hgpu hs
        rw [alignOne_of_gpu hgpu, alignRest, if_pos haligned, haligned] at h
        cases h
    rw [gpuOffset, hgpu, hstart]
    simp
  · rw [gpuOffset, if_pos hgpu]

theorem gpuOffsets_again {events : List Event} {idx : EnterIndex} {offsets : List ℤ}
    (h : gpuOffsets idx ((events.map (towardsHost a)).filter isGpuAct) = some offsets) :
    ∃ offsets', gpuOffsets idx
        ((sortBy alignedTNs (alignedEvents a b events)).filter isGpuAct) = some offsets' ∧
      offsets'.Perm offsets := by
  have hlast : ∀ e, gpuOffset idx (alignOne a b e) = gpuOffset idx e :=
    (reads_gpuOffset idx).after (writesOnly_alignOne a b) rfl
  have hfirst : ∀ e, gpuOffset idx (towardsHost a e) = gpuOffset idx e :=
    (reads_gpuOffset idx).after (writesOnly_towardsHost a) rfl
  have hact : ∀ e, isGpuAct (alignOne a b e) = isGpuAct (towardsHost a e) := fun e =>
    (reads_isGpuAct.after (writesOnly_alignOne a b) rfl e).trans
      (reads_isGpuAct.after (writesOnly_towardsHost a) rfl e).symm
  obtain ⟨hall, hoffsets⟩ := gpuOffsets_eq_some_iff.mp h
  refine ⟨_, gpuOffsets_eq_some_iff.mpr ⟨?_, rfl⟩, ?_⟩
  · intro x hx
    obtain ⟨hmem, hgpu⟩ := List.mem_filter.mp hx
    obtain ⟨e, he, rfl⟩ := List.mem_map.mp (List.mem_filter.mp (mem_sortBy.mp hmem)).1
    rw [hlast, ← hfirst]
    exact hall _ (List.mem_filter.mpr ⟨List.mem_map_of_mem he, (hact e).symm.trans hgpu⟩)
  · have hperm : ((sortBy alignedTNs (alignedEvents a b events)).filter isGpuAct).Perm
        ((alignedEvents a b events).filter isGpuAct) := (sortBy_perm _ _).filter _
    refine (hperm.filterMap _).trans (List.Perm.of_eq ?_)
    rw [← hoffsets, alignedEvents, List.filterMap_filter, List.filterMap_filter,
      List.filterMap_filter, List.filterMap_map, List.filterMap_map]
    refine List.filterMap_congr fun e _ => ?_
    simp only [Function.comp_apply, hlast, hfirst, hact]
    by_cases haligned : isAligned (alignOne a b e) = true
    · rw [if_pos haligned]
    · rw [if_neg haligned, gpuOffset_dropped (by simpa using haligned)]
      split <;> rfl

theorem gpuToCpu_again {events : List Event} (hfresh : ∀ e ∈ events, isAligned e = false)
    (horder : ((events.filter isCallback).filterMap getTNs).Pairwise (· ≤ ·))
    (ha : cbToHost events = a) (hb : gpuToCpu events = some b) :
    gpuToCpu (sortBy alignedTNs (alignedEvents a b events)) = some b := by
  have hhosted : (sortBy alignedTNs (alignedEvents a b events)).map (towardsHost a) =
      sortBy alignedTNs (alignedEvents a b events) := by
    refine map_eq_self fun x hx => ?_
    obtain ⟨e, -, rfl⟩ := List.mem_map.mp (List.mem_filter.mp (mem_sortBy.mp hx)).1
    exact (settled_alignOne a b e).towardsHost_eq
  rw [gpuToCpu, ha, estimateGpuToCpuOffsetNs, Option.bind_eq_some_iff] at hb
  obtain ⟨idx, hidx, hmedian⟩ := hb
  obtain ⟨offsets, hoffsets, hvalue⟩ := Option.map_eq_some_iff.mp hmedian
  obtain ⟨offsets', hagain, hperm⟩ := gpuOffsets_again (b := b) hoffsets
  rw [gpuToCpu, cbToHost_again, ha, hhosted, estimateGpuToCpuOffsetNs,
    tmpCallbacks_again hfresh horder, hidx, Option.bind_some, hagain, Option.map_some,
    medianInt_perm hperm, hvalue]

/-- Aligning what has been aligned gives the same events, times, order and offsets. -/
theorem align_again {events out : List Event} (hfresh : ∀ e ∈ events, isAligned e = false)
    (horder : ((events.filter isCallback).filterMap getTNs).Pairwise (· ≤ ·))
    (h : alignEvents events = some (out, a, b)) : alignEvents out = some (out, a, b) := by
  rw [alignEvents_eq] at h
  obtain ⟨n, hgpu, hresult⟩ := Option.map_eq_some_iff.mp h
  obtain ⟨hout, ha, rfl⟩ : sortBy alignedTNs (alignedEvents (cbToHost events) n events) = out ∧
      cbToHost events = a ∧ n = b := by
    simpa [alignedEvents] using hresult
  rw [ha] at hout
  subst hout
  have hsettled : ∀ x ∈ sortBy alignedTNs (alignedEvents a n events), alignOne a n x = x := by
    intro x hx
    obtain ⟨e, -, rfl⟩ := List.mem_map.mp (List.mem_filter.mp (mem_sortBy.mp hx)).1
    exact (settled_alignOne a n e).alignOne_eq
  have haligned : (sortBy alignedTNs (alignedEvents a n events)).filter isAligned =
      sortBy alignedTNs (alignedEvents a n events) :=
    List.filter_eq_self.mpr fun x hx => (List.mem_filter.mp (mem_sortBy.mp hx)).2
  rw [alignEvents_eq, gpuToCpu_again hfresh horder ha hgpu, cbToHost_again, ha, Option.map_some,
    map_eq_self hsettled, haligned, sortBy_of_pairwise (sortBy_pairwise _ _)]

end

theorem align_again_shortTrace : ∃ out a b,
    alignEvents shortTrace = some (out, a, b) ∧ alignEvents out = some (out, a, b) := by
  have hfresh : ∀ e ∈ shortTrace, isAligned e = false := by
    unfold shortTrace
    refine List.forall_mem_cons.mpr ⟨rfl, List.forall_mem_cons.mpr ⟨rfl, ?_⟩⟩
    exact List.forall_mem_singleton.mpr rfl
  have horder : ((shortTrace.filter isCallback).filterMap getTNs).Pairwise (· ≤ ·) := by
    have htimes : (shortTrace.filter isCallback).filterMap getTNs = [40] := rfl
    rw [htimes]
    exact List.pairwise_singleton ..
  have hsome : (alignEvents shortTrace).isSome := rfl
  obtain ⟨⟨out, a, b⟩, h⟩ := Option.isSome_iff_exists.mp hsome
  exact ⟨out, a, b, h, align_again hfresh horder h⟩

end HpcProfiler.AlignmentFixpoint
