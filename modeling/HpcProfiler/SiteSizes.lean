import HpcProfiler.DecimalText
import HpcProfiler.DiscoveryPasses
import HpcProfiler.EventAccounting
import HpcProfiler.GraphTotals
import HpcProfiler.SiteCharges
import HpcProfiler.WorldInvariant

/-!
The bytes that a collect attributes to the sites of allocation. Every event of an object
has the bytes by which the whole traceback of the object has grown, so a traceback with
several events in one collect is charged them several times.
-/

namespace HpcProfiler.SiteSizes

open Discovery DiscoveryPasses Events GraphTotals LayerSteps MemoryLayer ObjectGraph SiteCharges
open StepSystem WorldInvariant

/-! The callstack of an event tells the tracebacks apart. -/

theorem tbToCallstack_injective : Function.Injective tbToCallstack := by
  intro tb tb' h
  refine List.reverse_injective (List.map_injective_iff.mpr ?_ h)
  intro ⟨filename, lineno⟩ ⟨filename', lineno'⟩ hframe
  obtain ⟨rfl, rfl⟩ := DecimalText.name_colon_numeral hframe
  rfl

/-! The dealloc queue holds reports of deaths in every run of any number of calls. -/

/-- A finalizer has the report of a death in hand. -/
def HoldsDeath : Call → Prop
  | .onDealloc (.append event) => event.isDealloc = some true
  | _ => True

def QueuesDeaths (ly : Layer) : Prop := ∀ e ∈ ly.deallocQueue, e.isDealloc = some true

theorem collectStep_queue (env : Env) {ly : Layer} (h : QueuesDeaths ly) (c : Collect) :
    QueuesDeaths (collectStep env ly c).1 := by
  rcases hstep : collectStep env ly c with ⟨ly', out⟩
  cases collectStep_eq_effect hstep with
  | drain hpc =>
    intro e he
    cases he
  | _ => exact h

theorem callStep_queue (env : Env) {ly : Layer} {call : Call} (h : QueuesDeaths ly)
    (hcall : HoldsDeath call) : QueuesDeaths (callStep env ly call).1 := by
  cases call with
  | start pc =>
    cases pc with
    | startTracing =>
      unfold callStep startStep
      cases env.snapshot <;> exact h
    | _ => exact h
  | collect c => exact collectStep_queue env h c
  | flush pc =>
    cases pc with
    | drain =>
      intro e he
      cases he
    | takeEvents pending => exact h
  | stop pc =>
    cases pc with
    | collecting c => exact collectStep_queue env h c
    | _ => exact h
  | onDealloc pc =>
    cases pc with
    | append event =>
      intro e he
      rcases List.mem_append.mp he with hold | hnew
      · exact h e hold
      · rw [List.mem_singleton.mp hnew]
        exact hcall
    | _ => exact h

theorem holdsDeath_going {env : Env} {ly ly' : Layer} {call call' : Call}
    (h : callStep env ly call = (ly', .going call')) : HoldsDeath call' := by
  cases call with
  | onDealloc pc =>
    obtain ⟨pc', hpc, rfl⟩ := going_of_map h
    cases pc with
    | pop addr =>
      obtain ⟨-, hout⟩ := Prod.mk.inj hpc
      split at hout
      · cases hout
      · cases hout
        exact trivial
    | stamp addr info =>
      cases hpc
      exact trivial
    | number addr info ts =>
      cases hpc
      exact rfl
    | append event => cases hpc
  | start pc | collect pc | flush pc | stop pc =>
    obtain ⟨pc', hpc, rfl⟩ := going_of_map h
    exact trivial

/-- What a collect finds in the queue reports deaths, whatever calls ran before and run
beside it. -/
theorem queuesDeaths_of_run {trackRefs : Bool} {nextId : ℤ} {actions : List EventAccounting.Action}
    {p : EventAccounting.Pool}
    (hrun : run EventAccounting.step { layer := .init trackRefs nextId } actions = some p) :
    QueuesDeaths p.layer := by
  have hstart : QueuesDeaths (.init trackRefs nextId) ∧
      ∀ call ∈ ([] : List Call), HoldsDeath call := by
    constructor
    · intro e he
      cases he
    · intro call hcall
      cases hcall
  have hkeep : ∀ p a p', (QueuesDeaths p.layer ∧ ∀ call ∈ p.calls, HoldsDeath call) →
      EventAccounting.step p a = some p' →
        QueuesDeaths p'.layer ∧ ∀ call ∈ p'.calls, HoldsDeath call := by
    intro p a p' ⟨hqueue, hcalls⟩ hstep
    cases a with
    | call request =>
      cases hstep
      refine ⟨hqueue, fun call hcall => ?_⟩
      rcases List.mem_append.mp hcall with hold | hnew
      · exact hcalls call hold
      · rw [List.mem_singleton.mp hnew]
        cases request <;> exact trivial
    | step i env =>
      obtain ⟨call, hi, rfl⟩ := Option.map_eq_some_iff.mp hstep
      have hlayer := callStep_queue env hqueue (hcalls call (List.mem_of_getElem? hi))
      have herase : ∀ other ∈ p.calls.eraseIdx i, HoldsDeath other :=
        fun other hother => hcalls other (List.mem_of_mem_eraseIdx hother)
      unfold EventAccounting.stepCall
      rcases hcall : callStep env p.layer call with ⟨layer, out⟩
      rw [hcall] at hlayer
      cases out with
      | going call' =>
        refine ⟨hlayer, fun other hother => ?_⟩
        rcases List.mem_or_eq_of_mem_set hother with hold | rfl
        · exact hcalls other hold
        · exact holdsDeath_going hcall
      | returned result => exact ⟨hlayer, herase⟩
      | raised => exact ⟨hlayer, herase⟩
  exact (run_keeps hkeep hstart hrun).1

/-! A collect, whatever the other threads do meanwhile. -/

/-- The layer as a step of a collect finds it, with reports of deaths in its queue, and the
answers to the step. -/
structure Moment where
  layer : Layer
  env : Env
  queued : QueuesDeaths layer

def goOn (c : Collect) (m : Moment) : Option Collect := goingOn (collectStep m.env m.layer c).2

/-- What the collect returns, if the step ends it. -/
def resultOf (c : Collect) (m : Moment) : Option (List CpuEvent) :=
  match (collectStep m.env m.layer c).2 with
  | .returned batch => some batch
  | _ => none

/-- The tracebacks that have grown since the last snapshot. -/
def Moment.grown (m : Moment) : StatByTb :=
  match m.env.snapshot, m.layer.lastSnapshot with
  | some current, some last => statByTb (compareTo current last)
  | _, _ => ∅

/-- The snapshot is taken in the third step. -/
def grownIn (moments : List Moment) : StatByTb := (moments[2]?.map Moment.grown).getD ∅

/-- The bytes by which a traceback has grown, if it has. -/
def growth (stats : StatByTb) (tb : Traceback) : ℤ :=
  ((stats.lookup tb).map StatDiff.sizeDiff).getD 0

/-- The bytes that tracemalloc has measured to be new. -/
def measured (stats : StatByTb) : ℤ := ∑ tb ∈ stats.keys.toFinset, growth stats tb

def charges (events : List CpuEvent) : List (List String × ℤ) :=
  (events.filter allocates).map fun e => (e.callstack, e.allocSizeBytes)

/-- The bytes of the allocations of a traceback. -/
def attributed (batch : List CpuEvent) (tb : Traceback) : ℤ :=
  charged (charges batch) (tbToCallstack tb)

/-- The batch attributes to a traceback what it has grown by at most, and what a graph makes
of the batch counts at most what was measured. -/
structure WithinGrowth (stats : StatByTb) (batch : List CpuEvent) : Prop where
  site : ∀ tb, attributed batch tb ≤ growth stats tb
  total : ∀ arrivals, arrivals.map Arrival.event = batch →
    totalSizeBytes (ingest {} arrivals) ≤ measured stats
  alive : ∀ arrivals, arrivals.map Arrival.event = batch →
    aliveSizeBytes (ingest {} arrivals) ≤ measured stats

/-- The candidate that the step comes to, if it was not tracked and can be described. -/
def described (c : Collect) (m : Moment) : Option Candidate :=
  match c.pc with
  | .build (candidate :: _) =>
    if candidate.obj.addr ∈ c.found.liveSnapshot ∨ m.env.description.isNone = true then none
    else some candidate
  | _ => none

/-- The candidates of a collect that can be described. -/
def describable (c : Collect) : List Moment → List Candidate
  | [] => []
  | m :: rest =>
    (described c m).toList ++ ((goOn c m).map fun c' => describable c' rest).getD []

/-- The callstacks of the events made and of the one under way. -/
def begun (c : Collect) : List (List String) :=
  c.newAllocs.map CpuEvent.callstack ++
    match c.pc with
    | .snapTracked d _ => [tbToCallstack d.candidate.tb]
    | .findParent d _ _ => [tbToCallstack d.candidate.tb]
    | .stamp d _ => [tbToCallstack d.candidate.tb]
    | .number d _ => [tbToCallstack d.candidate.tb]
    | _ => []

/-- What is pending reports deaths. -/
def ReportsDeaths (c : Collect) : Prop := ∀ e ∈ c.pending, e.isDealloc = some true

/-- What the collect has of a traceback that has grown. -/
structure Sited (stats : StatByTb) (c : Collect) : Prop where
  known : Known stats c.found
  toReport : ∀ candidate ∈ todo c, stats.lookup candidate.tb = some candidate.stat
  allocs : ∀ e ∈ c.newAllocs, allocates e = true
  sizes : ∃ sites : List (Traceback × ℤ),
    c.newAllocs.map (fun e => (e.callstack, e.allocSizeBytes)) =
      sites.map (Prod.map tbToCallstack id) ∧
    ∀ site ∈ sites, ∃ stat, stats.lookup site.1 = some stat ∧ site.2 = stat.sizeDiff

section

variable {stats : StatByTb} {c c' : Collect} {m : Moment}

theorem charges_append_deaths {allocs deaths : List CpuEvent}
    (hallocs : ∀ e ∈ allocs, allocates e = true) (hdeaths : ∀ e ∈ deaths, e.isDealloc = some true) :
    charges (allocs ++ deaths) = allocs.map fun e => (e.callstack, e.allocSizeBytes) := by
  have hnone : deaths.filter allocates = [] := by
    refine List.filter_eq_nil_iff.mpr fun e he => ?_
    simp [allocates, hdeaths e he]
  rw [charges, List.filter_append, List.filter_eq_self.mpr hallocs, hnone, List.append_nil]

theorem allocatedBytes_eq (batch : List CpuEvent) :
    allocatedBytes batch = ((charges batch).map Prod.snd).sum := by
  rw [charges, List.map_map]
  rfl

theorem growth_of_lookup {tb : Traceback} {stat : StatDiff} (h : stats.lookup tb = some stat) :
    growth stats tb = stat.sizeDiff := by
  rw [growth, h]
  rfl

/-- The events of a collect keep within the growth exactly if no two of them have a
callstack in common. -/
theorem Sited.within_iff (h : Sited stats c)
    (hpos : ∀ tb stat, stats.lookup tb = some stat → 0 < stat.sizeDiff)
    (hdeaths : ReportsDeaths c) :
    WithinGrowth stats (c.newAllocs ++ c.pending) ↔ (c.newAllocs.map CpuEvent.callstack).Nodup := by
  obtain ⟨sites, hsites, hsizes⟩ := h.sizes
  have hcharges : charges (c.newAllocs ++ c.pending) = sites.map (Prod.map tbToCallstack id) :=
    (charges_append_deaths h.allocs hdeaths).trans hsites
  have hfull : Full (growth stats) sites := by
    intro site hsite
    obtain ⟨stat, hstat, hsize⟩ := hsizes site hsite
    rw [growth_of_lookup hstat]
    exact ⟨hpos _ stat hstat, hsize⟩
  have hnonneg : ∀ tb, 0 ≤ growth stats tb := by
    intro tb
    cases hstat : stats.lookup tb with
    | none => exact (congrArg (fun s => (Option.map StatDiff.sizeDiff s).getD 0) hstat).ge
    | some stat => exact (growth_of_lookup hstat).ge.trans' (hpos tb stat hstat).le
  have hattributed : ∀ tb, attributed (c.newAllocs ++ c.pending) tb = charged sites tb := by
    intro tb
    rw [attributed, hcharges, charged_map tbToCallstack_injective]
  have hnodup : (c.newAllocs.map CpuEvent.callstack).Nodup ↔ (sites.map Prod.fst).Nodup := by
    have hfst := congrArg (List.map Prod.fst) hsites
    rw [List.map_map, List.map_map] at hfst
    have hstacks : c.newAllocs.map CpuEvent.callstack = (sites.map Prod.fst).map tbToCallstack := by
      rw [List.map_map]
      exact hfst
    rw [hstacks, List.nodup_map_iff tbToCallstack_injective]
  rw [hnodup, ← hfull.within_iff_nodup hnonneg]
  constructor
  · intro hwithin tb
    rw [← hattributed]
    exact hwithin.site tb
  · intro hwithin
    have hmeasured : allocatedBytes (c.newAllocs ++ c.pending) ≤ measured stats := by
      rw [allocatedBytes_eq, hcharges, List.map_map]
      refine sum_le_of_charged_le (fun site hsite => ?_) hwithin
      obtain ⟨stat, hstat, -⟩ := hsizes site hsite
      exact List.mem_toFinset.mpr (AList.mem_keys.mp
        (AList.lookup_isSome.mp (Option.isSome_of_mem hstat)))
    have hnonneg' : ∀ e ∈ c.newAllocs ++ c.pending, allocates e = true → 0 ≤ e.allocSizeBytes := by
      intro e he halloc
      have hcharge : (e.callstack, e.allocSizeBytes) ∈ charges (c.newAllocs ++ c.pending) :=
        List.mem_map_of_mem (List.mem_filter.mpr ⟨he, halloc⟩)
      rw [hcharges] at hcharge
      obtain ⟨site, hsite, heq⟩ := List.mem_map.mp hcharge
      have hsize := hfull site hsite
      rw [← (Prod.mk.inj heq).2, id, hsize.2]
      exact hsize.1.le
    refine ⟨fun tb => ?_, fun arrivals harrivals => ?_, fun arrivals harrivals => ?_⟩
    · rw [hattributed]
      exact hwithin tb
    · have htotals := @totals_of_batch arrivals (harrivals ▸ hnonneg')
      rw [harrivals] at htotals
      exact htotals.1.trans hmeasured
    · have htotals := @totals_of_batch arrivals (harrivals ▸ hnonneg')
      rw [harrivals] at htotals
      exact htotals.2.trans hmeasured

theorem goOn_eq_some (h : goOn c m = some c') :
    ∃ ly, collectStep m.env m.layer c = (ly, .going c') := by
  unfold goOn at h
  rcases hstep : collectStep m.env m.layer c with ⟨ly, out⟩
  rw [hstep] at h
  cases out with
  | going c'' =>
    cases h
    exact ⟨ly, rfl⟩
  | _ => cases h

/-- A step begins an event exactly for the candidate that it describes. -/
theorem begun_goOn (h : goOn c m = some c') :
    begun c' = begun c ++ (described c m).toList.map fun x => tbToCallstack x.tb := by
  obtain ⟨ly, hstep⟩ := goOn_eq_some h
  obtain ⟨pc, pending, found, rssKb, newAllocs⟩ := c
  cases pc with
  | drain | snapLive | findParent | insert | register | snapTracked | stamp =>
    cases hstep
    simp [begun, described]
  | checkRunning =>
    cases hstep
    cases m.layer.running <;> simp [begun, described]
  | snapshot =>
    simp only [collectStep] at hstep
    split at hstep
    · cases hstep
      split <;> simp [begun, described]
    · cases hstep
  | passA gen =>
    cases hstep
    rcases afterPassA_cases gen (scanGc gen found m.env.sightings.reverse) with ⟨_, hnext⟩ | hnext
    all_goals simp [begun, described, hnext]
  | passB =>
    simp only [collectStep] at hstep
    split at hstep <;> cases hstep <;> simp [begun, described]
  | passC rest => cases rest <;> cases hstep <;> simp [begun, described]
  | build rest =>
    cases rest with
    | nil =>
      cases hstep
      simp [begun, described]
    | cons candidate rest =>
      simp only [collectStep] at hstep
      split at hstep
      · rename_i hlive
        cases hstep
        simp [begun, described, hlive]
      · rename_i hfresh
        cases hdescription : m.env.description with
        | none =>
          rw [hdescription] at hstep
          cases hstep
          simp [begun, described, hdescription]
        | some description =>
          rw [hdescription] at hstep
          cases hstep
          cases m.layer.trackRefs <;> simp [begun, described, hdescription, hfresh]
  | number d rest =>
    cases hstep
    simp [begun, described, allocEvent]
  | idleExtend | extend => cases hstep

/-- The events made are of the candidates that can be described. -/
theorem begun_run {moments : List Moment} {c : Collect} (h : run goOn c moments = some c') :
    begun c' = begun c ++ (describable c moments).map fun x => tbToCallstack x.tb := by
  induction moments generalizing c with
  | nil =>
    cases h
    exact (List.append_nil _).symm
  | cons m rest ih =>
    obtain ⟨next, hstep, hrest⟩ := run_cons_eq_some.mp h
    have hnext : describable c (m :: rest) = (described c m).toList ++ describable next rest := by
      rw [describable, hstep]
      rfl
    rw [ih hrest, begun_goOn hstep, hnext, List.map_append, List.append_assoc]

theorem deaths_goOn (hdeaths : ReportsDeaths c) (h : goOn c m = some c') : ReportsDeaths c' := by
  obtain ⟨ly, hstep⟩ := goOn_eq_some h
  cases collectStep_eq_effect hstep with
  | drain hpc => exact m.queued
  | number d rest hpc => exact hdeaths
  | insert d rest hpc => exact hdeaths
  | quiet last _ hpending hnew hpc hnext hearly =>
    intro e he
    rw [hpending] at he
    exact hdeaths e he

/-- Nothing is reported, whatever has become of the candidates. -/
theorem Sited.refind (h : Sited stats c) (hknown : Known stats c'.found)
    (htoReport : ∀ candidate ∈ todo c', stats.lookup candidate.tb = some candidate.stat)
    (hnew : c'.newAllocs = c.newAllocs) : Sited stats c' where
  known := hknown
  toReport := htoReport
  allocs := by
    rw [hnew]
    exact h.allocs
  sizes := by
    rw [hnew]
    exact h.sizes

/-- The collect goes on with what it has found. -/
theorem Sited.proceed (h : Sited stats c) (hfound : c'.found = c.found)
    (htodo : todo c' ⊆ todo c) (hnew : c'.newAllocs = c.newAllocs) : Sited stats c' := by
  refine h.refind ?_ (fun candidate hmem => h.toReport candidate (htodo hmem)) hnew
  rw [hfound]
  exact h.known

/-- A pass finds more. -/
theorem Sited.scan (h : Sited stats c) (hknown : Known stats c'.found)
    (htodo : todo c' = c'.found.candidates) (hnew : c'.newAllocs = c.newAllocs) :
    Sited stats c' :=
  h.refind hknown (fun candidate hmem => hknown.stat candidate (htodo ▸ hmem)) hnew

/-- The event of an object has the growth of its traceback for its size. -/
theorem Sited.number {d : Draft} {rest : List Candidate} (h : Sited stats c)
    (hpc : c.pc = .number d rest) (env : Env) (eventId : ℤ) :
    Sited stats { c with
      newAllocs := c.newAllocs ++ [allocEvent env eventId c.rssKb d], pc := .insert d rest } := by
  have hstat := h.toReport d.candidate (by simp [todo, hpc])
  obtain ⟨sites, hsites, hsizes⟩ := h.sizes
  refine ⟨h.known, ?_, ?_, sites ++ [(d.candidate.tb, d.candidate.stat.sizeDiff)], ?_, ?_⟩
  · intro candidate hmem
    exact h.toReport candidate (by simpa [todo, hpc] using hmem)
  · intro e he
    rcases List.mem_append.mp he with hold | hone
    · exact h.allocs e hold
    · rw [List.mem_singleton.mp hone]
      exact decide_eq_true rfl
  · rw [List.map_append, List.map_append, hsites]
    rfl
  · intro site hsite
    rcases List.mem_append.mp hsite with hold | hone
    · exact hsizes site hold
    · rw [List.mem_singleton.mp hone]
      exact ⟨d.candidate.stat, hstat, rfl⟩

theorem Sited.goOn (h : Sited stats c) (hearly : CollectPc.early c.pc = false)
    (hstep : goOn c m = some c') : Sited stats c' ∧ CollectPc.early c'.pc = false := by
  obtain ⟨ly, hstep⟩ := goOn_eq_some hstep
  refine ⟨?_, late_going hearly (collectStep_eq_effect hstep)⟩
  cases foundEffect_of_step hstep with
  | snapshot current last pc hpc =>
    rw [hpc] at hearly
    cases hearly
  | snapLive hpc =>
    refine h.scan ?_ rfl rfl
    rw [h.known.same]
    exact known_start stats _
  | scanGc gen pc hpc hscan => exact h.scan (h.known.scanGc gen _) (todo_of_scanning hscan) rfl
  | scanBuffers pc hpc hscan => exact h.scan (h.known.scanBuffers _) (todo_of_scanning hscan) rfl
  | onward _ _ hlive honward =>
    exact h.proceed honward.found honward.todo.subset honward.newAllocs
  | number d rest hpc => exact h.number hpc m.env m.layer.nextId
  | insert d rest hpc => exact h.proceed rfl (by simp [todo, hpc]) rfl

end

/-- A collect that has found nothing yet. -/
theorem sited_nothing {stats : StatByTb} {c : Collect} (hstats : c.found.stats = stats)
    (hcandidates : c.found.candidates = []) (htodo : todo c = []) (hnew : c.newAllocs = []) :
    Sited stats c where
  known := ⟨hstats, fun candidate hmem => by simp [hcandidates] at hmem⟩
  toReport candidate hmem := by simp [htodo] at hmem
  allocs e he := by simp [hnew] at he
  sizes := ⟨[], by simp [hnew], fun site hsite => by cases hsite⟩

/-- The step of the snapshot. -/
theorem sited_snapshot {c c' : Collect} {m : Moment} (hpc : c.pc = .snapshot)
    (hnew : c.newAllocs = []) (h : goOn c m = some c') :
    Sited m.grown c' ∧ CollectPc.early c'.pc = false := by
  obtain ⟨ly, hstep⟩ := goOn_eq_some h
  obtain ⟨pc, pending, found, rssKb, newAllocs⟩ := c
  cases hpc
  cases hnew
  simp only [collectStep] at hstep
  split at hstep
  · rename_i current last hcurrent hlast
    have hgrown : m.grown = statByTb (compareTo current last) := by
      rw [Moment.grown, hcurrent, hlast]
    cases hstep
    by_cases hnone : (statByTb (compareTo current last)).keys = []
    · simp only [if_pos hnone]
      exact ⟨sited_nothing hgrown.symm rfl rfl rfl, rfl⟩
    · simp only [if_neg hnone]
      exact ⟨sited_nothing hgrown.symm rfl rfl rfl, rfl⟩
  · cases hstep

/-- The first two steps come before the snapshot. -/
theorem sited_run {moments : List Moment} {c : Collect} (hrun : run goOn {} moments = some c) :
    Sited (grownIn moments) c := by
  cases moments with
  | nil =>
    cases hrun
    exact sited_nothing rfl rfl rfl rfl
  | cons m₀ moments =>
    obtain ⟨c₁, hfirst, hrun⟩ := run_cons_eq_some.mp hrun
    cases hfirst
    cases moments with
    | nil =>
      cases hrun
      exact sited_nothing rfl rfl rfl rfl
    | cons m₁ moments =>
      obtain ⟨c₂, hsecond, hrun⟩ := run_cons_eq_some.mp hrun
      cases hsecond
      cases moments with
      | nil =>
        cases hrun
        cases m₁.layer.running <;> exact sited_nothing rfl rfl rfl rfl
      | cons m₂ moments =>
        obtain ⟨c₃, hthird, hrest⟩ := run_cons_eq_some.mp hrun
        cases hrunning : m₁.layer.running with
        | false =>
          rw [hrunning] at hthird
          cases hthird
        | true =>
          rw [hrunning] at hthird
          have hstart := sited_snapshot (m := m₂) rfl rfl hthird
          have hkeep : ∀ c m c', (Sited m₂.grown c ∧ CollectPc.early c.pc = false) →
              goOn c m = some c' → Sited m₂.grown c' ∧ CollectPc.early c'.pc = false :=
            fun c m c' h hstep => h.1.goOn h.2 hstep
          exact (run_keeps hkeep hstart hrest).1

theorem grownIn_pos (moments : List Moment) {tb : Traceback} {stat : StatDiff}
    (h : (grownIn moments).lookup tb = some stat) : 0 < stat.sizeDiff := by
  have hdiff : ∀ m : Moment, m.grown.lookup tb = some stat → 0 < stat.sizeDiff := by
    intro m hm
    unfold Moment.grown at hm
    split at hm
    · rw [lookup_statByTb] at hm
      have hgrown := (List.mem_filter.mp (List.mem_of_getLast? hm)).2
      rw [decide_eq_true_eq] at hgrown
      exact hgrown.2
    · cases hm
  unfold grownIn at h
  cases hthird : moments[2]? with
  | none =>
    rw [hthird] at h
    cases h
  | some m =>
    rw [hthird] at h
    exact hdiff m h

/-- A collect that returns has no event under way. -/
theorem begun_returned {c : Collect} {m : Moment} {batch : List CpuEvent}
    (h : resultOf c m = some batch) : begun c = c.newAllocs.map CpuEvent.callstack := by
  unfold resultOf at h
  rcases hstep : collectStep m.env m.layer c with ⟨ly, out⟩
  rw [hstep] at h
  cases out with
  | returned result =>
    cases collectStep_eq_effect hstep with
    | idleExtend hpc | extend hpc => simp [begun, hpc]
  | _ => cases h

/-- The sizes of the events that a collect returns keep within the growth of the tracebacks
exactly if no two of its candidates that can be described have a traceback in common. -/
theorem within_growth_iff (moments : List Moment) (c : Collect) (m : Moment)
    (batch : List CpuEvent) (hrun : run goOn {} moments = some c)
    (hreturn : resultOf c m = some batch) :
    WithinGrowth (grownIn moments) batch ↔
      ((describable {} moments).map Candidate.tb).Nodup := by
  have hbegun : WellBegun c := by
    refine run_keeps (fun s m s' h hstep => ?_) wellBegun_init hrun
    obtain ⟨ly, hstep⟩ := goOn_eq_some hstep
    exact h.step (collectStep_eq_effect hstep)
  have hdeaths : ReportsDeaths c := run_keeps (fun s m s' => deaths_goOn) (fun e he => by cases he)
    hrun
  have hbatch : batch = c.newAllocs ++ c.pending := by
    unfold resultOf at hreturn
    rcases hstep : collectStep m.env m.layer c with ⟨ly, out⟩
    rw [hstep] at hreturn
    cases out with
    | returned result =>
      cases hreturn
      cases collectStep_eq_effect hstep with
      | idleExtend hpc => rw [hbegun.newAllocs (by rw [hpc]; rfl), List.nil_append]
      | extend hpc => rfl
    | _ => cases hreturn
  have hstacks : c.newAllocs.map CpuEvent.callstack =
      ((describable {} moments).map Candidate.tb).map tbToCallstack := by
    rw [← begun_returned hreturn, begun_run hrun, List.map_map]
    rfl
  rw [hbatch, (sited_run hrun).within_iff (fun tb stat => grownIn_pos moments) hdeaths, hstacks,
    List.nodup_map_iff tbToCallstack_injective]

/-- A collect that no other thread disturbs: each step finds the layer as the last one has
left it. -/
def undisturbed (ly : Layer) (hqueued : QueuesDeaths ly) (c : Collect) : List Env → List Moment
  | [] => []
  | env :: rest =>
    ⟨ly, env, hqueued⟩ ::
      ((goOn c ⟨ly, env, hqueued⟩).map fun c' =>
        undisturbed (collectStep env ly c).1 (collectStep_queue env hqueued c) c' rest).getD []

def running : Layer := { running := true, lastSnapshot := some ∅ }

theorem running_queue : QueuesDeaths running := by
  intro e he
  cases he

/-- A payload of 64 bytes was made at each of two lines. -/
def twoLines : Env where
  now := 100
  snapshot := some (AList.insert [("main.py", 3)] ⟨64, 1⟩ (AList.insert [("main.py", 4)] ⟨64, 1⟩ ∅))
  sightings := [⟨⟨0, 4096, true⟩, some false, some false, some (some [("main.py", 3)])⟩,
    ⟨⟨1, 8192, true⟩, some false, some false, some (some [("main.py", 4)])⟩]
  description := some { objType := "Payload", moduleName := "__main__", refCount := 1 }

/-- Two payloads of 64 bytes each were made at one line. -/
def oneLine : Env :=
  { twoLines with
    snapshot := some (AList.insert [("main.py", 3)] ⟨128, 2⟩ ∅)
    sightings := [⟨⟨0, 4096, true⟩, some false, some false, some (some [("main.py", 3)])⟩,
      ⟨⟨1, 8192, true⟩, some false, some false, some (some [("main.py", 3)])⟩] }

def payloads (env : Env) : List Moment :=
  undisturbed running running_queue {} (List.replicate 21 env)

/-- The collect before its last step, this step and what it returns. -/
def endOf (moments : List Moment) : Option (Collect × Moment × List CpuEvent) := do
  let m ← moments.getLast?
  let c ← run goOn {} moments.dropLast
  let batch ← resultOf c m
  return (c, m, batch)

theorem endOf_eq_some {moments : List Moment} {c : Collect} {m : Moment} {batch : List CpuEvent}
    (h : endOf moments = some (c, m, batch)) :
    run goOn {} moments.dropLast = some c ∧ resultOf c m = some batch := by
  obtain ⟨m', -, h⟩ := Option.bind_eq_some_iff.mp h
  obtain ⟨c', hrun, h⟩ := Option.bind_eq_some_iff.mp h
  obtain ⟨batch', hreturn, h⟩ := Option.bind_eq_some_iff.mp h
  cases h
  exact ⟨hrun, hreturn⟩

theorem twoLines_isSome : (endOf (payloads twoLines)).isSome = true := by decide +kernel

def twoLinesBatch : List CpuEvent := ((endOf (payloads twoLines)).get twoLines_isSome).2.2

/-- The two are reported under ids of their own, with 64 bytes each. -/
theorem within_growth_iff_twoLines :
    twoLinesBatch.map (fun e => (e.base.eventId, e.allocSizeBytes)) = [(1, 64), (2, 64)] ∧
      WithinGrowth (grownIn (payloads twoLines).dropLast) twoLinesBatch := by
  obtain ⟨hrun, hreturn⟩ := endOf_eq_some (Option.some_get twoLines_isSome).symm
  refine ⟨by decide +kernel, ?_⟩
  exact (within_growth_iff _ _ _ _ hrun hreturn).mpr (by decide +kernel)

theorem oneLine_isSome : (endOf (payloads oneLine)).isSome = true := by decide +kernel

/-- Each of the two is reported with the 128 bytes of both. -/
theorem shared_site_counted_twice : ¬∀ moments c m batch, run goOn {} moments = some c →
    resultOf c m = some batch → WithinGrowth (grownIn moments) batch := by
  intro hwithin
  obtain ⟨hrun, hreturn⟩ := endOf_eq_some (Option.some_get oneLine_isSome).symm
  have hsite := (hwithin _ _ _ _ hrun hreturn).site [("main.py", 3)]
  revert hsite
  decide +kernel

end HpcProfiler.SiteSizes
