import HpcProfiler.LayerWorld

/-!
What holds of the layer in its interpreter whatever happens. A finalizer belongs to the
dying object in its cell. What a collect has taken up stays alive, and until the collect
itself enters it, its address is not tracked.
-/

namespace HpcProfiler.WorldInvariant

open Discovery Events MemoryLayer LayerSteps LayerWorld StepSystem

abbrev Live := AList (fun _ : ℤ => Info)

/-- A finalizer in progress works on the address of its cell; past the pop this is not
tracked. -/
def RunOk (live : Live) (clock addr : ℤ) : Dealloc → Prop
  | .pop a => a = addr
  | .stamp a info => a = addr ∧ addr ∉ live ∧ info.allocTs ≤ clock
  | .number a info deallocTs => a = addr ∧ addr ∉ live ∧ info.allocTs ≤ deallocTs
  | .append event => event.allocAddress = addr ∧ addr ∉ live

structure CellOk (live : Live) (clock addr : ℤ) (cell : Cell) : Prop where
  place : cell.obj.addr = addr
  dying : cell.running.isSome = true → cell.dying = true
  running : ∀ pc, cell.running = some pc → RunOk live clock addr pc

/-- The collect looks for objects. -/
def scanning : CollectPc → Bool
  | .passA _ => true
  | .passB => true
  | .passC _ => true
  | _ => false

/-- The candidates that are not yet entered. -/
def todo (c : Collect) : List Candidate :=
  match c.pc with
  | .passA _ => c.found.candidates
  | .passB => c.found.candidates
  | .passC _ => c.found.candidates
  | .build rest => rest
  | .snapTracked d rest => d.candidate :: rest
  | .findParent d _ rest => d.candidate :: rest
  | .stamp d rest => d.candidate :: rest
  | .number d rest => d.candidate :: rest
  | .insert d rest => d.candidate :: rest
  | .register _ rest => rest
  | _ => []

/-- The event under construction, once it has its time. -/
def stamped : CollectPc → Option Draft
  | .number d _ => some d
  | .insert d _ => some d
  | _ => none

theorem todo_of_scanning {c : Collect} (hscan : scanning c.pc = true) :
    todo c = c.found.candidates := by
  unfold todo
  cases hpc : c.pc <;> simp [hpc, scanning] at hscan ⊢

/-- The candidate whose event is under way. -/
def inWork : CollectPc → Option Candidate
  | .snapTracked d _ => some d.candidate
  | .findParent d _ _ => some d.candidate
  | .stamp d _ => some d.candidate
  | .number d _ => some d.candidate
  | .insert d _ => some d.candidate
  | .register d _ => some d.candidate
  | _ => none

/-- The collect goes on with what it has found, and with the events it has made. -/
structure Onward (env : Env) (c c' : Collect) : Prop where
  found : c'.found = c.found
  newAllocs : c'.newAllocs = c.newAllocs
  todo : (todo c').Sublist (todo c)
  scan : scanning c'.pc = true → scanning c.pc = true
  stamped : ∀ d, stamped c'.pc = some d → d.allocTs = env.now
  inWork : ∀ candidate, inWork c'.pc = some candidate → inWork c.pc = some candidate ∨
    ∃ rest, c.pc = .build (candidate :: rest) ∧ env.description.isSome = true
  registers : ∀ d rest, c'.pc ≠ .register d rest
  passA : ∀ gen, c'.pc ≠ .passA gen

theorem le_two_of_afterPassA {gen next : ℕ} {found : Found}
    (h : afterPassA gen found = .passA next) : next ≤ 2 := by
  unfold afterPassA at h
  split at h
  · rename_i hmore
    cases h
    exact hmore.1
  · cases h

/-- What a step of a collect makes of what the collect has found. -/
inductive FoundEffect (env : Env) (ly : Layer) (c : Collect) : Layer → Collect → Prop
  | snapshot (current last : Snapshot) (pc : CollectPc) (hpc : c.pc = .snapshot)
    (hcurrent : env.snapshot = some current) (hlast : ly.lastSnapshot = some last)
    (hnext : pc = .extend ∨ pc = .snapLive) :
    FoundEffect env ly c { ly with lastSnapshot := some current }
      { c with found := { stats := statByTb (compareTo current last) }, rssKb := env.rssKb, pc }
  | snapLive (hpc : c.pc = .snapLive) :
    FoundEffect env ly c ly
      { c with found := .start c.found.stats ly.live.keys.toFinset, pc := .passA 0 }
  | scanGc (gen : ℕ) (pc : CollectPc) (hpc : c.pc = .passA gen) (hscan : scanning pc = true)
    (hgen : ∀ next, pc = .passA next → next ≤ 2) :
    FoundEffect env ly c ly
      { c with found := scanGc gen c.found env.sightings.reverse, pc }
  | scanBuffers (pc : CollectPc)
    (hpc : c.pc = .passB ∧ env.moreFrames = true ∨ ∃ obj rest, c.pc = .passC (obj :: rest))
    (hscan : scanning pc = true) (hgen : ∀ next, pc ≠ .passA next) :
    FoundEffect env ly c ly { c with found := scanBuffers c.found env.sightings, pc }
  | onward (ly' : Layer) (c' : Collect) (hlive : ly'.live = ly.live) (honward : Onward env c c') :
    FoundEffect env ly c ly' c'
  | number (d : Draft) (rest : List Candidate) (hpc : c.pc = .number d rest) :
    FoundEffect env ly c
      { ly with
        nextId := ly.nextId + 1
        made := ly.made ++ [allocEvent env ly.nextId c.rssKb d] }
      { c with
        newAllocs := c.newAllocs ++ [allocEvent env ly.nextId c.rssKb d]
        pc := .insert d rest }
  | insert (d : Draft) (rest : List Candidate) (hpc : c.pc = .insert d rest) :
    FoundEffect env ly c
      { ly with
        live := ly.live.insert d.addr d.info
        trackedAddrs := Insert.insert d.addr ly.trackedAddrs }
      { c with pc := .register d rest }

/-- The collect neither scans nor has an event under way. -/
theorem onward_idle {env : Env} {c c' : Collect} (hfound : c'.found = c.found)
    (hnew : c'.newAllocs = c.newAllocs) (htodo : (todo c').Sublist (todo c))
    (hscan : scanning c'.pc = false) (hidle : inWork c'.pc = none) : Onward env c c' where
  found := hfound
  newAllocs := hnew
  todo := htodo
  scan hscan' := by
    rw [hscan] at hscan'
    cases hscan'
  stamped d hd := by
    cases hpc : c'.pc <;> simp [hpc, stamped, inWork] at hd hidle
  inWork candidate hwork := by
    rw [hidle] at hwork
    cases hwork
  registers d rest hpc := by
    rw [hpc] at hidle
    cases hidle
  passA gen hpc := by
    rw [hpc] at hscan
    cases hscan

theorem foundEffect_of_step {env : Env} {ly ly' : Layer} {c c' : Collect}
    (hstep : collectStep env ly c = (ly', .going c')) : FoundEffect env ly c ly' c' := by
  obtain ⟨pc, pending, found, rssKb, newAllocs⟩ := c
  cases pc with
  | drain =>
    cases hstep
    exact .onward _ _ rfl (onward_idle rfl rfl (by simp [todo]) rfl rfl)
  | checkRunning =>
    cases hstep
    cases ly.running with
    | true => exact .onward _ _ rfl (onward_idle rfl rfl (by simp [todo]) rfl rfl)
    | false => exact .onward _ _ rfl (onward_idle rfl rfl (by simp [todo]) rfl rfl)
  | idleExtend => cases hstep
  | snapshot =>
    simp only [collectStep] at hstep
    split at hstep
    · rename_i current last hcurrent hlast
      cases hstep
      refine .snapshot current last _ rfl hcurrent hlast ?_
      split
      · exact .inl rfl
      · exact .inr rfl
    · cases hstep
  | snapLive =>
    cases hstep
    exact .snapLive rfl
  | passA gen =>
    cases hstep
    refine .scanGc gen _ rfl ?_ (fun next => le_two_of_afterPassA)
    rcases afterPassA_cases gen (scanGc gen found env.sightings.reverse) with ⟨gen', hnext⟩ | hnext
    all_goals rw [hnext]; rfl
  | passB =>
    simp only [collectStep] at hstep
    split at hstep
    · rename_i hmore
      cases hstep
      exact .scanBuffers _ (.inl ⟨rfl, hmore⟩) rfl (by simp)
    · cases hstep
      exact .onward _ _ rfl ⟨rfl, rfl, by simp [todo], by simp [scanning], by simp [stamped],
        by simp [inWork], by simp, by simp⟩
  | passC rest =>
    cases rest with
    | nil =>
      cases hstep
      exact .onward _ _ rfl (onward_idle rfl rfl (by simp [todo]) rfl rfl)
    | cons obj rest =>
      cases hstep
      exact .scanBuffers _ (.inr ⟨obj, rest, rfl⟩) rfl (by simp)
  | build rest =>
    cases rest with
    | nil =>
      cases hstep
      exact .onward _ _ rfl (onward_idle rfl rfl (by simp [todo]) rfl rfl)
    | cons candidate rest =>
      simp only [collectStep] at hstep
      split at hstep
      · cases hstep
        exact .onward _ _ rfl (onward_idle rfl rfl (by simp [todo]) rfl rfl)
      · split at hstep
        · cases hstep
          exact .onward _ _ rfl (onward_idle rfl rfl (by simp [todo]) rfl rfl)
        · rename_i description hdescribed
          cases hstep
          refine .onward _ _ rfl ⟨rfl, rfl, ?_, ?_, ?_, ?_, ?_, ?_⟩
          all_goals cases ly.trackRefs <;> simp [todo, scanning, stamped, inWork, hdescribed]
  | register d rest =>
    cases hstep
    exact .onward _ _ rfl (onward_idle rfl rfl (by simp [todo]) rfl rfl)
  | snapTracked d rest | findParent d tracked rest | stamp d rest =>
    cases hstep
    exact .onward _ _ rfl ⟨rfl, rfl, by simp [todo], by simp [scanning], by simp [stamped],
      by simp [inWork], by simp, by simp⟩
  | number d rest =>
    cases hstep
    exact .number d rest rfl
  | insert d rest =>
    cases hstep
    exact .insert d rest rfl
  | extend => cases hstep

structure CollectOk (heap : ℤ → Option Cell) (live : Live) (clock : ℤ) (c : Collect) : Prop where
  held : ∀ candidate ∈ c.found.candidates, alive heap candidate.obj = true
  nodup : (c.found.candidates.map fun candidate => candidate.obj.addr).Nodup
  seen : ∀ candidate ∈ c.found.candidates, candidate.obj.addr ∈ c.found.seenAddrs
  scan : scanning c.pc = true → ∀ a ∈ live, a ∈ c.found.seenAddrs
  sublist : (todo c).Sublist c.found.candidates
  fresh : ∀ candidate ∈ todo c, candidate.obj.addr ∉ live
  timed : ∀ d, stamped c.pc = some d → d.allocTs ≤ clock
  registers : ∀ d rest, c.pc = .register d rest → d.candidate ∈ c.found.candidates

structure Tidy (w : World) : Prop where
  calling : ∀ pc, w.main ≠ some (.onDealloc pc)
  cells : ∀ a cell, w.heap a = some cell → CellOk w.layer.live w.clock a cell
  entered : ∀ a info, w.layer.live.lookup a = some info → info.allocTs ≤ w.clock
  collecting : ∀ c, w.collecting = some c → CollectOk w.heap w.layer.live w.clock c

theorem alive_iff {heap : ℤ → Option Cell} {obj : PyObject} :
    alive heap obj = true ↔
      ∃ cell, heap obj.addr = some cell ∧ cell.obj = obj ∧ cell.dying = false := by
  unfold alive
  cases heap obj.addr with
  | none => simp
  | some cell => simp

/-- A change at another address leaves the object alive. -/
theorem alive_update {heap : ℤ → Option Cell} {obj : PyObject} {addr : ℤ} {cell : Option Cell}
    (h : alive heap obj = true) (hne : obj.addr ≠ addr) :
    alive (Function.update heap addr cell) obj = true := by
  unfold alive
  rw [Function.update_of_ne hne]
  exact h

section

variable {heap heap' : ℤ → Option Cell} {live live' : Live} {clock clock' : ℤ} {c c' : Collect}

theorem RunOk.mono {addr : ℤ} {pc : Dealloc} (h : RunOk live clock addr pc)
    (hlive : addr ∈ live' → addr ∈ live) (hclock : clock ≤ clock') :
    RunOk live' clock' addr pc := by
  cases pc with
  | pop a => exact h
  | stamp a info =>
    obtain ⟨ha, hnot, hts⟩ := h
    exact ⟨ha, fun hmem => hnot (hlive hmem), hts.trans hclock⟩
  | number a info ts =>
    obtain ⟨ha, hnot, hts⟩ := h
    exact ⟨ha, fun hmem => hnot (hlive hmem), hts⟩
  | append event => exact ⟨h.1, fun hmem => h.2 (hlive hmem)⟩

theorem CellOk.mono {addr : ℤ} {cell : Cell} (h : CellOk live clock addr cell)
    (hlive : cell.dying = true → addr ∈ live' → addr ∈ live) (hclock : clock ≤ clock') :
    CellOk live' clock' addr cell := by
  refine ⟨h.place, h.dying, fun pc hpc => ?_⟩
  have hdying := h.dying (by rw [hpc]; rfl)
  exact (h.running pc hpc).mono (hlive hdying) hclock

/-- What other threads do leaves a collect in order, if they leave its candidates alone
and enter nothing. -/
theorem CollectOk.mono (h : CollectOk heap live clock c)
    (halive : ∀ obj, alive heap obj = true → obj ∈ c.found.candidates.map Candidate.obj →
      alive heap' obj = true)
    (hlive : ∀ a ∈ live', a ∈ live) (hclock : clock ≤ clock') :
    CollectOk heap' live' clock' c where
  held candidate hmem :=
    halive _ (h.held candidate hmem) (List.mem_map_of_mem hmem)
  nodup := h.nodup
  seen := h.seen
  scan hscan a ha := h.scan hscan a (hlive a ha)
  sublist := h.sublist
  fresh candidate hmem hin := h.fresh candidate hmem (hlive _ hin)
  timed d hd := (h.timed d hd).trans hclock
  registers := h.registers

/-- The collect goes on with what it has found. -/
theorem CollectOk.advance (h : CollectOk heap live clock c)
    (hfound : c'.found = c.found)
    (hscan : scanning c'.pc = true → scanning c.pc = true)
    (htodo : (todo c').Sublist (todo c))
    (hstamped : ∀ d, stamped c'.pc = some d → d.allocTs ≤ clock')
    (hregisters : ∀ d rest, c'.pc ≠ .register d rest) : CollectOk heap live clock' c' where
  held := by
    rw [hfound]
    exact h.held
  nodup := by
    rw [hfound]
    exact h.nodup
  seen := by
    rw [hfound]
    exact h.seen
  scan hscan' := by
    rw [hfound]
    exact h.scan (hscan hscan')
  sublist := by
    rw [hfound]
    exact htodo.trans h.sublist
  fresh candidate hmem := h.fresh candidate (htodo.subset hmem)
  timed := hstamped
  registers d rest hpc := absurd hpc (hregisters d rest)

/-- A pass adds candidates that it has just seen. -/
theorem CollectOk.grow (h : CollectOk heap live clock c)
    (hgrows : Grows (fun obj => alive heap obj = true) c.found c'.found)
    (hscan : scanning c.pc = true) (hscan' : scanning c'.pc = true) :
    CollectOk heap live clock' c' := by
  obtain ⟨new, hnew, hnodup, hmem⟩ := hgrows.candidates
  have htodo : todo c' = c.found.candidates ++ new := by
    rw [← hnew]
    exact todo_of_scanning hscan'
  have htodo' : todo c = c.found.candidates := todo_of_scanning hscan
  refine ⟨?_, ?_, ?_, ?_, ?_, ?_, ?_, ?_⟩
  · intro candidate hcandidate
    rw [hnew] at hcandidate
    rcases List.mem_append.mp hcandidate with hold | hnew'
    · exact h.held candidate hold
    · exact (hmem candidate hnew').1
  · rw [hnew, List.map_append]
    refine h.nodup.append hnodup ?_
    intro a ha ha'
    obtain ⟨candidate, hold, rfl⟩ := List.mem_map.mp ha
    obtain ⟨candidate', hnew', heq⟩ := List.mem_map.mp ha'
    have hseen := h.seen candidate hold
    rw [← heq] at hseen
    exact (hmem candidate' hnew').2.1 hseen
  · intro candidate hcandidate
    rw [hnew] at hcandidate
    rcases List.mem_append.mp hcandidate with hold | hnew'
    · exact hgrows.seen (h.seen candidate hold)
    · exact (hmem candidate hnew').2.2
  · intro _ a ha
    exact hgrows.seen (h.scan hscan a ha)
  · rw [htodo, hnew]
  · intro candidate hcandidate
    rw [htodo] at hcandidate
    rcases List.mem_append.mp hcandidate with hold | hnew'
    · exact h.fresh candidate (by rwa [htodo'])
    · exact fun hin => (hmem candidate hnew').2.1 (h.scan hscan _ hin)
  · intro d hd
    cases hpc : c'.pc <;> simp [hpc, scanning, stamped] at hscan' hd
  · intro d rest hpc
    rw [hpc] at hscan'
    cases hscan'

/-- A collect that has found nothing yet. -/
theorem collectOk_empty (hcandidates : c.found.candidates = []) (htodo : todo c = [])
    (hscan : scanning c.pc = true → ∀ a ∈ live, a ∈ c.found.seenAddrs)
    (hstamped : stamped c.pc = none) (hregisters : ∀ d rest, c.pc ≠ .register d rest) :
    CollectOk heap live clock c where
  held candidate hmem := by simp [hcandidates] at hmem
  nodup := by simp [hcandidates]
  seen candidate hmem := by simp [hcandidates] at hmem
  scan := hscan
  sublist := by simp [htodo]
  fresh candidate hmem := by simp [htodo] at hmem
  timed d hd := by simp [hstamped] at hd
  registers d rest hpc := absurd hpc (hregisters d rest)

end

/-- A collect stays in order as it goes on. -/
theorem CollectOk.step {heap : ℤ → Option Cell} {env : Env} {ly ly' : Layer} {clock : ℤ}
    {c c' : Collect} (h : CollectOk heap ly.live clock c)
    (hsightings : ∀ s ∈ env.sightings, alive heap s.obj = true) (hclock : clock ≤ env.now)
    (hstep : collectStep env ly c = (ly', .going c')) :
    CollectOk heap ly'.live env.now c' := by
  cases foundEffect_of_step hstep with
  | snapshot current last pc hpc hcurrent hlast hnext =>
    rcases hnext with rfl | rfl
    · exact collectOk_empty rfl rfl (by simp [scanning]) rfl (by simp)
    · exact collectOk_empty rfl rfl (by simp [scanning]) rfl (by simp)
  | snapLive hpc =>
    refine collectOk_empty rfl rfl (fun _ a ha => ?_) rfl (by simp)
    exact List.mem_toFinset.mpr (AList.mem_keys.mp ha)
  | scanGc gen pc hpc hscan =>
    refine h.grow (grows_scanGc gen (fun s hs => ?_) c.found) (by rw [hpc]; rfl) hscan
    exact hsightings s (List.mem_reverse.mp hs)
  | scanBuffers pc hpc hscan =>
    refine h.grow (grows_scanBuffers hsightings c.found) ?_ hscan
    rcases hpc with ⟨hpc, -⟩ | ⟨obj, rest, hpc⟩
    · rw [hpc]
      rfl
    · rw [hpc]
      rfl
  | onward _ _ hlive honward =>
    rw [hlive]
    refine h.advance honward.found honward.scan honward.todo (fun d hd => ?_) honward.registers
    exact (honward.stamped d hd).le
  | number d rest hpc =>
    have hd := (h.timed d (by rw [hpc]; rfl)).trans hclock
    exact h.advance rfl (by simp [scanning]) (by simp [todo, hpc]) (by simpa [stamped] using hd)
      (by simp)
  | insert d rest hpc =>
    have htodo : todo c = d.candidate :: rest := by rw [todo, hpc]
    have hsublist := h.sublist
    rw [htodo] at hsublist
    have hnodup := (hsublist.map fun candidate => candidate.obj.addr).nodup h.nodup
    rw [List.map_cons, List.nodup_cons] at hnodup
    refine ⟨h.held, h.nodup, h.seen, by simp [scanning], ?_, ?_, by simp [stamped], ?_⟩
    · exact (List.sublist_cons_self ..).trans hsublist
    · intro candidate hmem hin
      rcases (AList.mem_insert _).mp hin with heq | hold
      · apply hnodup.1
        exact List.mem_map.mpr ⟨candidate, hmem, heq⟩
      · refine h.fresh candidate ?_ hold
        rw [htodo]
        exact List.mem_cons_of_mem _ hmem
    · intro d' rest' hpc'
      cases hpc'
      exact hsublist.subset (List.mem_cons_self ..)

/-- Where a collect is after its step. -/
def goingOn : Outcome Collect → Option Collect
  | .going c => some c
  | _ => none

/-- What a step of the calling thread leads to: its collect has made a step, or it was
in none and changes neither the live objects nor the events made. -/
inductive MainEffect (w : World) (env : Env) (w' : World) : Prop
  | collect (c : Collect) (out : Outcome Collect) (hc : w.collecting = some c)
    (hstep : collectStep env w.layer c = (w'.layer, out)) (hc' : w'.collecting = goingOn out)
  | other (hc : w.collecting = none) (hlive : w'.layer.live = w.layer.live)
    (htracked : w'.layer.trackedAddrs = w.layer.trackedAddrs)
    (hmade : w'.layer.made = w.layer.made) (hc' : ∀ c, w'.collecting = some c → c = {})

/-- What every step of the calling thread does. -/
structure MainStep (w : World) (env : Env) (w' : World) : Prop where
  clock : w.clock ≤ env.now
  sightings : ∀ s ∈ env.sightings, alive w.heap s.obj = true
  clock' : w'.clock = env.now
  heap' : w'.heap = registering w.heap (w.collecting.map Collect.pc)
  reported' : w'.reported = reporting w.reported (w.collecting.map Collect.pc)
  calling' : ∀ pc, w'.main ≠ some (.onDealloc pc)
  nextSerial' : w'.nextSerial = w.nextSerial
  effect : MainEffect w env w'

/-- A step that leaves alone what the layer tracks and the events made. -/
def Untouched (ly ly' : Layer) : Prop :=
  ly'.live = ly.live ∧ ly'.trackedAddrs = ly.trackedAddrs ∧ ly'.made = ly.made

theorem startStep_untouched (env : Env) (ly : Layer) (pc : Start) :
    Untouched ly (startStep env ly pc).1 := by
  cases pc with
  | startTracing =>
    unfold startStep
    cases env.snapshot <;> exact ⟨rfl, rfl, rfl⟩
  | _ => exact ⟨rfl, rfl, rfl⟩

theorem flushStep_untouched (ly : Layer) (pc : Flush) : Untouched ly (flushStep ly pc).1 := by
  cases pc <;> exact ⟨rfl, rfl, rfl⟩

/-- A step of a call that is in no collect and does not begin one. -/
theorem MainEffect.of_untouched {w w' : World} {env : Env} (hc : w.collecting = none)
    (hsame : Untouched w.layer w'.layer) (hc' : w'.collecting = none) : MainEffect w env w' :=
  .other hc hsame.1 hsame.2.1 hsame.2.2 fun c hsome => by
    rw [hc'] at hsome
    cases hsome

theorem collecting_mainAfter_map {σ : Type} {f : σ → Call} (hf : ∀ x, collectOf (f x) = none)
    (out : Outcome σ) : (mainAfter (out.map f)).bind collectOf = none := by
  cases out with
  | going call => exact hf call
  | _ => rfl

theorem collecting_mainAfter_collect (out : Outcome Collect) :
    (mainAfter (out.map Call.collect)).bind collectOf = goingOn out := by
  cases out <;> rfl

theorem collecting_mainAfter_toStop (out : Outcome Collect) :
    (mainAfter ((toStop out).map Call.stop)).bind collectOf = goingOn out := by
  cases out <;> rfl

theorem mainAfter_map_ne {σ : Type} {f : σ → Call} {call : Call} (hf : ∀ x, f x ≠ call)
    (out : Outcome σ) : mainAfter (out.map f) ≠ some call := by
  cases out with
  | going x => exact fun h => hf x (Option.some.inj h)
  | returned result => exact fun h => by cases h
  | raised => exact fun h => by cases h

theorem mainEffect_of_mainCall {w w' : World} {env : Env} {call : Call}
    (h : MainCall w env w' call) (hcalling : ∀ pc, call ≠ .onDealloc pc) :
    MainEffect w env w' := by
  have hcollecting : w.collecting = collectOf call := by rw [World.collecting, h.main]; rfl
  have hcollecting' : w'.collecting = (mainAfter (callStep env w.layer call).2).bind collectOf := by
    rw [World.collecting, h.main']
  have hlayer := h.layer'
  cases call with
  | start pc =>
    refine .of_untouched hcollecting ?_ (hcollecting'.trans
      (collecting_mainAfter_map (fun _ => rfl) _))
    rw [hlayer]
    exact startStep_untouched env w.layer pc
  | collect c =>
    refine .collect c (collectStep env w.layer c).2 hcollecting ?_ ?_
    · rw [hlayer]
      rfl
    · exact hcollecting'.trans (collecting_mainAfter_collect _)
  | flush pc =>
    refine .of_untouched hcollecting ?_ (hcollecting'.trans
      (collecting_mainAfter_map (fun _ => rfl) _))
    rw [hlayer]
    exact flushStep_untouched w.layer pc
  | stop pc =>
    cases pc with
    | checkRunning =>
      refine .other hcollecting (by rw [hlayer]; rfl) (by rw [hlayer]; rfl) (by rw [hlayer]; rfl)
        fun c hc => ?_
      rw [hcollecting'] at hc
      cases hrunning : w.layer.running with
      | true =>
        simp only [callStep, stopStep, hrunning, Prod.map_snd, Outcome.map, mainAfter, if_true,
          Option.bind_some, collectOf, Option.some.injEq] at hc
        exact hc.symm
      | false =>
        simp [callStep, stopStep, hrunning, Outcome.map, mainAfter] at hc
    | collecting c =>
      refine .collect c (collectStep env w.layer c).2 hcollecting ?_ ?_
      · rw [hlayer]
        rfl
      · exact hcollecting'.trans (collecting_mainAfter_toStop _)
    | clearRunning remaining =>
      refine .of_untouched hcollecting ?_ hcollecting'
      rw [hlayer]
      exact ⟨rfl, rfl, rfl⟩
  | onDealloc pc => exact absurd rfl (hcalling pc)

theorem mainStep_of_main {w w' : World} {env : Env} (h : main w env = some w')
    (hcalling : ∀ pc, w.main ≠ some (.onDealloc pc)) : MainStep w env w' := by
  obtain ⟨call, hcall⟩ := mainCall_of_main h
  have hne : ∀ pc, call ≠ .onDealloc pc := fun pc heq => hcalling pc (by rw [hcall.main, heq])
  have hcollecting : w.collecting = collectOf call := by rw [World.collecting, hcall.main]; rfl
  refine ⟨hcall.clock, hcall.sightings, hcall.clock', ?_, ?_, ?_, hcall.nextSerial',
    mainEffect_of_mainCall hcall hne⟩
  · rw [hcollecting]
    exact hcall.heap'
  · rw [hcollecting]
    exact hcall.reported'
  · intro pc
    rw [hcall.main']
    cases call with
    | onDealloc pc => exact absurd rfl (hne pc)
    | _ => exact mainAfter_map_ne (fun _ h => by cases h) _

/-- The finalizers that registering leaves in a cell. -/
def finalizersAfter (addr : ℤ) (cell : Cell) : Option CollectPc → ℕ
  | some (.register d _) =>
    if d.addr = addr ∧ d.candidate.obj.weakrefable = true then cell.finalizers + 1
    else cell.finalizers
  | _ => cell.finalizers

/-- Registering changes only the number of finalizers. -/
theorem registering_apply (heap : ℤ → Option Cell) (pc : Option CollectPc) (addr : ℤ) :
    registering heap pc addr = (heap addr).map fun cell =>
      { cell with finalizers := finalizersAfter addr cell pc } := by
  have hsame : (heap addr).map (fun cell => { cell with finalizers := cell.finalizers }) =
      heap addr := Option.map_id_apply
  cases pc with
  | none => exact hsame.symm
  | some pc =>
    cases pc with
    | register d rest =>
      simp only [registering, finalizersAfter]
      by_cases heq : addr = d.addr
      · subst heq
        rw [Function.update_self]
        congr 1
        funext cell
        by_cases hweak : d.candidate.obj.weakrefable = true
        · rw [if_pos hweak, if_pos ⟨rfl, hweak⟩]
        · rw [if_neg hweak, if_neg fun h => hweak h.2]
      · have hnot : ∀ p, ¬(d.addr = addr ∧ p) := fun p h => heq h.1.symm
        simp only [Function.update_of_ne heq, if_neg (hnot _)]
        exact hsame.symm
    | _ => exact hsame.symm

/-- A cell after the registering was there before. -/
theorem registering_eq_some {heap : ℤ → Option Cell} {addr : ℤ} {cell : Cell}
    {pc : Option CollectPc} (h : registering heap pc addr = some cell) :
    ∃ old, heap addr = some old ∧
      cell = { old with finalizers := finalizersAfter addr old pc } := by
  rw [registering_apply] at h
  obtain ⟨old, hold, heq⟩ := Option.map_eq_some_iff.mp h
  exact ⟨old, hold, heq.symm⟩

theorem runningAt_registering {w w' : World} {pc : Option CollectPc}
    (hheap : w'.heap = registering w.heap pc) (addr : ℤ) :
    runningAt w' addr = runningAt w addr := by
  unfold runningAt
  rw [hheap, registering_apply]
  cases w.heap addr <;> rfl

/-- Registering a finalizer leaves alive what is alive. -/
theorem alive_registering {heap : ℤ → Option Cell} {obj : PyObject} {pc : Option CollectPc}
    (h : alive heap obj = true) : alive (registering heap pc) obj = true := by
  obtain ⟨cell, hcell, hobj, hdying⟩ := alive_iff.mp h
  rw [alive_iff, registering_apply, hcell]
  exact ⟨_, rfl, hobj, hdying⟩

theorem tidy_init (trackRefs : Bool) (nextId clock : ℤ) :
    Tidy (.init trackRefs nextId clock) where
  calling pc h := by cases h
  cells a cell h := by cases h
  entered a info h := by cases h
  collecting c h := by cases h

/-- No candidate of a collect in progress lies at the address. -/
def Untaken (w : World) (addr : ℤ) : Prop :=
  ∀ c, w.collecting = some c → ∀ candidate ∈ c.found.candidates, candidate.obj.addr ≠ addr

/-- The candidates of a collect are in cells that are not dying. -/
theorem Tidy.candidate {w : World} (h : Tidy w) {c : Collect} {candidate : Candidate}
    (hc : w.collecting = some c) (hmem : candidate ∈ c.found.candidates) :
    ∃ cell, w.heap candidate.obj.addr = some cell ∧ cell.obj = candidate.obj ∧
      cell.dying = false :=
  alive_iff.mp ((h.collecting c hc).held candidate hmem)

/-- In a cell that is not dying no finalizer runs. -/
theorem Tidy.runningAt_alive {w : World} (h : Tidy w) {addr : ℤ} {cell : Cell}
    (hcell : w.heap addr = some cell) (hdying : cell.dying = false) : runningAt w addr = none := by
  rw [runningAt_of_cell hcell]
  cases hrunning : cell.running with
  | none => rfl
  | some pc =>
    have hdying' := (h.cells addr cell hcell).dying (by rw [hrunning]; rfl)
    rw [hdying] at hdying'
    cases hdying'

theorem Tidy.untaken_of_none {w : World} (h : Tidy w) {addr : ℤ} (hcell : w.heap addr = none) :
    Untaken w addr := by
  intro c hc candidate hmem heq
  obtain ⟨cell, hcell', -, -⟩ := h.candidate hc hmem
  rw [heq, hcell] at hcell'
  cases hcell'

theorem Tidy.untaken_of_dying {w : World} (h : Tidy w) {addr : ℤ} {cell : Cell}
    (hcell : w.heap addr = some cell) (hdying : cell.dying = true) : Untaken w addr := by
  intro c hc candidate hmem heq
  obtain ⟨cell', hcell', -, halive⟩ := h.candidate hc hmem
  rw [heq, hcell] at hcell'
  cases hcell'
  rw [hdying] at halive
  cases halive

theorem Tidy.untaken_of_not_held {w : World} (h : Tidy w) {addr : ℤ} {cell : Cell}
    (hcell : w.heap addr = some cell) (hheld : cell.obj ∉ w.held) : Untaken w addr := by
  intro c hc candidate hmem heq
  obtain ⟨cell', hcell', hobj, -⟩ := h.candidate hc hmem
  rw [heq, hcell] at hcell'
  cases hcell'
  apply hheld
  rw [World.held, hc, hobj]
  exact List.mem_append_left _ (List.mem_map_of_mem hmem)

/-- A step of other threads touches one cell and may take away from the live objects. -/
theorem Tidy.touch {w w' : World} {addr : ℤ} {cell' : Option Cell} (h : Tidy w)
    (hheap : w'.heap = Function.update w.heap addr cell') (hmain : w'.main = w.main)
    (hclock : w.clock ≤ w'.clock)
    (hlive : ∀ a info, w'.layer.live.lookup a = some info → w.layer.live.lookup a = some info)
    (hcell : ∀ cell, cell' = some cell → CellOk w'.layer.live w'.clock addr cell)
    (huntaken : Untaken w addr) : Tidy w' := by
  have hmem : ∀ a ∈ w'.layer.live, a ∈ w.layer.live := by
    intro a ha
    obtain ⟨info, hinfo⟩ := Option.isSome_iff_exists.mp (AList.lookup_isSome.mpr ha)
    exact AList.lookup_isSome.mp (by rw [hlive a info hinfo]; rfl)
  refine ⟨?_, ?_, ?_, ?_⟩
  · rw [hmain]
    exact h.calling
  · intro a cell ha
    rw [hheap] at ha
    by_cases heq : a = addr
    · subst heq
      rw [Function.update_self] at ha
      exact hcell cell ha
    · rw [Function.update_of_ne heq] at ha
      exact (h.cells a cell ha).mono (fun _ => hmem a) hclock
  · intro a info ha
    exact (h.entered a info (hlive a info ha)).trans hclock
  · intro c hc
    have hc' : w.collecting = some c := by rw [World.collecting, ← hmain]; exact hc
    refine (h.collecting c hc').mono ?_ hmem hclock
    intro obj halive hobj
    obtain ⟨candidate, hcandidate, rfl⟩ := List.mem_map.mp hobj
    rw [hheap]
    exact alive_update halive (huntaken c hc' candidate hcandidate)

/-- What a step of a finalizer leaves of it. -/
theorem RunOk.step {env : Env} {ly : Layer} {clock addr : ℤ} {pc pc' : Dealloc}
    (h : RunOk ly.live clock addr pc) (hentered : ∀ a info, ly.live.lookup a = some info →
      info.allocTs ≤ clock) (hclock : clock ≤ env.now)
    (hstep : (onDeallocStep env ly pc).2 = .going pc') :
    RunOk (onDeallocStep env ly pc).1.live env.now addr pc' := by
  cases pc with
  | pop a =>
    have ha : a = addr := h
    subst ha
    simp only [onDeallocStep] at hstep ⊢
    split at hstep
    · cases hstep
    · rename_i info hinfo
      cases hstep
      refine ⟨rfl, fun hmem => ?_, (hentered a info hinfo).trans hclock⟩
      exact (AList.mem_erase.mp hmem).1 rfl
  | stamp a info =>
    cases hstep
    exact ⟨h.1, h.2.1, h.2.2.trans hclock⟩
  | number a info ts =>
    cases hstep
    exact ⟨h.1, h.2.1⟩
  | append event => cases hstep

theorem onDeallocStep_lookup {env : Env} {ly : Layer} {pc : Dealloc} {a : ℤ} {info : Info}
    (h : (onDeallocStep env ly pc).1.live.lookup a = some info) : ly.live.lookup a = some info := by
  cases pc with
  | pop addr =>
    simp only [onDeallocStep] at h
    by_cases heq : a = addr
    · rw [heq, AList.lookup_erase] at h
      cases h
    · rwa [AList.lookup_erase_ne heq] at h
  | _ => exact h

theorem collectStep_live {env : Env} {ly ly' : Layer} {c : Collect} {out : Outcome Collect}
    (h : collectStep env ly c = (ly', out)) : ly'.live = ly.live ∨
      ∃ d rest, c.pc = .insert d rest ∧ ly'.live = ly.live.insert d.addr d.info := by
  cases collectStep_eq_effect h with
  | insert d rest hpc => exact .inr ⟨d, rest, hpc, rfl⟩
  | _ => exact .inl rfl

/-- What a step of the calling thread adds to the live objects: the object of the
candidate that its collect enters. -/
theorem MainEffect.live {w w' : World} {env : Env} (h : MainEffect w env w') :
    w'.layer.live = w.layer.live ∨ ∃ c d rest, w.collecting = some c ∧ c.pc = .insert d rest ∧
      w'.layer.live = w.layer.live.insert d.addr d.info := by
  cases h with
  | collect c out hc hstep hc' =>
    rcases collectStep_live hstep with hsame | ⟨d, rest, hpc, hins⟩
    · exact .inl hsame
    · exact .inr ⟨c, d, rest, hc, hpc, hins⟩
  | other hc hlive htracked hmade hc' => exact .inl hlive

/-- The collect that the calling thread is in has made a step or just begun. -/
theorem MainEffect.collecting {w w' : World} {env : Env} (h : MainEffect w env w') {c' : Collect}
    (hc' : w'.collecting = some c') :
    (∃ c, w.collecting = some c ∧ collectStep env w.layer c = (w'.layer, .going c')) ∨
      w.collecting = none ∧ c' = {} := by
  cases h with
  | collect c out hc hstep hgoing =>
    cases out with
    | going c'' =>
      have heq : c'' = c' := Option.some.inj (hgoing.symm.trans hc')
      rw [heq] at hstep
      exact .inl ⟨c, hc, hstep⟩
    | returned result => cases hgoing.symm.trans hc'
    | raised => cases hgoing.symm.trans hc'
  | other hc hlive htracked hmade hinit => exact .inr ⟨hc, hinit c' hc'⟩

/-- The candidate of an event under construction. -/
theorem CollectOk.draft {heap : ℤ → Option Cell} {live : Live} {clock : ℤ} {c : Collect} {d : Draft}
    (h : CollectOk heap live clock c) (hmem : d.candidate ∈ todo c) :
    d.addr ∉ live ∧
      ∃ cell, heap d.addr = some cell ∧ cell.obj = d.candidate.obj ∧ cell.dying = false :=
  ⟨h.fresh _ hmem, alive_iff.mp (h.held _ (h.sublist.subset hmem))⟩

theorem Tidy.main {w w' : World} {env : Env} (h : Tidy w) (hs : MainStep w env w') : Tidy w' where
  calling := hs.calling'
  cells a cell hcell := by
    rw [hs.heap'] at hcell
    rw [hs.clock']
    obtain ⟨old, hold, rfl⟩ := registering_eq_some hcell
    have hok := h.cells a old hold
    have hok' : CellOk w.layer.live w.clock a
        { old with finalizers := finalizersAfter a old (w.collecting.map Collect.pc) } :=
      ⟨hok.place, hok.dying, hok.running⟩
    refine hok'.mono (fun hdying hmem => ?_) hs.clock
    rcases hs.effect.live with hsame | ⟨c, d, rest, hc, hpc, hins⟩
    · rwa [hsame] at hmem
    · rw [hins] at hmem
      rcases (AList.mem_insert _).mp hmem with rfl | hmem
      · have hdraft := (h.collecting c hc).draft (d := d) (by rw [todo, hpc]; exact .head _)
        obtain ⟨-, cell', hcell', -, halive⟩ := hdraft
        rw [hold] at hcell'
        cases hcell'
        exact absurd hdying (by rw [halive]; exact Bool.false_ne_true)
      · exact hmem
  entered a info hinfo := by
    rw [hs.clock']
    rcases hs.effect.live with hsame | ⟨c, d, rest, hc, hpc, hins⟩
    · rw [hsame] at hinfo
      exact (h.entered a info hinfo).trans hs.clock
    · rw [hins] at hinfo
      by_cases heq : a = d.addr
      · rw [heq, AList.lookup_insert] at hinfo
        cases hinfo
        exact ((h.collecting c hc).timed d (by rw [hpc]; rfl)).trans hs.clock
      · rw [AList.lookup_insert_ne heq] at hinfo
        exact (h.entered a info hinfo).trans hs.clock
  collecting c' hc' := by
    rw [hs.heap', hs.clock']
    rcases hs.effect.collecting hc' with ⟨c, hc, hstep⟩ | ⟨-, rfl⟩
    · have hok := (h.collecting c hc).step hs.sightings hs.clock hstep
      exact hok.mono (fun obj halive _ => alive_registering halive) (fun _ ha => ha) le_rfl
    · exact collectOk_empty rfl rfl (by simp [scanning]) rfl (by simp)

theorem tidy_step (w : World) (a : Action) (w' : World) (h : Tidy w) (hstep : step w a = some w') :
    Tidy w' := by
  cases stepped_of_step hstep with
  | create obj hcell hserial =>
    refine h.touch rfl rfl le_rfl (fun _ _ ha => ha) ?_ (h.untaken_of_none hcell)
    intro cell hcell
    cases hcell
    exact ⟨rfl, fun hrunning => (by cases hrunning), fun pc hpc => (by cases hpc)⟩
  | die addr cell hcell hdying hheld =>
    have hok := h.cells addr cell hcell
    refine h.touch rfl rfl le_rfl (fun _ _ ha => ha) ?_ (h.untaken_of_not_held hcell hheld)
    intro cell' hcell'
    cases hcell'
    exact ⟨hok.place, fun _ => rfl, hok.running⟩
  | callback addr cell hcell hdying hrunning hpos =>
    have hok := h.cells addr cell hcell
    refine h.touch rfl rfl le_rfl (fun _ _ ha => ha) ?_ (h.untaken_of_dying hcell hdying)
    intro cell' hcell'
    cases hcell'
    exact ⟨hok.place, fun _ => hdying, fun pc hpc => (by cases hpc; rfl)⟩
  | finalizer addr env cell pc hcell hrunning hclock =>
    have hok := h.cells addr cell hcell
    have hdying := hok.dying (by rw [hrunning]; rfl)
    refine h.touch rfl rfl hclock (fun _ _ ha => onDeallocStep_lookup ha) ?_
      (h.untaken_of_dying hcell hdying)
    intro cell' hcell'
    cases hcell'
    refine ⟨hok.place, fun _ => hdying, fun pc' hpc' => ?_⟩
    exact (hok.running pc hrunning).step h.entered hclock (running_going hpc')
  | free addr cell hcell hdying hrunning hzero =>
    refine h.touch rfl rfl le_rfl (fun _ _ ha => ha) ?_ (h.untaken_of_dying hcell hdying)
    intro cell' hcell'
    cases hcell'
  | call request hmain hrequest =>
    refine ⟨?_, h.cells, h.entered, ?_⟩
    · intro pc hpc
      cases request <;> cases hpc
      exact hrequest _ rfl
    · intro c hc
      cases request <;> cases hc
      exact collectOk_empty rfl rfl (by simp [scanning]) rfl (by simp)
  | main env _ hmain => exact h.main (mainStep_of_main hmain h.calling)

end HpcProfiler.WorldInvariant
