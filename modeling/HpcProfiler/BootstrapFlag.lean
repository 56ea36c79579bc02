import HpcProfiler.ProfilerThreads

/-!
The flag sys._hpc_profiler_active over any sequence of injections. The bootstrap sets it
before the steps that may raise and its handler does not clear it again, so that a
bootstrap that raises leaves the flag set with no thread started for it, and the
attaches after it start none either. As long as no bootstrap raises, a set flag means
that a thread was started since the flag last was False.
-/

namespace HpcProfiler.BootstrapFlag

open StepSystem ProfilerThreads

/-- The steps of the bootstrap that may raise, all behind the one that sets the flag. -/
def mayRaise : InjectPc → Bool
  | .importing => true
  | .opening => true
  | .startingThread => true
  | _ => false

/-- The target, whether a thread was started since the flag last was False, the flag as
the last bootstrap found it and whether that bootstrap raised. No step of the target
depends on these. -/
structure Watch where
  state : State := {}
  startedSince : Bool := false
  found : Bool := false
  failed : Bool := false

def Watch.startedAfter (w : Watch) (st : State) : Bool :=
  st.active && (w.startedSince || decide (w.state.threads.length < st.threads.length))

def Watch.foundAfter (w : Watch) : Action → Bool
  | .inject _ =>
    match w.state.injection with
    | some (_, .testingFlag) => w.state.active
    | _ => w.found
  | _ => w.found

/-- The next injection starts anew. -/
def Watch.failedAfter (w : Watch) : Action → Bool
  | .inject failure =>
    match w.state.injection with
    | some (_, .testingFlag) => false
    | some (_, .clearingFlag) => false
    | some (_, pc) => if mayRaise pc then failure.isSome else w.failed
    | none => w.failed
  | _ => w.failed

def step (w : Watch) (a : Action) : Option Watch :=
  (ProfilerThreads.step w.state a).map fun st =>
    { state := st
      startedSince := w.startedAfter st
      found := w.foundAfter a
      failed := w.failedAfter a }

/-- No bootstrap is on its way from the test of the flag to the start of its thread. -/
def Outside (st : State) : Prop :=
  ∀ k pc, st.injection = some (k, pc) → pc.willStart = false

/-- An attach that raises nowhere starts a thread. -/
def StartsThread (k : ℕ) (st : State) : Prop :=
  ∃ st', run ProfilerThreads.step st (.attach k :: List.replicate 5 (.inject none)) = some st' ∧
    st'.threads.length = st.threads.length + 1

/-- A set flag stands for a thread, and a bootstrap that has raised leaves the flag as it
found it, so that the next attach may start one. -/
structure Kept (w : Watch) : Prop where
  started : Outside w.state → w.state.active = true → w.startedSince = true
  asFound : w.failed = true → w.state.active = w.found
  retry : w.failed = true → w.state.injection = none →
    ∀ k, w.state.attached k = false → StartsThread k w.state

/-- No step of the bootstrap raises. -/
def Completes (w : Watch) : Action → Prop
  | .inject failure => (w.state.injection.map fun p => mayRaise p.2) = some true → failure = none
  | _ => True

instance (w : Watch) : (a : Action) → Decidable (Completes w a)
  | .inject _ => inferInstanceAs (Decidable (_ → _))
  | .attach _ => isTrue trivial
  | .detach _ => isTrue trivial
  | .thread _ _ => isTrue trivial

structure Inv (w : Watch) : Prop where
  started : Outside w.state → w.state.active = true → w.startedSince = true
  noneFailed : w.failed = false
  foundClear : ∀ k pc, w.state.injection = some (k, pc) → pc.willStart = true → w.found = false
  flagSet : ∀ k pc, w.state.injection = some (k, pc) → mayRaise pc = true →
    w.state.active = true

theorem inv_init : Inv {} where
  started := by
    intro _ hactive
    cases hactive
  noneFailed := rfl
  foundClear := by
    intro k pc hinject
    cases hinject
  flagSet := by
    intro k pc hinject
    cases hinject

theorem Inv.kept {w : Watch} (h : Inv w) : Kept w where
  started := h.started
  asFound := by
    intro hfailed
    rw [h.noneFailed] at hfailed
    cases hfailed
  retry := by
    intro hfailed
    rw [h.noneFailed] at hfailed
    cases hfailed

theorem willStart_of_mayRaise {pc : InjectPc} (h : mayRaise pc = true) : pc.willStart = true := by
  cases pc with
  | importing => rfl
  | opening => rfl
  | startingThread => rfl
  | _ => cases h

theorem outside_none {st : State} (h : st.injection = none) : Outside st := by
  intro k pc hinject
  rw [h] at hinject
  cases hinject

theorem outside_some {st : State} {k : ℕ} {pc : InjectPc} (h : st.injection = some (k, pc))
    (hpc : pc.willStart = false) : Outside st := by
  intro k' pc' hinject
  rw [h] at hinject
  cases hinject
  exact hpc

theorem Inv.beside {st : State} {started found : Bool} (hst : Outside st)
    (hstarted : st.active = true → started = true) : Inv ⟨st, started, found, false⟩ where
  started := fun _ => hstarted
  noneFailed := rfl
  foundClear := by
    intro k pc hinject hwill
    rw [hst k pc hinject] at hwill
    cases hwill
  flagSet := by
    intro k pc hinject hraise
    have hwill := willStart_of_mayRaise hraise
    rw [hst k pc hinject] at hwill
    cases hwill

/-- A step from outside to outside that does not set the flag. -/
theorem Inv.outside {w : Watch} (h : Inv w) {st : State} {found : Bool} (hout : Outside w.state)
    (hactive : st.active = true → w.state.active = true) (hst : Outside st) :
    Inv ⟨st, w.startedAfter st, found, false⟩ := by
  refine .beside hst fun hset => ?_
  have hstarted := h.started hout (hactive hset)
  simp [Watch.startedAfter, hset, hstarted]

theorem Inv.injects {w : Watch} (h : Inv w) {k : ℕ} {pc : InjectPc}
    (hnone : w.state.injection = none) (hpc : pc.willStart = false) :
    Inv ⟨{ w.state with injection := some (k, pc) }, w.startedAfter w.state, w.found,
      w.failed⟩ := by
  rw [h.noneFailed]
  exact h.outside (outside_none hnone) id (outside_some rfl hpc)

/-- A step that leaves the flag and the injected code where they are. -/
theorem Inv.aside {w : Watch} (h : Inv w) {st : State}
    (hinject : st.injection = w.state.injection) (hactive : st.active = w.state.active) :
    Inv ⟨st, w.startedAfter st, w.found, w.failed⟩ where
  started := by
    intro hout hset
    have hbefore : Outside w.state := by
      intro k pc
      rw [← hinject]
      exact hout k pc
    have hstarted := h.started hbefore (hactive ▸ hset)
    simp [Watch.startedAfter, hset, hstarted]
  noneFailed := h.noneFailed
  foundClear := by
    rw [hinject]
    exact h.foundClear
  flagSet := by
    rw [hinject, hactive]
    exact h.flagSet

/-- A step of the bootstrap within its way from the test to the start of the thread. -/
theorem Inv.onTheWay {st : State} {k : ℕ} {pc : InjectPc} {started : Bool}
    (hinject : st.injection = some (k, pc)) (hwill : pc.willStart = true)
    (hset : mayRaise pc = true → st.active = true) {found : Bool} (hfound : found = false) :
    Inv ⟨st, started, found, false⟩ where
  started := by
    intro hout
    rw [hout k pc hinject] at hwill
    cases hwill
  noneFailed := rfl
  foundClear := fun _ _ _ _ => hfound
  flagSet := by
    intro k' pc' hinject' hraise
    rw [hinject] at hinject'
    cases hinject'
    exact hset hraise

theorem Inv.launched {w : Watch} {st : State} {found : Bool} (hst : Outside st)
    (hlength : w.state.threads.length < st.threads.length) :
    Inv ⟨st, w.startedAfter st, found, false⟩ := by
  refine .beside hst fun hset => ?_
  simp [Watch.startedAfter, hset, hlength]

theorem foundAfter_mayRaise {w : Watch} {k : ℕ} {pc : InjectPc} {failure : Option String}
    (hinject : w.state.injection = some (k, pc)) (hraise : mayRaise pc = true) :
    w.foundAfter (.inject failure) = w.found := by
  cases pc with
  | testingFlag => cases hraise
  | _ => simp only [Watch.foundAfter, hinject]

theorem failedAfter_mayRaise {w : Watch} {k : ℕ} {pc : InjectPc} {failure : Option String}
    (hinject : w.state.injection = some (k, pc)) (hraise : mayRaise pc = true) :
    w.failedAfter (.inject failure) = failure.isSome := by
  cases pc with
  | testingFlag => cases hraise
  | clearingFlag => cases hraise
  | _ => simp only [Watch.failedAfter, hinject, if_pos hraise]

theorem completes_iff {w : Watch} {k : ℕ} {pc : InjectPc}
    (hinject : w.state.injection = some (k, pc)) (failure : Option String) :
    Completes w (.inject failure) ↔ (mayRaise pc = true → failure = none) := by
  simp [Completes, hinject]

theorem Inv.inject {w : Watch} (h : Inv w) {k : ℕ} {pc : InjectPc} {failure : Option String}
    (hinject : w.state.injection = some (k, pc)) (hok : Completes w (.inject failure)) :
    Inv ⟨makeBootstrap k failure w.state pc, w.startedAfter (makeBootstrap k failure w.state pc),
      w.foundAfter (.inject failure), w.failedAfter (.inject failure)⟩ := by
  have hcompletes := (completes_iff hinject failure).mp hok
  have hfailed := h.noneFailed
  cases pc with
  | testingFlag =>
    have hout := outside_some hinject rfl
    by_cases hactive : w.state.active = true
    · simp only [Watch.foundAfter, Watch.failedAfter, hinject, makeBootstrap, if_pos hactive]
      exact h.outside hout (fun _ => hactive) (outside_some rfl rfl)
    · simp only [Watch.foundAfter, Watch.failedAfter, hinject, makeBootstrap, if_neg hactive]
      refine Inv.onTheWay rfl rfl ?_ (by simpa using hactive)
      intro hraise
      cases hraise
  | settingFlag =>
    simp only [Watch.foundAfter, Watch.failedAfter, hinject, makeBootstrap, mayRaise, hfailed]
    exact Inv.onTheWay rfl rfl (fun _ => rfl) (h.foundClear k _ hinject rfl)
  | importing =>
    cases hcompletes rfl
    have hnext : (makeBootstrap k none w.state .importing).injection = some (k, .opening) := rfl
    rw [foundAfter_mayRaise hinject rfl, failedAfter_mayRaise hinject rfl]
    exact Inv.onTheWay hnext rfl (fun _ => h.flagSet k _ hinject rfl)
      (h.foundClear k _ hinject rfl)
  | opening =>
    cases hcompletes rfl
    have hnext : (makeBootstrap k none w.state .opening).injection = some (k, .startingThread) :=
      rfl
    rw [foundAfter_mayRaise hinject rfl, failedAfter_mayRaise hinject rfl]
    exact Inv.onTheWay hnext rfl (fun _ => h.flagSet k _ hinject rfl)
      (h.foundClear k _ hinject rfl)
  | startingThread =>
    cases hcompletes rfl
    rw [foundAfter_mayRaise hinject rfl, failedAfter_mayRaise hinject rfl]
    refine Inv.launched (outside_some rfl rfl) ?_
    show w.state.threads.length < (w.state.threads ++ [ThreadPc.starting]).length
    rw [List.length_append, List.length_singleton]
    omega
  | recording =>
    simp only [Watch.foundAfter, Watch.failedAfter, hinject, makeBootstrap, mayRaise, hfailed]
    exact h.outside (outside_some hinject rfl) id (outside_some rfl rfl)
  | reporting message =>
    simp only [Watch.foundAfter, Watch.failedAfter, hinject, makeBootstrap, mayRaise, hfailed]
    exact h.outside (outside_some hinject rfl) id (outside_some rfl rfl)
  | trapped =>
    simp only [Watch.foundAfter, Watch.failedAfter, hinject, mayRaise, hfailed]
    have hout := outside_some hinject rfl
    cases failure with
    | none => exact h.outside hout id (outside_none rfl)
    | some message => exact h.outside hout id (outside_none rfl)
  | clearingFlag =>
    simp only [Watch.foundAfter, Watch.failedAfter, hinject, makeBootstrap]
    refine h.outside (outside_some hinject rfl) ?_ (outside_some rfl rfl)
    intro hset
    cases hset
  | cleared =>
    simp only [Watch.foundAfter, Watch.failedAfter, hinject, mayRaise, hfailed]
    have hout := outside_some hinject rfl
    cases failure with
    | none => exact h.outside hout id (outside_none rfl)
    | some message => exact h.outside hout id (outside_none rfl)

theorem step_eq_some {w w' : Watch} {a : Action} (h : step w a = some w') :
    ∃ st, ProfilerThreads.step w.state a = some st ∧
      w' = ⟨st, w.startedAfter st, w.foundAfter a, w.failedAfter a⟩ := by
  obtain ⟨st, hst, heq⟩ := Option.map_eq_some_iff.mp h
  exact ⟨st, hst, heq.symm⟩

theorem inv_step (w : Watch) (a : Action) (w' : Watch) (h : Inv w) (hok : Completes w a)
    (hstep : step w a = some w') : Inv w' := by
  obtain ⟨st, hst, rfl⟩ := step_eq_some hstep
  cases a with
  | attach k =>
    rcases attach_cases hst with rfl | ⟨hnone, rfl⟩
    · exact h.aside rfl rfl
    · exact h.injects hnone rfl
  | detach k =>
    rcases detach_cases hst with rfl | ⟨hnone, rfl⟩
    · exact h.aside rfl rfl
    · exact h.injects hnone rfl
  | inject failure =>
    obtain ⟨⟨k, pc⟩, hinject, rfl⟩ := Option.map_eq_some_iff.mp hst
    exact h.inject hinject hok
  | thread i collected =>
    obtain ⟨pc, -, rfl⟩ := Option.map_eq_some_iff.mp hst
    exact h.aside rfl rfl

/-- What the handler leaves behind: a set flag with no thread on its way. -/
theorem makeBootstrap_raise {k : ℕ} {message : String} {st : State} {pc : InjectPc}
    (hraise : mayRaise pc = true) :
    makeBootstrap k (some message) st pc =
      { st with injection := some (k, .reporting message) } := by
  cases pc with
  | importing => rfl
  | opening => rfl
  | startingThread => rfl
  | _ => cases hraise

/-- A bootstrap that raises has found the flag cleared and leaves it set. -/
theorem not_kept_of_raise (w : Watch) (a : Action) (w' : Watch) (h : Inv w)
    (hraises : ¬Completes w a) (hstep : step w a = some w') : ¬Kept w' := by
  obtain ⟨st, hst, rfl⟩ := step_eq_some hstep
  cases a with
  | attach k => exact absurd trivial hraises
  | detach k => exact absurd trivial hraises
  | thread i collected => exact absurd trivial hraises
  | inject failure =>
    obtain ⟨⟨k, pc⟩, hinject, rfl⟩ := Option.map_eq_some_iff.mp hst
    rw [completes_iff hinject, Classical.not_imp] at hraises
    obtain ⟨hraise, hsome⟩ := hraises
    obtain ⟨message, rfl⟩ := Option.ne_none_iff_exists'.mp hsome
    have hfound := h.foundClear k pc hinject (willStart_of_mayRaise hraise)
    have hset := h.flagSet k pc hinject hraise
    intro hkept
    have hasFound := hkept.asFound (failedAfter_mayRaise hinject hraise)
    have hleft : (makeBootstrap k (some message) w.state pc).active = w.state.active := by
      rw [makeBootstrap_raise hraise]
      rfl
    rw [foundAfter_mayRaise hinject hraise, hfound] at hasFound
    rw [← hleft, hasFound] at hset
    cases hset

/-! A flag that no thread stands for. -/

/-- The flag is set, no bootstrap is on its way, and this many threads were started. -/
def Stuck (n : ℕ) (st : State) : Prop :=
  st.active = true ∧ Outside st ∧ st.threads.length = n

def KeepsFlag (st : State) : Action → Prop
  | .inject _ => st.injection.map Prod.snd ≠ some .clearingFlag
  | _ => True

/-- Only two places of the injected code set the flag. -/
theorem makeBootstrap_active (k : ℕ) (failure : Option String) (st : State) (pc : InjectPc) :
    (makeBootstrap k failure st pc).active = st.active ∨ pc = .settingFlag ∨
      pc = .clearingFlag := by
  cases pc with
  | testingFlag =>
    simp only [makeBootstrap]
    split <;> exact .inl rfl
  | settingFlag => exact .inr (.inl rfl)
  | startingThread => cases failure <;> exact .inl rfl
  | trapped => cases failure <;> exact .inl rfl
  | clearingFlag => exact .inr (.inr rfl)
  | cleared => cases failure <;> exact .inl rfl
  | _ => exact .inl rfl

theorem Stuck.inject {n : ℕ} {st : State} (h : Stuck n st) {k : ℕ} {pc : InjectPc}
    {failure : Option String} (hinject : st.injection = some (k, pc)) (hpc : pc ≠ .clearingFlag) :
    Stuck n (makeBootstrap k failure st pc) := by
  obtain ⟨hactive, hout, hlength⟩ := h
  have hoff : pc.willStart = false := hout k pc hinject
  refine ⟨?_, ?_, ?_⟩
  · rcases makeBootstrap_active k failure st pc with hsame | hsetting | hclearing
    · rw [hsame, hactive]
    · subst hsetting
      cases hoff
    · exact absurd hclearing hpc
  · intro k' pc' hinject'
    by_contra hwill
    rw [Bool.not_eq_false] at hwill
    rcases makeBootstrap_willStart hinject' hwill with hon | ⟨-, hclear⟩
    · rw [hoff] at hon
      cases hon
    · rw [hactive] at hclear
      cases hclear
  · rcases makeBootstrap_threads k failure st pc with hsame | ⟨hstarting, -, -⟩
    · rw [hsame, hlength]
    · subst hstarting
      cases hoff

theorem Stuck.injects {n : ℕ} {st : State} (h : Stuck n st) {k : ℕ} {pc : InjectPc}
    (hpc : pc.willStart = false) : Stuck n { st with injection := some (k, pc) } :=
  ⟨h.1, outside_some rfl hpc, h.2.2⟩

/-- With the flag set, the bootstraps do nothing and no thread is started. -/
theorem stuck_step {n : ℕ} (st : State) (a : Action) (st' : State) (h : Stuck n st)
    (hkeeps : KeepsFlag st a) (hstep : ProfilerThreads.step st a = some st') : Stuck n st' := by
  cases a with
  | attach k =>
    rcases attach_cases hstep with rfl | ⟨-, rfl⟩
    · exact h
    · exact h.injects rfl
  | detach k =>
    rcases detach_cases hstep with rfl | ⟨-, rfl⟩
    · exact h
    · exact h.injects rfl
  | inject failure =>
    obtain ⟨⟨k, pc⟩, hinject, rfl⟩ := Option.map_eq_some_iff.mp hstep
    refine h.inject hinject ?_
    rintro rfl
    exact hkeeps (by rw [hinject]; rfl)
  | thread i collected =>
    obtain ⟨pc, -, rfl⟩ := Option.map_eq_some_iff.mp hstep
    obtain ⟨hactive, hout, hlength⟩ := h
    refine ⟨hactive, hout, ?_⟩
    show (st.threads.set i pc).length = n
    rw [List.length_set, hlength]

/-- After a bootstrap that raised, no attach starts a thread until the flag is cleared. -/
theorem no_thread_after_raise {w : Watch} (h : Inv w) {failure : Option String}
    (hraises : ¬Completes w (.inject failure)) {st st' : State} {actions : List Action}
    (hstep : ProfilerThreads.step w.state (.inject failure) = some st)
    (hrun : run ProfilerThreads.step st actions = some st')
    (hkeeps : Along ProfilerThreads.step KeepsFlag st actions) :
    st'.threads.length = w.state.threads.length := by
  obtain ⟨⟨k, pc⟩, hinject, rfl⟩ := Option.map_eq_some_iff.mp hstep
  rw [completes_iff hinject, Classical.not_imp] at hraises
  obtain ⟨hraise, hsome⟩ := hraises
  obtain ⟨message, rfl⟩ := Option.ne_none_iff_exists'.mp hsome
  have hstuck : Stuck w.state.threads.length (makeBootstrap k (some message) w.state pc) := by
    rw [makeBootstrap_raise hraise]
    exact ⟨h.flagSet k pc hinject hraise, outside_some rfl rfl, rfl⟩
  exact (run_along stuck_step hstuck hkeeps hrun).2.2

/-- An attach starts a thread exactly if it finds the flag cleared. -/
theorem startsThread_iff {k : ℕ} {st : State} (hnone : st.injection = none)
    (hk : st.attached k = false) : StartsThread k st ↔ st.active = false := by
  rw [State.active]
  constructor
  · rintro ⟨st', hrun, -⟩
    by_contra hset
    rw [Bool.not_eq_false] at hset
    -- The bootstrap is at its end after two steps.
    simp [List.replicate, run, ProfilerThreads.step, attach, hnone, hk, makeBootstrap,
      State.active, hset] at hrun
  · intro hclear
    refine ⟨{ st with
      injection := some (k, .recording)
      profilerActive := some true
      threads := st.threads ++ [.starting] }, ?_, ?_⟩
    · simp [List.replicate, run, ProfilerThreads.step, attach, hnone, hk, makeBootstrap,
        State.active, hclear]
    · rw [List.length_append, List.length_singleton]

/-- The watch follows every run of the target. -/
theorem exists_run_watch {w : Watch} {actions : List Action} {st : State}
    (hrun : run ProfilerThreads.step w.state actions = some st) :
    ∃ w', run step w actions = some w' ∧ w'.state = st := by
  induction actions generalizing w with
  | nil =>
    cases hrun
    exact ⟨w, rfl, rfl⟩
  | cons a actions ih =>
    obtain ⟨mid, hmid, hrest⟩ := run_cons_eq_some.mp hrun
    obtain ⟨w', hw', hstate⟩ :=
      ih (w := ⟨mid, w.startedAfter mid, w.foundAfter a, w.failedAfter a⟩) hrest
    refine ⟨w', ?_, hstate⟩
    rw [run, step, hmid]
    exact hw'

/-- In a run of injections and of the threads, the flag stands for a thread and is left as
found throughout if and only if no bootstrap raises. -/
theorem kept_iff_completes (actions : List Action) (st : State)
    (hrun : run ProfilerThreads.step {} actions = some st) :
    Always step Kept {} actions ↔ Along step Completes {} actions := by
  obtain ⟨w, hwatch, -⟩ := exists_run_watch (w := {}) hrun
  exact always_iff_along (fun _ => Inv.kept) inv_step not_kept_of_raise inv_init hwatch

theorem kept_iff_completes_firstRound : Always step Kept {} firstRound :=
  (kept_iff_completes firstRound firstRoundEnd rfl).mpr (by decide)

/-- The module is not found in the target; the next attacher finds the flag set. -/
def missingModule : List Action :=
  [.attach 0, .inject none, .inject none, .inject (some "No module named 'bridge'"),
    .inject none, .inject none, .attach 1, .inject none, .inject none]

def missingModuleEnd : State where
  attached := Function.update (Function.update (fun _ => false) 0 true) 1 true
  profilerActive := some true
  injectError := some "No module named 'bridge'"

/-- No thread was started by either of the two attaches, and the flag is set. -/
theorem missingModule_notKept :
    ¬ ∀ (actions : List Action) (st : State),
      run ProfilerThreads.step {} actions = some st → Always step Kept {} actions := by
  intro h
  have hrun : run step {} missingModule = some { state := missingModuleEnd, found := true } := rfl
  have hkept := (h missingModule missingModuleEnd rfl).last hrun
  have hstarted := hkept.started (outside_none rfl) rfl
  cases hstarted

end HpcProfiler.BootstrapFlag
