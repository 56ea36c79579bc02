import HpcProfiler.StepSystem

/-!
Attaching the profiler to a process and detaching it. Every attach injects a
bootstrap that starts a profiler thread unless sys._hpc_profiler_active is set, and
every detach injects code that clears the flag, which a thread samples once a round.
As long as no bootstrap finds the flag cleared while an earlier thread has not left
its loop, at most one thread is in its loop.
-/

namespace HpcProfiler.ProfilerThreads

open StepSystem

/-- Where _hpc_profiler_thread is; a thread that writes knows how many events of its
batch are left. -/
inductive ThreadPc
  | starting
  | testing
  | collecting
  | writing (left : ℕ)
  | sleeping
  | stopping
  | closing
  | done
  deriving DecidableEq

/-- The thread is in its loop. -/
def ThreadPc.inLoop : ThreadPc → Bool
  | .testing => true
  | .collecting => true
  | .writing _ => true
  | .sleeping => true
  | _ => false

/-- The thread has left its loop. -/
def ThreadPc.hasLeft : ThreadPc → Bool
  | .stopping => true
  | .closing => true
  | .done => true
  | _ => false

/-- Where the injected code is: in the bootstrap up to its trap, or in the code that
clears the flag. -/
inductive InjectPc
  | testingFlag
  | settingFlag
  | importing
  | opening
  | startingThread
  | recording
  | reporting (message : String)
  | trapped
  | clearingFlag
  | cleared
  deriving DecidableEq

/-- The flags of the attachers, the code that one of them has injected, the attributes
of sys and the profiler threads in the order of their start. -/
structure State where
  attached : ℕ → Bool := fun _ => false
  injection : Option (ℕ × InjectPc) := none
  profilerActive : Option Bool := none
  injectError : Option String := none
  profilerThread : Option ℕ := none
  threads : List ThreadPc := []

def State.active (st : State) : Bool := st.profilerActive.getD false

/-- The target is stopped by one attacher at a time. -/
def attach (k : ℕ) (st : State) : Option State :=
  if st.attached k then some st
  else if st.injection = none then some { st with injection := some (k, .testingFlag) }
  else none

def detach (k : ℕ) (st : State) : Option State :=
  if st.attached k = false then some st
  else if st.injection = none then some { st with injection := some (k, .clearingFlag) }
  else none

/-- The next step of the injected code. The import, the opening of the bridge and the
start of the thread may raise, and so may the attacher's steps after the trap. -/
def makeBootstrap (k : ℕ) (failure : Option String) (st : State) : InjectPc → State
  | .testingFlag =>
    if st.active then { st with injection := some (k, .trapped) }
    else { st with injection := some (k, .settingFlag) }
  | .settingFlag => { st with profilerActive := some true, injection := some (k, .importing) }
  | .importing =>
    { st with injection := some (k, failure.elim .opening .reporting) }
  | .opening =>
    { st with injection := some (k, failure.elim .startingThread .reporting) }
  | .startingThread =>
    match failure with
    | some message => { st with injection := some (k, .reporting message) }
    | none => { st with threads := st.threads ++ [.starting], injection := some (k, .recording) }
  | .recording =>
    { st with profilerThread := some (st.threads.length - 1), injection := some (k, .trapped) }
  | .reporting message => { st with injectError := some message, injection := some (k, .trapped) }
  | .trapped =>
    match failure with
    | some _ => { st with injection := none }
    | none => { st with attached := Function.update st.attached k true, injection := none }
  | .clearingFlag => { st with profilerActive := some false, injection := some (k, .cleared) }
  | .cleared =>
    match failure with
    | some _ => { st with injection := none }
    | none => { st with attached := Function.update st.attached k false, injection := none }

/-- One step of a profiler thread; a round collects some number of events. -/
def hpcProfilerThread (active : Bool) (collected : ℕ) : ThreadPc → Option ThreadPc
  | .starting => some .testing
  | .testing => some (if active then .collecting else .stopping)
  | .collecting => some (.writing collected)
  | .writing (left + 1) => some (.writing left)
  | .writing 0 => some .sleeping
  | .sleeping => some .testing
  | .stopping => some .closing
  | .closing => some .done
  | .done => none

inductive Action
  | attach (k : ℕ)
  | detach (k : ℕ)
  | inject (failure : Option String)
  | thread (i : ℕ) (collected : ℕ)

def step (st : State) : Action → Option State
  | .attach k => attach k st
  | .detach k => detach k st
  | .inject failure => st.injection.map fun (k, pc) => makeBootstrap k failure st pc
  | .thread i collected =>
    (st.threads[i]?.bind (hpcProfilerThread st.active collected)).map fun pc =>
      { st with threads := st.threads.set i pc }

/-- No two threads are in their loop. -/
def OneInLoop (st : State) : Prop :=
  ∀ (i j : ℕ) (p q : ThreadPc), st.threads[i]? = some p → st.threads[j]? = some q →
    p.inLoop = true → q.inLoop = true → i = j

/-- A bootstrap that finds the flag cleared finds every earlier thread out of its
loop. -/
def Settled (st : State) : Action → Prop
  | .inject _ => st.injection.map Prod.snd = some .testingFlag → st.active = false →
    ∀ p ∈ st.threads, p.hasLeft = true
  | _ => True

instance (st : State) : (a : Action) → Decidable (Settled st a)
  | .inject _ => inferInstanceAs (Decidable (_ → _ → _))
  | .attach _ => isTrue trivial
  | .detach _ => isTrue trivial
  | .thread _ _ => isTrue trivial

/-- The bootstrap has passed its test and not yet started its thread. -/
def InjectPc.willStart : InjectPc → Bool
  | .settingFlag => true
  | .importing => true
  | .opening => true
  | .startingThread => true
  | _ => false

structure Inv (st : State) : Prop where
  one : ∀ (i j : ℕ) (p q : ThreadPc), st.threads[i]? = some p → st.threads[j]? = some q →
    p.hasLeft = false → q.hasLeft = false → i = j
  clear : ∀ k pc, st.injection = some (k, pc) → pc.willStart = true →
    ∀ p ∈ st.threads, p.hasLeft = true

theorem inv_init : Inv {} where
  one := by simp
  clear := by simp

theorem not_hasLeft_of_inLoop {p : ThreadPc} (h : p.inLoop = true) : p.hasLeft = false := by
  cases p <;> simp_all [ThreadPc.inLoop, ThreadPc.hasLeft]

theorem Inv.oneInLoop {st : State} (h : Inv st) : OneInLoop st :=
  fun i j p q hp hq hip hiq =>
    h.one i j p q hp hq (not_hasLeft_of_inLoop hip) (not_hasLeft_of_inLoop hiq)

/-- A thread that has left its loop never comes back. -/
theorem hasLeft_of_step {active : Bool} {n : ℕ} {p p' : ThreadPc} (h : p.hasLeft = true)
    (hstep : hpcProfilerThread active n p = some p') : p'.hasLeft = true := by
  cases p with
  | stopping =>
    cases hstep
    rfl
  | closing =>
    cases hstep
    rfl
  | done => cases hstep
  | _ => cases h

/-- A step of a thread adds none to those that have not left. -/
theorem set_hasLeft {threads : List ThreadPc} {i : ℕ} {p p' : ThreadPc}
    (hi : threads[i]? = some p) (hleft : p.hasLeft = true → p'.hasLeft = true) {j : ℕ}
    {q : ThreadPc} (hj : (threads.set i p')[j]? = some q) (hq : q.hasLeft = false) :
    ∃ q', threads[j]? = some q' ∧ q'.hasLeft = false := by
  by_cases hij : i = j
  · subst hij
    obtain ⟨hlt, -⟩ := List.getElem?_eq_some_iff.mp hi
    rw [List.getElem?_set_self hlt] at hj
    cases hj
    refine ⟨p, hi, ?_⟩
    by_contra hp
    rw [hleft (by simpa using hp)] at hq
    cases hq
  · rw [List.getElem?_set_ne hij] at hj
    exact ⟨q, hj, hq⟩

theorem Inv.thread {st : State} (h : Inv st) {i n : ℕ} {p p' : ThreadPc}
    (hi : st.threads[i]? = some p) (hstep : hpcProfilerThread st.active n p = some p') :
    Inv { st with threads := st.threads.set i p' } := by
  have hleft : p.hasLeft = true → p'.hasLeft = true := fun hp => hasLeft_of_step hp hstep
  refine ⟨?_, ?_⟩
  · intro a b q r ha hb hq hr
    obtain ⟨q', ha', hq'⟩ := set_hasLeft hi hleft ha hq
    obtain ⟨r', hb', hr'⟩ := set_hasLeft hi hleft hb hr
    exact h.one a b q' r' ha' hb' hq' hr'
  · intro k pc hinject hwill q hq
    rcases List.mem_or_eq_of_mem_set hq with hmem | heq
    · exact h.clear k pc hinject hwill q hmem
    · subst heq
      exact hleft (h.clear k pc hinject hwill p (List.mem_of_getElem? hi))

/-- A call returns at once, or injects its code into a process that runs none. -/
theorem injects_cases {already : Prop} [Decidable already] {k : ℕ} {pc : InjectPc}
    {st st' : State} (h : (if already then some st
      else if st.injection = none then some { st with injection := some (k, pc) } else none) =
      some st') :
    st' = st ∨ st.injection = none ∧ st' = { st with injection := some (k, pc) } := by
  split at h
  · cases h
    exact .inl rfl
  · split at h
    · rename_i hnone
      cases h
      exact .inr ⟨hnone, rfl⟩
    · cases h

theorem attach_cases {k : ℕ} {st st' : State} (h : attach k st = some st') :
    st' = st ∨
      st.injection = none ∧ st' = { st with injection := some (k, .testingFlag) } :=
  injects_cases h

theorem detach_cases {k : ℕ} {st st' : State} (h : detach k st = some st') :
    st' = st ∨
      st.injection = none ∧ st' = { st with injection := some (k, .clearingFlag) } :=
  injects_cases h

/-- What the injected code may change: a new thread is started only by a bootstrap
that has passed its test, and only with a test passed does it get there. -/
theorem makeBootstrap_threads (k : ℕ) (failure : Option String) (st : State) (pc : InjectPc) :
    (makeBootstrap k failure st pc).threads = st.threads ∨
      pc = .startingThread ∧ (makeBootstrap k failure st pc).threads = st.threads ++ [.starting] ∧
        (makeBootstrap k failure st pc).injection = some (k, .recording) := by
  cases pc with
  | testingFlag =>
    simp only [makeBootstrap]
    split <;> exact .inl rfl
  | startingThread =>
    cases failure with
    | some message => exact .inl rfl
    | none => exact .inr ⟨rfl, rfl, rfl⟩
  | trapped => cases failure <;> exact .inl rfl
  | cleared => cases failure <;> exact .inl rfl
  | _ => exact .inl rfl

theorem makeBootstrap_willStart {k k' : ℕ} {failure : Option String} {st : State}
    {pc pc' : InjectPc} (h : (makeBootstrap k failure st pc).injection = some (k', pc'))
    (hwill : pc'.willStart = true) :
    pc.willStart = true ∨ pc = .testingFlag ∧ st.active = false := by
  cases pc with
  | testingFlag =>
    by_cases hactive : st.active = true
    · rw [makeBootstrap, if_pos hactive] at h
      cases h
      cases hwill
    · exact .inr ⟨rfl, by simpa using hactive⟩
  | settingFlag => exact .inl rfl
  | importing => exact .inl rfl
  | opening => exact .inl rfl
  | startingThread => exact .inl rfl
  | recording =>
    cases h
    cases hwill
  | reporting message =>
    cases h
    cases hwill
  | trapped => cases failure <;> cases h
  | clearingFlag =>
    cases h
    cases hwill
  | cleared => cases failure <;> cases h

theorem Inv.inject {st : State} (h : Inv st) {k : ℕ} {pc : InjectPc} {failure : Option String}
    (hinject : st.injection = some (k, pc)) (hok : Settled st (.inject failure)) :
    Inv (makeBootstrap k failure st pc) := by
  rcases makeBootstrap_threads k failure st pc with hsame | ⟨hpc, happend, hrec⟩
  · refine ⟨?_, ?_⟩
    · rw [hsame]
      exact h.one
    · intro k' pc' hinject' hwill
      rw [hsame]
      rcases makeBootstrap_willStart hinject' hwill with hpc | ⟨hpc, hactive⟩
      · exact h.clear k pc hinject hpc
      · subst hpc
        exact hok (by rw [hinject]; rfl) hactive
  · subst hpc
    have hclear := h.clear k .startingThread hinject rfl
    have hnew : ∀ (i : ℕ) (p : ThreadPc), (st.threads ++ [.starting])[i]? = some p →
        p.hasLeft = false →
        i = st.threads.length := by
      intro i p hi hp
      by_contra hne
      obtain ⟨hlt, -⟩ := List.getElem?_eq_some_iff.mp hi
      rw [List.length_append, List.length_singleton] at hlt
      rw [List.getElem?_append_left (by omega)] at hi
      rw [hclear p (List.mem_of_getElem? hi)] at hp
      cases hp
    refine ⟨?_, ?_⟩
    · rw [happend]
      intro i j p q hi hj hp hq
      rw [hnew i p hi hp, hnew j q hj hq]
    · intro k' pc' hinject' hwill
      rw [hrec] at hinject'
      cases hinject'
      cases hwill

/-- Code that is not yet past the test of the flag starts no thread. -/
theorem Inv.injects {st : State} (h : Inv st) {k : ℕ} {pc : InjectPc}
    (hpc : pc.willStart = false) : Inv { st with injection := some (k, pc) } where
  one := h.one
  clear := by
    intro k' pc' hinject hwill
    cases hinject
    rw [hpc] at hwill
    cases hwill

theorem inv_step (st : State) (a : Action) (st' : State) (h : Inv st) (hok : Settled st a)
    (hstep : step st a = some st') : Inv st' := by
  cases a with
  | attach k =>
    rcases attach_cases hstep with rfl | ⟨-, rfl⟩
    · exact h
    · exact h.injects rfl
  | detach k =>
    rcases detach_cases hstep with rfl | ⟨-, rfl⟩
    · exact h
    · exact h.injects rfl
  | inject failure =>
    obtain ⟨⟨k, pc⟩, hinject, rfl⟩ := Option.map_eq_some_iff.mp hstep
    exact h.inject hinject hok
  | thread i collected =>
    obtain ⟨p', hp', rfl⟩ := Option.map_eq_some_iff.mp hstep
    obtain ⟨p, hi, hthread⟩ := Option.bind_eq_some_iff.mp hp'
    exact h.thread hi hthread

/-- In every run in which each bootstrap that finds the flag cleared finds the earlier
threads out of their loops, never two threads are in their loop. -/
theorem oneInLoop_of_settled (actions : List Action) (st : State)
    (hrun : run step {} actions = some st) (hsettled : Along step Settled {} actions) :
    OneInLoop st :=
  (run_along inv_step inv_init hsettled hrun).oneInLoop

/-- A thread that has not left its loop is in it, or comes there with one step. -/
theorem exists_run_inLoop {st : State} {i : ℕ} {p : ThreadPc} (hi : st.threads[i]? = some p)
    (hp : p.hasLeft = false) :
    ∃ actions p', run step st actions = some { st with threads := st.threads.set i p' } ∧
      p'.inLoop = true := by
  cases hloop : p.inLoop with
  | true =>
    obtain ⟨hlt, heq⟩ := List.getElem?_eq_some_iff.mp hi
    have hsame : st.threads.set i p = st.threads := by
      rw [← heq]
      exact List.set_getElem_self hlt
    refine ⟨[], p, ?_, hloop⟩
    rw [hsame]
    rfl
  | false =>
    have hstarting : p = .starting := by
      cases p <;> simp_all [ThreadPc.inLoop, ThreadPc.hasLeft]
    subst hstarting
    refine ⟨[.thread i 0], .testing, ?_, rfl⟩
    simp [run, step, hi, hpcProfilerThread]

/-- A bootstrap that finds the flag cleared while an earlier thread has not left its
loop may go on to a second thread in its loop. -/
theorem exists_run_two {st : State} {k i : ℕ} {p : ThreadPc}
    (hinject : st.injection = some (k, .testingFlag)) (hactive : st.active = false)
    (hi : st.threads[i]? = some p) (hp : p.hasLeft = false) :
    ∃ actions st', run step st actions = some st' ∧ ¬OneInLoop st' := by
  obtain ⟨hlt, -⟩ := List.getElem?_eq_some_iff.mp hi
  let started : State := { st with
    injection := some (k, .recording), profilerActive := some true,
    threads := st.threads ++ [.starting] }
  have hstarted : run step st (List.replicate 5 (.inject none)) = some started := by
    simp [List.replicate, run, step, hinject, makeBootstrap, hactive, started]
  have hold : started.threads[i]? = some p := by
    rw [← hi]
    exact List.getElem?_append_left hlt
  obtain ⟨first, p', hfirst, hp'⟩ := exists_run_inLoop hold hp
  let entered : State := { started with threads := started.threads.set i p' }
  have hnew : entered.threads[st.threads.length]? = some .starting := by
    show (started.threads.set i p')[st.threads.length]? = some .starting
    rw [List.getElem?_set_ne (by omega)]
    exact List.getElem?_concat_length
  obtain ⟨second, q', hsecond, hq'⟩ := exists_run_inLoop hnew rfl
  refine ⟨List.replicate 5 (.inject none) ++ (first ++ second),
    { entered with threads := entered.threads.set st.threads.length q' }, ?_, ?_⟩
  · rw [run_append hstarted, run_append hfirst]
    exact hsecond
  · intro hone
    have hlen : st.threads.length < (started.threads.set i p').length := by
      rw [List.length_set]
      show st.threads.length < (st.threads ++ [ThreadPc.starting]).length
      rw [List.length_append, List.length_singleton]
      omega
    have hself : ((started.threads.set i p').set st.threads.length q')[i]? = some p' := by
      rw [List.getElem?_set_ne (by omega)]
      exact List.getElem?_set_self (by
        show i < (st.threads ++ [ThreadPc.starting]).length
        rw [List.length_append]
        omega)
    have hsame := hone i st.threads.length p' q' hself (List.getElem?_set_self hlen) hp' hq'
    omega

/-- An attach and the thread it starts, which writes one event and goes to sleep. -/
def firstRound : List Action :=
  [.attach 0] ++ List.replicate 7 (.inject none) ++
    [.thread 0 0, .thread 0 0, .thread 0 1, .thread 0 0, .thread 0 0]

def firstRoundEnd : State where
  attached := Function.update (fun _ => false) 0 true
  profilerActive := some true
  profilerThread := some 0
  threads := [.sleeping]

/-- A detach and, within the sleep of the thread, another attach. -/
def quickReattach : List Action :=
  firstRound ++ [.detach 0, .inject none, .inject none, .attach 1] ++
    List.replicate 7 (.inject none) ++ [.thread 1 0]

def quickReattachEnd : State where
  attached := Function.update (Function.update (Function.update (fun _ => false) 0 true) 0 false)
    1 true
  profilerActive := some true
  profilerThread := some 1
  threads := [.sleeping, .testing]

theorem run_quickReattach : run step {} quickReattach = some quickReattachEnd := rfl

/-- Both threads are in their loop and about to write. -/
theorem quickReattach_two :
    ¬ ∀ (actions : List Action) (st : State), run step {} actions = some st → OneInLoop st := by
  intro h
  have hone := h quickReattach quickReattachEnd run_quickReattach
  have hsame := hone 0 1 .sleeping .testing rfl rfl rfl rfl
  cases hsame

/-- The second attach comes when the thread has seen the cleared flag. -/
def slowReattach : List Action :=
  firstRound ++ [.detach 0, .inject none, .inject none, .thread 0 0, .thread 0 0, .attach 1] ++
    List.replicate 7 (.inject none) ++ [.thread 1 0, .thread 0 0]

def slowReattachEnd : State where
  attached := Function.update (Function.update (Function.update (fun _ => false) 0 true) 0 false)
    1 true
  profilerActive := some true
  profilerThread := some 1
  threads := [.closing, .testing]

theorem oneInLoop_of_settled_slowReattach : OneInLoop slowReattachEnd :=
  oneInLoop_of_settled slowReattach slowReattachEnd rfl (by decide)

end HpcProfiler.ProfilerThreads
