import HpcProfiler.StepSystem

/-!
The start and the stop of GPU profiling in a target process. Attaching injects a
thread that loads the library and calls cupti_start, detaching one that calls
cupti_stop; the two meet only in attributes of the sys module and in g_layer. When
both threads have finished, nothing is left running exactly if no write of the start
thread came after the stop thread had looked for it.
-/

namespace HpcProfiler.CuptiThreads

open StepSystem

/-- Where _hpc_cupti_start is: loading the library, inside cupti_start, or setting an
attribute. -/
inductive StartPc
  | idle
  | loading
  | entering
  | creating
  | enabling
  | settingLib
  | settingActive
  | settingError (message : String)
  | signalling
  | finished
  deriving DecidableEq

/-- Where _hpc_cupti_stop is. -/
inductive StopPc
  | idle
  | reading
  | stopping
  | deleting
  | clearingActive
  | clearingLib
  | finished
  deriving DecidableEq

structure CuptiLayer where
  rb : Bool := false
  running : Bool := false
  deriving DecidableEq

/-- The attacher's flag, the attributes of sys, the globals of the library and the two
threads. -/
structure State where
  attached : Bool := false
  cuptiActive : Option Bool := none
  cuptiReady : Option Bool := none
  cuptiLib : Bool := false
  cuptiError : Option String := none
  gLayer : Option CuptiLayer := none
  layerInstance : Bool := false
  startPc : StartPc := .idle
  stopPc : StopPc := .idle

def makeGpuBootstrap (st : State) : State :=
  if st.cuptiActive.getD false then st
  else { st with cuptiActive := some false, cuptiReady := some false, startPc := .loading }

def attach (st : State) : State :=
  if st.attached then st else { makeGpuBootstrap st with attached := true }

def detach (st : State) : State :=
  if st.attached then { st with attached := false, stopPc := .reading } else st

/-- A failure is the exception of loading the library, or an rb_create that returns
null. -/
def hpcCuptiStart (failure : Option String) (st : State) : Option State :=
  match st.startPc with
  | .idle => none
  | .loading =>
    match failure with
    | some message => some { st with startPc := .settingError message }
    | none => some { st with startPc := .entering }
  | .entering =>
    if st.gLayer.isSome then some { st with startPc := .settingError "cupti_start returned 0" }
    else some { st with gLayer := some {}, startPc := .creating }
  | .creating =>
    match failure with
    | some _ => some { st with gLayer := none, startPc := .settingError "cupti_start returned 0" }
    | none =>
      some { st with gLayer := st.gLayer.map ({ · with rb := true }), startPc := .enabling }
  | .enabling =>
    some { st with
      gLayer := st.gLayer.map ({ · with running := true })
      layerInstance := true
      startPc := .settingLib }
  | .settingLib => some { st with cuptiLib := true, startPc := .settingActive }
  | .settingActive => some { st with cuptiActive := some true, startPc := .signalling }
  | .settingError message => some { st with cuptiError := some message, startPc := .signalling }
  | .signalling => some { st with cuptiReady := some true, startPc := .finished }
  | .finished => none

/-- CuptiLayer::stop on the global layer. -/
def stopLayer (st : State) (layer : CuptiLayer) : State :=
  if layer.running then
    { st with gLayer := some { layer with rb := false, running := false }, layerInstance := false }
  else st

def hpcCuptiStop (st : State) : Option State :=
  match st.stopPc with
  | .idle => none
  | .reading =>
    if st.cuptiLib then some { st with stopPc := .stopping }
    else some { st with stopPc := .finished }
  | .stopping =>
    match st.gLayer with
    | none => some { st with stopPc := .clearingActive }
    | some layer => some { stopLayer st layer with stopPc := .deleting }
  | .deleting => some { st with gLayer := none, stopPc := .clearingActive }
  | .clearingActive => some { st with cuptiActive := some false, stopPc := .clearingLib }
  | .clearingLib => some { st with cuptiLib := false, stopPc := .finished }
  | .finished => none

inductive Action
  | attach
  | detach
  | start (failure : Option String)
  | stop

/-- There is one start thread: the target is not attached to again. -/
def step (st : State) : Action → Option State
  | .attach => if st.startPc = .idle then some (attach st) else none
  | .detach => some (detach st)
  | .start failure => hpcCuptiStart failure st
  | .stop => hpcCuptiStop st

def BothFinished (st : State) : Prop := st.startPc = .finished ∧ st.stopPc = .finished

/-- CUPTI is not running, and both flags say so. -/
def Stopped (st : State) : Prop :=
  st.gLayer = none ∧ st.cuptiActive = some false ∧ st.attached = false

/-- The start thread publishes the library before the stop thread has looked for it,
and the active flag before the stop thread has cleared it. -/
def InTime (st : State) : Action → Prop
  | .start _ =>
    (st.startPc = .settingLib → st.stopPc = .idle ∨ st.stopPc = .reading) ∧
      (st.startPc = .settingActive → st.stopPc ≠ .clearingLib ∧ st.stopPc ≠ .finished)
  | _ => True

/-- The library is not yet published. -/
structure Pending (st : State) : Prop where
  startPc : st.startPc = .loading ∨ st.startPc = .entering ∨ st.startPc = .creating ∨
    st.startPc = .enabling ∨ st.startPc = .settingLib
  stopPc : st.stopPc = .idle ∨ st.stopPc = .reading ∨ st.stopPc = .finished
  attached : st.stopPc ≠ .idle → st.attached = false
  cuptiLib : st.cuptiLib = false
  cuptiActive : st.cuptiActive = some false
  no_layer : st.startPc = .loading ∨ st.startPc = .entering → st.gLayer = none
  layer : st.startPc = .creating ∨ st.startPc = .enabling ∨ st.startPc = .settingLib →
    st.gLayer.isSome = true

/-- The start has failed and left nothing behind. -/
structure Failed (st : State) : Prop where
  startPc : (∃ message, st.startPc = .settingError message) ∨ st.startPc = .signalling ∨
    st.startPc = .finished
  stopPc : st.stopPc = .idle ∨ st.stopPc = .reading ∨ st.stopPc = .finished
  attached : st.stopPc ≠ .idle → st.attached = false
  cuptiLib : st.cuptiLib = false
  cuptiActive : st.cuptiActive = some false
  gLayer : st.gLayer = none

/-- The library was published before the stop thread looked for it. -/
structure Published (st : State) : Prop where
  startPc : st.startPc = .settingActive ∨ st.startPc = .signalling ∨ st.startPc = .finished
  attached : st.stopPc ≠ .idle → st.attached = false
  cuptiLib : st.stopPc = .reading ∨ st.stopPc = .idle → st.cuptiLib = true
  gLayer : st.stopPc = .clearingActive ∨ st.stopPc = .clearingLib ∨ st.stopPc = .finished →
    st.gLayer = none
  cuptiActive : st.stopPc = .clearingLib ∨ st.stopPc = .finished → st.cuptiActive = some false

inductive Inv (st : State) : Prop
  | unstarted (h : st = {})
  | pending (h : Pending st)
  | failed (h : Failed st)
  | published (h : Published st)

/-- The library was published too late, or the flag was set too late. -/
inductive Late (st : State) : Prop
  | layer (hattached : st.attached = false)
      (hstart : st.startPc = .settingActive ∨ st.startPc = .signalling ∨ st.startPc = .finished)
      (hstop : st.stopPc = .finished) (h : st.gLayer.isSome = true)
  | flag (hattached : st.attached = false)
      (hstart : st.startPc = .signalling ∨ st.startPc = .finished)
      (hstop : st.stopPc = .clearingLib ∨ st.stopPc = .finished)
      (h : st.cuptiActive = some true)

theorem step_unstarted {a : Action} {st' : State} (hstep : step {} a = some st') : Inv st' := by
  cases a with
  | attach =>
    cases hstep
    exact .pending {
      startPc := .inl rfl
      stopPc := .inl rfl
      attached := fun h => absurd rfl h
      cuptiLib := rfl
      cuptiActive := rfl
      no_layer := fun _ => rfl
      layer := by simp [attach, makeGpuBootstrap] }
  | detach =>
    cases hstep
    exact .unstarted rfl
  | start failure => cases hstep
  | stop => cases hstep

theorem detach_cases (st : State) : detach st = st ∨
    st.attached = true ∧ detach st = { st with attached := false, stopPc := .reading } := by
  unfold detach
  by_cases hattached : st.attached = true
  · exact .inr ⟨hattached, if_pos hattached⟩
  · exact .inl (if_neg hattached)

theorem Pending.detach {st : State} (h : Pending st) : Pending (detach st) := by
  rcases detach_cases st with hsame | ⟨-, hdetached⟩
  · rw [hsame]
    exact h
  · rw [hdetached]
    exact { h with stopPc := .inr (.inl rfl), attached := fun _ => rfl }

theorem Failed.detach {st : State} (h : Failed st) : Failed (detach st) := by
  rcases detach_cases st with hsame | ⟨-, hdetached⟩
  · rw [hsame]
    exact h
  · rw [hdetached]
    exact { h with stopPc := .inr (.inl rfl), attached := fun _ => rfl }

theorem Published.detach {st : State} (h : Published st) : Published (detach st) := by
  rcases detach_cases st with hsame | ⟨hattached, hdetached⟩
  · rw [hsame]
    exact h
  · have hidle : st.stopPc = .idle := by
      by_contra hne
      rw [h.attached hne] at hattached
      cases hattached
    rw [hdetached]
    exact {
      startPc := h.startPc
      attached := fun _ => rfl
      cuptiLib := fun _ => h.cuptiLib (.inr hidle)
      gLayer := by simp
      cuptiActive := by simp }

/-- The start thread goes on, fails, or publishes the library in time. -/
theorem Pending.start {st st' : State} {failure : Option String} (h : Pending st)
    (hok : InTime st (.start failure)) (hstep : hpcCuptiStart failure st = some st') : Inv st' := by
  rcases h.startPc with hpc | hpc | hpc | hpc | hpc
  · cases failure with
    | some message =>
      simp only [hpcCuptiStart, hpc, Option.some.injEq] at hstep
      subst hstep
      exact .failed { h with
        startPc := .inl ⟨message, rfl⟩
        gLayer := h.no_layer (.inl hpc) }
    | none =>
      simp only [hpcCuptiStart, hpc, Option.some.injEq] at hstep
      subst hstep
      exact .pending { h with
        startPc := .inr (.inl rfl)
        no_layer := fun _ => h.no_layer (.inl hpc)
        layer := by simp }
  · have hnone := h.no_layer (.inr hpc)
    simp only [hpcCuptiStart, hpc, hnone, Option.isSome_none, Bool.false_eq_true, if_false,
      Option.some.injEq] at hstep
    subst hstep
    exact .pending { h with
      startPc := .inr (.inr (.inl rfl))
      no_layer := by simp
      layer := fun _ => rfl }
  · cases failure with
    | some message =>
      simp only [hpcCuptiStart, hpc, Option.some.injEq] at hstep
      subst hstep
      exact .failed { h with
        startPc := .inl ⟨_, rfl⟩
        gLayer := rfl }
    | none =>
      simp only [hpcCuptiStart, hpc, Option.some.injEq] at hstep
      subst hstep
      exact .pending { h with
        startPc := .inr (.inr (.inr (.inl rfl)))
        no_layer := by simp
        layer := fun _ => by simpa using h.layer (.inl hpc) }
  · simp only [hpcCuptiStart, hpc, Option.some.injEq] at hstep
    subst hstep
    exact .pending { h with
      startPc := .inr (.inr (.inr (.inr rfl)))
      no_layer := by simp
      layer := fun _ => by simpa using h.layer (.inr (.inl hpc)) }
  · have hearly := hok.1 hpc
    simp only [hpcCuptiStart, hpc, Option.some.injEq] at hstep
    subst hstep
    exact .published {
      startPc := .inl rfl
      attached := h.attached
      cuptiLib := fun _ => rfl
      gLayer := by rcases hearly with hstop | hstop <;> simp [hstop]
      cuptiActive := by rcases hearly with hstop | hstop <;> simp [hstop] }

/-- Before the library is published the stop thread finds nothing to stop. -/
theorem stop_unpublished {st st' : State} (hlib : st.cuptiLib = false)
    (hpc : st.stopPc = .idle ∨ st.stopPc = .reading ∨ st.stopPc = .finished)
    (hstep : hpcCuptiStop st = some st') :
    st.stopPc = .reading ∧ st' = { st with stopPc := .finished } := by
  rcases hpc with hpc | hpc | hpc
  · simp [hpcCuptiStop, hpc] at hstep
  · simp only [hpcCuptiStop, hpc] at hstep
    rw [if_neg (by simp [hlib])] at hstep
    exact ⟨hpc, (Option.some.inj hstep).symm⟩
  · simp [hpcCuptiStop, hpc] at hstep

theorem Pending.stop {st st' : State} (h : Pending st) (hstep : hpcCuptiStop st = some st') :
    Pending st' := by
  obtain ⟨hpc, rfl⟩ := stop_unpublished h.cuptiLib h.stopPc hstep
  exact { h with
    stopPc := .inr (.inr rfl)
    attached := fun _ => h.attached (by rw [hpc]; simp) }

theorem Failed.start {st st' : State} {failure : Option String} (h : Failed st)
    (hstep : hpcCuptiStart failure st = some st') : Failed st' := by
  rcases h.startPc with ⟨message, hpc⟩ | hpc | hpc
  · simp only [hpcCuptiStart, hpc, Option.some.injEq] at hstep
    subst hstep
    exact { h with startPc := .inr (.inl rfl) }
  · simp only [hpcCuptiStart, hpc, Option.some.injEq] at hstep
    subst hstep
    exact { h with startPc := .inr (.inr rfl) }
  · simp [hpcCuptiStart, hpc] at hstep

theorem Failed.stop {st st' : State} (h : Failed st) (hstep : hpcCuptiStop st = some st') :
    Failed st' := by
  obtain ⟨hpc, rfl⟩ := stop_unpublished h.cuptiLib h.stopPc hstep
  exact { h with
    stopPc := .inr (.inr rfl)
    attached := fun _ => h.attached (by rw [hpc]; simp) }

theorem Published.start {st st' : State} {failure : Option String} (h : Published st)
    (hok : InTime st (.start failure)) (hstep : hpcCuptiStart failure st = some st') :
    Published st' := by
  rcases h.startPc with hpc | hpc | hpc
  · have hearly := hok.2 hpc
    simp only [hpcCuptiStart, hpc, Option.some.injEq] at hstep
    subst hstep
    exact { h with
      startPc := .inr (.inl rfl)
      cuptiActive := fun hstop => absurd hstop (not_or.mpr hearly) }
  · simp only [hpcCuptiStart, hpc, Option.some.injEq] at hstep
    subst hstep
    exact { h with
      startPc := .inr (.inr rfl)
      cuptiActive := h.cuptiActive }
  · simp [hpcCuptiStart, hpc] at hstep

theorem stopLayer_startPc (st : State) (layer : CuptiLayer) :
    (stopLayer st layer).startPc = st.startPc := by
  unfold stopLayer
  split <;> rfl

theorem stopLayer_attached (st : State) (layer : CuptiLayer) :
    (stopLayer st layer).attached = st.attached := by
  unfold stopLayer
  split <;> rfl

theorem Published.stop {st st' : State} (h : Published st) (hstep : hpcCuptiStop st = some st') :
    Published st' := by
  have hattached : st.stopPc ≠ .idle → st.attached = false := h.attached
  have hlib := h.cuptiLib
  have hlayer := h.gLayer
  have hactive := h.cuptiActive
  cases hpc : st.stopPc with
  | idle => simp [hpcCuptiStop, hpc] at hstep
  | reading =>
    simp only [hpcCuptiStop, hpc, hlib (.inl hpc), if_true, Option.some.injEq] at hstep
    subst hstep
    exact ⟨h.startPc, fun _ => hattached (by simp [hpc]), by simp, by simp, by simp⟩
  | stopping =>
    cases hg : st.gLayer with
    | none =>
      simp only [hpcCuptiStop, hpc, hg, Option.some.injEq] at hstep
      subst hstep
      exact ⟨h.startPc, fun _ => hattached (by simp [hpc]), by simp, fun _ => rfl, by simp⟩
    | some layer =>
      simp only [hpcCuptiStop, hpc, hg, Option.some.injEq] at hstep
      subst hstep
      refine ⟨?_, fun _ => ?_, by simp, by simp, by simp⟩
      · show (stopLayer st layer).startPc = _ ∨ _
        rw [stopLayer_startPc]
        exact h.startPc
      · show (stopLayer st layer).attached = false
        rw [stopLayer_attached]
        exact hattached (by simp [hpc])
  | deleting =>
    simp only [hpcCuptiStop, hpc, Option.some.injEq] at hstep
    subst hstep
    exact ⟨h.startPc, fun _ => hattached (by simp [hpc]), by simp, fun _ => rfl, by simp⟩
  | clearingActive =>
    simp only [hpcCuptiStop, hpc, Option.some.injEq] at hstep
    subst hstep
    exact ⟨h.startPc, fun _ => hattached (by simp [hpc]), by simp, fun _ => hlayer (by simp [hpc]),
      fun _ => rfl⟩
  | clearingLib =>
    simp only [hpcCuptiStop, hpc, Option.some.injEq] at hstep
    subst hstep
    exact ⟨h.startPc, fun _ => hattached (by simp [hpc]), by simp, fun _ => hlayer (by simp [hpc]),
      fun _ => hactive (by simp [hpc])⟩
  | finished => simp [hpcCuptiStop, hpc] at hstep

theorem step_inv (st : State) (a : Action) (st' : State) (hinv : Inv st) (hok : InTime st a)
    (hstep : step st a = some st') : Inv st' := by
  cases hinv with
  | unstarted h =>
    subst h
    exact step_unstarted hstep
  | pending h =>
    cases a with
    | attach =>
      have hbusy : st.startPc ≠ .idle := by rcases h.startPc with h | h | h | h | h <;> simp [h]
      simp [step, hbusy] at hstep
    | detach =>
      cases hstep
      exact .pending h.detach
    | start failure => exact h.start hok hstep
    | stop => exact .pending (h.stop hstep)
  | failed h =>
    cases a with
    | attach =>
      have hbusy : st.startPc ≠ .idle := by rcases h.startPc with ⟨_, h⟩ | h | h <;> simp [h]
      simp [step, hbusy] at hstep
    | detach =>
      cases hstep
      exact .failed h.detach
    | start failure => exact .failed (h.start hstep)
    | stop => exact .failed (h.stop hstep)
  | published h =>
    cases a with
    | attach =>
      have hbusy : st.startPc ≠ .idle := by rcases h.startPc with h | h | h <;> simp [h]
      simp [step, hbusy] at hstep
    | detach =>
      cases hstep
      exact .published h.detach
    | start failure => exact .published (h.start hok hstep)
    | stop => exact .published (h.stop hstep)

theorem inTime_of_not_start (st : State) {a : Action} (h : ∀ failure, a ≠ .start failure) :
    InTime st a := by
  cases a with
  | start failure => exact absurd rfl (h failure)
  | attach => trivial
  | detach => trivial
  | stop => trivial

/-- A library published too late finds the stop thread gone, a flag set too late
stays. -/
theorem step_late (st : State) (a : Action) (st' : State) (hinv : Inv st) (hnot : ¬InTime st a)
    (hstep : step st a = some st') : Late st' := by
  obtain ⟨failure, rfl⟩ : ∃ failure, a = .start failure := by
    by_contra hne
    exact hnot (inTime_of_not_start st fun failure ha => hne ⟨failure, ha⟩)
  have hpc : st.startPc = .settingLib ∨ st.startPc = .settingActive := by
    by_contra hne
    exact hnot ⟨fun h => absurd (.inl h) hne, fun h => absurd (.inr h) hne⟩
  change hpcCuptiStart failure st = some st' at hstep
  cases hinv with
  | unstarted h =>
    subst h
    simp at hpc
  | failed h => rcases h.startPc with ⟨_, h⟩ | h | h <;> simp [h] at hpc
  | pending h =>
    have hlib : st.startPc = .settingLib := by
      rcases h.startPc with h | h | h | h | h <;> simp_all
    have hfinished : st.stopPc = .finished := by
      rcases h.stopPc with hstop | hstop | hstop
      · exact absurd ⟨fun _ => .inl hstop, by simp [hlib]⟩ hnot
      · exact absurd ⟨fun _ => .inr hstop, by simp [hlib]⟩ hnot
      · exact hstop
    simp only [hpcCuptiStart, hlib, Option.some.injEq] at hstep
    subst hstep
    exact .layer (h.attached (by simp [hfinished])) (.inl rfl) hfinished
      (h.layer (.inr (.inr hlib)))
  | published h =>
    have hactive : st.startPc = .settingActive := by
      rcases h.startPc with h | h | h <;> simp_all
    have hcleared : st.stopPc = .clearingLib ∨ st.stopPc = .finished := by
      by_contra hne
      exact hnot ⟨by simp [hactive], fun _ => not_or.mp hne⟩
    simp only [hpcCuptiStart, hactive, Option.some.injEq] at hstep
    subst hstep
    have hdetached : st.attached = false := by
      apply h.attached
      rcases hcleared with h | h <;> simp [h]
    exact .flag hdetached (.inl rfl) hcleared rfl

theorem Late.attached {st : State} (h : Late st) : st.attached = false := by
  cases h with
  | layer hattached => exact hattached
  | flag hattached => exact hattached

theorem Late.busy {st : State} (h : Late st) : st.startPc ≠ .idle := by
  cases h with
  | layer _ hstart => rcases hstart with h | h | h <;> simp [h]
  | flag _ hstart => rcases hstart with h | h <;> simp [h]

theorem Late.start {st st' : State} {failure : Option String} (h : Late st)
    (hstep : hpcCuptiStart failure st = some st') : Late st' := by
  cases h with
  | layer hattached hstart hstop h =>
    rcases hstart with hpc | hpc | hpc
    · simp only [hpcCuptiStart, hpc, Option.some.injEq] at hstep
      subst hstep
      exact .layer hattached (.inr (.inl rfl)) hstop h
    · simp only [hpcCuptiStart, hpc, Option.some.injEq] at hstep
      subst hstep
      exact .layer hattached (.inr (.inr rfl)) hstop h
    · simp [hpcCuptiStart, hpc] at hstep
  | flag hattached hstart hstop h =>
    rcases hstart with hpc | hpc
    · simp only [hpcCuptiStart, hpc, Option.some.injEq] at hstep
      subst hstep
      exact .flag hattached (.inr rfl) hstop h
    · simp [hpcCuptiStart, hpc] at hstep

theorem Late.stop {st st' : State} (h : Late st) (hstep : hpcCuptiStop st = some st') :
    Late st' := by
  cases h with
  | layer hattached hstart hstop h => simp [hpcCuptiStop, hstop] at hstep
  | flag hattached hstart hstop h =>
    rcases hstop with hpc | hpc
    · simp only [hpcCuptiStop, hpc, Option.some.injEq] at hstep
      subst hstep
      exact .flag hattached hstart (.inr rfl) h
    · simp [hpcCuptiStop, hpc] at hstep

theorem Late.step (st : State) (a : Action) (st' : State) (h : Late st)
    (hstep : step st a = some st') : Late st' := by
  cases a with
  | attach => simp [CuptiThreads.step, h.busy] at hstep
  | detach =>
    have hsame : detach st = st := by simp [detach, h.attached]
    cases hstep
    rw [hsame]
    exact h
  | start failure => exact h.start hstep
  | stop => exact h.stop hstep

theorem Inv.stopped {st : State} (hinv : Inv st) (hboth : BothFinished st) : Stopped st := by
  obtain ⟨hstart, hstop⟩ := hboth
  cases hinv with
  | unstarted h =>
    subst h
    cases hstart
  | pending h => rcases h.startPc with h | h | h | h | h <;> simp [h] at hstart
  | failed h => exact ⟨h.gLayer, h.cuptiActive, h.attached (by simp [hstop])⟩
  | published h =>
    exact ⟨h.gLayer (.inr (.inr hstop)), h.cuptiActive (.inr hstop), h.attached (by simp [hstop])⟩

theorem Late.not_stopped {st : State} (h : Late st) : ¬Stopped st := by
  rintro ⟨hlayer, hactive, -⟩
  cases h with
  | layer _ _ _ h => simp [hlayer] at h
  | flag _ _ _ h => simp [hactive] at h

/-- After any run in which both threads have finished, nothing is running and the
flags say so exactly if every step of the start thread was in time. -/
theorem stopped_iff_inTime (actions : List Action) (st : State)
    (hrun : run step {} actions = some st) (hboth : BothFinished st) :
    Stopped st ↔ Along step InTime {} actions := by
  constructor
  · intro hstopped
    by_contra hnot
    exact (run_not_along step_inv step_late Late.step (.unstarted rfl) hnot hrun).not_stopped
      hstopped
  · intro halong
    exact (run_along step_inv (.unstarted rfl) halong hrun).stopped hboth

/-- The target is attached to and detached from at once: the stop thread looks for the
library while it is still loading. -/
def quickDetach : List Action :=
  [.attach, .detach, .stop] ++ List.replicate 7 (.start none)

def quickDetachEnd : State where
  cuptiActive := some true
  cuptiReady := some true
  cuptiLib := true
  gLayer := some { rb := true, running := true }
  layerInstance := true
  startPc := .finished
  stopPc := .finished

theorem stopped_iff_inTime_quickDetach :
    Stopped quickDetachEnd ↔ Along step InTime {} quickDetach :=
  stopped_iff_inTime quickDetach quickDetachEnd rfl ⟨rfl, rfl⟩

/-- CUPTI runs on after both threads have finished. -/
theorem quickDetach_running :
    ∃ st, run step {} quickDetach = some st ∧ BothFinished st ∧ ¬Stopped st := by
  refine ⟨quickDetachEnd, rfl, ⟨rfl, rfl⟩, ?_⟩
  rintro ⟨hlayer, -⟩
  cases hlayer

end HpcProfiler.CuptiThreads
