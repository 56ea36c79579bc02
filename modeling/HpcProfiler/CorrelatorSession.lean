import HpcProfiler.Correlation
import HpcProfiler.StepSystem

/-!
The correlator object while its drain threads run. An append to either event list and
the two copies of `build_session` happen under one lock; the correlation itself runs
on the copies after the lock is released, while the lists may grow on.
-/

namespace HpcProfiler.CorrelatorSession

open Events Correlation StepSystem

/-- The part of a ProfilingSession that the correlation decides. -/
structure Session where
  cpuEvents : List CpuEvent
  gpuEvents : List GpuEvent
  correlatedEvents : List CorrelatedEvent

/-- Where a call of `build_session` stands, with its local variables. -/
inductive CallPc where
  | idle
  | locked
  | copiedCpu (cpuEvents : List CpuEvent)
  | copiedGpu (cpuEvents : List CpuEvent) (gpuEvents : List GpuEvent)
  | unlocked (cpuEvents : List CpuEvent) (gpuEvents : List GpuEvent)
  | returned (session : Session)

structure CorrelatorState where
  cpuEvents : List CpuEvent
  gpuEvents : List GpuEvent
  timeWindow : ℤ
  lockFree : Bool
  call : CallPc

def start (timeWindow : ℤ) (cpuEvents : List CpuEvent) (gpuEvents : List GpuEvent) :
    CorrelatorState where
  cpuEvents := cpuEvents
  gpuEvents := gpuEvents
  timeWindow := timeWindow
  lockFree := true
  call := .idle

inductive Action where
  | appendCpu (event : CpuEvent)
  | appendGpu (event : GpuEvent)
  | buildSession

def buildStep (s : CorrelatorState) : Option CorrelatorState :=
  match s.call with
  | .idle => if s.lockFree then some { s with lockFree := false, call := .locked } else none
  | .locked => some { s with call := .copiedCpu s.cpuEvents }
  | .copiedCpu cpuEvents => some { s with call := .copiedGpu cpuEvents s.gpuEvents }
  | .copiedGpu cpuEvents gpuEvents =>
    some { s with lockFree := true, call := .unlocked cpuEvents gpuEvents }
  | .unlocked cpuEvents gpuEvents =>
    some { s with
      call := .returned
        ⟨cpuEvents, gpuEvents, runCorrelation cpuEvents gpuEvents s.timeWindow⟩ }
  | .returned _ => none

def step (s : CorrelatorState) : Action → Option CorrelatorState
  | .appendCpu event =>
    if s.lockFree then some { s with cpuEvents := s.cpuEvents ++ [event] } else none
  | .appendGpu event =>
    if s.lockFree then some { s with gpuEvents := s.gpuEvents ++ [event] } else none
  | .buildSession => buildStep s

/-- Under the lock the copies are the lists; afterwards the lists have only grown. -/
def CallInv (s : CorrelatorState) : Prop :=
  match s.call with
  | .idle => True
  | .locked => s.lockFree = false
  | .copiedCpu cpuEvents => s.lockFree = false ∧ cpuEvents = s.cpuEvents
  | .copiedGpu cpuEvents gpuEvents =>
    s.lockFree = false ∧ cpuEvents = s.cpuEvents ∧ gpuEvents = s.gpuEvents
  | .unlocked cpuEvents gpuEvents => cpuEvents <+: s.cpuEvents ∧ gpuEvents <+: s.gpuEvents
  | .returned session =>
    session.cpuEvents <+: s.cpuEvents ∧ session.gpuEvents <+: s.gpuEvents ∧
      session.correlatedEvents =
        runCorrelation session.cpuEvents session.gpuEvents s.timeWindow

theorem buildStep_inv {s s' : CorrelatorState} (h : CallInv s) (hstep : buildStep s = some s') :
    CallInv s' := by
  unfold buildStep at hstep
  unfold CallInv at h
  cases hcall : s.call with
  | idle =>
    rw [hcall] at hstep
    by_cases hfree : s.lockFree = true
    · rw [if_pos hfree] at hstep
      cases hstep
      exact rfl
    · rw [if_neg hfree] at hstep
      cases hstep
  | locked =>
    rw [hcall] at hstep h
    cases hstep
    exact ⟨h, rfl⟩
  | copiedCpu cpuEvents =>
    rw [hcall] at hstep h
    cases hstep
    exact ⟨h.1, h.2, rfl⟩
  | copiedGpu cpuEvents gpuEvents =>
    rw [hcall] at hstep h
    cases hstep
    obtain ⟨-, rfl, rfl⟩ := h
    exact ⟨List.prefix_refl _, List.prefix_refl _⟩
  | unlocked cpuEvents gpuEvents =>
    rw [hcall] at hstep h
    cases hstep
    exact ⟨h.1, h.2, rfl⟩
  | returned session =>
    rw [hcall] at hstep
    cases hstep

theorem append_inv {s : CorrelatorState} (h : CallInv s) (hfree : s.lockFree = true)
    (cpuLater : List CpuEvent) (gpuLater : List GpuEvent) :
    CallInv { s with
      cpuEvents := s.cpuEvents ++ cpuLater, gpuEvents := s.gpuEvents ++ gpuLater } := by
  unfold CallInv at h ⊢
  dsimp only
  cases hcall : s.call with
  | idle => trivial
  | locked =>
    rw [hcall] at h
    dsimp only at h
    rw [hfree] at h
    cases h
  | copiedCpu cpuEvents =>
    rw [hcall] at h
    obtain ⟨hheld, -⟩ := h
    rw [hfree] at hheld
    cases hheld
  | copiedGpu cpuEvents gpuEvents =>
    rw [hcall] at h
    obtain ⟨hheld, -⟩ := h
    rw [hfree] at hheld
    cases hheld
  | unlocked cpuEvents gpuEvents =>
    rw [hcall] at h
    exact ⟨h.1.trans (List.prefix_append _ _), h.2.trans (List.prefix_append _ _)⟩
  | returned session =>
    rw [hcall] at h
    exact ⟨h.1.trans (List.prefix_append _ _), h.2.1.trans (List.prefix_append _ _), h.2.2⟩

theorem step_inv {s s' : CorrelatorState} {action : Action} (h : CallInv s)
    (hstep : step s action = some s') : CallInv s' ∧ s'.timeWindow = s.timeWindow := by
  cases action with
  | appendCpu event =>
    rw [step] at hstep
    by_cases hfree : s.lockFree = true
    · rw [if_pos hfree] at hstep
      cases hstep
      have hinv := append_inv h hfree [event] []
      rw [List.append_nil] at hinv
      exact ⟨hinv, rfl⟩
    · rw [if_neg hfree] at hstep
      cases hstep
  | appendGpu event =>
    rw [step] at hstep
    by_cases hfree : s.lockFree = true
    · rw [if_pos hfree] at hstep
      cases hstep
      have hinv := append_inv h hfree [] [event]
      rw [List.append_nil] at hinv
      exact ⟨hinv, rfl⟩
    · rw [if_neg hfree] at hstep
      cases hstep
  | buildSession =>
    refine ⟨buildStep_inv h hstep, ?_⟩
    rw [step] at hstep
    unfold buildStep at hstep
    split at hstep
    · split at hstep
      · cases hstep
        rfl
      · cases hstep
    all_goals cases hstep
    all_goals rfl

/-- The invariant together with the time window the correlator was built with. -/
def SessionInv (timeWindow : ℤ) (s : CorrelatorState) : Prop :=
  CallInv s ∧ s.timeWindow = timeWindow

/-- A returned session is the correlation of its own lists, which are initial parts of
the lists collected by then. -/
theorem run_session {timeWindow : ℤ} {cpuEvents : List CpuEvent} {gpuEvents : List GpuEvent}
    {actions : List Action} {s : CorrelatorState} {session : Session}
    (hrun : run step (start timeWindow cpuEvents gpuEvents) actions = some s)
    (hreturn : s.call = .returned session) :
    session.cpuEvents <+: s.cpuEvents ∧ session.gpuEvents <+: s.gpuEvents ∧
      session.correlatedEvents =
        runCorrelation session.cpuEvents session.gpuEvents timeWindow := by
  have hkeep : ∀ t action t', SessionInv timeWindow t → step t action = some t' →
      SessionInv timeWindow t' := by
    intro t action t' ht hstep
    obtain ⟨hinv, hwindow⟩ := step_inv ht.1 hstep
    exact ⟨hinv, hwindow.trans ht.2⟩
  have hstart : SessionInv timeWindow (start timeWindow cpuEvents gpuEvents) := ⟨trivial, rfl⟩
  obtain ⟨hinv, hwindow⟩ := run_keeps hkeep hstart hrun
  unfold CallInv at hinv
  rw [hreturn, hwindow] at hinv
  exact hinv

end HpcProfiler.CorrelatorSession
