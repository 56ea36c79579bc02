import HpcProfiler.LayerSteps
import HpcProfiler.StepSystem
import Mathlib.Algebra.Order.Group.Multiset
import Mathlib.Tactic.Abel

/-!
Where the events are. Any number of calls run at once, each a step at a time. Every
event made so far is in the dealloc queue, in the hands of a call, in the buffer or in
the result of a flush, and in one of these only.
-/

namespace HpcProfiler.EventAccounting

open Events MemoryLayer LayerSteps StepSystem

/-- The events in the local variables of a call that are not yet passed on. -/
def holds : Call → List CpuEvent
  | .collect c => c.newAllocs ++ c.pending
  | .stop (.collecting c) => c.newAllocs ++ c.pending
  | .flush (.takeEvents pending) => pending
  | .onDealloc (.append event) => [event]
  | _ => []

/-- The results of a flush are kept apart: a flush empties the buffer, while what the
other calls return stays in it. -/
def flushedBy : Call → List CpuEvent → List (List CpuEvent)
  | .flush _, result => [result]
  | _, _ => []

def Begun : Call → Prop
  | .collect c => WellBegun c
  | .stop (.collecting c) => WellBegun c
  | _ => True

/-- A step makes events, and these and the ones that there were are after it in the
queue, in hand, in the buffer or given out. -/
def Accounts (ly ly' : Layer) (held held' given : List CpuEvent) : Prop :=
  ∃ new, ly'.made = ly.made ++ new ∧
    (ly'.deallocQueue : Multiset CpuEvent) + held' + ly'.events + given =
      ly.deallocQueue + held + ly.events + new

theorem Accounts.refl (ly : Layer) (held : List CpuEvent) : Accounts ly ly held held [] :=
  ⟨[], by simp, by simp⟩

theorem accounts_going {env : Env} {ly ly' : Layer} {c c' : Collect}
    (hbegun : WellBegun c) (h : CollectEffect env ly c ly' (.going c')) :
    Accounts ly ly' (c.newAllocs ++ c.pending) (c'.newAllocs ++ c'.pending) [] := by
  cases h with
  | drain hpc =>
    have hnew := hbegun.newAllocs (by rw [hpc]; rfl)
    have hpending := hbegun.pending hpc
    exact ⟨[], by simp, by simp [hnew, hpending]⟩
  | number d rest hpc =>
    refine ⟨[_], rfl, ?_⟩
    simp only [← Multiset.coe_add, Multiset.coe_nil, add_zero]
    abel
  | insert d rest hpc => exact Accounts.refl _ _
  | quiet last _ hpending hnew hpc hnext hearly => exact ⟨[], by simp, by simp [hpending, hnew]⟩

theorem accounts_returned {env : Env} {ly ly' : Layer} {c : Collect}
    {result : List CpuEvent} (hbegun : WellBegun c)
    (h : CollectEffect env ly c ly' (.returned result)) :
    Accounts ly ly' (c.newAllocs ++ c.pending) [] [] := by
  cases h with
  | idleExtend hpc =>
    have hnew := hbegun.newAllocs (by rw [hpc]; rfl)
    refine ⟨[], by simp, ?_⟩
    simp only [hnew, List.nil_append, ← Multiset.coe_add, Multiset.coe_nil, add_zero]
    abel
  | extend hpc =>
    refine ⟨[], by simp, ?_⟩
    simp only [← Multiset.coe_add, Multiset.coe_nil, add_zero]
    abel

theorem startStep_accounts {env : Env} {ly ly' : Layer} {pc : Start} {out : Outcome Start}
    (h : startStep env ly pc = (ly', out)) : Accounts ly ly' [] [] [] := by
  have hlayer := congrArg Prod.fst h
  subst hlayer
  cases pc with
  | startTracing =>
    simp only [startStep]
    cases env.snapshot <;> exact ⟨[], by simp, by simp⟩
  | _ => exact ⟨[], by simp [startStep], by simp [startStep]⟩

/-- A call that goes on. -/
theorem callStep_going {env : Env} {ly ly' : Layer} {call call' : Call} (hbegun : Begun call)
    (h : callStep env ly call = (ly', .going call')) :
    Begun call' ∧ Accounts ly ly' (holds call) (holds call') [] := by
  cases call with
  | start pc =>
    obtain ⟨pc', hpc, rfl⟩ := going_of_map h
    exact ⟨trivial, startStep_accounts hpc⟩
  | collect c =>
    obtain ⟨c', hc, rfl⟩ := going_of_map h
    have heffect := collectStep_eq_effect hc
    exact ⟨WellBegun.step hbegun heffect, accounts_going hbegun heffect⟩
  | flush pc =>
    obtain ⟨pc', hpc, rfl⟩ := going_of_map h
    refine ⟨trivial, ?_⟩
    cases pc with
    | drain =>
      cases hpc
      exact ⟨[], by simp, by simp [holds]⟩
    | takeEvents pending => cases hpc
  | stop pc =>
    obtain ⟨pc', hpc, rfl⟩ := going_of_map h
    cases pc with
    | checkRunning =>
      obtain ⟨rfl, hout⟩ := Prod.mk.inj hpc
      split at hout
      · cases hout
        exact ⟨wellBegun_init, Accounts.refl _ []⟩
      · cases hout
    | collecting c =>
      rcases going_of_toStop hpc with ⟨c', hc, rfl⟩ | ⟨remaining, hc, rfl⟩
      · have heffect := collectStep_eq_effect hc
        exact ⟨WellBegun.step hbegun heffect, accounts_going hbegun heffect⟩
      · exact ⟨trivial, accounts_returned hbegun (collectStep_eq_effect hc)⟩
    | clearRunning remaining => cases hpc
  | onDealloc pc =>
    obtain ⟨pc', hpc, rfl⟩ := going_of_map h
    refine ⟨trivial, ?_⟩
    cases pc with
    | pop addr =>
      obtain ⟨rfl, hout⟩ := Prod.mk.inj hpc
      split at hout
      · cases hout
      · cases hout
        exact ⟨[], by simp, by simp [holds]⟩
    | stamp addr info =>
      cases hpc
      exact Accounts.refl _ []
    | number addr info ts =>
      cases hpc
      refine ⟨[_], rfl, ?_⟩
      simp only [holds, Multiset.coe_nil, add_zero]
      abel
    | append event => cases hpc

/-- A call that returns. -/
theorem callStep_returned {env : Env} {ly ly' : Layer} {call : Call} {result : List CpuEvent}
    (hbegun : Begun call) (h : callStep env ly call = (ly', .returned result)) :
    Accounts ly ly' (holds call) [] (flushedBy call result).flatten := by
  cases call with
  | start pc => exact startStep_accounts (returned_of_map h)
  | collect c => exact accounts_returned hbegun (collectStep_eq_effect (returned_of_map h))
  | flush pc =>
    have hpc := returned_of_map h
    cases pc with
    | drain => cases hpc
    | takeEvents pending =>
      cases hpc
      refine ⟨[], by simp, ?_⟩
      simp only [holds, flushedBy, List.flatten_singleton, ← Multiset.coe_add, Multiset.coe_nil,
        add_zero]
      abel
  | stop pc =>
    have hpc := returned_of_map h
    cases pc with
    | checkRunning =>
      obtain ⟨rfl, -⟩ := Prod.mk.inj hpc
      exact Accounts.refl _ []
    | collecting c => exact (not_returned_of_toStop hpc).elim
    | clearRunning remaining =>
      cases hpc
      exact ⟨[], by simp, by simp [holds, flushedBy]⟩
  | onDealloc pc =>
    have hpc := returned_of_map h
    cases pc with
    | pop addr =>
      obtain ⟨rfl, -⟩ := Prod.mk.inj hpc
      exact ⟨[], by simp, by simp [holds, flushedBy]⟩
    | stamp addr info => cases hpc
    | number addr info ts => cases hpc
    | append event =>
      cases hpc
      refine ⟨[], by simp, ?_⟩
      simp only [holds, flushedBy, List.flatten_nil, ← Multiset.coe_add, Multiset.coe_nil, add_zero]

/-- The layer, the calls in progress and the results of the flushes so far. A call that
raises is gone with its local variables. -/
structure Pool where
  layer : Layer := {}
  calls : List Call := []
  flushed : List (List CpuEvent) := []
  raised : Bool := false

inductive Action
  | call (request : Request)
  | step (i : ℕ) (env : Env)

def stepCall (p : Pool) (i : ℕ) (env : Env) (call : Call) : Pool :=
  match callStep env p.layer call with
  | (layer, .going call') => { p with layer, calls := p.calls.set i call' }
  | (layer, .returned result) =>
    { p with layer, calls := p.calls.eraseIdx i, flushed := p.flushed ++ flushedBy call result }
  | (layer, .raised) => { p with layer, calls := p.calls.eraseIdx i, raised := true }

def step (p : Pool) : Action → Option Pool
  | .call request => some { p with calls := p.calls ++ [request.call] }
  | .step i env => p.calls[i]?.map (stepCall p i env)

structure Accounted (p : Pool) : Prop where
  begun : ∀ call ∈ p.calls, Begun call
  numbered : Numbered p.layer
  places : (p.layer.made : Multiset CpuEvent) =
    p.layer.deallocQueue + p.calls.flatMap holds + p.layer.events + p.flushed.flatten

theorem accounted_init (trackRefs : Bool) (nextId : ℤ) :
    Accounted { layer := .init trackRefs nextId } :=
  ⟨by simp, numbered_init trackRefs nextId, by simp [Layer.init]⟩

theorem holds_eraseIdx {calls : List Call} {i : ℕ} {call : Call} (hi : calls[i]? = some call) :
    (calls.flatMap holds : Multiset CpuEvent) = holds call + (calls.eraseIdx i).flatMap holds := by
  obtain ⟨hlt, heq⟩ := List.getElem?_eq_some_iff.mp hi
  have hperm := (List.getElem_cons_eraseIdx_perm hlt).flatMap_right holds
  rw [heq, List.flatMap_cons] at hperm
  rw [Multiset.coe_add]
  exact Multiset.coe_eq_coe.mpr hperm.symm

theorem holds_set {calls : List Call} {i : ℕ} {call : Call} (hi : calls[i]? = some call)
    (call' : Call) : ((calls.set i call').flatMap holds : Multiset CpuEvent) =
      holds call' + (calls.eraseIdx i).flatMap holds := by
  obtain ⟨hlt, -⟩ := List.getElem?_eq_some_iff.mp hi
  have hperm := (List.set_perm_cons_eraseIdx hlt call').flatMap_right holds
  rw [List.flatMap_cons] at hperm
  rw [Multiset.coe_add]
  exact Multiset.coe_eq_coe.mpr hperm

/-- What a step of one call accounts for, beside what the others hold and what was
flushed before. -/
theorem Accounts.beside {ly ly' : Layer} {held held' given others flushed : List CpuEvent}
    (h : Accounts ly ly' held held' given)
    (hplaces : (ly.made : Multiset CpuEvent) =
      ly.deallocQueue + (held + others) + ly.events + flushed) :
    (ly'.made : Multiset CpuEvent) =
      ly'.deallocQueue + (held' + others) + ly'.events + (flushed ++ given : List CpuEvent) := by
  obtain ⟨new, hmade, hplaces'⟩ := h
  rw [hmade, ← Multiset.coe_add, ← Multiset.coe_add, hplaces]
  calc (ly.deallocQueue + (held + others) + ly.events + flushed + new : Multiset CpuEvent)
      = (ly.deallocQueue + held + ly.events + new) + (others + flushed) := by abel
    _ = (ly'.deallocQueue + held' + ly'.events + given) + (others + flushed) := by rw [hplaces']
    _ = ly'.deallocQueue + (held' + others) + ly'.events + (flushed + given) := by abel

/-- A step of a call leaves every event, old or new, in one place. -/
theorem accounted_stepCall {p : Pool} {i : ℕ} {env : Env} {call : Call} (h : Accounted p)
    (hi : p.calls[i]? = some call) (hraised : (stepCall p i env call).raised = false) :
    Accounted (stepCall p i env call) := by
  have hbegun := h.begun call (List.mem_of_getElem? hi)
  have hmakes := callStep_makes env p.layer call
  have hplaces := h.places
  rw [holds_eraseIdx hi] at hplaces
  unfold stepCall at hraised ⊢
  rcases hcall : callStep env p.layer call with ⟨layer, out⟩
  rw [hcall] at hraised hmakes
  cases out with
  | going call' =>
    obtain ⟨hbegun', haccounts⟩ := callStep_going hbegun hcall
    refine ⟨?_, h.numbered.step hmakes, ?_⟩
    · intro other hother
      rcases List.mem_or_eq_of_mem_set hother with hmem | rfl
      · exact h.begun other hmem
      · exact hbegun'
    · have hplaces' := haccounts.beside hplaces
      rw [List.append_nil] at hplaces'
      rw [hplaces', holds_set hi]
  | returned result =>
    have haccounts := (callStep_returned hbegun hcall).beside hplaces
    refine ⟨?_, h.numbered.step hmakes, ?_⟩
    · intro other hother
      exact h.begun other (List.mem_of_mem_eraseIdx hother)
    · rw [haccounts, Multiset.coe_nil, zero_add, List.flatten_append]
  | raised => cases hraised

theorem raised_stepCall {p : Pool} {i : ℕ} {env : Env} {call : Call}
    (hraised : (stepCall p i env call).raised = false) : p.raised = false := by
  unfold stepCall at hraised
  generalize callStep env p.layer call = result at hraised
  obtain ⟨layer, out⟩ := result
  cases out with
  | raised => cases hraised
  | _ => exact hraised

/-- Unless a call has raised, every step keeps the accounts. -/
theorem step_accounted (p : Pool) (a : Action) (p' : Pool)
    (h : p.raised = false → Accounted p) (hstep : step p a = some p') :
    p'.raised = false → Accounted p' := by
  intro hraised
  cases a with
  | call request =>
    cases hstep
    have hp := h hraised
    refine ⟨?_, hp.numbered, ?_⟩
    · intro call hcall
      rcases List.mem_append.mp hcall with hmem | hmem
      · exact hp.begun call hmem
      · rw [List.mem_singleton.mp hmem]
        cases request <;> first | exact wellBegun_init | trivial
    · show (p.layer.made : Multiset CpuEvent) = _ + ((p.calls ++ [request.call]).flatMap holds) +
        _ + _
      have hnone : holds request.call = [] := by cases request <;> rfl
      rw [List.flatMap_append, List.flatMap_singleton, hnone, List.append_nil]
      exact hp.places
  | step i env =>
    obtain ⟨call, hi, rfl⟩ := Option.map_eq_some_iff.mp hstep
    exact accounted_stepCall (h (raised_stepCall hraised)) hi hraised

/-- In every run in which no call raises, the events made have distinct ids, and each
is in one place: in the queue, in the hands of a call, in the buffer or in the result
of one flush. -/
theorem events_in_one_place (trackRefs : Bool) (nextId : ℤ) (actions : List Action) (p : Pool)
    (hrun : run step { layer := .init trackRefs nextId } actions = some p)
    (hraised : p.raised = false) :
    (p.layer.made.map fun e => e.base.eventId).Nodup ∧
      p.layer.made.Perm (p.layer.deallocQueue ++ p.calls.flatMap holds ++ p.layer.events ++
        p.flushed.flatten) := by
  have h := run_keeps step_accounted (fun _ => accounted_init trackRefs nextId) hrun hraised
  refine ⟨h.numbered.nodup, Multiset.coe_eq_coe.mp ?_⟩
  rw [h.places]
  simp only [Multiset.coe_add]

/-- The program allocates one object, which a collect finds. -/
def oneObject : Env where
  now := 100
  snapshot := some (AList.insert [("main.py", 3)] ⟨64, 1⟩ ∅)
  sightings := [⟨⟨0, 4096, true⟩, some false, some false, some (some [("main.py", 3)])⟩]
  description := some { objType := "Payload", moduleName := "__main__", refCount := 1 }

/-- The collect is still on its way when the finalizer of the object and a flush run. -/
def sampleRun : List Action :=
  [.call .start] ++ List.replicate 3 (.step 0 { snapshot := some ∅ }) ++
    [.call .collect] ++ List.replicate 12 (.step 0 oneObject) ++
    [.call (.onDealloc 4096)] ++ List.replicate 4 (.step 1 { now := 200 }) ++
    [.call .flush] ++ List.replicate 2 (.step 1 {})

theorem sampleRun_isSome : (run step {} sampleRun).isSome = true := by decide +kernel

def sampleEnd : Pool := (run step {} sampleRun).get sampleRun_isSome

theorem events_in_one_place_sampleRun :
    (sampleEnd.layer.made.map fun e => e.base.eventId).Nodup ∧
      sampleEnd.layer.made.Perm (sampleEnd.layer.deallocQueue ++ sampleEnd.calls.flatMap holds ++
        sampleEnd.layer.events ++ sampleEnd.flushed.flatten) :=
  events_in_one_place false 1 sampleRun sampleEnd (Option.some_get sampleRun_isSome).symm
    (by decide +kernel)

end HpcProfiler.EventAccounting
