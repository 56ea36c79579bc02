import HpcProfiler.AllocationHistory

/-!
The locks of the memory layer and the finalizers that interrupt its calls. Each thread
has a stack of calls, the last one on top; a call takes the lock of its next step, makes
the step and gives the lock back, and at any of these points a finalizer may start on
top of the stack. The locks are not reentrant, so a finalizer waits for ever for a lock
that is held below it.
-/

namespace HpcProfiler.LayerLocks

open AllocationHistory MemoryLayer StepSystem
open LayerWorld (mainAfter)

/-- A call before its step, in the critical section, or about to leave it with what is
next to do. -/
inductive Frame
  | ready (call : Call)
  | inside (lock : Lock) (call : Call)
  | leaving (lock : Lock) (next : Option Call)

/-- The lock that a call holds. -/
def Frame.held : Frame → Option Lock
  | .ready _ => none
  | .inside lock _ => some lock
  | .leaving lock _ => some lock

structure Threads where
  layer : Layer := {}
  stack : ℕ → List Frame := fun _ => []
  holder : Lock → Option ℕ := fun _ => none

inductive Action
  | call (t : ℕ) (request : Request)
  | interrupt (t : ℕ) (addr : ℤ)
  | step (t : ℕ) (env : Env)

def Threads.setStack (s : Threads) (t : ℕ) (frames : List Frame) : Threads :=
  { s with stack := Function.update s.stack t frames }

def Threads.setHolder (s : Threads) (lock : Lock) (holder : Option ℕ) : Threads :=
  { s with holder := Function.update s.holder lock holder }

/-- A call that goes on stays on the stack. -/
def settle (next : Option Call) (below : List Frame) : List Frame :=
  match next with
  | some call => .ready call :: below
  | none => below

/-- The call on top of the stack goes on. -/
def frameStep (s : Threads) (t : ℕ) (env : Env) (below : List Frame) : Frame → Option Threads
  | .ready call =>
    match call.lock with
    | some lock =>
      if s.holder lock = none then
        some ((s.setHolder lock (some t)).setStack t (.inside lock call :: below))
      else none
    | none =>
      let (layer, outcome) := callStep env s.layer call
      some { s.setStack t (settle (mainAfter outcome) below) with layer }
  | .inside lock call =>
    let (layer, outcome) := callStep env s.layer call
    some { s.setStack t (.leaving lock (mainAfter outcome) :: below) with layer }
  | .leaving lock next => some ((s.setHolder lock none).setStack t (settle next below))

/-- A thread begins a call when it is in none; a finalizer starts at any point. -/
def step (s : Threads) : Action → Option Threads
  | .call t request =>
    match s.stack t, request with
    | [], .onDealloc _ => none
    | [], request => some (s.setStack t [.ready request.call])
    | _ :: _, _ => none
  | .interrupt t addr => some (s.setStack t (.ready (.onDealloc (.pop addr)) :: s.stack t))
  | .step t env =>
    match s.stack t with
    | frame :: below => frameStep s t env below frame
    | [] => none

/-- The lock that a finalizer waits for. -/
def Frame.waitsFor : Frame → Option Lock
  | .ready (.onDealloc pc) => pc.lock
  | _ => none

/-- The finalizer above does not wait for a lock that is held below it. -/
def Clear (above below : Frame) : Prop :=
  ∀ lock, above.waitsFor = some lock → below.held ≠ some lock

instance (above below : Frame) : Decidable (Clear above below) :=
  match hwaits : above.waitsFor with
  | none => isTrue fun lock h => by rw [hwaits] at h; cases h
  | some lock =>
    if hheld : below.held = some lock then isFalse fun h => h lock hwaits hheld
    else isTrue fun lock' h => by
      rw [hwaits] at h
      cases h
      exact hheld

/-- No finalizer waits for a lock that is held by what it has interrupted. -/
def SelfWaitFree (s : Threads) : Prop := ∀ t, (s.stack t).Pairwise Clear

def holds (frames : List Frame) (lock : Lock) : Bool := frames.any fun f => f.held = some lock

/-- A finalizer starts only where its thread does not hold the lock of the map of live
objects, and takes an object out of the map only where it holds neither the lock of the
ids nor that of the queue. -/
def Outside (s : Threads) : Action → Bool
  | .call _ _ => true
  | .interrupt t _ => !holds (s.stack t) .live
  | .step t _ =>
    match s.stack t with
    | .inside _ (.onDealloc (.pop addr)) :: below =>
      (s.layer.live.lookup addr).isNone || !(holds below .id || holds below .dealloc)
    | _ => true

/-- The locks that a finalizer has still to take. -/
def deallocNeeds : Dealloc → List Lock
  | .pop _ => [.live]
  | .stamp _ _ => [.id, .dealloc]
  | .number _ _ _ => [.id, .dealloc]
  | .append _ => [.dealloc]

def callNeeds : Call → List Lock
  | .onDealloc pc => deallocNeeds pc
  | _ => []

/-- In its critical section a finalizer has only the later locks before it; past the pop
it has none, unless it finds its object. -/
def Frame.needs : Frame → List Lock
  | .ready call => callNeeds call
  | .inside _ (.onDealloc (.pop _)) => []
  | .inside _ (.onDealloc (.number _ _ _)) => [.dealloc]
  | .inside _ (.onDealloc (.append _)) => []
  | .inside _ call => callNeeds call
  | .leaving _ next => (next.map callNeeds).getD []

/-- What the call above has still to take is not held below it. -/
def Apart (above below : Frame) : Prop := ∀ lock ∈ above.needs, below.held ≠ some lock

def Nested (s : Threads) : Prop := ∀ t, (s.stack t).Pairwise Apart

theorem nested_init (trackRefs : Bool) (nextId : ℤ) :
    Nested { layer := .init trackRefs nextId } := fun _ => List.Pairwise.nil

theorem waitsFor_needs {frame : Frame} {lock : Lock} (h : frame.waitsFor = some lock) :
    lock ∈ frame.needs := by
  cases frame with
  | ready call =>
    cases call with
    | onDealloc pc =>
      cases pc with
      | stamp addr info => cases h
      | _ =>
        cases h
        exact List.mem_cons_self ..
    | _ => cases h
  | _ => cases h

theorem Nested.selfWaitFree {s : Threads} (h : Nested s) : SelfWaitFree s :=
  fun t => (h t).imp fun hapart lock hwaits => hapart lock (waitsFor_needs hwaits)

theorem not_holds {frames : List Frame} {lock : Lock} (h : holds frames lock = false) :
    ∀ f ∈ frames, f.held ≠ some lock := by
  intro f hf heq
  simp only [holds, List.any_eq_false, decide_eq_true_eq] at h
  exact h f hf heq

theorem nested_setStack {s s' : Threads} {t : ℕ} {frames : List Frame} (h : Nested s)
    (hstack : s'.stack = Function.update s.stack t frames) (hframes : frames.Pairwise Apart) :
    Nested s' := by
  intro t'
  rw [hstack]
  by_cases heq : t' = t
  · rw [heq, Function.update_self]
    exact hframes
  · rw [Function.update_of_ne heq]
    exact h t'

/-- The top of a stack is replaced by a call that needs no more. -/
theorem pairwise_top {frame frame' : Frame} {below : List Frame}
    (h : (frame :: below).Pairwise Apart)
    (hneeds : ∀ f ∈ below, ∀ lock ∈ frame'.needs, lock ∈ frame.needs ∨ f.held ≠ some lock) :
    (frame' :: below).Pairwise Apart := by
  obtain ⟨htop, hbelow⟩ := List.pairwise_cons.mp h
  refine List.pairwise_cons.mpr ⟨fun f hf lock hlock => ?_, hbelow⟩
  rcases hneeds f hf lock hlock with hneed | hfree
  · exact htop f hf lock hneed
  · exact hfree

theorem pairwise_settle {frame : Frame} {below : List Frame} {next : Option Call}
    (h : (frame :: below).Pairwise Apart)
    (hneeds : ∀ lock ∈ (next.map callNeeds).getD [], lock ∈ frame.needs) :
    (settle next below).Pairwise Apart := by
  cases next with
  | none => exact (List.pairwise_cons.mp h).2
  | some call => exact pairwise_top h fun f _ lock hlock => .inl (hneeds lock hlock)

/-- A call of the program needs nothing as a finalizer. -/
theorem callNeeds_after {env : Env} {ly : Layer} {call : Call}
    (h : ∀ pc, call ≠ .onDealloc pc) :
    ((mainAfter (callStep env ly call).2).map callNeeds).getD [] = [] := by
  have hmap : ∀ {σ : Type} (f : σ → Call), (∀ x, callNeeds (f x) = []) → ∀ out : Outcome σ,
      ((mainAfter (out.map f)).map callNeeds).getD [] = [] := by
    intro σ f hf out
    cases out with
    | going x => exact hf x
    | _ => rfl
  cases call with
  | start pc => exact hmap Call.start (fun _ => rfl) _
  | collect c => exact hmap Call.collect (fun _ => rfl) _
  | flush pc => exact hmap Call.flush (fun _ => rfl) _
  | stop pc => exact hmap Call.stop (fun _ => rfl) _
  | onDealloc pc => exact absurd rfl (h pc)

theorem inside_needs {lock lock' : Lock} {call : Call}
    (h : lock' ∈ (Frame.inside lock call).needs) : lock' ∈ callNeeds call := by
  cases call with
  | onDealloc pc =>
    cases pc with
    | pop addr => cases h
    | stamp addr info => exact h
    | number addr info ts => exact List.mem_cons_of_mem _ h
    | append event => cases h
  | _ => exact h

/-- A step that needs no lock. -/
theorem needs_unlocked {env : Env} {ly : Layer} {call : Call} (hlock : call.lock = none) :
    ∀ lock ∈ ((mainAfter (callStep env ly call).2).map callNeeds).getD [],
      lock ∈ callNeeds call := by
  intro lock h
  cases call with
  | onDealloc pc =>
    cases pc with
    | stamp addr info => exact h
    | _ => cases hlock
  | _ =>
    rw [callNeeds_after fun _ heq => by cases heq] at h
    cases h

/-- The end of a critical section: what is still needed was needed before, unless a
finalizer has found its object. -/
theorem needs_unlocking {env : Env} {s : Threads} {t : ℕ} {lock : Lock} {call : Call}
    {below : List Frame} (hstack : s.stack t = .inside lock call :: below)
    (hout : Outside s (.step t env) = true) :
    ∀ f ∈ below, ∀ lock' ∈ ((mainAfter (callStep env s.layer call).2).map callNeeds).getD [],
      lock' ∈ (Frame.inside lock call).needs ∨ f.held ≠ some lock' := by
  intro f hf lock' h
  cases call with
  | onDealloc pc =>
    cases pc with
    | pop addr =>
      cases hlookup : s.layer.live.lookup addr with
      | none => simp [callStep, onDeallocStep, hlookup, Outcome.map, mainAfter] at h
      | some info =>
        simp only [Outside, hstack, hlookup, Option.isNone_some, Bool.false_or,
          Bool.not_eq_true', Bool.or_eq_false_iff] at hout
        simp only [callStep, onDeallocStep, hlookup, Prod.map_snd, Outcome.map, mainAfter,
          Option.map_some, callNeeds, deallocNeeds, Option.getD_some, List.mem_cons,
          List.not_mem_nil, or_false] at h
        rcases h with rfl | rfl
        · exact .inr (not_holds hout.1 f hf)
        · exact .inr (not_holds hout.2 f hf)
    | stamp addr info => exact .inl h
    | number addr info ts => exact .inl h
    | append event => cases h
  | _ =>
    rw [callNeeds_after fun _ heq => by cases heq] at h
    cases h

theorem nested_step (s : Threads) (a : Action) (s' : Threads) (h : Nested s)
    (hout : Outside s a = true) (hstep : step s a = some s') : Nested s' := by
  cases a with
  | call t request =>
    simp only [step] at hstep
    split at hstep
    · cases hstep
    · cases hstep
      exact nested_setStack h rfl (List.pairwise_singleton _ _)
    · cases hstep
  | interrupt t addr =>
    cases hstep
    have hfree : ∀ f ∈ s.stack t, f.held ≠ some .live :=
      not_holds (by simpa [Outside] using hout)
    refine nested_setStack h rfl (List.pairwise_cons.mpr ⟨fun f hf lock hlock => ?_, h t⟩)
    rw [List.mem_singleton.mp hlock]
    exact hfree f hf
  | step t env =>
    have hpair := h t
    cases hstack : s.stack t with
    | nil => simp [step, hstack] at hstep
    | cons frame below =>
      rw [hstack] at hpair
      simp only [step, hstack] at hstep
      cases frame with
      | ready call =>
        cases hlock : call.lock with
        | none =>
          simp only [frameStep, hlock] at hstep
          cases hstep
          exact nested_setStack h rfl (pairwise_settle hpair (needs_unlocked hlock))
        | some lock =>
          simp only [frameStep, hlock] at hstep
          split at hstep
          · cases hstep
            refine nested_setStack h rfl (pairwise_top hpair fun f _ lock' hlock' => .inl ?_)
            exact inside_needs hlock'
          · cases hstep
      | inside lock call =>
        cases hstep
        exact nested_setStack h rfl (pairwise_top hpair (needs_unlocking hstack hout))
      | leaving lock next =>
        cases hstep
        exact nested_setStack h rfl (pairwise_settle hpair fun _ hlock => hlock)

/-- In every run in which the finalizers start outside the critical sections that they
need, none of them waits for a lock that is held by what it has interrupted. -/
theorem selfWaitFree_of_outside (trackRefs : Bool) (nextId : ℤ) (actions : List Action)
    (s : Threads) (hrun : run step { layer := .init trackRefs nextId } actions = some s)
    (hout : Along step (fun s a => Outside s a = true) { layer := .init trackRefs nextId }
      actions) :
    SelfWaitFree s :=
  (run_along nested_step (nested_init trackRefs nextId) hout hrun).selfWaitFree

/-- A payload is reported; its finalizer starts as the collect adds the event to the
buffer, takes the locks that it needs, and leaves the collect to its end. -/
def nestedRun : List Action :=
  [.call 0 .start] ++ List.replicate 3 (.step 0 { snapshot := some ∅ }) ++
    [.call 0 .collect] ++ List.replicate 23 (.step 0 (finds (payload 0) 100 64)) ++
    [.interrupt 0 4096] ++ List.replicate 10 (.step 0 { now := 200 }) ++
    List.replicate 2 (.step 0 {})

theorem nestedRun_isSome : (run step {} nestedRun).isSome = true := by decide +kernel

def nestedEnd : Threads := (run step {} nestedRun).get nestedRun_isSome

theorem selfWaitFree_of_outside_nestedRun : SelfWaitFree nestedEnd :=
  selfWaitFree_of_outside false 1 nestedRun nestedEnd (Option.some_get nestedRun_isSome).symm
    (by decide +kernel)

/-- The finalizer of the payload starts as the next collect copies the addresses of the
live objects. -/
def interruptedRun : List Action :=
  [.call 0 .start] ++ List.replicate 3 (.step 0 { snapshot := some ∅ }) ++
    [.call 0 .collect] ++ List.replicate 25 (.step 0 (finds (payload 0) 100 64)) ++
    [.call 0 .collect] ++ List.replicate 6 (.step 0 (finds (payload 0) 200 128)) ++
    [.interrupt 0 4096]

theorem interruptedRun_isSome : (run step {} interruptedRun).isSome = true := by decide +kernel

def interruptedEnd : Threads := (run step {} interruptedRun).get interruptedRun_isSome

theorem interruptedEnd_waits : run step {} interruptedRun = some interruptedEnd ∧
    4096 ∈ interruptedEnd.layer.live ∧ interruptedEnd.holder .live = some 0 ∧
    ¬SelfWaitFree interruptedEnd := by
  refine ⟨(Option.some_get interruptedRun_isSome).symm, by decide +kernel, by decide +kernel,
    fun h => ?_⟩
  have hnot : ¬(interruptedEnd.stack 0).Pairwise Clear := by decide +kernel
  exact hnot (h 0)

end HpcProfiler.LayerLocks
