import HpcProfiler.EventAccounting

/-!
The profiler thread over its layer. Each round of its loop writes what a collect
returns; when the flag is cleared it stops the layer, whose last collect returns to it
too, and it ends. Finalizers report deaths all the while.
-/

namespace HpcProfiler.ProfilerLoop

open Events MemoryLayer LayerSteps EventAccounting
open StepSystem (run Along run_along run_not_along)

/-- Where _hpc_profiler_thread is; the events still to be written are part of the
place. -/
inductive LoopPc
  | starting (pc : Start)
  | testing
  | collecting (c : Collect)
  | writing (left : List CpuEvent)
  | sleeping
  | stopping (pc : Stop)
  | closing
  | done

/-- The thread with its layer, the flag, the finalizers in progress, what the collects
have returned and what was passed to Bridge.write. The events made when stop clears the
running flag are recorded; no step reads this. -/
structure Loop where
  layer : Layer := {}
  pc : LoopPc := .starting .checkRunning
  active : Bool := true
  finalizers : List Dealloc := []
  returned : List (List CpuEvent) := []
  written : List CpuEvent := []
  observed : List CpuEvent := []

inductive Action
  | setActive (active : Bool)
  | finalize (addr : ℤ)
  | finalizer (i : ℕ) (env : Env)
  | thread (env : Env)

/-- The final collect has returned. -/
def finalBatch : Stop → List (List CpuEvent)
  | .clearRunning remaining => [remaining]
  | _ => []

/-- A step of the thread, where none raises. -/
def threadStep (s : Loop) (env : Env) : Option Loop :=
  match s.pc with
  | .starting pc =>
    match startStep env s.layer pc with
    | (layer, .going pc) => some { s with layer, pc := .starting pc }
    | (layer, .returned _) => some { s with layer, pc := .testing }
    | (_, .raised) => none
  | .testing =>
    some { s with pc := if s.active then .collecting {} else .stopping .checkRunning }
  | .collecting c =>
    match collectStep env s.layer c with
    | (layer, .going c) => some { s with layer, pc := .collecting c }
    | (layer, .returned batch) =>
      some { s with layer, pc := .writing batch, returned := s.returned ++ [batch] }
    | (_, .raised) => none
  | .writing (e :: left) => some { s with pc := .writing left, written := s.written ++ [e] }
  | .writing [] => some { s with pc := .sleeping }
  | .sleeping => some { s with pc := .testing }
  | .stopping pc =>
    match stopStep env s.layer pc with
    | (layer, .going pc) =>
      some { s with layer, pc := .stopping pc, returned := s.returned ++ finalBatch pc }
    | (layer, .returned _) => some { s with layer, pc := .closing, observed := layer.made }
    | (_, .raised) => none
  | .closing => some { s with pc := .done }
  | .done => none

/-- A finalizer that goes on stays in its place. -/
def finalizerStep (s : Loop) (i : ℕ) (env : Env) (pc : Dealloc) : Loop :=
  match onDeallocStep env s.layer pc with
  | (layer, .going pc') => { s with layer, finalizers := s.finalizers.set i pc' }
  | (layer, _) => { s with layer, finalizers := s.finalizers.eraseIdx i }

def step (s : Loop) : Action → Option Loop
  | .setActive active => some { s with active }
  | .finalize addr => some { s with finalizers := s.finalizers ++ [.pop addr] }
  | .finalizer i env => s.finalizers[i]?.map (finalizerStep s i env)
  | .thread env => threadStep s env

/-- What the collects have returned is written, in its order, and so is every event
made when stop clears the running flag. -/
structure AllWritten (s : Loop) : Prop where
  returned : s.written = s.returned.flatten
  observed : ∀ e ∈ s.observed, e ∈ s.written

/-- The events of deaths that are not yet in the queue. -/
def onTheWay (s : Loop) : List CpuEvent := (s.finalizers.map Call.onDealloc).flatMap holds

/-- The final collect finds no death in the queue and no new object, and no death is
queued or on its way there when stop clears the running flag. -/
def NothingLate (s : Loop) : Action → Bool
  | .thread _ =>
    match s.pc with
    | .stopping (.collecting c) =>
      match c.pc with
      | .drain => s.layer.deallocQueue.isEmpty
      | .number _ _ => false
      | _ => true
    | .stopping (.clearRunning _) => s.layer.deallocQueue.isEmpty && (onTheWay s).isEmpty
    | _ => true
  | _ => true

/-- The events that the thread has in its layer's hands. -/
def inHand : LoopPc → List CpuEvent
  | .collecting c => c.newAllocs ++ c.pending
  | .stopping (.collecting c) => c.newAllocs ++ c.pending
  | _ => []

/-- The events returned and neither written nor given up. -/
def left : LoopPc → List CpuEvent
  | .writing left => left
  | .stopping (.clearRunning remaining) => remaining
  | _ => []

def Begun : LoopPc → Prop
  | .collecting c => WellBegun c
  | .stopping (.collecting c) => WellBegun c
  | _ => True

/-- The layer has been started and not yet stopped. -/
def LoopPc.inRun : LoopPc → Bool
  | .starting _ => false
  | .closing => false
  | .done => false
  | _ => true

/-- What every run keeps. -/
structure Kept (s : Loop) : Prop where
  begun : Begun s.pc
  numbered : Numbered s.layer
  buffer : s.layer.events = s.returned.flatten
  places : (s.layer.made : Multiset CpuEvent) =
    s.layer.deallocQueue + (inHand s.pc + onTheWay s) + s.layer.events + ([] : List CpuEvent)
  running : s.pc.inRun = true → s.layer.running = true
  order : s.pc.inRun = true → s.written ++ left s.pc = s.returned.flatten
  starting : ∀ pc, s.pc = .starting pc → s.written = [] ∧ s.returned = []

theorem kept_init (trackRefs : Bool) (nextId : ℤ) :
    Kept { layer := .init trackRefs nextId } where
  begun := trivial
  numbered := numbered_init trackRefs nextId
  buffer := rfl
  places := rfl
  running h := by cases h
  order h := by cases h
  starting _ _ := ⟨rfl, rfl⟩

/-- The steps of the thread. -/
inductive Threaded (s : Loop) (env : Env) : Loop → Prop
  | start (pc pc' : Start) (ly : Layer) (hpc : s.pc = .starting pc)
    (h : startStep env s.layer pc = (ly, .going pc')) :
    Threaded s env { s with layer := ly, pc := .starting pc' }
  | started (pc : Start) (ly : Layer) (result : List CpuEvent) (hpc : s.pc = .starting pc)
    (h : startStep env s.layer pc = (ly, .returned result)) :
    Threaded s env { s with layer := ly, pc := .testing }
  | test (hpc : s.pc = .testing) :
    Threaded s env { s with pc := if s.active then .collecting {} else .stopping .checkRunning }
  | collect (c c' : Collect) (ly : Layer) (hpc : s.pc = .collecting c)
    (h : collectStep env s.layer c = (ly, .going c')) :
    Threaded s env { s with layer := ly, pc := .collecting c' }
  | collected (c : Collect) (ly : Layer) (batch : List CpuEvent) (hpc : s.pc = .collecting c)
    (h : collectStep env s.layer c = (ly, .returned batch)) :
    Threaded s env
      { s with layer := ly, pc := .writing batch, returned := s.returned ++ [batch] }
  | write (e : CpuEvent) (rest : List CpuEvent) (hpc : s.pc = .writing (e :: rest)) :
    Threaded s env { s with pc := .writing rest, written := s.written ++ [e] }
  | wrote (hpc : s.pc = .writing []) : Threaded s env { s with pc := .sleeping }
  | wake (hpc : s.pc = .sleeping) : Threaded s env { s with pc := .testing }
  | stop (hpc : s.pc = .stopping .checkRunning) (hrunning : s.layer.running = true) :
    Threaded s env { s with pc := .stopping (.collecting {}) }
  | idle (hpc : s.pc = .stopping .checkRunning) (hrunning : s.layer.running = false) :
    Threaded s env { s with pc := .closing, observed := s.layer.made }
  | lastCollect (c c' : Collect) (ly : Layer) (hpc : s.pc = .stopping (.collecting c))
    (h : collectStep env s.layer c = (ly, .going c')) :
    Threaded s env { s with layer := ly, pc := .stopping (.collecting c') }
  | lastCollected (c : Collect) (ly : Layer) (batch : List CpuEvent)
    (hpc : s.pc = .stopping (.collecting c))
    (h : collectStep env s.layer c = (ly, .returned batch)) :
    Threaded s env { s with
      layer := ly, pc := .stopping (.clearRunning batch), returned := s.returned ++ [batch] }
  | cleared (remaining : List CpuEvent) (hpc : s.pc = .stopping (.clearRunning remaining)) :
    Threaded s env { s with
      layer := { s.layer with running := false }, pc := .closing, observed := s.layer.made }
  | close (hpc : s.pc = .closing) : Threaded s env { s with pc := .done }

theorem threaded_of_step {s s' : Loop} {env : Env} (h : threadStep s env = some s') :
    Threaded s env s' := by
  unfold threadStep at h
  cases hpc : s.pc with
  | starting pc =>
    simp only [hpc] at h
    rcases hstep : startStep env s.layer pc with ⟨ly, out⟩
    rw [hstep] at h
    cases out with
    | going pc' =>
      cases h
      exact .start pc pc' ly hpc hstep
    | returned result =>
      cases h
      exact .started pc ly result hpc hstep
    | raised => cases h
  | testing =>
    simp only [hpc] at h
    cases h
    exact .test hpc
  | collecting c =>
    simp only [hpc] at h
    rcases hstep : collectStep env s.layer c with ⟨ly, out⟩
    rw [hstep] at h
    cases out with
    | going c' =>
      cases h
      exact .collect c c' ly hpc hstep
    | returned batch =>
      cases h
      exact .collected c ly batch hpc hstep
    | raised => cases h
  | writing rest =>
    simp only [hpc] at h
    cases rest with
    | nil =>
      cases h
      exact .wrote hpc
    | cons e rest =>
      cases h
      exact .write e rest hpc
  | sleeping =>
    simp only [hpc] at h
    cases h
    exact .wake hpc
  | stopping pc =>
    simp only [hpc] at h
    cases pc with
    | checkRunning =>
      cases hrunning : s.layer.running with
      | true =>
        simp only [stopStep, hrunning, if_true, finalBatch, List.append_nil] at h
        cases h
        exact .stop hpc hrunning
      | false =>
        simp only [stopStep, hrunning, Bool.false_eq_true, if_false] at h
        cases h
        exact .idle hpc hrunning
    | collecting c =>
      rcases hstep : collectStep env s.layer c with ⟨ly, out⟩
      simp only [stopStep, hstep, Prod.map_apply, id] at h
      cases out with
      | going c' =>
        simp only [toStop, finalBatch, List.append_nil] at h
        cases h
        exact .lastCollect c c' ly hpc hstep
      | returned batch =>
        simp only [toStop, finalBatch] at h
        cases h
        exact .lastCollected c ly batch hpc hstep
      | raised => cases h
    | clearRunning remaining =>
      simp only [stopStep] at h
      cases h
      exact .cleared remaining hpc
  | closing =>
    simp only [hpc] at h
    cases h
    exact .close hpc
  | done => simp [hpc] at h

theorem startStep_returned {env : Env} {ly ly' : Layer} {pc : Start} {result : List CpuEvent}
    (h : startStep env ly pc = (ly', .returned result)) :
    ly'.running = true ∧ ly'.events = ly.events := by
  cases pc with
  | checkRunning =>
    cases hrunning : ly.running with
    | true =>
      simp only [startStep, hrunning, if_true] at h
      cases h
      exact ⟨hrunning, rfl⟩
    | false => simp [startStep, hrunning] at h
  | startTracing =>
    simp only [startStep] at h
    split at h <;> cases h
  | setRunning =>
    cases h
    exact ⟨rfl, rfl⟩

theorem startStep_going {env : Env} {ly ly' : Layer} {pc pc' : Start}
    (h : startStep env ly pc = (ly', .going pc')) : ly'.events = ly.events := by
  cases pc with
  | checkRunning =>
    obtain ⟨rfl, -⟩ := Prod.mk.inj h
    rfl
  | startTracing =>
    simp only [startStep] at h
    split at h <;> cases h
    rfl
  | setRunning => cases h

theorem startStep_makes {env : Env} {ly ly' : Layer} {pc : Start} {out : Outcome Start}
    (h : startStep env ly pc = (ly', out)) : Makes ly ly' := by
  have hmakes := callStep_makes env ly (.start pc)
  have hlayer : (callStep env ly (.start pc)).1 = ly' := congrArg Prod.fst h
  rw [hlayer] at hmakes
  exact hmakes

section

variable {env : Env} {ly ly' : Layer} {c : Collect}

theorem running_of_effect {out : Outcome Collect} (h : CollectEffect env ly c ly' out) :
    ly'.running = ly.running := by
  cases h <;> rfl

theorem events_going {c' : Collect} (h : CollectEffect env ly c ly' (.going c')) :
    ly'.events = ly.events := by
  cases h <;> rfl

/-- What a collect returns stays in the buffer. -/
theorem events_returned {batch : List CpuEvent} (h : CollectEffect env ly c ly' (.returned batch)) :
    ly'.events = ly.events ++ batch := by
  cases h <;> rfl

end

theorem onDeallocStep_same (env : Env) (ly : Layer) (pc : Dealloc) :
    (onDeallocStep env ly pc).1.events = ly.events ∧
      (onDeallocStep env ly pc).1.running = ly.running := by
  cases pc <;> exact ⟨rfl, rfl⟩

theorem onDeallocStep_ne_raised (env : Env) (ly : Layer) (pc : Dealloc) :
    (onDeallocStep env ly pc).2 ≠ .raised := by
  cases pc with
  | pop addr =>
    simp only [onDeallocStep]
    split <;> simp
  | _ => exact fun h => by cases h

/-- A step of the thread keeps the accounts of what it has in hand. -/
theorem Kept.beside {s : Loop} {ly' : Layer} {held' : List CpuEvent} (h : Kept s)
    (haccounts : Accounts s.layer ly' (inHand s.pc) held' []) :
    (ly'.made : Multiset CpuEvent) =
      ly'.deallocQueue + (held' + onTheWay s) + ly'.events + ([] : List CpuEvent) :=
  haccounts.beside h.places

/-- The thread goes to another place with what it has. -/
theorem Kept.moves {s : Loop} {pc' : LoopPc} (h : Kept s) (hin : s.pc.inRun = true)
    (hbegun : Begun pc') (hhand : inHand pc' = inHand s.pc) (hleft : left pc' = left s.pc)
    (hstarting : ∀ pc, pc' ≠ .starting pc) : Kept { s with pc := pc' } where
  begun := hbegun
  numbered := h.numbered
  buffer := h.buffer
  places := by
    have hbeside := h.beside (Accounts.refl s.layer (inHand s.pc))
    rw [← hhand] at hbeside
    exact hbeside
  running _ := h.running hin
  order _ := by
    have horder := h.order hin
    rw [← hleft] at horder
    exact horder
  starting pc hpc := absurd hpc (hstarting pc)

/-- A place in a collect, in a round or in the stop. -/
structure InCollect (pc : LoopPc) (c : Collect) : Prop where
  inRun : pc.inRun = true
  inHand : ProfilerLoop.inHand pc = c.newAllocs ++ c.pending
  left : ProfilerLoop.left pc = []
  begun : Begun pc ↔ WellBegun c
  notStarting : ∀ pc', pc ≠ .starting pc'

theorem inCollect_round (c : Collect) : InCollect (.collecting c) c :=
  ⟨rfl, rfl, rfl, Iff.rfl, fun _ hpc => by cases hpc⟩

theorem inCollect_stop (c : Collect) : InCollect (.stopping (.collecting c)) c :=
  ⟨rfl, rfl, rfl, Iff.rfl, fun _ hpc => by cases hpc⟩

/-- The collect goes on. -/
theorem Kept.collect {s : Loop} {env : Env} {ly : Layer} {c c' : Collect} {pc' : LoopPc}
    (h : Kept s) (hin : InCollect s.pc c) (hin' : InCollect pc' c')
    (hcollect : collectStep env s.layer c = (ly, .going c')) :
    Kept { s with layer := ly, pc := pc' } := by
  have heffect := collectStep_eq_effect hcollect
  have hbegun := hin.begun.mp h.begun
  have hbeside := @Kept.beside s
  have horder := h.order hin.inRun
  rw [hin.inHand] at hbeside
  rw [hin.left] at horder
  refine ⟨hin'.begun.mpr (WellBegun.step hbegun heffect), h.numbered.step heffect.makes,
    (events_going heffect).trans h.buffer, ?_,
    fun _ => (running_of_effect heffect).trans (h.running hin.inRun), fun _ => ?_,
    fun pc hpc => absurd hpc (hin'.notStarting pc)⟩
  · show _ = _ + ((inHand pc' : List CpuEvent) + onTheWay s : Multiset CpuEvent) + _ + _
    rw [hin'.inHand]
    exact hbeside h (accounts_going hbegun heffect)
  · show s.written ++ left pc' = s.returned.flatten
    rw [hin'.left]
    exact horder

/-- The collect returns, and its batch is left to be written. -/
theorem Kept.collected {s : Loop} {env : Env} {ly : Layer} {c : Collect} {batch : List CpuEvent}
    {pc' : LoopPc} (h : Kept s) (hin : InCollect s.pc c) (hbegun' : Begun pc')
    (hhand : inHand pc' = []) (hleft : left pc' = batch) (hstarting : ∀ pc, pc' ≠ .starting pc)
    (hcollect : collectStep env s.layer c = (ly, .returned batch)) :
    Kept { s with layer := ly, pc := pc', returned := s.returned ++ [batch] } := by
  have heffect := collectStep_eq_effect hcollect
  have hbegun := hin.begun.mp h.begun
  have hbeside := @Kept.beside s
  have horder := h.order hin.inRun
  rw [hin.inHand] at hbeside
  rw [hin.left, List.append_nil] at horder
  have hflatten : (s.returned ++ [batch]).flatten = s.returned.flatten ++ batch := by
    rw [List.flatten_append, List.flatten_singleton]
  refine ⟨hbegun', h.numbered.step heffect.makes, ?_, ?_,
    fun _ => (running_of_effect heffect).trans (h.running hin.inRun), fun _ => ?_,
    fun pc hpc => absurd hpc (hstarting pc)⟩
  · rw [hflatten, events_returned heffect, h.buffer]
  · show _ = _ + ((inHand pc' : List CpuEvent) + onTheWay s : Multiset CpuEvent) + _ + _
    rw [hhand]
    exact hbeside h (accounts_returned hbegun heffect)
  · show s.written ++ left pc' = (s.returned ++ [batch]).flatten
    rw [hflatten, hleft, horder]

theorem Kept.thread {s s' : Loop} {env : Env} (h : Kept s) (hstep : Threaded s env s') :
    Kept s' := by
  have hbeside := @Kept.beside s
  cases hstep with
  | start pc pc' ly hpc hstart =>
    rw [hpc] at hbeside
    exact ⟨trivial, h.numbered.step (startStep_makes hstart),
      (startStep_going hstart).trans h.buffer, hbeside h (startStep_accounts hstart),
      fun hin => (by cases hin), fun hin => (by cases hin), fun _ _ => h.starting pc hpc⟩
  | started pc ly result hpc hstart =>
    obtain ⟨hrun, hevents⟩ := startStep_returned hstart
    obtain ⟨hwritten, hreturned⟩ := h.starting pc hpc
    rw [hpc] at hbeside
    exact ⟨trivial, h.numbered.step (startStep_makes hstart), hevents.trans h.buffer,
      hbeside h (startStep_accounts hstart), fun _ => hrun,
      fun _ => by rw [hwritten, hreturned]; rfl, fun _ hpc' => (by cases hpc')⟩
  | test hpc =>
    split
    · exact h.moves (by rw [hpc]; rfl) wellBegun_init (by rw [hpc]; rfl) (by rw [hpc]; rfl)
        fun _ hpc' => (by cases hpc')
    · exact h.moves (by rw [hpc]; rfl) trivial (by rw [hpc]; rfl) (by rw [hpc]; rfl)
        fun _ hpc' => (by cases hpc')
  | collect c c' ly hpc hcollect =>
    exact h.collect (hpc ▸ inCollect_round c) (inCollect_round c') hcollect
  | collected c ly batch hpc hcollect =>
    exact h.collected (hpc ▸ inCollect_round c) trivial rfl rfl (fun _ hpc' => by cases hpc')
      hcollect
  | write e rest hpc =>
    have hin : s.pc.inRun = true := by rw [hpc]; rfl
    have horder := h.order hin
    rw [hpc] at hbeside horder
    refine ⟨trivial, h.numbered, h.buffer, hbeside h (Accounts.refl _ []), fun _ => h.running hin,
      fun _ => ?_, fun _ hpc' => (by cases hpc')⟩
    show s.written ++ [e] ++ rest = s.returned.flatten
    rw [List.append_assoc]
    exact horder
  | wrote hpc | wake hpc =>
    exact h.moves (by rw [hpc]; rfl) trivial (by rw [hpc]; rfl) (by rw [hpc]; rfl)
      fun _ hpc' => (by cases hpc')
  | stop hpc hrun =>
    exact h.moves (by rw [hpc]; rfl) wellBegun_init (by rw [hpc]; rfl) (by rw [hpc]; rfl)
      fun _ hpc' => (by cases hpc')
  | idle hpc hrun =>
    have hrunning := h.running (by rw [hpc]; rfl)
    rw [hrun] at hrunning
    cases hrunning
  | lastCollect c c' ly hpc hcollect =>
    exact h.collect (hpc ▸ inCollect_stop c) (inCollect_stop c') hcollect
  | lastCollected c ly batch hpc hcollect =>
    exact h.collected (hpc ▸ inCollect_stop c) trivial rfl rfl (fun _ hpc' => by cases hpc')
      hcollect
  | cleared remaining hpc =>
    rw [hpc] at hbeside
    exact ⟨trivial, ⟨h.numbered.sorted, h.numbered.bound⟩, h.buffer,
      hbeside h (Accounts.refl s.layer []), fun hin => (by cases hin), fun hin => (by cases hin),
      fun _ hpc' => (by cases hpc')⟩
  | close hpc =>
    rw [hpc] at hbeside
    exact ⟨trivial, h.numbered, h.buffer, hbeside h (Accounts.refl _ []), fun hin => (by cases hin),
      fun hin => (by cases hin), fun _ hpc' => (by cases hpc')⟩

/-- A step of a finalizer, in terms of the layer and the finalizers after it. -/
structure Finalized (s s' : Loop) : Prop where
  pc : s'.pc = s.pc
  returned : s'.returned = s.returned
  written : s'.written = s.written
  observed : s'.observed = s.observed
  events : s'.layer.events = s.layer.events
  running : s'.layer.running = s.layer.running
  makes : Makes s.layer s'.layer
  places : ∀ held : List CpuEvent, (s.layer.made : Multiset CpuEvent) =
      s.layer.deallocQueue + (held + onTheWay s) + s.layer.events + ([] : List CpuEvent) →
    (s'.layer.made : Multiset CpuEvent) =
      s'.layer.deallocQueue + (held + onTheWay s') + s'.layer.events + ([] : List CpuEvent)

/-- What a finalizer accounts for, beside what the thread and the others have. -/
theorem accounts_others {ly ly' : Layer} {held held' others rest : List CpuEvent}
    (h : Accounts ly ly' held held' []) (hmade : (ly.made : Multiset CpuEvent) =
      ly.deallocQueue + (others + (held + rest)) + ly.events + ([] : List CpuEvent)) :
    (ly'.made : Multiset CpuEvent) =
      ly'.deallocQueue + (others + (held' + rest)) + ly'.events + ([] : List CpuEvent) := by
  have hbeside := @Accounts.beside ly ly' held held' [] (others ++ rest) [] h ?_
  · rw [hbeside, ← Multiset.coe_add, List.append_nil]
    abel
  · rw [hmade, ← Multiset.coe_add]
    abel

theorem finalized_of_step {s : Loop} {i : ℕ} {env : Env} {pc : Dealloc}
    (hi : s.finalizers[i]? = some pc) : Finalized s (finalizerStep s i env pc) := by
  have hcall : (s.finalizers.map Call.onDealloc)[i]? = some (.onDealloc pc) := by
    rw [List.getElem?_map, hi]
    rfl
  have hbegun : EventAccounting.Begun (.onDealloc pc) := trivial
  have hmakes := onDeallocStep_makes env s.layer pc
  obtain ⟨hevents, hrunning⟩ := onDeallocStep_same env s.layer pc
  have hway : (onTheWay s : Multiset CpuEvent) = holds (.onDealloc pc) +
      ((s.finalizers.map Call.onDealloc).eraseIdx i).flatMap holds := holds_eraseIdx hcall
  rcases hstep : onDeallocStep env s.layer pc with ⟨ly, out⟩
  rw [hstep] at hmakes hevents hrunning
  unfold finalizerStep
  rw [hstep]
  cases out with
  | going pc' =>
    have hgoing : callStep env s.layer (.onDealloc pc) = (ly, .going (.onDealloc pc')) := by
      rw [callStep, hstep]
      rfl
    refine ⟨rfl, rfl, rfl, rfl, hevents, hrunning, hmakes, fun held hmade => ?_⟩
    have hway' : (onTheWay { s with layer := ly, finalizers := s.finalizers.set i pc' } :
        Multiset CpuEvent) = holds (.onDealloc pc') +
          ((s.finalizers.map Call.onDealloc).eraseIdx i).flatMap holds := by
      rw [onTheWay, List.map_set]
      exact holds_set hcall _
    rw [hway']
    rw [hway] at hmade
    exact accounts_others (callStep_going hbegun hgoing).2 hmade
  | returned result =>
    have hreturned : callStep env s.layer (.onDealloc pc) = (ly, .returned result) := by
      rw [callStep, hstep]
      rfl
    refine ⟨rfl, rfl, rfl, rfl, hevents, hrunning, hmakes, fun held hmade => ?_⟩
    have hway' : (onTheWay { s with layer := ly, finalizers := s.finalizers.eraseIdx i } :
        Multiset CpuEvent) = ([] : List CpuEvent) +
          ((s.finalizers.map Call.onDealloc).eraseIdx i).flatMap holds := by
      rw [onTheWay, ← List.eraseIdx_map, Multiset.coe_nil, zero_add]
    rw [hway']
    rw [hway] at hmade
    exact accounts_others (callStep_returned hbegun hreturned) hmade
  | raised =>
    have hnot := onDeallocStep_ne_raised env s.layer pc
    rw [hstep] at hnot
    exact absurd rfl hnot

theorem Kept.finalized {s s' : Loop} (h : Kept s) (hs : Finalized s s') : Kept s' where
  begun := by
    rw [hs.pc]
    exact h.begun
  numbered := h.numbered.step hs.makes
  buffer := by
    rw [hs.events, hs.returned]
    exact h.buffer
  places := by
    rw [hs.pc]
    exact hs.places _ h.places
  running := by
    rw [hs.pc, hs.running]
    exact h.running
  order := by
    rw [hs.pc, hs.written, hs.returned]
    exact h.order
  starting := by
    rw [hs.pc, hs.written, hs.returned]
    exact h.starting

theorem finalized_finalize (s : Loop) (addr : ℤ) :
    Finalized s { s with finalizers := s.finalizers ++ [.pop addr] } where
  pc := rfl
  returned := rfl
  written := rfl
  observed := rfl
  events := rfl
  running := rfl
  makes := .none rfl rfl
  places held hmade := by
    have hway : onTheWay { s with finalizers := s.finalizers ++ [.pop addr] } = onTheWay s := by
      simp [onTheWay, holds]
    rw [hway]
    exact hmade

theorem finalized_setActive (s : Loop) (active : Bool) : Finalized s { s with active } :=
  ⟨rfl, rfl, rfl, rfl, rfl, rfl, .none rfl rfl, fun _ hmade => hmade⟩

/-- A step of others is one of a finalizer or changes the flag. -/
theorem finalized_of_others {s s' : Loop} {a : Action} (ha : ∀ env, a ≠ .thread env)
    (hstep : step s a = some s') : Finalized s s' := by
  cases a with
  | setActive active =>
    cases hstep
    exact finalized_setActive s active
  | finalize addr =>
    cases hstep
    exact finalized_finalize s addr
  | finalizer i env =>
    obtain ⟨pc, hi, rfl⟩ := Option.map_eq_some_iff.mp hstep
    exact finalized_of_step hi
  | thread env => exact absurd rfl (ha env)

theorem kept_step (s : Loop) (a : Action) (s' : Loop) (h : Kept s) (hstep : step s a = some s') :
    Kept s' := by
  cases a with
  | thread env => exact h.thread (threaded_of_step hstep)
  | _ => exact h.finalized (finalized_of_others (fun _ ha => by cases ha) hstep)

/-- What is in hand or written at the end of a run whose steps meet the condition. -/
def Fits (s : Loop) : Prop :=
  match s.pc with
  | .stopping (.collecting c) => c.newAllocs ++ c.pending = []
  | .stopping (.clearRunning remaining) => remaining = []
  | .closing => AllWritten s
  | .done => AllWritten s
  | _ => True

/-- What a step against the condition leads to. -/
def Fails (s : Loop) : Prop :=
  match s.pc with
  | .stopping (.collecting c) => c.newAllocs ++ c.pending ≠ []
  | .stopping (.clearRunning remaining) => remaining ≠ []
  | .closing => ¬AllWritten s
  | .done => ¬AllWritten s
  | _ => False

theorem AllWritten.finalized {s s' : Loop} (hs : Finalized s s') :
    AllWritten s' ↔ AllWritten s := by
  constructor
  · intro h
    refine ⟨?_, ?_⟩
    · rw [← hs.written, ← hs.returned]
      exact h.returned
    · rw [← hs.written, ← hs.observed]
      exact h.observed
  · intro h
    refine ⟨?_, ?_⟩
    · rw [hs.written, hs.returned]
      exact h.returned
    · rw [hs.written, hs.observed]
      exact h.observed

theorem fits_finalized {s s' : Loop} (hs : Finalized s s') : Fits s' ↔ Fits s := by
  unfold Fits
  rw [hs.pc]
  split
  · exact Iff.rfl
  · exact Iff.rfl
  · exact AllWritten.finalized hs
  · exact AllWritten.finalized hs
  · exact Iff.rfl

theorem fails_finalized {s s' : Loop} (hs : Finalized s s') : Fails s' ↔ Fails s := by
  unfold Fails
  rw [hs.pc]
  split
  · exact Iff.rfl
  · exact Iff.rfl
  · exact not_congr (AllWritten.finalized hs)
  · exact not_congr (AllWritten.finalized hs)
  · exact Iff.rfl

/-- A collect returns what it has in hand. -/
theorem returned_eq_inHand {env : Env} {ly ly' : Layer} {c : Collect} {batch : List CpuEvent}
    (hbegun : WellBegun c) (h : CollectEffect env ly c ly' (.returned batch)) :
    batch = c.newAllocs ++ c.pending := by
  cases h with
  | idleExtend hpc =>
    rw [hbegun.newAllocs (by rw [hpc]; rfl)]
    rfl
  | extend hpc => rfl

/-- What a step of the final collect has in hand: the same as before, unless it has
drained the queue or made an event. -/
theorem inHand_going {env : Env} {ly ly' : Layer} {c c' : Collect} (hbegun : WellBegun c)
    (h : CollectEffect env ly c ly' (.going c')) :
    c'.newAllocs ++ c'.pending = c.newAllocs ++ c.pending ∨
      c.pc = .drain ∧ c.newAllocs ++ c.pending = [] ∧
        c'.newAllocs ++ c'.pending = ly.deallocQueue ∨
      (∃ d rest, c.pc = .number d rest) ∧ c'.newAllocs ++ c'.pending ≠ [] := by
  cases h with
  | drain hpc =>
    have hnew := hbegun.newAllocs (by rw [hpc]; rfl)
    have hpending := hbegun.pending hpc
    exact .inr (.inl ⟨hpc, by rw [hnew, hpending]; rfl, by rw [hnew]; rfl⟩)
  | number d rest hpc => exact .inr (.inr ⟨⟨d, rest, hpc⟩, by simp⟩)
  | insert d rest hpc => exact .inl rfl
  | quiet last _ hpending hnew hpc hnext hearly => exact .inl (by rw [hpending, hnew])

/-- When stop clears the running flag, the events that are not returned are in the queue
or on their way there. -/
theorem Kept.cleared {s : Loop} (h : Kept s) {remaining : List CpuEvent}
    (hpc : s.pc = .stopping (.clearRunning remaining)) :
    (s.layer.made : Multiset CpuEvent) =
      ((s.layer.deallocQueue ++ onTheWay s ++ s.returned.flatten : List CpuEvent) :
        Multiset CpuEvent) := by
  have hplaces := h.places
  rw [hpc, h.buffer] at hplaces
  rw [hplaces]
  simp [inHand]

theorem Fits.thread {s s' : Loop} {env : Env} (hkept : Kept s) (h : Fits s)
    (hok : NothingLate s (.thread env) = true) (hstep : Threaded s env s') : Fits s' := by
  have hbegun := hkept.begun
  have horder := hkept.order
  cases hstep with
  | test hpc =>
    cases hactive : s.active with
    | true => exact trivial
    | false => exact trivial
  | stop hpc hrun => exact rfl
  | idle hpc hrun =>
    have hrunning := hkept.running (by rw [hpc]; rfl)
    rw [hrun] at hrunning
    cases hrunning
  | lastCollect c c' ly hpc hcollect =>
    simp only [Fits, hpc] at h
    rw [hpc] at hbegun
    rcases inHand_going hbegun (collectStep_eq_effect hcollect) with
      hsame | ⟨hdrain, -, hqueue⟩ | ⟨⟨d, rest, hnumber⟩, -⟩
    · exact hsame.trans h
    · simp only [NothingLate, hpc, hdrain, List.isEmpty_iff] at hok
      exact hqueue.trans hok
    · simp [NothingLate, hpc, hnumber] at hok
  | lastCollected c ly batch hpc hcollect =>
    simp only [Fits, hpc] at h
    rw [hpc] at hbegun
    exact (returned_eq_inHand hbegun (collectStep_eq_effect hcollect)).trans h
  | cleared remaining hpc =>
    simp only [Fits, hpc] at h
    simp only [NothingLate, hpc, Bool.and_eq_true, List.isEmpty_iff] at hok
    have hwritten : s.written = s.returned.flatten := by
      have heq := horder (by rw [hpc]; rfl)
      rw [hpc, left, h, List.append_nil] at heq
      exact heq
    refine ⟨hwritten, fun e he => ?_⟩
    have hperm := Multiset.coe_eq_coe.mp (hkept.cleared hpc)
    have hmem := hperm.mem_iff.mp he
    rw [hok.1, hok.2, List.append_nil, List.nil_append] at hmem
    show e ∈ s.written
    rw [hwritten]
    exact hmem
  | close hpc =>
    simp only [Fits, hpc] at h
    exact ⟨h.returned, h.observed⟩
  | _ => exact trivial

theorem Fails.thread {s s' : Loop} {env : Env} (hkept : Kept s) (h : Fails s)
    (hstep : Threaded s env s') : Fails s' := by
  have hbegun := hkept.begun
  have horder := hkept.order
  cases hstep with
  | lastCollect c c' ly hpc hcollect =>
    simp only [Fails, hpc] at h
    rw [hpc] at hbegun
    rcases inHand_going hbegun (collectStep_eq_effect hcollect) with
      hsame | ⟨-, hnil, -⟩ | ⟨-, hne⟩
    · exact fun hnil => h (hsame.symm.trans hnil)
    · exact absurd hnil h
    · exact hne
  | lastCollected c ly batch hpc hcollect =>
    simp only [Fails, hpc] at h
    rw [hpc] at hbegun
    have hbatch := returned_eq_inHand hbegun (collectStep_eq_effect hcollect)
    exact fun hnil => h (hbatch.symm.trans hnil)
  | cleared remaining hpc =>
    simp only [Fails, hpc] at h
    intro hwritten
    apply h
    have heq : s.written ++ remaining = s.returned.flatten := by
      have heq := horder (by rw [hpc]; rfl)
      rw [hpc] at heq
      exact heq
    have hreturned : s.written = s.returned.flatten := hwritten.returned
    rw [← hreturned] at heq
    exact List.append_right_eq_self.mp heq
  | close hpc =>
    simp only [Fails, hpc] at h
    exact fun hwritten => h ⟨hwritten.returned, hwritten.observed⟩
  | _ => simp_all [Fails]

/-- An event that is queued, or on its way, when stop clears the running flag is never
written. -/
theorem not_written_of_queued {s : Loop} (hkept : Kept s) {remaining : List CpuEvent}
    (hpc : s.pc = .stopping (.clearRunning remaining)) {e : CpuEvent}
    (he : e ∈ s.layer.deallocQueue ++ onTheWay s) : e ∈ s.layer.made ∧ e ∉ s.returned.flatten := by
  have hperm := Multiset.coe_eq_coe.mp (hkept.cleared hpc)
  have hnodup : s.layer.made.Nodup := List.Nodup.of_map _ hkept.numbered.nodup
  have hdisjoint := List.disjoint_of_nodup_append (hperm.nodup_iff.mp hnodup)
  exact ⟨hperm.mem_iff.mpr (List.mem_append_left _ he), hdisjoint he⟩

theorem fails_of_late {s s' : Loop} {env : Env} (hkept : Kept s)
    (hlate : NothingLate s (.thread env) ≠ true) (hstep : Threaded s env s') : Fails s' := by
  have hbegun := hkept.begun
  cases hstep with
  | lastCollect c c' ly hpc hcollect =>
    rw [hpc] at hbegun
    cases collectStep_eq_effect hcollect with
    | drain hdrain =>
      simp only [NothingLate, hpc, hdrain, ne_eq, List.isEmpty_iff] at hlate
      show c.newAllocs ++ s.layer.deallocQueue ≠ []
      simp [hlate]
    | number d rest hnumber =>
      show c.newAllocs ++ [allocEvent env s.layer.nextId c.rssKb d] ++ c.pending ≠ []
      simp
    | insert d rest hinsert => simp [NothingLate, hpc, hinsert] at hlate
    | quiet last _ hpending hnew hquiet hnext hearly =>
      apply absurd _ hlate
      cases hc : c.pc <;> simp [CollectPc.quiet, NothingLate, hpc, hc] at hquiet ⊢
  | lastCollected c ly batch hpc hcollect =>
    cases collectStep_eq_effect hcollect with
    | idleExtend hc => simp [NothingLate, hpc, hc] at hlate
    | extend hc => simp [NothingLate, hpc, hc] at hlate
  | cleared remaining hpc =>
    simp only [NothingLate, hpc, ne_eq, Bool.and_eq_true, List.isEmpty_iff] at hlate
    intro hwritten
    have hne : s.layer.deallocQueue ++ onTheWay s ≠ [] := fun hnil =>
      hlate (List.append_eq_nil_iff.mp hnil)
    obtain ⟨e, he⟩ := List.exists_mem_of_ne_nil _ hne
    obtain ⟨hmade, hnot⟩ := not_written_of_queued hkept hpc he
    apply hnot
    have hreturned : s.written = s.returned.flatten := hwritten.returned
    rw [← hreturned]
    exact hwritten.observed e hmade
  | idle hpc hrun => simp [NothingLate, hpc] at hlate
  | _ => simp_all [NothingLate]

theorem kept_fits_step (s : Loop) (a : Action) (s' : Loop) (h : Kept s ∧ Fits s)
    (hok : NothingLate s a = true) (hstep : step s a = some s') : Kept s' ∧ Fits s' := by
  refine ⟨kept_step s a s' h.1 hstep, ?_⟩
  cases a with
  | thread env => exact h.2.thread h.1 hok (threaded_of_step hstep)
  | _ => exact (fits_finalized (finalized_of_others (fun _ ha => by cases ha) hstep)).mpr h.2

theorem kept_fails_step (s : Loop) (a : Action) (s' : Loop) (h : Kept s ∧ Fails s)
    (hstep : step s a = some s') : Kept s' ∧ Fails s' := by
  refine ⟨kept_step s a s' h.1 hstep, ?_⟩
  cases a with
  | thread env => exact h.2.thread h.1 (threaded_of_step hstep)
  | _ => exact (fails_finalized (finalized_of_others (fun _ ha => by cases ha) hstep)).mpr h.2

theorem kept_fails_of_late (s : Loop) (a : Action) (s' : Loop) (h : Kept s ∧ Fits s)
    (hlate : ¬NothingLate s a = true) (hstep : step s a = some s') : Kept s' ∧ Fails s' := by
  refine ⟨kept_step s a s' h.1 hstep, ?_⟩
  cases a with
  | thread env => exact fails_of_late h.1 hlate (threaded_of_step hstep)
  | _ => exact absurd rfl hlate

/-- In every run of the thread from its start to its end, all that the collects return
and all that is made before stop clears the running flag is written, exactly if the
final collect finds nothing new and no death is late. -/
theorem allWritten_iff_nothingLate (trackRefs : Bool) (nextId : ℤ) (actions : List Action)
    (s : Loop) (hrun : run step { layer := .init trackRefs nextId } actions = some s)
    (hdone : s.pc = .done) : AllWritten s ↔
      Along step (fun s a => NothingLate s a = true) { layer := .init trackRefs nextId }
        actions := by
  constructor
  · intro hwritten
    by_contra hnot
    have hfails := run_not_along kept_fits_step kept_fails_of_late kept_fails_step
      ⟨kept_init trackRefs nextId, trivial⟩ hnot hrun
    have hbroken := hfails.2
    simp only [Fails, hdone] at hbroken
    exact hbroken hwritten
  · intro halong
    have hfits :=
      (run_along kept_fits_step ⟨kept_init trackRefs nextId, trivial⟩ halong hrun).2
    simp only [Fits, hdone] at hfits
    exact hfits

/-- The thread starts the layer, and its first round reports an object. -/
def firstRound : List Action :=
  List.replicate 3 (.thread { snapshot := some ∅ }) ++ List.replicate 19 (.thread oneObject)

def objectDies : List Action := [.finalize 4096] ++ List.replicate 4 (.finalizer 0 { now := 200 })

/-- The flag is cleared, and the thread stops the layer and ends. -/
def ending : List Action := [.setActive false] ++ List.replicate 8 (.thread { snapshot := some ∅ })

/-- One more round writes the death of the object before the flag is cleared. -/
def quietRun : List Action :=
  firstRound ++ objectDies ++ List.replicate 8 (.thread { snapshot := some ∅ }) ++ ending

theorem quietRun_isSome : (run step {} quietRun).isSome = true := by decide +kernel

def quietEnd : Loop := (run step {} quietRun).get quietRun_isSome

theorem done_of_isDone {s : Loop} (h : (match s.pc with | .done => true | _ => false) = true) :
    s.pc = .done := by
  split at h
  · assumption
  · cases h

theorem allWritten_iff_nothingLate_quietRun :
    AllWritten quietEnd ↔ Along step (fun s a => NothingLate s a = true) {} quietRun :=
  allWritten_iff_nothingLate false 1 quietRun quietEnd (Option.some_get quietRun_isSome).symm
    (done_of_isDone (by decide +kernel))

example : Along step (fun s a => NothingLate s a = true) {} quietRun := by decide +kernel

/-- The object dies after the last round. -/
def lateRun : List Action := firstRound ++ objectDies ++ ending

theorem lateRun_isSome : (run step {} lateRun).isSome = true := by decide +kernel

def lateEnd : Loop := (run step {} lateRun).get lateRun_isSome

/-- The final collect returns the death, and stop hands it to nobody. -/
theorem lateEnd_unwritten : run step {} lateRun = some lateEnd ∧ lateEnd.pc = .done ∧
    lateEnd.returned.flatten.map (fun e => e.base.eventType) = ["ALLOC", "DEALLOC"] ∧
    lateEnd.written.map (fun e => e.base.eventType) = ["ALLOC"] ∧ ¬AllWritten lateEnd := by
  have hreturned : lateEnd.returned.flatten.map (fun e => e.base.eventType) =
      ["ALLOC", "DEALLOC"] := by decide +kernel
  have hwritten : lateEnd.written.map (fun e => e.base.eventType) = ["ALLOC"] := by decide +kernel
  refine ⟨(Option.some_get lateRun_isSome).symm, done_of_isDone (by decide +kernel), hreturned,
    hwritten, fun h => ?_⟩
  rw [h.returned, hreturned] at hwritten
  cases hwritten

end HpcProfiler.ProfilerLoop
