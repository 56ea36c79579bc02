import HpcProfiler.EventAccounting
import HpcProfiler.LayerWorld

/-!
What becomes of the queued reports of deaths when a collect raises. The events are taken
from the queue first and put into the buffer last; an exception in between takes them along.
-/

namespace HpcProfiler.StrandedDeaths

open Events MemoryLayer LayerSteps LayerWorld StepSystem

inductive Entry
  | collect
  | stop

def Entry.call : Entry → Call
  | .collect => .collect {}
  | .stop => .stop .checkRunning

/-- A call that has its result is past its last step. What finalizers have put into the
queue since the call has drained it is kept apart. -/
structure Underway where
  layer : Layer
  call : Option Call
  arrived : List CpuEvent := []

def begin (entry : Entry) (layer : Layer) : Underway where
  layer := layer
  call := some entry.call

inductive Action
  | own (env : Env)
  | others (layer : Layer) (new : List CpuEvent)

/-- The queue is drained in one step, and is empty then. -/
def arrivedAfter (call : Call) (arrived : List CpuEvent) : List CpuEvent :=
  match (collectOf call).map Collect.pc with
  | some .drain => []
  | _ => arrived

def own (s : Underway) (env : Env) : Option Underway :=
  s.call.bind fun call =>
    match callStep env s.layer call with
    | (layer, .going call') =>
      some { layer, call := some call', arrived := arrivedAfter call s.arrived }
    | (layer, .returned _) => some { s with layer, call := none }
    | (_, .raised) => none

/-- Between two steps of the call the finalizers append to the queue, and no other collect or
flush is made. -/
def others (s : Underway) (layer : Layer) (new : List CpuEvent) : Option Underway :=
  if layer.events = s.layer.events ∧ layer.deallocQueue = s.layer.deallocQueue ++ new then
    some { s with layer, arrived := s.arrived ++ new }
  else none

def step (s : Underway) : Action → Option Underway
  | .own env => own s env
  | .others layer new => others s layer new

/-- An exception leaves the call, and the layer as it is then: between two steps, or from a
step that fails. -/
inductive Leaves (s : Underway) : Layer → Prop
  | fault : Leaves s s.layer
  | raised (env : Env) (call : Call) (layer : Layer) (hcall : s.call = some call)
    (hstep : callStep env s.layer call = (layer, .raised)) : Leaves s layer

/-- No event that was queued is lost. -/
def Kept (start after : Layer) : Prop :=
  ∀ e ∈ start.deallocQueue, e ∈ after.deallocQueue ∨ e ∈ after.events

/-- The call has drained the queue and not yet stored what was in it. -/
def InHand (s : Underway) : Prop := ∃ c, s.call.bind collectOf = some c ∧ c.pc ≠ .drain

/-- Where the events are that were queued at the start. -/
inductive Whereabouts (start : Layer) (s : Underway) : Prop
  | queued (hout : ¬InHand s) (hevents : s.layer.events = start.events)
    (hqueue : ∀ e ∈ start.deallocQueue, e ∈ s.layer.deallocQueue)
  | inHand (c : Collect) (hcall : s.call.bind collectOf = some c) (hpc : c.pc ≠ .drain)
    (hevents : s.layer.events = start.events) (hqueue : s.layer.deallocQueue = s.arrived)
    (hpending : ∀ e ∈ start.deallocQueue, e ∈ c.pending)
  | stored (hout : ∀ call, s.call = some call → ∃ remaining, call = .stop (.clearRunning remaining))
    (hevents : ∀ e ∈ start.deallocQueue, e ∈ s.layer.events)

theorem not_stored {s : Underway} {c : Collect}
    (hc : s.call.bind collectOf = some c)
    (hout : ∀ call, s.call = some call → ∃ remaining, call = .stop (.clearRunning remaining)) :
    False := by
  obtain ⟨call, hcall, hcollect⟩ := Option.bind_eq_some_iff.mp hc
  obtain ⟨remaining, rfl⟩ := hout call hcall
  cases hcollect

theorem whereabouts_begin (entry : Entry) (start : Layer) :
    Whereabouts start (begin entry start) := by
  refine .queued ?_ rfl fun e he => he
  intro ⟨c, hc, hpc⟩
  cases entry with
  | collect =>
    cases hc
    exact hpc rfl
  | stop => cases hc

section

variable {start ly : Layer} {s : Underway} {env : Env} {c c' : Collect} {call call' : Call}

theorem arrivedAfter_of_ne {arrived : List CpuEvent} (hc : collectOf call = some c)
    (hpc : c.pc ≠ .drain) : arrivedAfter call arrived = arrived := by
  unfold arrivedAfter
  rw [hc]
  dsimp only [Option.map_some]
  split
  · rename_i hdrain
    exact absurd (Option.some.inj hdrain) hpc
  · rfl

/-- Past the drain the events are in hand. -/
theorem Whereabouts.inHand_of_collect (h : Whereabouts start s)
    (hc : s.call.bind collectOf = some c) (hpc : c.pc ≠ .drain) :
    s.layer.events = start.events ∧ s.layer.deallocQueue = s.arrived ∧
      ∀ e ∈ start.deallocQueue, e ∈ c.pending := by
  cases h with
  | queued hout hevents hqueue => exact absurd ⟨c, hc, hpc⟩ hout
  | inHand c' hc' hpc' hevents hqueue hpending =>
    rw [hc] at hc'
    cases hc'
    exact ⟨hevents, hqueue, hpending⟩
  | stored hout hevents => exact (not_stored hc hout).elim

/-- A step of the collect that does not end it. -/
theorem whereabouts_going (h : Whereabouts start s) (hcall : s.call = some call)
    (hc : collectOf call = some c) (hstep : collectStep env s.layer c = (ly, .going c'))
    (hc' : collectOf call' = some c') :
    Whereabouts start
      { layer := ly, call := some call', arrived := arrivedAfter call s.arrived } := by
  have hcollecting : s.call.bind collectOf = some c := by
    rw [hcall]
    exact hc
  have hlater : c.pc ≠ .drain → c'.pc ≠ .drain → ly.events = s.layer.events →
      ly.deallocQueue = s.layer.deallocQueue → c'.pending = c.pending →
        Whereabouts start
          { layer := ly, call := some call', arrived := arrivedAfter call s.arrived } := by
    intro hpc hpc' hevents hqueue hpending
    obtain ⟨hevents', hqueue', hpending'⟩ := h.inHand_of_collect hcollecting hpc
    rw [arrivedAfter_of_ne hc hpc]
    refine .inHand c' hc' hpc' (hevents.trans hevents') (hqueue.trans hqueue') ?_
    rw [hpending]
    exact hpending'
  cases collectStep_eq_effect hstep with
  | drain hpc =>
    have harrived : arrivedAfter call s.arrived = [] := by
      unfold arrivedAfter
      rw [hc, Option.map_some, hpc]
    rw [harrived]
    cases h with
    | queued hout hevents hqueue => exact .inHand _ hc' (by simp) hevents rfl hqueue
    | inHand c'' hc'' hpc'' =>
      rw [hcollecting] at hc''
      cases hc''
      exact absurd hpc hpc''
    | stored hout hevents => exact (not_stored hcollecting hout).elim
  | number d rest hpc => exact hlater (by simp [hpc]) (by simp) rfl rfl rfl
  | insert d rest hpc => exact hlater (by simp [hpc]) (by simp) rfl rfl rfl
  | quiet last _ hpending hnew hpc hnext hearly =>
    refine hlater ?_ ?_ rfl rfl hpending
    · intro hdrain
      rw [hdrain] at hpc
      cases hpc
    · intro hdrain
      rw [hdrain] at hnext
      cases hnext

/-- The collect has put the events into the buffer when it returns. -/
theorem stored_of_returned {result : List CpuEvent} (h : Whereabouts start s)
    (hc : s.call.bind collectOf = some c)
    (hstep : collectStep env s.layer c = (ly, .returned result)) :
    ∀ e ∈ start.deallocQueue, e ∈ ly.events := by
  intro e he
  cases collectStep_eq_effect hstep with
  | idleExtend hpc =>
    have hpending := (h.inHand_of_collect hc (by simp [hpc])).2.2 e he
    exact List.mem_append_right _ hpending
  | extend hpc =>
    have hpending := (h.inHand_of_collect hc (by simp [hpc])).2.2 e he
    exact List.mem_append_right _ (List.mem_append_right _ hpending)

end

/-- The call is the collect or the stop that it was at the start. -/
structure Traced (start : Layer) (s : Underway) : Prop where
  call : ∀ call, s.call = some call → (∃ c, call = .collect c) ∨ ∃ pc, call = .stop pc
  whereabouts : Whereabouts start s

theorem traced_begin (entry : Entry) (start : Layer) : Traced start (begin entry start) where
  call call hcall := by
    cases entry with
    | collect =>
      cases hcall
      exact .inl ⟨_, rfl⟩
    | stop =>
      cases hcall
      exact .inr ⟨_, rfl⟩
  whereabouts := whereabouts_begin entry start

/-- The call has its result. -/
theorem traced_ended {start ly : Layer} {arrived : List CpuEvent}
    (h : Whereabouts start { layer := ly, call := none, arrived }) :
    Traced start { layer := ly, call := none, arrived } where
  call _ hcall := by cases hcall
  whereabouts := h

theorem whereabouts_ended {start ly : Layer} {arrived : List CpuEvent}
    (h : ∀ e ∈ start.deallocQueue, e ∈ ly.events) :
    Whereabouts start { layer := ly, call := none, arrived } :=
  .stored (fun _ hcall => by cases hcall) h

/-- A call that is in no collect ends without touching the events. -/
theorem whereabouts_idle {start ly : Layer} {s : Underway} {arrived : List CpuEvent}
    (h : Whereabouts start s) (hc : s.call.bind collectOf = none)
    (hevents : ly.events = s.layer.events) (hqueue : ly.deallocQueue = s.layer.deallocQueue) :
    Whereabouts start { layer := ly, call := none, arrived } := by
  cases h with
  | queued hout hevents' hqueue' =>
    refine .queued ?_ (hevents.trans hevents') ?_
    · intro ⟨c, hcollect, _⟩
      cases hcollect
    · rw [hqueue]
      exact hqueue'
  | inHand c hcollect =>
    rw [hc] at hcollect
    cases hcollect
  | stored hout hevents' =>
    apply whereabouts_ended
    rw [hevents]
    exact hevents'

/-- The test of stop leads to its collect. -/
theorem whereabouts_collecting {start : Layer} {s : Underway} (h : Whereabouts start s)
    (hcall : s.call = some (.stop .checkRunning)) :
    Whereabouts start { s with call := some (.stop (.collecting {})) } := by
  cases h with
  | queued hout hevents hqueue =>
    refine .queued ?_ hevents hqueue
    intro ⟨c, hc, hpc⟩
    cases hc
    exact hpc rfl
  | inHand c hc =>
    rw [hcall] at hc
    cases hc
  | stored hout hevents =>
    obtain ⟨remaining, heq⟩ := hout _ hcall
    cases heq

theorem traced_own {start : Layer} {s s' : Underway} {env : Env} (h : Traced start s)
    (hstep : own s env = some s') : Traced start s' := by
  obtain ⟨call, hcall, hstep⟩ := Option.bind_eq_some_iff.mp hstep
  rcases hout : callStep env s.layer call with ⟨ly, out⟩
  rw [hout] at hstep
  have hw := h.whereabouts
  rcases h.call call hcall with ⟨c, rfl⟩ | ⟨pc, rfl⟩
  · have hc : s.call.bind collectOf = some c := by
      rw [hcall]
      rfl
    cases out with
    | going call' =>
      cases hstep
      obtain ⟨c', hcollect, rfl⟩ := going_of_map hout
      refine ⟨fun _ heq => .inl ⟨c', (Option.some.inj heq).symm⟩, ?_⟩
      exact whereabouts_going hw hcall rfl hcollect rfl
    | returned result =>
      cases hstep
      exact traced_ended (whereabouts_ended (stored_of_returned hw hc (returned_of_map hout)))
    | raised => cases hstep
  · cases out with
    | going call' =>
      cases hstep
      obtain ⟨pc', hpc, rfl⟩ := going_of_map hout
      refine ⟨fun _ heq => .inr ⟨pc', (Option.some.inj heq).symm⟩, ?_⟩
      cases pc with
      | checkRunning =>
        obtain ⟨rfl, hgoing⟩ := Prod.mk.inj hpc
        split at hgoing
        · cases hgoing
          exact whereabouts_collecting hw hcall
        · cases hgoing
      | collecting c =>
        have hc : s.call.bind collectOf = some c := by
          rw [hcall]
          rfl
        rcases going_of_toStop hpc with ⟨c', hcollect, rfl⟩ | ⟨remaining, hcollect, rfl⟩
        · exact whereabouts_going hw hcall rfl hcollect rfl
        · refine .stored (fun _ heq => ⟨remaining, (Option.some.inj heq).symm⟩) ?_
          exact stored_of_returned hw hc hcollect
      | clearRunning remaining => cases hpc
    | returned result =>
      cases hstep
      apply traced_ended
      have hpc := returned_of_map hout
      cases pc with
      | checkRunning =>
        obtain ⟨rfl, -⟩ := Prod.mk.inj hpc
        exact whereabouts_idle hw (by rw [hcall]; rfl) rfl rfl
      | collecting c => exact (not_returned_of_toStop hpc).elim
      | clearRunning remaining =>
        cases hpc
        exact whereabouts_idle hw (by rw [hcall]; rfl) rfl rfl
    | raised => cases hstep

theorem traced_others {start ly : Layer} {s s' : Underway} {new : List CpuEvent}
    (h : Traced start s) (hstep : others s ly new = some s') : Traced start s' := by
  unfold others at hstep
  split at hstep
  · rename_i hallowed
    obtain ⟨hevents, hqueue⟩ := hallowed
    cases hstep
    refine ⟨h.call, ?_⟩
    cases h.whereabouts with
    | queued hout hevents' hqueue' =>
      refine .queued hout (hevents.trans hevents') fun e he => ?_
      show e ∈ ly.deallocQueue
      rw [hqueue]
      exact List.mem_append_left _ (hqueue' e he)
    | inHand c hc hpc hevents' hqueue' hpending =>
      refine .inHand c hc hpc (hevents.trans hevents') ?_ hpending
      show ly.deallocQueue = s.arrived ++ new
      rw [hqueue, hqueue']
    | stored hout hevents' =>
      refine .stored hout fun e he => ?_
      show e ∈ ly.events
      rw [hevents]
      exact hevents' e he
  · cases hstep

theorem traced_step {start : Layer} (s : Underway) (a : Action) (s' : Underway)
    (h : Traced start s) (hstep : step s a = some s') : Traced start s' := by
  cases a with
  | own env => exact traced_own h hstep
  | others ly new => exact traced_others h hstep

/-- A step of the call that fails leaves the layer as it was. -/
theorem layer_of_leaves {start after : Layer} {s : Underway} (h : Traced start s)
    (hleaves : Leaves s after) : after = s.layer := by
  have hcollect : ∀ {env : Env} {c : Collect} {ly : Layer},
      collectStep env s.layer c = (ly, .raised) → ly = s.layer := by
    intro env c ly hstep
    cases collectStep_eq_effect hstep with
    | raised hpc => rfl
  cases hleaves with
  | fault => rfl
  | raised env call _ hcall hstep =>
    rcases h.call call hcall with ⟨c, rfl⟩ | ⟨pc, rfl⟩
    · exact hcollect (raised_of_map hstep)
    · have hpc := raised_of_map hstep
      cases pc with
      | checkRunning =>
        obtain ⟨rfl, -⟩ := Prod.mk.inj hpc
        rfl
      | collecting c => exact hcollect (raised_of_toStop hpc)
      | clearRunning remaining => cases hpc

/-- Whatever the state of the layer and wherever an exception leaves the call: the events
that were queued are kept exactly if the call has not drained the queue yet or has stored
them, or each of them is in the buffer anyway or was queued again since. -/
theorem kept_iff (entry : Entry) (start : Layer) (actions : List Action) (s : Underway)
    (after : Layer) (hrun : run step (begin entry start) actions = some s)
    (hleaves : Leaves s after) :
    Kept start after ↔ (InHand s → ∀ e ∈ start.deallocQueue, e ∈ start.events ∨ e ∈ s.arrived) := by
  have htraced := run_keeps traced_step (traced_begin entry start) hrun
  rw [layer_of_leaves htraced hleaves]
  cases htraced.whereabouts with
  | queued hout hevents hqueue =>
    exact iff_of_true (fun e he => .inl (hqueue e he)) fun hinHand => absurd hinHand hout
  | stored hout hevents =>
    refine iff_of_true (fun e he => .inr (hevents e he)) ?_
    intro ⟨c, hc, _⟩
    exact (not_stored hc hout).elim
  | inHand c hc hpc hevents hqueue hpending =>
    unfold Kept
    rw [hevents, hqueue]
    constructor
    · intro hkept _ e he
      exact (hkept e he).symm
    · intro hcondition e he
      exact (hcondition ⟨c, hc, hpc⟩ e he).symm

/-- In a layer's own runs no queued event is in the buffer, so that a collect that raises
between its drain and its last step loses all that was queued. -/
theorem queued_not_stored {trackRefs : Bool} {nextId : ℤ} {actions : List EventAccounting.Action}
    {p : EventAccounting.Pool}
    (hrun : run EventAccounting.step { layer := .init trackRefs nextId } actions = some p)
    (hraised : p.raised = false) : ∀ e ∈ p.layer.deallocQueue, e ∉ p.layer.events := by
  have h := run_keeps EventAccounting.step_accounted
    (fun _ => EventAccounting.accounted_init trackRefs nextId) hrun hraised
  have hmade : (p.layer.made : Multiset CpuEvent).Nodup :=
    Multiset.coe_nodup.mpr (List.Nodup.of_map _ h.numbered.nodup)
  rw [h.places, Multiset.nodup_add, Multiset.nodup_add] at hmade
  obtain ⟨⟨-, -, hapart⟩, -, -⟩ := hmade
  intro e hqueue hevents
  have hleft : e ∈
      (p.layer.deallocQueue : Multiset CpuEvent) + p.calls.flatMap EventAccounting.holds :=
    Multiset.mem_add.mpr (.inl (Multiset.mem_coe.mpr hqueue))
  exact Multiset.disjoint_left.mp hapart hleft (Multiset.mem_coe.mpr hevents)

/-- The report of a death waits in the queue, and the target has stopped tracemalloc. -/
def oneDeath : Layer where
  running := true
  lastSnapshot := some ∅
  deallocQueue := [deallocEvent {} 1 4096 ⟨64, "Payload", 0, 0⟩ 100]

/-- The collect drains the queue and goes on to its snapshot. -/
def toSnapshot : List Action := [.own {}, .own {}]

theorem toSnapshot_isSome : (run step (begin .collect oneDeath) toSnapshot).isSome = true := by
  decide +kernel

def atSnapshot : Underway := (run step (begin .collect oneDeath) toSnapshot).get toSnapshot_isSome

theorem atSnapshot_raises : Leaves atSnapshot atSnapshot.layer :=
  .raised {} (.collect { pc := .snapshot, pending := oneDeath.deallocQueue }) _ rfl rfl

theorem kept_iff_atSnapshot : Kept oneDeath atSnapshot.layer ↔
    (InHand atSnapshot →
      ∀ e ∈ oneDeath.deallocQueue, e ∈ oneDeath.events ∨ e ∈ atSnapshot.arrived) :=
  kept_iff .collect oneDeath toSnapshot atSnapshot atSnapshot.layer
    (Option.some_get toSnapshot_isSome).symm atSnapshot_raises

/-- The report is neither in the queue nor in the buffer when the snapshot has failed. -/
theorem death_lost_at_snapshot : ¬∀ entry start actions s after,
    run step (begin entry start) actions = some s → Leaves s after → Kept start after := by
  intro hkept
  have hend := hkept .collect oneDeath toSnapshot atSnapshot atSnapshot.layer
    (Option.some_get toSnapshot_isSome).symm atSnapshot_raises
  rcases hend _ (List.mem_singleton_self _) with hqueue | hevents
  · cases hqueue
  · cases hevents

end HpcProfiler.StrandedDeaths
