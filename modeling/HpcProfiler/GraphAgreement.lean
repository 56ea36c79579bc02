import HpcProfiler.AllocationHistory
import HpcProfiler.EventAccounting
import HpcProfiler.ObjectGraph

/-!
The object graph that is fed with what collect returns, against the layer. A batch holds
the new allocations first and then the deaths that were queued before them. As long as
no allocation overtakes a death at its address in this way, and no death is drained by a
flush or lost, the graph learns of every address in the order of the ids.
-/

namespace HpcProfiler.GraphAgreement

open AllocationHistory AlternatingHistory Discovery Events MemoryLayer LayerSteps LayerWorld
open WorldInvariant ObjectGraph StepSystem

/-- The batch as the graph is given it, without edges. -/
def arrivals (batch : List CpuEvent) : List Arrival := batch.map fun event => { event }

/-- The graph that has been given the batches in their order. -/
def graphOf (batches : List (List CpuEvent)) : Graph :=
  batches.foldl (fun g batch => ingest g (arrivals batch)) {}

/-- The node describes the object that is tracked. -/
structure Describes (node : GraphNode) (info : Info) : Prop where
  objectType : node.objectType = info.objType
  size : node.sizeBytes = info.size
  firstSeen : node.firstSeenNs = info.allocTs

/-- The node at the address, if it is alive. -/
def aliveNode (g : Graph) (addr : ℤ) : Option GraphNode :=
  (g.nodes.lookup addr).filter GraphNode.alive

/-- The graph has a node where the layer has reported an object; it is alive exactly
where an object is tracked, and then it describes this object. -/
structure Agrees (g : Graph) (ly : Layer) (addr : ℤ) : Prop where
  known : eventsAt ly addr ≠ [] → (g.nodes.lookup addr).isSome = true
  alive : Option.Rel Describes (aliveNode g addr) (ly.live.lookup addr)

/-- No call is in progress, no death is queued, and none at the address is on its way to
the queue. -/
structure Settled (w : World) (addr : ℤ) : Prop where
  main : w.main = none
  queue : w.layer.deallocQueue = []
  finalizer : ∀ pc, (w.heap addr).bind Cell.running = some pc → pc = .pop addr

/-- A collect makes the event of an allocation only when no death at its address is in
hand or queued, and has no death in hand when it cannot take its snapshot. -/
def collectDelivers (env : Env) (ly : Layer) (c : Collect) : Bool :=
  match c.pc with
  | .snapshot => (env.snapshot.isSome && ly.lastSnapshot.isSome) || c.pending.isEmpty
  | .number d _ => (c.pending ++ ly.deallocQueue).all fun e => e.allocAddress ≠ d.addr
  | _ => true

/-- The condition on a step; a flush finds no death in the queue. -/
def Delivers (w : World) : Action → Bool
  | .main env =>
    match w.main with
    | some (.flush .drain) => w.layer.deallocQueue.isEmpty
    | some (.collect c) => collectDelivers env w.layer c
    | some (.stop (.collecting c)) => collectDelivers env w.layer c
    | _ => true
  | _ => true

/-- The events that a call has to return. -/
def inHand : Call → List CpuEvent
  | .collect c => c.newAllocs ++ c.pending
  | .stop (.collecting c) => c.newAllocs ++ c.pending
  | .stop (.clearRunning remaining) => remaining
  | _ => []

/-- The events that are returned, or will be. -/
def underway (w : World) : List CpuEvent :=
  w.batches.flatten ++ (w.main.map inHand).getD [] ++ w.layer.deallocQueue

/-- The event of a death that is not yet in the queue. -/
def unqueued : Dealloc → List CpuEvent
  | .append event => [event]
  | _ => []

def onItsWay (w : World) (addr : ℤ) : List CpuEvent :=
  (((w.heap addr).bind Cell.running).map unqueued).getD []

/-- The events of each address are underway in the order of their ids. -/
structure InOrder (w : World) : Prop where
  chronicle : Chronicle w
  begun : ∀ call, w.main = some call → EventAccounting.Begun call
  order : ∀ addr, eventsAt w.layer addr =
    ((underway w).filter fun e => e.allocAddress = addr) ++ onItsWay w addr

theorem inOrder_init (trackRefs : Bool) (nextId clock : ℤ) :
    InOrder (.init trackRefs nextId clock) :=
  ⟨chronicle_init trackRefs nextId clock, fun _ h => (by cases h), fun _ => rfl⟩

/-- What a step of a collect leaves to be returned. -/
def handOf : Outcome Collect → List CpuEvent
  | .going c => c.newAllocs ++ c.pending
  | .returned batch => batch
  | .raised => []

/-- A step of a collect passes the queue and what is in hand on in one order, or makes
the event of an allocation. -/
theorem collectStep_inHand {env : Env} {ly ly' : Layer} {c : Collect} {out : Outcome Collect}
    (hbegun : WellBegun c) (hdelivers : collectDelivers env ly c = true)
    (hstep : collectStep env ly c = (ly', out)) :
    (ly'.made = ly.made ∧ handOf out ++ ly'.deallocQueue =
        c.newAllocs ++ c.pending ++ ly.deallocQueue) ∨
      ∃ d rest, c.pc = .number d rest ∧
        ly'.made = ly.made ++ [allocEvent env ly.nextId c.rssKb d] ∧
        ly'.deallocQueue = ly.deallocQueue ∧
        handOf out = c.newAllocs ++ [allocEvent env ly.nextId c.rssKb d] ++ c.pending := by
  cases collectStep_eq_effect hstep with
  | drain hpc =>
    have hnew := hbegun.newAllocs (by rw [hpc]; rfl)
    have hpending := hbegun.pending hpc
    exact .inl ⟨rfl, by simp [handOf, hnew, hpending]⟩
  | idleExtend hpc =>
    have hnew := hbegun.newAllocs (by rw [hpc]; rfl)
    exact .inl ⟨rfl, by simp [handOf, hnew]⟩
  | extend hpc => exact .inl ⟨rfl, rfl⟩
  | insert d rest hpc => exact .inl ⟨rfl, rfl⟩
  | quiet last c' hpending hnew hpc hnext hearly =>
    exact .inl ⟨rfl, by rw [handOf, hpending, hnew]⟩
  | raised hpc =>
    have hnew := hbegun.newAllocs (by rw [hpc]; rfl)
    have hpending : c.pending = [] := by
      cases hcurrent : env.snapshot with
      | none => simpa [collectDelivers, hpc, hcurrent] using hdelivers
      | some current =>
        cases hlast : ly.lastSnapshot with
        | none => simpa [collectDelivers, hpc, hlast] using hdelivers
        | some last => simp [collectStep, hpc, hcurrent, hlast] at hstep
    exact .inl ⟨rfl, by simp [handOf, hnew, hpending]⟩
  | number d rest hpc => exact .inr ⟨d, rest, hpc, rfl, rfl, rfl⟩

/-- What a step of a call returns or leaves to be returned. -/
def returning (call : Call) (out : Outcome Call) : List CpuEvent :=
  (batchOf call out).flatten ++ ((mainAfter out).map inHand).getD []

theorem returning_collect (c : Collect) (out : Outcome Collect) :
    returning (.collect c) (out.map .collect) = handOf out := by
  cases out with
  | going c' => rfl
  | returned batch => simp [returning, batchOf, mainAfter, Outcome.map, handOf]
  | raised => rfl

theorem returning_toStop (c : Collect) (out : Outcome Collect) :
    returning (.stop (.collecting c)) ((toStop out).map .stop) = handOf out := by
  cases out with
  | going c' => rfl
  | returned batch => rfl
  | raised => rfl

/-- The event of an allocation, made by the call. -/
structure Allocates (env : Env) (ly ly' : Layer) (call : Call) (out : Outcome Call) (c : Collect)
    (d : Draft) (rest : List Candidate) : Prop where
  collect : collectOf call = some c
  pc : c.pc = .number d rest
  inHand : inHand call = c.newAllocs ++ c.pending
  made : ly'.made = ly.made ++ [allocEvent env ly.nextId c.rssKb d]
  queue : ly'.deallocQueue = ly.deallocQueue
  returning : returning call out =
    c.newAllocs ++ [allocEvent env ly.nextId c.rssKb d] ++ c.pending

theorem startStep_queue (env : Env) (ly : Layer) (pc : Start) :
    (startStep env ly pc).1.deallocQueue = ly.deallocQueue := by
  cases pc with
  | startTracing =>
    unfold startStep
    cases env.snapshot <;> rfl
  | _ => rfl

theorem returning_start (pc : Start) (out : Outcome Start) :
    returning (.start pc) (out.map .start) = [] := by
  cases out <;> rfl

theorem callStep_inHand {env : Env} {w : World} {call : Call} (hmain : w.main = some call)
    (hcalling : ∀ pc, call ≠ .onDealloc pc) (hbegun : EventAccounting.Begun call)
    (hdelivers : Delivers w (.main env) = true) :
    ((callStep env w.layer call).1.made = w.layer.made ∧
      returning call (callStep env w.layer call).2 ++ (callStep env w.layer call).1.deallocQueue =
        inHand call ++ w.layer.deallocQueue) ∨
      ∃ c d rest, Allocates env w.layer (callStep env w.layer call).1 call
        (callStep env w.layer call).2 c d rest := by
  cases call with
  | start pc =>
    refine .inl ⟨(startStep_untouched env w.layer pc).2.2, ?_⟩
    show returning (.start pc) ((startStep env w.layer pc).2.map .start) ++
      (startStep env w.layer pc).1.deallocQueue = _
    rw [returning_start, startStep_queue]
    rfl
  | collect c =>
    have hcollect : collectDelivers env w.layer c = true := by
      simpa [Delivers, hmain] using hdelivers
    show ((collectStep env w.layer c).1.made = _ ∧
      returning _ ((collectStep env w.layer c).2.map .collect) ++ _ = _) ∨ _
    rcases collectStep_inHand hbegun hcollect rfl with hsame | ⟨d, rest, hpc, hmade, hqueue, hhand⟩
    · rw [returning_collect]
      exact .inl hsame
    · exact .inr ⟨c, d, rest, rfl, hpc, rfl, hmade, hqueue, (returning_collect ..).trans hhand⟩
  | flush pc =>
    cases pc with
    | drain =>
      have hqueue : w.layer.deallocQueue = [] := by simpa [Delivers, hmain] using hdelivers
      refine .inl ⟨rfl, ?_⟩
      rw [hqueue]
      rfl
    | takeEvents pending => exact .inl ⟨rfl, rfl⟩
  | stop pc =>
    cases pc with
    | checkRunning =>
      refine .inl ⟨rfl, ?_⟩
      cases hrunning : w.layer.running with
      | true =>
        simp [callStep, stopStep, hrunning, Outcome.map, returning, batchOf, mainAfter, inHand]
      | false =>
        simp [callStep, stopStep, hrunning, Outcome.map, returning, batchOf, mainAfter, inHand]
    | collecting c =>
      have hcollect : collectDelivers env w.layer c = true := by
        simpa [Delivers, hmain] using hdelivers
      show ((collectStep env w.layer c).1.made = _ ∧
        returning _ ((toStop (collectStep env w.layer c).2).map .stop) ++ _ = _) ∨ _
      rcases collectStep_inHand hbegun hcollect rfl with hsame |
        ⟨d, rest, hpc, hmade, hqueue, hhand⟩
      · rw [returning_toStop]
        exact .inl hsame
      · exact .inr ⟨c, d, rest, rfl, hpc, rfl, hmade, hqueue, (returning_toStop ..).trans hhand⟩
    | clearRunning remaining =>
      exact .inl
        ⟨rfl, by simp [callStep, stopStep, Outcome.map, returning, batchOf, mainAfter, inHand]⟩
  | onDealloc pc => exact absurd rfl (hcalling pc)

theorem onItsWay_eq (w : World) (addr : ℤ) :
    onItsWay w addr = ((runningAt w addr).map unqueued).getD [] := rfl

/-- A finalizer that has only begun has no event on its way. -/
theorem onItsWay_outside {w w' : World} (h : OutsideLayer w w') (addr : ℤ) :
    onItsWay w' addr = onItsWay w addr := by
  rw [onItsWay_eq, onItsWay_eq]
  rcases h.running addr with hsame | ⟨hnone, hpop⟩
  · rw [hsame]
  · rw [hnone, hpop]
    rfl

/-- A step that touches neither the events nor what is on its way. -/
theorem order_same {w w' : World} {addr : ℤ}
    (h : eventsAt w.layer addr =
      ((underway w).filter fun e => e.allocAddress = addr) ++ onItsWay w addr)
    (hmade : w'.layer.made = w.layer.made) (hunderway : underway w' = underway w)
    (hway : onItsWay w' addr = onItsWay w addr) :
    eventsAt w'.layer addr =
      ((underway w').filter fun e => e.allocAddress = addr) ++ onItsWay w' addr := by
  rw [hunderway, hway, ← h]
  unfold eventsAt
  rw [hmade]

/-- A step of a finalizer: its event is last when it is made and last in the queue. -/
theorem order_finalizer {w w' : World} {addr : ℤ} {cell : Cell} {pc : Dealloc} (env : Env)
    (h : InOrder w) (hcell : w.heap addr = some cell) (hrunning : cell.running = some pc)
    (hlayer : w'.layer = (onDeallocStep env w.layer pc).1)
    (hheap : w'.heap = Function.update w.heap addr (some { cell with
      running := runningAfter (onDeallocStep env w.layer pc).2 }))
    (hmain : w'.main = w.main) (hbatches : w'.batches = w.batches) (a : ℤ) :
    eventsAt w'.layer a = ((underway w').filter fun e => e.allocAddress = a) ++ onItsWay w' a := by
  have hrun := (h.chronicle.tidy.cells addr cell hcell).running pc hrunning
  have hway : onItsWay w addr = unqueued pc := by
    rw [onItsWay_eq, runningAt_of_cell hcell, hrunning, Option.map_some, Option.getD_some]
  have hway' : onItsWay w' addr =
      ((runningAfter (onDeallocStep env w.layer pc).2).map unqueued).getD [] := by
    rw [onItsWay_eq, runningAt_update hheap, Option.bind_some]
  have helsewhere : a ≠ addr → onItsWay w' a = onItsWay w a := fun hne => by
    rw [onItsWay_eq, onItsWay_eq, runningAt_update_ne hheap hne]
  have hwaySame : onItsWay w' addr = onItsWay w addr →
      onItsWay w' a = onItsWay w a := fun hsame => by
    by_cases heq : a = addr
    · rw [heq, hsame]
    · exact helsewhere heq
  have hunderway : underway w' = w.batches.flatten ++ (w.main.map inHand).getD [] ++
      w'.layer.deallocQueue := by
    unfold underway
    rw [hmain, hbatches]
  cases pc with
  | pop x =>
    refine order_same (h.order a) (by rw [hlayer]; rfl) (by rw [hunderway, hlayer]; rfl) ?_
    refine hwaySame ?_
    rw [hway', hway]
    cases hlookup : w.layer.live.lookup x <;> simp [onDeallocStep, hlookup, runningAfter, unqueued]
  | stamp x info =>
    refine order_same (h.order a) (by rw [hlayer]; rfl) (by rw [hunderway, hlayer]; rfl) ?_
    exact hwaySame (hway'.trans hway.symm)
  | number x info ts =>
    have hsame : underway w' = underway w := by
      rw [hunderway, hlayer]
      rfl
    by_cases heq : a = addr
    · subst heq
      have horder : eventsAt w.layer a =
          ((underway w).filter fun e => e.allocAddress = a) ++ [] := by
        rw [h.order a, hway]
        rfl
      rw [eventsAt_append_self (by rw [hlayer]; rfl) hrun.1, horder, hsame, hway', List.append_nil]
      rfl
    · rw [eventsAt_append_ne (by rw [hlayer]; rfl)
        (by rw [deallocEvent, hrun.1]; exact Ne.symm heq),
        h.order a, hsame, helsewhere heq]
  | append event =>
    have hqueued : underway w' = underway w ++ [event] := by
      rw [hunderway, hlayer]
      exact (List.append_assoc ..).symm
    have hmade : eventsAt w'.layer a = eventsAt w.layer a := by
      unfold eventsAt
      rw [hlayer]
      rfl
    rw [hmade, h.order a, hqueued, List.filter_append]
    by_cases heq : a = addr
    · subst heq
      have hmine : [event].filter (fun e => e.allocAddress = a) = [event] := by simp [hrun.1]
      rw [hway, hway', hmine]
      exact (List.append_nil _).symm
    · have hother : [event].filter (fun e => e.allocAddress = a) = [] := by
        simp [hrun.1, Ne.symm heq]
      rw [helsewhere heq, hother, List.append_nil]

theorem delivers_number {env : Env} {w : World} {call : Call} {c : Collect} {d : Draft}
    {rest : List Candidate} (hmain : w.main = some call) (hdelivers : Delivers w (.main env) = true)
    (hc : collectOf call = some c) (hpc : c.pc = .number d rest) :
    ∀ e ∈ c.pending ++ w.layer.deallocQueue, e.allocAddress ≠ d.addr := by
  have hcollect : collectDelivers env w.layer c = true := by
    cases call with
    | collect c' =>
      cases hc
      simpa [Delivers, hmain] using hdelivers
    | stop pc =>
      cases pc with
      | collecting c' =>
        cases hc
        simpa [Delivers, hmain] using hdelivers
      | _ => cases hc
    | _ => cases hc
  simp only [collectDelivers, hpc, List.all_eq_true, decide_eq_true_eq] at hcollect
  exact hcollect

theorem filter_eq_nil_of_ne {events : List CpuEvent} {addr : ℤ}
    (h : ∀ e ∈ events, e.allocAddress ≠ addr) :
    (events.filter fun e => e.allocAddress = addr) = [] := by
  rw [List.filter_eq_nil_iff]
  intro e he
  simpa using h e he

/-- A step of the calling thread. -/
theorem order_main {w w' : World} {env : Env} (h : InOrder w)
    (hdelivers : Delivers w (.main env) = true) (hstep : LayerWorld.main w env = some w') (a : ℤ) :
    eventsAt w'.layer a = ((underway w').filter fun e => e.allocAddress = a) ++ onItsWay w' a := by
  have hs := mainStep_of_main hstep h.chronicle.tidy.calling
  have hway : onItsWay w' a = onItsWay w a := by
    rw [onItsWay_eq, onItsWay_eq, runningAt_registering hs.heap']
  obtain ⟨call, hcall⟩ := mainCall_of_main hstep
  have hcalling : ∀ pc, call ≠ .onDealloc pc := fun pc heq =>
    h.chronicle.tidy.calling pc (by rw [hcall.main, heq])
  have hunderway : underway w = w.batches.flatten ++ (inHand call ++ w.layer.deallocQueue) := by
    rw [underway, hcall.main, List.append_assoc]
    rfl
  have hunderway' : underway w' = w.batches.flatten ++
      (returning call (callStep env w.layer call).2 ++ w'.layer.deallocQueue) := by
    rw [underway, hcall.main', hcall.batches', returning, List.flatten_append]
    simp only [List.append_assoc]
  rcases callStep_inHand hcall.main hcalling (h.begun call hcall.main) hdelivers with
    ⟨hmade, hsame⟩ | ⟨c, d, rest, hallocates⟩
  · rw [← hcall.layer'] at hmade hsame
    refine order_same (h.order a) hmade ?_ hway
    rw [hunderway', hsame, hunderway]
  · rw [← hcall.layer'] at hallocates
    have hnone := delivers_number hcall.main hdelivers hallocates.collect hallocates.pc
    rw [hunderway', hallocates.returning, hallocates.queue, hway]
    have horder := h.order a
    rw [hunderway, hallocates.inHand] at horder
    simp only [List.filter_append] at horder ⊢
    by_cases heq : d.addr = a
    · subst heq
      have hc : w.collecting = some c := by
        rw [World.collecting, hcall.main]
        exact hallocates.collect
      have hdraft := (h.chronicle.tidy.collecting c hc).draft (d := d)
        (by rw [todo, hallocates.pc]; simp)
      obtain ⟨-, cell, hcell, -, halive⟩ := hdraft
      have hpending := filter_eq_nil_of_ne fun e he => hnone e (List.mem_append_left _ he)
      have hqueue := filter_eq_nil_of_ne fun e he => hnone e (List.mem_append_right _ he)
      have hidle : onItsWay w d.addr = [] := by
        rw [onItsWay_eq, h.chronicle.tidy.runningAt_alive hcell halive]
        rfl
      rw [hidle, hpending, hqueue] at horder ⊢
      have hmine : (allocEvent env w.layer.nextId c.rssKb d).allocAddress = d.addr := rfl
      rw [eventsAt_append_self hallocates.made hmine, horder]
      simp [hmine]
    · have hother : [allocEvent env w.layer.nextId c.rssKb d].filter (fun e => e.allocAddress = a) =
          [] := filter_eq_nil_of_ne fun e he => by rw [List.mem_singleton.mp he]; exact heq
      rw [eventsAt_append_ne hallocates.made heq, horder, hother, List.append_nil]

theorem order_step {w w' : World} {act : Action} (h : InOrder w)
    (hdelivers : Delivers w act = true) (hstep : step w act = some w') (a : ℤ) :
    eventsAt w'.layer a = ((underway w').filter fun e => e.allocAddress = a) ++ onItsWay w' a := by
  cases stepped_of_step hstep with
  | finalizer addr env cell pc hcell hrunning hclock =>
    refine order_finalizer env h hcell hrunning ?_ ?_ ?_ ?_ a
    all_goals rfl
  | call request hmain hrequest =>
    refine order_same (h.order a) rfl ?_ rfl
    unfold underway
    rw [hmain]
    cases request <;> rfl
  | main env _ hmain => exact order_main h hdelivers hmain a
  | _ =>
    have houtside := outsideLayer_of_step hstep rfl
    refine order_same (h.order a) (by rw [houtside.layer]) ?_ (onItsWay_outside houtside a)
    rw [underway, underway, houtside.batches, houtside.main, houtside.layer]

theorem begun_step {w w' : World} {act : Action} (h : InOrder w) (hstep : step w act = some w') :
    ∀ call, w'.main = some call → EventAccounting.Begun call := by
  cases stepped_of_step hstep with
  | call request hmain hrequest =>
    intro call hcall
    cases request <;> cases hcall <;> first | exact wellBegun_init | trivial
  | main env _ hmain =>
    intro call' hcall'
    obtain ⟨call, hcall⟩ := mainCall_of_main hmain
    have hbegun := h.begun call hcall.main
    rw [hcall.main'] at hcall'
    cases hout : callStep env w.layer call with
    | mk ly out =>
      rw [hout] at hcall'
      cases out with
      | going c =>
        cases hcall'
        exact (EventAccounting.callStep_going hbegun hout).1
      | returned result => cases hcall'
      | raised => cases hcall'
  | _ => exact h.begun

theorem inOrder_step (w : World) (act : Action) (w' : World) (h : InOrder w)
    (hdelivers : Delivers w act = true) (hstep : step w act = some w') : InOrder w' where
  chronicle := step_chronicle w act w' h.chronicle hstep
  begun := begun_step h hstep
  order := order_step h hdelivers hstep

/-- The node that a history of an address leaves: alive as the last opening made it, or
not alive. -/
theorem foldl_nodeAfter {events : List CpuEvent} {last : Option CpuEvent}
    (h : History Opens Closes events last) :
    (events.foldl nodeAfter none).filter GraphNode.alive = last.map nodeOf ∧
      (events.foldl nodeAfter none).isSome = !events.isEmpty ∧
      ∀ e, last = some e → events.foldl nodeAfter none = some (nodeOf e) := by
  induction h with
  | nil => exact ⟨rfl, rfl, fun e he => (by cases he)⟩
  | @opened events e h he ih =>
    have hnode : (events ++ [e]).foldl nodeAfter none = some (nodeOf e) := by
      rw [List.foldl_append]
      exact if_neg (by rw [he.2]; simp)
    rw [hnode]
    exact ⟨rfl, by simp, fun e' he' => by cases he'; rfl⟩
  | @closed events e e' h he ih =>
    have hnode : (events ++ [e']).foldl nodeAfter none =
        some ((nodeOf e).markDead e'.base.timestampNs) := by
      rw [List.foldl_append, ih.2.2 e rfl]
      exact if_pos he.isDealloc
    rw [hnode]
    exact ⟨rfl, by simp, fun e' he' => by cases he'⟩

theorem complete_arrivals {events : List CpuEvent}
    (h : ∀ e ∈ events, e.isDealloc.isSome = true) : Complete (arrivals events) := by
  intro a ha
  obtain ⟨e, he, rfl⟩ := List.mem_map.mp ha
  obtain ⟨dead, hdead⟩ := Option.isSome_iff_exists.mp (h e he)
  cases dead with
  | false => exact .alloc hdead rfl
  | true => exact .death hdead

/-- The batches one after another make one stream. -/
theorem graphOf_eq {batches : List (List CpuEvent)}
    (h : ∀ e ∈ batches.flatten, e.isDealloc.isSome = true) :
    graphOf batches = ingest {} (arrivals batches.flatten) := by
  have hfold : ∀ (bs : List (List CpuEvent)) (g : Graph),
      (∀ e ∈ bs.flatten, e.isDealloc.isSome = true) →
      bs.foldl (fun g batch => ingest g (arrivals batch)) g = ingest g (arrivals bs.flatten) := by
    intro bs
    induction bs with
    | nil => exact fun g _ => rfl
    | cons batch bs ih =>
      intro g hbs
      rw [List.flatten_cons] at hbs ⊢
      have hbatch : Complete (arrivals batch) :=
        complete_arrivals fun e he => hbs e (List.mem_append_left _ he)
      have hsplit : arrivals (batch ++ bs.flatten) = arrivals batch ++ arrivals bs.flatten :=
        List.map_append
      rw [List.foldl_cons, ih _ fun e he => hbs e (List.mem_append_right _ he), hsplit]
      exact (ingest_append g hbatch).symm
  exact hfold batches {} h

theorem isDealloc_of_history {events : List CpuEvent} {last : Option CpuEvent}
    (h : History Opens Closes events last) : ∀ e ∈ events, e.isDealloc.isSome = true := by
  induction h with
  | nil => exact fun e he => (by cases he)
  | opened h ha ih =>
    intro e he
    rcases List.mem_append.mp he with hold | hnew
    · exact ih e hold
    · rw [List.mem_singleton.mp hnew, ha.2]
      rfl
  | closed h hb ih =>
    intro e he
    rcases List.mem_append.mp he with hold | hnew
    · exact ih e hold
    · rw [List.mem_singleton.mp hnew, hb.isDealloc]
      rfl

theorem describes_nodeOf {e : CpuEvent} {info : Info} (h : Records e info) :
    Describes (nodeOf e) info := ⟨h.objectType, h.size, h.time⟩

/-- A finalizer at a settled address has only begun. -/
theorem Settled.runningAt {w : World} {addr : ℤ} (h : Settled w addr) :
    LayerWorld.runningAt w addr = none ∨ LayerWorld.runningAt w addr = some (.pop addr) := by
  cases hrunning : LayerWorld.runningAt w addr with
  | none => exact .inl rfl
  | some pc =>
    rw [h.finalizer pc hrunning]
    exact .inr rfl

/-- Where nothing is in progress, all that is carried is tracked. -/
theorem carried_settled {w : World} {addr : ℤ} (h : Settled w addr) :
    carried w addr = w.layer.live.lookup addr := by
  have hentering : entering w addr = none := by
    rw [entering, World.collecting, h.main]
    rfl
  have hleaving : leaving w addr = none := by
    rw [leaving_eq]
    rcases h.runningAt with hnone | hpop
    · rw [hnone]
      rfl
    · rw [hpop]
      rfl
  rw [carried, hentering, hleaving]
  cases w.layer.live.lookup addr <;> rfl

/-- Where nothing is in progress or queued, all events are in the batches. -/
theorem eventsAt_settled {w : World} {addr : ℤ} (hin : InOrder w) (h : Settled w addr) :
    eventsAt w.layer addr = w.batches.flatten.filter fun e => e.allocAddress = addr := by
  have hway : onItsWay w addr = [] := by
    rw [onItsWay_eq]
    rcases h.runningAt with hnone | hpop
    · rw [hnone]
      rfl
    · rw [hpop]
      rfl
  rw [hin.order addr, hway, underway, h.main, h.queue]
  simp

/-- Every event in the batches says whether it reports a death. -/
theorem InOrder.complete {w : World} (hin : InOrder w) :
    ∀ e ∈ w.batches.flatten, e.isDealloc.isSome = true := by
  intro e he
  obtain ⟨last, hhistory, -⟩ := hin.chronicle.told e.allocAddress
  apply isDealloc_of_history hhistory e
  rw [hin.order, underway]
  apply List.mem_append_left
  refine List.mem_filter.mpr ⟨?_, by simp⟩
  exact List.mem_append_left _ (List.mem_append_left _ he)

/-- Whenever nothing is in progress or queued, the graph agrees with the layer. -/
theorem InOrder.agrees {w : World} {addr : ℤ} (hin : InOrder w) (h : Settled w addr) :
    Agrees (graphOf w.batches) w.layer addr := by
  have hlookup : (graphOf w.batches).nodes.lookup addr =
      (eventsAt w.layer addr).foldl nodeAfter none := by
    rw [graphOf_eq hin.complete, lookup_ingest {} (complete_arrivals hin.complete),
      eventsAt_settled hin h]
    simp [arrivals, Function.comp_def]
  obtain ⟨last, hhistory, hlast⟩ := hin.chronicle.told addr
  obtain ⟨halive, hsome, -⟩ := foldl_nodeAfter hhistory
  refine ⟨fun hne => ?_, ?_⟩
  · rw [hlookup, hsome]
    cases hnil : eventsAt w.layer addr with
    | nil => exact absurd hnil hne
    | cons e rest => rfl
  · rw [aliveNode, hlookup, halive, ← carried_settled h]
    generalize carried w addr = info at hlast
    cases hlast with
    | some hrecords => exact .some (describes_nodeOf hrecords)
    | none => exact .none

/-- In every run whose steps meet the condition, whenever no call is in progress and no
death is queued, the graph that was given the batches agrees with the layer. -/
theorem graph_agrees (trackRefs : Bool) (nextId clock : ℤ) (actions : List Action) (w : World)
    (addr : ℤ) (hrun : run step (.init trackRefs nextId clock) actions = some w)
    (hdelivers : Along step (fun w act => Delivers w act = true)
      (.init trackRefs nextId clock) actions)
    (hsettled : Settled w addr) : Agrees (graphOf w.batches) w.layer addr :=
  (run_along inOrder_step (inOrder_init trackRefs nextId clock) hdelivers hrun).agrees hsettled

/-- A payload is reported and dies; a collect returns this, and then a second payload at
its address is reported. -/
def patientRun : List Action :=
  startRun ++ [.create (payload 0), .call .collect] ++
    List.replicate 15 (.main (finds (payload 0) 100 64)) ++
    [.die 4096, .callback 4096] ++ List.replicate 4 (.finalizer 4096 { now := 200 }) ++
    [.free 4096, .call .collect] ++
    List.replicate 4 (.main { now := 250, snapshot := some ∅ }) ++
    [.create (payload 1), .call .collect] ++
    List.replicate 15 (.main (finds (payload 1) 300 128))

theorem patientRun_isSome : (run step {} patientRun).isSome = true := by decide +kernel

def patientEnd : World := (run step {} patientRun).get patientRun_isSome

theorem settled_of_running {w : World} {addr : ℤ} (hmain : w.main.isNone = true)
    (hqueue : w.layer.deallocQueue = [])
    (hrunning : ((w.heap addr).bind Cell.running).isNone = true) : Settled w addr where
  main := Option.isNone_iff_eq_none.mp hmain
  queue := hqueue
  finalizer pc hpc := by
    rw [hpc] at hrunning
    cases hrunning

theorem graph_agrees_patientRun : Agrees (graphOf patientEnd.batches) patientEnd.layer 4096 :=
  graph_agrees false 1 0 patientRun patientEnd 4096 (Option.some_get patientRun_isSome).symm
    (by decide +kernel) (settled_of_running (by decide +kernel) (by decide +kernel)
      (by decide +kernel))

/-- The second payload is reported before the death of the first, and the graph takes
its node for dead. -/
theorem reuseEnd_disagrees : run step {} reuseRun = some reuseEnd ∧ Settled reuseEnd 4096 ∧
    ¬Agrees (graphOf reuseEnd.batches) reuseEnd.layer 4096 := by
  refine ⟨(Option.some_get reuseRun_isSome).symm, ?_, fun h => ?_⟩
  · exact settled_of_running (by decide +kernel) (by decide +kernel) (by decide +kernel)
  · have hdead : aliveNode (graphOf reuseEnd.batches) 4096 = none := by decide +kernel
    have hlive : (reuseEnd.layer.live.lookup 4096).isSome = true := by decide +kernel
    have hrel := h.alive
    rw [hdead] at hrel
    generalize reuseEnd.layer.live.lookup 4096 = info at hrel hlive
    cases hrel
    cases hlive

end HpcProfiler.GraphAgreement
