import HpcProfiler.LayerSteps
import HpcProfiler.StepSystem

/-!
The memory layer in its interpreter. Objects are created and die while one thread calls
the layer; a dying object first runs the finalizers that were registered for it, each a
call of _on_dealloc, and only then is its address free for another object. An object
that a collect has taken up is held by it.
-/

namespace HpcProfiler.LayerWorld

open Events Discovery MemoryLayer

/-- An object in memory, with the finalizers still to run and the one that runs. -/
structure Cell where
  obj : PyObject
  dying : Bool := false
  finalizers : ℕ := 0
  running : Option Dealloc := none

/-- The batches are the results of collect and stop so far. The object that was last
reported at an address is recorded; no step reads this. -/
structure World where
  layer : Layer := {}
  heap : ℤ → Option Cell := fun _ => none
  main : Option Call := none
  clock : ℤ := 0
  nextSerial : ℕ := 0
  batches : List (List CpuEvent) := []
  reported : ℤ → Option PyObject := fun _ => none

/-- A new layer, before the program has any objects. -/
def World.init (trackRefs : Bool) (nextId clock : ℤ) : World where
  layer := .init trackRefs nextId
  clock := clock

/-- The collect that a call is in. -/
def collectOf : Call → Option Collect
  | .collect c => some c
  | .stop (.collecting c) => some c
  | _ => none

def World.collecting (w : World) : Option Collect := w.main.bind collectOf

/-- The objects that local variables of the collect refer to. -/
def World.held (w : World) : List PyObject :=
  (w.collecting.map fun c =>
    c.found.candidates.map Candidate.obj ++ c.found.newGcObjects).getD []

def alive (heap : ℤ → Option Cell) (obj : PyObject) : Bool :=
  (heap obj.addr).any fun cell => cell.obj = obj ∧ cell.dying = false

def World.setCell (w : World) (addr : ℤ) (cell : Option Cell) : World :=
  { w with heap := Function.update w.heap addr cell }

inductive Action
  | create (obj : PyObject)
  | die (addr : ℤ)
  | callback (addr : ℤ)
  | finalizer (addr : ℤ) (env : Env)
  | free (addr : ℤ)
  | call (request : Request)
  | main (env : Env)

def create (w : World) (obj : PyObject) : Option World :=
  if (w.heap obj.addr).isNone ∧ obj.serial = w.nextSerial then
    some { w.setCell obj.addr (some { obj }) with nextSerial := w.nextSerial + 1 }
  else none

/-- The last reference to an object goes. -/
def die (w : World) (addr : ℤ) : Option World :=
  (w.heap addr).bind fun cell =>
    if cell.dying = false ∧ cell.obj ∉ w.held then
      some (w.setCell addr (some { cell with dying := true }))
    else none

def callback (w : World) (addr : ℤ) : Option World :=
  (w.heap addr).bind fun cell =>
    if cell.dying = true ∧ cell.running.isNone ∧ 0 < cell.finalizers then
      some (w.setCell addr (some { cell with
        finalizers := cell.finalizers - 1, running := some (.pop addr) }))
    else none

/-- The finalizer that runs goes on or has returned. -/
def runningAfter : Outcome Dealloc → Option Dealloc
  | .going pc => some pc
  | _ => none

def finalizer (w : World) (addr : ℤ) (env : Env) : Option World :=
  (w.heap addr).bind fun cell => cell.running.bind fun pc =>
    if w.clock ≤ env.now then
      let (layer, outcome) := onDeallocStep env w.layer pc
      some { w.setCell addr (some { cell with running := runningAfter outcome }) with
        layer, clock := env.now }
    else none

def free (w : World) (addr : ℤ) : Option World :=
  (w.heap addr).bind fun cell =>
    if cell.dying = true ∧ cell.running.isNone ∧ cell.finalizers = 0 then
      some (w.setCell addr none)
    else none

def call (w : World) (request : Request) : Option World :=
  match w.main, request with
  | some _, _ => none
  | none, .onDealloc _ => none
  | none, request => some { w with main := some request.call }

/-- The heap after the step: where a finalizer is registered, a type without weak
reference support refuses it. -/
def registering (heap : ℤ → Option Cell) : Option CollectPc → ℤ → Option Cell
  | some (.register d _) =>
    Function.update heap d.addr ((heap d.addr).map fun cell =>
      if d.candidate.obj.weakrefable then { cell with finalizers := cell.finalizers + 1 } else cell)
  | _ => heap

def reporting (reported : ℤ → Option PyObject) : Option CollectPc → ℤ → Option PyObject
  | some (.insert d _) => Function.update reported d.addr (some d.candidate.obj)
  | _ => reported

/-- The results of collect and of stop are handed on. -/
def batchOf : Call → Outcome Call → List (List CpuEvent)
  | .collect _, .returned batch => [batch]
  | .stop _, .returned batch => [batch]
  | _, _ => []

def mainAfter : Outcome Call → Option Call
  | .going c => some c
  | _ => none

/-- A step of the calling thread. What a pass comes upon are objects that are there. -/
def main (w : World) (env : Env) : Option World :=
  w.main.bind fun c =>
    if w.clock ≤ env.now ∧ ∀ s ∈ env.sightings, alive w.heap s.obj = true then
      let (layer, outcome) := callStep env w.layer c
      let pc := (collectOf c).map Collect.pc
      some { w with
        layer
        heap := registering w.heap pc
        main := mainAfter outcome
        clock := env.now
        batches := w.batches ++ batchOf c outcome
        reported := reporting w.reported pc }
    else none

def step (w : World) : Action → Option World
  | .create obj => create w obj
  | .die addr => die w addr
  | .callback addr => callback w addr
  | .finalizer addr env => finalizer w addr env
  | .free addr => free w addr
  | .call request => call w request
  | .main env => main w env

/-- When an action is enabled and what it leads to. -/
inductive Stepped (w : World) : Action → World → Prop
  | create (obj : PyObject) (hcell : w.heap obj.addr = none) (hserial : obj.serial = w.nextSerial) :
    Stepped w (.create obj)
      { w.setCell obj.addr (some { obj }) with nextSerial := w.nextSerial + 1 }
  | die (addr : ℤ) (cell : Cell) (hcell : w.heap addr = some cell) (hdying : cell.dying = false)
    (hheld : cell.obj ∉ w.held) :
    Stepped w (.die addr) (w.setCell addr (some { cell with dying := true }))
  | callback (addr : ℤ) (cell : Cell) (hcell : w.heap addr = some cell)
    (hdying : cell.dying = true) (hrunning : cell.running = none) (hpos : 0 < cell.finalizers) :
    Stepped w (.callback addr) (w.setCell addr (some { cell with
      finalizers := cell.finalizers - 1, running := some (.pop addr) }))
  | finalizer (addr : ℤ) (env : Env) (cell : Cell) (pc : Dealloc)
    (hcell : w.heap addr = some cell) (hrunning : cell.running = some pc)
    (hclock : w.clock ≤ env.now) :
    Stepped w (.finalizer addr env)
      { w.setCell addr (some { cell with
          running := runningAfter (onDeallocStep env w.layer pc).2 }) with
        layer := (onDeallocStep env w.layer pc).1, clock := env.now }
  | free (addr : ℤ) (cell : Cell) (hcell : w.heap addr = some cell) (hdying : cell.dying = true)
    (hrunning : cell.running = none) (hzero : cell.finalizers = 0) :
    Stepped w (.free addr) (w.setCell addr none)
  | call (request : Request) (hmain : w.main = none) (hrequest : ∀ a, request ≠ .onDealloc a) :
    Stepped w (.call request) { w with main := some request.call }
  | main (env : Env) (w' : World) (h : main w env = some w') : Stepped w (.main env) w'

theorem stepped_of_step {w w' : World} {a : Action} (h : step w a = some w') : Stepped w a w' := by
  cases a with
  | create obj =>
    simp only [step, create] at h
    split at h
    · rename_i hallowed
      cases h
      exact .create obj (Option.isNone_iff_eq_none.mp hallowed.1) hallowed.2
    · cases h
  | die addr =>
    obtain ⟨cell, hcell, h⟩ := Option.bind_eq_some_iff.mp h
    split at h
    · rename_i hallowed
      cases h
      exact .die addr cell hcell hallowed.1 hallowed.2
    · cases h
  | callback addr =>
    obtain ⟨cell, hcell, h⟩ := Option.bind_eq_some_iff.mp h
    split at h
    · rename_i hallowed
      cases h
      exact .callback addr cell hcell hallowed.1 (Option.isNone_iff_eq_none.mp hallowed.2.1)
        hallowed.2.2
    · cases h
  | finalizer addr env =>
    obtain ⟨cell, hcell, h⟩ := Option.bind_eq_some_iff.mp h
    obtain ⟨pc, hpc, h⟩ := Option.bind_eq_some_iff.mp h
    split at h
    · rename_i hclock
      cases h
      exact .finalizer addr env cell pc hcell hpc hclock
    · cases h
  | free addr =>
    obtain ⟨cell, hcell, h⟩ := Option.bind_eq_some_iff.mp h
    split at h
    · rename_i hallowed
      cases h
      exact .free addr cell hcell hallowed.1 (Option.isNone_iff_eq_none.mp hallowed.2.1)
        hallowed.2.2
    · cases h
  | call request =>
    cases hmain : w.main with
    | some c => simp [step, call, hmain] at h
    | none =>
      cases request with
      | onDealloc addr => simp [step, call, hmain] at h
      | _ =>
        simp only [step, call, hmain] at h
        cases h
        exact .call _ hmain (fun _ hrequest => by cases hrequest)
  | main env => exact .main env w' h

/-- What a step of the calling thread does to the world, in terms of its call. -/
structure MainCall (w : World) (env : Env) (w' : World) (c : Call) : Prop where
  main : w.main = some c
  clock : w.clock ≤ env.now
  sightings : ∀ s ∈ env.sightings, alive w.heap s.obj = true
  layer' : w'.layer = (callStep env w.layer c).1
  heap' : w'.heap = registering w.heap ((collectOf c).map Collect.pc)
  main' : w'.main = mainAfter (callStep env w.layer c).2
  clock' : w'.clock = env.now
  nextSerial' : w'.nextSerial = w.nextSerial
  batches' : w'.batches = w.batches ++ batchOf c (callStep env w.layer c).2
  reported' : w'.reported = reporting w.reported ((collectOf c).map Collect.pc)

theorem mainCall_of_main {w w' : World} {env : Env} (h : LayerWorld.main w env = some w') :
    ∃ c, MainCall w env w' c := by
  unfold LayerWorld.main at h
  obtain ⟨c, hmain, hcall⟩ := Option.bind_eq_some_iff.mp h
  split at hcall
  · rename_i hallowed
    have hw' := Option.some.inj hcall
    subst hw'
    exact ⟨c, hmain, hallowed.1, hallowed.2, rfl, rfl, rfl, rfl, rfl, rfl, rfl⟩
  · cases hcall

theorem running_going {out : Outcome Dealloc} {pc : Dealloc} (h : runningAfter out = some pc) :
    out = .going pc := by
  cases out with
  | going pc' =>
    cases h
    rfl
  | _ => cases h

/-- The finalizer in progress at an address. -/
def runningAt (w : World) (addr : ℤ) : Option Dealloc := (w.heap addr).bind Cell.running

theorem runningAt_of_cell {w : World} {addr : ℤ} {cell : Cell} (hcell : w.heap addr = some cell) :
    runningAt w addr = cell.running := by
  rw [runningAt, hcell, Option.bind_some]

theorem runningAt_update {w w' : World} {addr : ℤ} {cell' : Option Cell}
    (hheap : w'.heap = Function.update w.heap addr cell') :
    runningAt w' addr = cell'.bind Cell.running := by
  rw [runningAt, hheap, Function.update_self]

theorem runningAt_update_ne {w w' : World} {addr a : ℤ} {cell' : Option Cell}
    (hheap : w'.heap = Function.update w.heap addr cell') (hne : a ≠ addr) :
    runningAt w' a = runningAt w a := by
  rw [runningAt, runningAt, hheap, Function.update_of_ne hne]

/-- Objects come and go, and their finalizers begin. -/
def Action.outside : Action → Bool
  | .create _ => true
  | .die _ => true
  | .callback _ => true
  | .free _ => true
  | _ => false

/-- A step outside the layer. -/
structure OutsideLayer (w w' : World) : Prop where
  layer : w'.layer = w.layer
  main : w'.main = w.main
  batches : w'.batches = w.batches
  running : ∀ a, runningAt w' a = runningAt w a ∨
    runningAt w a = none ∧ runningAt w' a = some (.pop a)

theorem OutsideLayer.of_setCell {w w' : World} {addr : ℤ} {cell' : Option Cell}
    (hheap : w'.heap = Function.update w.heap addr cell') (hlayer : w'.layer = w.layer)
    (hmain : w'.main = w.main) (hbatches : w'.batches = w.batches)
    (hrunning : cell'.bind Cell.running = runningAt w addr ∨
      runningAt w addr = none ∧ cell'.bind Cell.running = some (.pop addr)) :
    OutsideLayer w w' := by
  refine ⟨hlayer, hmain, hbatches, fun a => ?_⟩
  by_cases heq : a = addr
  · rw [heq, runningAt_update hheap]
    exact hrunning
  · exact .inl (runningAt_update_ne hheap heq)

theorem outsideLayer_of_step {w w' : World} {act : Action} (h : step w act = some w')
    (hact : act.outside = true) : OutsideLayer w w' := by
  cases stepped_of_step h with
  | create obj hcell hserial =>
    refine .of_setCell rfl rfl rfl rfl (.inl ?_)
    rw [runningAt, hcell]
    rfl
  | die addr cell hcell hdying hheld =>
    exact .of_setCell rfl rfl rfl rfl (.inl (runningAt_of_cell hcell).symm)
  | callback addr cell hcell hdying hrunning hpos =>
    exact .of_setCell rfl rfl rfl rfl (.inr ⟨(runningAt_of_cell hcell).trans hrunning, rfl⟩)
  | free addr cell hcell hdying hrunning hzero =>
    exact .of_setCell rfl rfl rfl rfl (.inl ((runningAt_of_cell hcell).trans hrunning).symm)
  | finalizer | call | main => cases hact

end HpcProfiler.LayerWorld
