import HpcProfiler.AlternatingHistory
import HpcProfiler.WorldInvariant

/-!
The events made for one address. What the layer knows of the object at the address is
carried from the event that reports it to the event of its death: by the collect that
enters it, by the map of live objects, and by the finalizer that has taken it out. An
event opens the history of the address when nothing is carried, and closes it with what
is carried.
-/

namespace HpcProfiler.AllocationHistory

open AlternatingHistory Discovery Events MemoryLayer LayerSteps LayerWorld WorldInvariant
open StepSystem

/-- The events made for the address, in the order of their ids. -/
def eventsAt (ly : Layer) (addr : ℤ) : List CpuEvent :=
  ly.made.filter fun e => e.allocAddress = addr

def Opens (e : CpuEvent) : Prop := e.base.eventType = "ALLOC" ∧ e.isDealloc = some false

/-- The second event reports the death of what the first has reported. -/
structure Closes (e e' : CpuEvent) : Prop where
  eventType : e'.base.eventType = "DEALLOC"
  isDealloc : e'.isDealloc = some true
  size : e'.allocSizeBytes = e.allocSizeBytes
  objectType : e'.objectType = e.objectType
  pinned : e'.pinnedAddress = e.pinnedAddress
  lifetime : e'.lifetimeNs = some (e'.base.timestampNs - e.base.timestampNs)
  nonneg : e.base.timestampNs ≤ e'.base.timestampNs

/-- The event reports what the layer keeps. -/
structure Records (e : CpuEvent) (info : Info) : Prop where
  size : e.allocSizeBytes = info.size
  objectType : e.objectType = info.objType
  pinned : e.pinnedAddress = some info.pinnedAddr
  time : e.base.timestampNs = info.allocTs

/-- What the collect has reported and not yet entered. -/
def toEnter (addr : ℤ) : CollectPc → Option Info
  | .insert d _ => if d.addr = addr then some d.info else none
  | _ => none

def entering (w : World) (addr : ℤ) : Option Info :=
  w.collecting.bind fun c => toEnter addr c.pc

/-- What the finalizer has taken out and not yet reported. -/
def taken : Dealloc → Option Info
  | .stamp _ info => some info
  | .number _ info _ => some info
  | _ => none

def leaving (w : World) (addr : ℤ) : Option Info :=
  ((w.heap addr).bind Cell.running).bind taken

def carried (w : World) (addr : ℤ) : Option Info :=
  (w.layer.live.lookup addr).or ((entering w addr).or (leaving w addr))

/-- What a step means to the address. -/
inductive Turn (addr : ℤ) (w w' : World) : Prop
  | none (hevents : eventsAt w'.layer addr = eventsAt w.layer addr)
    (hcarried : carried w' addr = carried w addr)
  | opened (e : CpuEvent) (info : Info)
    (hevents : eventsAt w'.layer addr = eventsAt w.layer addr ++ [e])
    (hcarried : carried w addr = .none) (hcarried' : carried w' addr = some info)
    (hopens : Opens e) (hrecords : Records e info)
  | closed (e : CpuEvent) (info : Info)
    (hevents : eventsAt w'.layer addr = eventsAt w.layer addr ++ [e])
    (hcarried : carried w addr = some info) (hcarried' : carried w' addr = .none)
    (hcloses : ∀ e₀, Records e₀ info → Closes e₀ e)

theorem eventsAt_append_self {ly ly' : Layer} {e : CpuEvent} {addr : ℤ}
    (hmade : ly'.made = ly.made ++ [e]) (he : e.allocAddress = addr) :
    eventsAt ly' addr = eventsAt ly addr ++ [e] := by
  unfold eventsAt
  rw [hmade, List.filter_append, List.filter_singleton, he]
  simp

theorem eventsAt_append_ne {ly ly' : Layer} {e : CpuEvent} {addr : ℤ}
    (hmade : ly'.made = ly.made ++ [e]) (he : e.allocAddress ≠ addr) :
    eventsAt ly' addr = eventsAt ly addr := by
  unfold eventsAt
  rw [hmade, List.filter_append, List.filter_singleton]
  simp [he]

/-- What stays the same makes no turn. -/
theorem turn_none {addr : ℤ} {w w' : World} (hmade : w'.layer.made = w.layer.made)
    (hlive : w'.layer.live.lookup addr = w.layer.live.lookup addr)
    (hentering : entering w' addr = entering w addr)
    (hleaving : leaving w' addr = leaving w addr) : Turn addr w w' := by
  refine .none ?_ ?_
  · unfold eventsAt
    rw [hmade]
  · unfold carried
    rw [hlive, hentering, hleaving]

theorem entering_untaken {w : World} {addr : ℤ} (h : Tidy w) (huntaken : Untaken w addr) :
    entering w addr = none := by
  unfold entering
  cases hc : w.collecting with
  | none => rfl
  | some c =>
    rw [Option.bind_some]
    cases hpc : c.pc with
    | insert d rest =>
      have hmem := (h.collecting c hc).sublist.subset (a := d.candidate) (by rw [todo, hpc]; simp)
      exact if_neg (huntaken c hc d.candidate hmem)
    | _ => rfl

theorem leaving_eq (w : World) (addr : ℤ) : leaving w addr = (runningAt w addr).bind taken := rfl

/-- A finalizer that has only begun has taken nothing out. -/
theorem leaving_outside {w w' : World} (h : OutsideLayer w w') (addr : ℤ) :
    leaving w' addr = leaving w addr := by
  rw [leaving_eq, leaving_eq]
  rcases h.running addr with hsame | ⟨hnone, hpop⟩
  · rw [hsame]
  · rw [hnone, hpop]
    rfl

/-- The event of a death closes with what the finalizer has taken out. -/
theorem closes_deallocEvent {env : Env} {eventId addr ts : ℤ} {info : Info}
    (hts : info.allocTs ≤ ts) (e : CpuEvent) (he : Records e info) :
    Closes e (deallocEvent env eventId addr info ts) where
  eventType := rfl
  isDealloc := rfl
  size := he.size.symm
  objectType := he.objectType.symm
  pinned := he.pinned.symm
  lifetime := by
    rw [he.time]
    rfl
  nonneg := by
    rw [he.time]
    exact hts

theorem records_allocEvent (env : Env) (eventId rssKb : ℤ) (d : Draft) :
    Records (allocEvent env eventId rssKb d) d.info := ⟨rfl, rfl, rfl, rfl⟩

/-- A step of a finalizer: what it takes out it carries on, and its event closes. -/
theorem turn_finalizer {w w' : World} {addr : ℤ} {cell : Cell} {pc : Dealloc} (env : Env)
    (h : Tidy w) (hcell : w.heap addr = some cell) (hrunning : cell.running = some pc)
    (hlayer : w'.layer = (onDeallocStep env w.layer pc).1)
    (hheap : w'.heap = Function.update w.heap addr (some { cell with
      running := runningAfter (onDeallocStep env w.layer pc).2 }))
    (hmain : w'.main = w.main) (a : ℤ) : Turn a w w' := by
  have hok := h.cells addr cell hcell
  have hrun := hok.running pc hrunning
  have hdying := hok.dying (by rw [hrunning]; rfl)
  have hcollecting : w'.collecting = w.collecting := by rw [World.collecting, hmain]; rfl
  have hentering : ∀ x, entering w' x = entering w x := fun x => by
    unfold entering
    rw [hcollecting]
  have hnone := entering_untaken h (h.untaken_of_dying hcell hdying)
  have hleaving : leaving w addr = taken pc := by
    rw [leaving_eq, runningAt_of_cell hcell, hrunning, Option.bind_some]
  by_cases heq : a = addr
  · subst heq
    have hleaving' : leaving w' a =
        (runningAfter (onDeallocStep env w.layer pc).2).bind taken := by
      rw [leaving_eq, runningAt_update hheap, Option.bind_some]
    cases pc with
    | pop x =>
      have hx : x = a := hrun
      subst hx
      have hlive' : w'.layer.live.lookup x = none := by
        rw [hlayer]
        exact AList.lookup_erase x _
      refine .none (by rw [hlayer]; rfl) ?_
      unfold carried
      rw [hentering, hnone, hleaving, hleaving', hlive', onDeallocStep]
      cases w.layer.live.lookup x <;> rfl
    | stamp x info =>
      refine turn_none (by rw [hlayer]; rfl) (by rw [hlayer]; rfl) (hentering a) ?_
      rw [hleaving, hleaving']
      rfl
    | number x info ts =>
      obtain ⟨hx, hnot, hts⟩ := hrun
      subst hx
      have hlive := AList.lookup_eq_none.mpr hnot
      have hlive' : w'.layer.live.lookup x = none := by
        rw [hlayer]
        exact hlive
      refine .closed (deallocEvent env w.layer.nextId x info ts) info ?_ ?_ ?_
        (closes_deallocEvent hts)
      · exact eventsAt_append_self (by rw [hlayer]; rfl) rfl
      · unfold carried
        rw [hlive, hnone, hleaving]
        rfl
      · unfold carried
        rw [hlive', hentering, hnone, hleaving']
        rfl
    | append event =>
      refine turn_none (by rw [hlayer]; rfl) (by rw [hlayer]; rfl) (hentering a) ?_
      rw [hleaving, hleaving']
      rfl
  · have hleaving' : leaving w' a = leaving w a := by
      rw [leaving_eq, leaving_eq, runningAt_update_ne hheap heq]
    cases pc with
    | pop x =>
      have hx : x = addr := hrun
      subst hx
      refine turn_none (by rw [hlayer]; rfl) ?_ (hentering a) hleaving'
      rw [hlayer]
      exact AList.lookup_erase_ne heq
    | number x info ts =>
      refine .none (eventsAt_append_ne (by rw [hlayer]; rfl) ?_) ?_
      · rw [hrun.1]
        exact fun hx => heq hx.symm
      · unfold carried
        rw [hentering, hleaving', hlayer]
        rfl
    | _ => exact turn_none (by rw [hlayer]; rfl) (by rw [hlayer]; rfl) (hentering a) hleaving'

theorem entering_of_collecting {w : World} {c : Collect} (hc : w.collecting = some c) (a : ℤ) :
    entering w a = toEnter a c.pc := by
  unfold entering
  rw [hc, Option.bind_some]

theorem toEnter_quiet {pc : CollectPc} (h : CollectPc.quiet pc = true) (a : ℤ) :
    toEnter a pc = none := by
  cases pc with
  | insert d rest => cases h
  | _ => rfl

theorem toEnter_afterQuiet {pc : CollectPc} (h : CollectPc.afterQuiet pc = true) (a : ℤ) :
    toEnter a pc = none := by
  cases pc with
  | insert d rest => cases h
  | _ => rfl

/-- A step of the calling thread: the event of a new object opens, and entering the
object keeps what is carried. -/
theorem turn_main {w w' : World} {env : Env} (h : Tidy w) (hs : MainStep w env w') (a : ℤ) :
    Turn a w w' := by
  have hleaving : leaving w' a = leaving w a := by
    rw [leaving_eq, leaving_eq, runningAt_registering hs.heap']
  cases hs.effect with
  | other hc hlive htracked hmade hinit =>
    refine turn_none hmade (by rw [hlive]) ?_ hleaving
    unfold entering
    rw [hc]
    cases hc' : w'.collecting with
    | none => rfl
    | some c' =>
      rw [hinit c' hc']
      rfl
  | collect c out hc hstep hc' =>
    have hentering := entering_of_collecting hc a
    have hok := h.collecting c hc
    generalize hly : w'.layer = ly' at hstep
    cases collectStep_eq_effect hstep with
    | drain hpc =>
      refine turn_none (by rw [hly]) (by rw [hly]) ?_ hleaving
      rw [hentering, hpc, entering_of_collecting hc']
      rfl
    | idleExtend hpc =>
      refine turn_none (by rw [hly]) (by rw [hly]) ?_ hleaving
      rw [hentering, hpc, entering, hc']
      rfl
    | extend hpc =>
      refine turn_none (by rw [hly]) (by rw [hly]) ?_ hleaving
      rw [hentering, hpc, entering, hc']
      rfl
    | raised hpc =>
      refine turn_none (by rw [hly]) (by rw [hly]) ?_ hleaving
      rw [hentering, hpc, entering, hc']
      rfl
    | quiet last c' hpending hnew hpc hnext hearly =>
      refine turn_none (by rw [hly]) (by rw [hly]) ?_ hleaving
      rw [hentering, entering_of_collecting hc', toEnter_quiet hpc, toEnter_afterQuiet hnext]
    | number d rest hpc =>
      obtain ⟨hnot, cell, hcell, -, halive⟩ := hok.draft (d := d) (by rw [todo, hpc]; simp)
      have hentering' := entering_of_collecting hc' a
      rw [hpc] at hentering
      by_cases heq : d.addr = a
      · refine .opened (allocEvent env w.layer.nextId c.rssKb d) d.info
          (eventsAt_append_self (by rw [hly]) heq) ?_ ?_ ⟨rfl, rfl⟩ (records_allocEvent ..)
        · rw [heq] at hnot hcell
          unfold carried
          rw [AList.lookup_eq_none.mpr hnot, hentering, leaving_eq, h.runningAt_alive hcell halive]
          rfl
        · rw [heq] at hnot
          unfold carried
          rw [hly, AList.lookup_eq_none.mpr hnot, hentering']
          simp [toEnter, heq]
      · refine .none (eventsAt_append_ne (by rw [hly]) heq) ?_
        unfold carried
        rw [hly, hentering, hentering', hleaving]
        simp [toEnter, heq]
    | insert d rest hpc =>
      obtain ⟨hnot, cell, hcell, -, halive⟩ := hok.draft (d := d) (by rw [todo, hpc]; simp)
      have hentering' := entering_of_collecting hc' a
      rw [hpc] at hentering
      by_cases heq : d.addr = a
      · refine .none (by rw [hly]; rfl) ?_
        rw [heq] at hnot
        unfold carried
        rw [hly, heq, AList.lookup_insert, AList.lookup_eq_none.mpr hnot, hentering]
        simp [toEnter, heq]
      · refine turn_none (by rw [hly]) ?_ ?_ hleaving
        · rw [hly]
          exact AList.lookup_insert_ne fun hx => heq hx.symm
        · rw [hentering, hentering']
          simp [toEnter, heq]

theorem turn_outside {w w' : World} (h : OutsideLayer w w') (a : ℤ) : Turn a w w' := by
  refine turn_none (by rw [h.layer]) (by rw [h.layer]) ?_ (leaving_outside h a)
  unfold entering
  rw [World.collecting, World.collecting, h.main]

theorem step_turn {w w' : World} {act : Action} (h : Tidy w) (hstep : step w act = some w')
    (a : ℤ) : Turn a w w' := by
  cases stepped_of_step hstep with
  | finalizer addr env cell pc hcell hrunning hclock =>
    refine turn_finalizer env h hcell hrunning ?_ ?_ ?_ a
    all_goals rfl
  | call request hmain hrequest =>
    refine turn_none rfl rfl ?_ rfl
    unfold entering
    rw [World.collecting, World.collecting, hmain]
    cases request <;> rfl
  | main env _ hmain => exact turn_main h (mainStep_of_main hmain h.calling) a
  | _ => exact turn_outside (outsideLayer_of_step hstep rfl) a

/-- The history of an address is open as long as something is carried, and then its
last event reports what is carried. -/
def Told (w : World) (addr : ℤ) : Prop :=
  ∃ last, History Opens Closes (eventsAt w.layer addr) last ∧
    Option.Rel Records last (carried w addr)

theorem Told.turn {w w' : World} {addr : ℤ} (h : Told w addr) (hturn : Turn addr w w') :
    Told w' addr := by
  obtain ⟨last, hhistory, hlast⟩ := h
  cases hturn with
  | none hevents hcarried =>
    refine ⟨last, ?_, ?_⟩
    · rw [hevents]
      exact hhistory
    · rw [hcarried]
      exact hlast
  | opened e info hevents hcarried hcarried' hopens hrecords =>
    rw [hcarried] at hlast
    cases hlast
    refine ⟨some e, ?_, ?_⟩
    · rw [hevents]
      exact hhistory.opened hopens
    · rw [hcarried']
      exact .some hrecords
  | closed e info hevents hcarried hcarried' hcloses =>
    rw [hcarried] at hlast
    cases hlast with
    | some hrecords =>
      refine ⟨none, ?_, ?_⟩
      · rw [hevents]
        exact hhistory.closed (hcloses _ hrecords)
      · rw [hcarried']
        exact .none

/-- What every run keeps of the events made and of what is carried. -/
structure Chronicle (w : World) : Prop where
  tidy : Tidy w
  numbered : Numbered w.layer
  told : ∀ addr, Told w addr

theorem chronicle_init (trackRefs : Bool) (nextId clock : ℤ) :
    Chronicle (.init trackRefs nextId clock) :=
  ⟨tidy_init trackRefs nextId clock, numbered_init trackRefs nextId, fun _ => ⟨none, .nil, .none⟩⟩

theorem main_makes {w w' : World} {env : Env} (h : LayerWorld.main w env = some w') :
    Makes w.layer w'.layer := by
  obtain ⟨call, hcall⟩ := mainCall_of_main h
  rw [hcall.layer']
  exact callStep_makes env w.layer call

theorem step_makes {w w' : World} {act : Action} (h : step w act = some w') :
    Makes w.layer w'.layer := by
  cases stepped_of_step h with
  | finalizer addr env cell pc hcell hrunning hclock => exact onDeallocStep_makes env w.layer pc
  | main env _ hmain => exact main_makes hmain
  | _ => exact .none rfl rfl

theorem step_chronicle (w : World) (act : Action) (w' : World) (h : Chronicle w)
    (hstep : step w act = some w') : Chronicle w' where
  tidy := tidy_step w act w' h.tidy hstep
  numbered := h.numbered.step (step_makes hstep)
  told addr := (h.told addr).turn (step_turn h.tidy hstep addr)

/-- In every run the events are made with ascending ids, and those of one address
alternate: an allocation comes first, and each death carries the size, the type and the
pinned address of the allocation just before it and the time since. -/
theorem events_alternate (trackRefs : Bool) (nextId clock : ℤ) (actions : List Action) (w : World)
    (hrun : run step (.init trackRefs nextId clock) actions = some w) :
    (w.layer.made.map fun e => e.base.eventId).Pairwise (· < ·) ∧
      ∀ addr, Alternates Opens Closes (eventsAt w.layer addr) := by
  have h := run_keeps step_chronicle (chronicle_init trackRefs nextId clock) hrun
  refine ⟨h.numbered.sorted, fun addr => ?_⟩
  obtain ⟨last, hhistory, -⟩ := h.told addr
  exact hhistory.alternates

def payload (serial : ℕ) : PyObject := ⟨serial, 4096, true⟩

/-- A collect comes upon the object; the memory of its line has grown to the size. -/
def finds (obj : PyObject) (now size : ℤ) : Env where
  now := now
  snapshot := some (AList.insert [("main.py", 3)] ⟨size, 1⟩ ∅)
  sightings := [⟨obj, some false, some false, some (some [("main.py", 3)])⟩]
  description := some { objType := "Payload", moduleName := "__main__", refCount := 1 }

def startRun : List Action := [.call .start] ++ List.replicate 3 (.main { snapshot := some ∅ })

/-- A payload is reported and dies, and a second one at its address is reported. -/
def reuseRun : List Action :=
  startRun ++ [.create (payload 0), .call .collect] ++
    List.replicate 15 (.main (finds (payload 0) 100 64)) ++
    [.die 4096, .callback 4096] ++ List.replicate 4 (.finalizer 4096 { now := 200 }) ++
    [.free 4096, .create (payload 1), .call .collect] ++
    List.replicate 15 (.main (finds (payload 1) 300 128))

theorem reuseRun_isSome : (run step {} reuseRun).isSome = true := by decide +kernel

def reuseEnd : World := (run step {} reuseRun).get reuseRun_isSome

example : (eventsAt reuseEnd.layer 4096).map (fun e => e.base.eventType) =
    ["ALLOC", "DEALLOC", "ALLOC"] := by decide +kernel

theorem events_alternate_reuseRun :
    (reuseEnd.layer.made.map fun e => e.base.eventId).Pairwise (· < ·) ∧
      ∀ addr, Alternates Opens Closes (eventsAt reuseEnd.layer addr) :=
  events_alternate false 1 0 reuseRun reuseEnd (Option.some_get reuseRun_isSome).symm

end HpcProfiler.AllocationHistory
