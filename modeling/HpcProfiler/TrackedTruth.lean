import HpcProfiler.AllocationHistory

/-!
Whether the layer's addresses are those of the objects it has reported. A tracked
address is taken out again by the finalizer of its object alone, and the passes of a
collect leave out the addresses that were tracked when they began. So the addresses stay
true as long as no tracked object dies that cannot have a finalizer, and no object is
created at an address that the passes leave out.
-/

namespace HpcProfiler.TrackedTruth

open AllocationHistory Discovery Events MemoryLayer LayerSteps LayerWorld WorldInvariant
open StepSystem

/-- The object that was reported at the address is there, and if it is dying its
finalizer has still to take the address out. -/
def Present (w : World) (addr : ℤ) : Prop :=
  ∃ cell, w.heap addr = some cell ∧ w.reported addr = some cell.obj ∧
    (cell.dying = true → 0 < cell.finalizers ∨ cell.running = some (.pop addr))

/-- Every tracked address is true, and so is each that the passes leave out. -/
structure Truthful (w : World) : Prop where
  live : ∀ a ∈ w.layer.live, Present w a
  tracked : ∀ a ∈ w.layer.trackedAddrs, Present w a
  skipped : ∀ c, w.collecting = some c → scanning c.pc = true → ∀ a ∈ c.found.liveSnapshot,
    ∀ cell, w.heap a = some cell → w.reported a = some cell.obj

/-- A tracked object dies only if its type supports weak references, and no object is
created at an address that the passes in progress leave out. -/
def Spares (w : World) : Action → Prop
  | .die addr => ∀ cell, w.heap addr = some cell → addr ∈ w.layer.live →
    cell.obj.weakrefable = true
  | .create obj => ∀ c, w.collecting = some c → scanning c.pc = true →
    obj.addr ∉ c.found.liveSnapshot
  | _ => True

/-- The finalizer of the object is still to be registered. -/
def ToRegister (w : World) (addr : ℤ) : Prop :=
  ∃ c d rest, w.collecting = some c ∧ c.pc = .register d rest ∧ d.addr = addr

/-- What is in a cell whose address is tracked. -/
structure TrackedCell (w : World) (addr : ℤ) (cell : Cell) : Prop where
  reported : w.reported addr = some cell.obj
  dying : cell.dying = true → cell.obj.weakrefable = true
  finalizer : cell.obj.weakrefable = true →
    0 < cell.finalizers ∨ cell.running = some (.pop addr) ∨ ToRegister w addr

structure Faithful (w : World) : Prop where
  tidy : Tidy w
  tracked : ∀ a, a ∈ w.layer.trackedAddrs ↔ a ∈ w.layer.live
  cells : ∀ a ∈ w.layer.live, ∃ cell, w.heap a = some cell ∧ TrackedCell w a cell
  refused : ∀ a cell, w.heap a = some cell → cell.obj.weakrefable = false →
    cell.finalizers = 0 ∧ cell.running = none
  skipped : ∀ c, w.collecting = some c → scanning c.pc = true → ∀ a ∈ c.found.liveSnapshot,
    ∀ cell, w.heap a = some cell → w.reported a = some cell.obj
  serials : ∀ a obj, w.reported a = some obj → obj.serial < w.nextSerial
  heapSerials : ∀ a cell, w.heap a = some cell → cell.obj.serial < w.nextSerial

theorem faithful_init (trackRefs : Bool) (nextId clock : ℤ) :
    Faithful (.init trackRefs nextId clock) where
  tidy := tidy_init trackRefs nextId clock
  tracked a := by simp [World.init, Layer.init]
  cells a ha := by simp [World.init, Layer.init] at ha
  refused a cell h := by cases h
  skipped c h := by cases h
  serials a obj h := by cases h
  heapSerials a cell h := by cases h

/-- An object whose finalizer is about to be registered is held by the collect. -/
theorem not_dying_of_toRegister {w : World} {addr : ℤ} {cell : Cell} (h : Tidy w)
    (hto : ToRegister w addr) (hcell : w.heap addr = some cell) : cell.dying = false := by
  obtain ⟨c, d, rest, hc, hpc, rfl⟩ := hto
  obtain ⟨cell', hcell', -, halive⟩ :=
    h.candidate hc ((h.collecting c hc).registers d rest hpc)
  have heq : cell = cell' := Option.some.inj (hcell.symm.trans hcell')
  rw [heq]
  exact halive

theorem Faithful.present {w : World} (h : Faithful w) {a : ℤ} (ha : a ∈ w.layer.live) :
    Present w a := by
  obtain ⟨cell, hcell, htracked⟩ := h.cells a ha
  refine ⟨cell, hcell, htracked.reported, fun hdying => ?_⟩
  rcases htracked.finalizer (htracked.dying hdying) with hpos | hrunning | hto
  · exact .inl hpos
  · exact .inr hrunning
  · have hnot := not_dying_of_toRegister h.tidy hto hcell
    rw [hdying] at hnot
    cases hnot

theorem Faithful.truthful {w : World} (h : Faithful w) : Truthful w where
  live _ ha := h.present ha
  tracked a ha := h.present ((h.tracked a).mp ha)
  skipped := h.skipped

theorem collecting_of_main {w w' : World} (hmain : w'.main = w.main) :
    w'.collecting = w.collecting := by rw [World.collecting, hmain]; rfl

theorem TrackedCell.same {w w' : World} {addr : ℤ} {cell : Cell} (h : TrackedCell w addr cell)
    (hreported : w'.reported = w.reported) (hmain : w'.main = w.main) :
    TrackedCell w' addr cell where
  reported := by
    rw [hreported]
    exact h.reported
  dying := h.dying
  finalizer hweak := by
    unfold ToRegister
    rw [collecting_of_main hmain]
    exact h.finalizer hweak

/-- A step of other threads touches one cell. -/
theorem Faithful.touch {w w' : World} {addr : ℤ} {cell' : Option Cell} (h : Faithful w)
    (htidy : Tidy w') (hheap : w'.heap = Function.update w.heap addr cell')
    (hmain : w'.main = w.main) (hreported : w'.reported = w.reported)
    (hserial : w.nextSerial ≤ w'.nextSerial)
    (htracked : ∀ a, a ∈ w'.layer.trackedAddrs ↔ a ∈ w'.layer.live)
    (hlive : ∀ a ∈ w'.layer.live, a ∈ w.layer.live)
    (hcell : addr ∈ w'.layer.live → ∃ cell, cell' = some cell ∧ TrackedCell w addr cell)
    (hrefused : ∀ cell, cell' = some cell → cell.obj.weakrefable = false →
      cell.finalizers = 0 ∧ cell.running = none)
    (hskipped : ∀ c, w.collecting = some c → scanning c.pc = true → addr ∈ c.found.liveSnapshot →
      ∀ cell, cell' = some cell → w.reported addr = some cell.obj)
    (hserial' : ∀ cell, cell' = some cell → cell.obj.serial < w'.nextSerial) : Faithful w' where
  tidy := htidy
  tracked := htracked
  cells a ha := by
    rw [hheap]
    by_cases heq : a = addr
    · subst heq
      obtain ⟨cell, rfl, hc⟩ := hcell ha
      exact ⟨cell, Function.update_self .., hc.same hreported hmain⟩
    · obtain ⟨cell, hcell, hc⟩ := h.cells a (hlive a ha)
      exact ⟨cell, by rw [Function.update_of_ne heq]; exact hcell, hc.same hreported hmain⟩
  refused a cell ha := by
    rw [hheap] at ha
    by_cases heq : a = addr
    · rw [heq, Function.update_self] at ha
      exact hrefused cell ha
    · rw [Function.update_of_ne heq] at ha
      exact h.refused a cell ha
  skipped c hc hscan a hskip cell ha := by
    rw [collecting_of_main hmain] at hc
    rw [hheap] at ha
    rw [hreported]
    by_cases heq : a = addr
    · subst heq
      rw [Function.update_self] at ha
      exact hskipped c hc hscan hskip cell ha
    · rw [Function.update_of_ne heq] at ha
      exact h.skipped c hc hscan a hskip cell ha
  serials a obj ha := by
    rw [hreported] at ha
    exact (h.serials a obj ha).trans_le hserial
  heapSerials a cell ha := by
    rw [hheap] at ha
    by_cases heq : a = addr
    · rw [heq, Function.update_self] at ha
      exact hserial' cell ha
    · rw [Function.update_of_ne heq] at ha
      exact (h.heapSerials a cell ha).trans_le hserial

/-- A step of other threads that leaves the object in its cell. -/
theorem Faithful.touch_cell {w w' : World} {addr : ℤ} {cell cell' : Cell} (h : Faithful w)
    (htidy : Tidy w') (hcell : w.heap addr = some cell)
    (hheap : w'.heap = Function.update w.heap addr (some cell')) (hobj : cell'.obj = cell.obj)
    (hmain : w'.main = w.main) (hreported : w'.reported = w.reported)
    (hserial : w'.nextSerial = w.nextSerial)
    (htracked : ∀ a, a ∈ w'.layer.trackedAddrs ↔ a ∈ w'.layer.live)
    (hlive : ∀ a ∈ w'.layer.live, a ∈ w.layer.live)
    (hcell' : addr ∈ w'.layer.live → TrackedCell w addr cell → TrackedCell w addr cell')
    (hrefused : cell.finalizers = 0 → cell.running = none →
      cell'.finalizers = 0 ∧ cell'.running = none) : Faithful w' := by
  refine h.touch htidy hheap hmain hreported hserial.ge htracked hlive ?_ ?_ ?_ ?_
  · intro ha
    obtain ⟨old, hold, hok⟩ := h.cells addr (hlive addr ha)
    have heq : cell = old := Option.some.inj (hcell.symm.trans hold)
    rw [← heq] at hok
    exact ⟨cell', rfl, hcell' ha hok⟩
  · rintro _ ⟨⟩ hweak
    rw [hobj] at hweak
    obtain ⟨hzero, hnone⟩ := h.refused addr cell hcell hweak
    exact hrefused hzero hnone
  · rintro c hc hscan hskip _ ⟨⟩
    rw [hobj]
    exact h.skipped c hc hscan addr hskip cell hcell
  · rintro _ ⟨⟩
    rw [hobj, hserial]
    exact h.heapSerials addr cell hcell

theorem scanGc_liveSnapshot (gen : ℕ) (found : Found) (sightings : List Sighting) :
    (scanGc gen found sightings).liveSnapshot = found.liveSnapshot := by
  have hgrows : Grows (fun _ => True) found (scanGc gen found sightings) :=
    grows_scanGc gen (fun _ _ => trivial) found
  exact hgrows.liveSnapshot

theorem scanBuffers_liveSnapshot (found : Found) (sightings : List Sighting) :
    (scanBuffers found sightings).liveSnapshot = found.liveSnapshot := by
  have hgrows : Grows (fun _ => True) found (scanBuffers found sightings) :=
    grows_scanBuffers (fun _ _ => trivial) found
  exact hgrows.liveSnapshot

/-- A step to a place where the passes go on: they have just begun, or leave out what
they left out before. -/
theorem liveSnapshot_step {env : Env} {ly ly' : Layer} {c c' : Collect}
    (hstep : collectStep env ly c = (ly', .going c')) (hscan : scanning c'.pc = true) :
    (∀ d rest, c.pc ≠ .insert d rest) ∧
      (c'.found.liveSnapshot = ly.live.keys.toFinset ∨
        scanning c.pc = true ∧ c'.found.liveSnapshot = c.found.liveSnapshot) := by
  cases foundEffect_of_step hstep with
  | snapshot current last pc hpc hcurrent hlast hnext =>
    rcases hnext with rfl | rfl
    · cases hscan
    · cases hscan
  | snapLive hpc => exact ⟨by simp [hpc], .inl rfl⟩
  | scanGc gen pc hpc =>
    exact ⟨by simp [hpc], .inr ⟨by rw [hpc]; rfl, scanGc_liveSnapshot _ _ _⟩⟩
  | scanBuffers pc hpc =>
    rcases hpc with ⟨hpc, -⟩ | ⟨obj, rest, hpc⟩
    · exact ⟨by simp [hpc], .inr ⟨by rw [hpc]; rfl, scanBuffers_liveSnapshot _ _⟩⟩
    · exact ⟨by simp [hpc], .inr ⟨by rw [hpc]; rfl, scanBuffers_liveSnapshot _ _⟩⟩
  | onward _ _ hlive honward =>
    have hscan' := honward.scan hscan
    refine ⟨fun d rest hpc => ?_, .inr ⟨hscan', by rw [honward.found]⟩⟩
    rw [hpc] at hscan'
    cases hscan'
  | number d rest hpc => cases hscan
  | insert d rest hpc => cases hscan

/-- The map of live objects and the set of tracked addresses change together. -/
theorem onDeallocStep_tracked {env : Env} {ly : Layer} {pc : Dealloc}
    (h : ∀ a, a ∈ ly.trackedAddrs ↔ a ∈ ly.live) (a : ℤ) :
    a ∈ (onDeallocStep env ly pc).1.trackedAddrs ↔ a ∈ (onDeallocStep env ly pc).1.live := by
  cases pc with
  | pop addr =>
    have hboth : a ∈ ly.trackedAddrs.erase addr ↔ a ∈ ly.live.erase addr := by
      rw [Finset.mem_erase, AList.mem_erase, h a]
    exact hboth
  | _ => exact h a

theorem collectStep_tracked {env : Env} {ly ly' : Layer} {c : Collect} {out : Outcome Collect}
    (hstep : collectStep env ly c = (ly', out)) (h : ∀ a, a ∈ ly.trackedAddrs ↔ a ∈ ly.live)
    (a : ℤ) : a ∈ ly'.trackedAddrs ↔ a ∈ ly'.live := by
  cases collectStep_eq_effect hstep with
  | insert d rest hpc => rw [Finset.mem_insert, AList.mem_insert, h a]
  | _ => exact h a

/-- The object to be registered is the one in the cell. -/
theorem obj_of_register {w : World} {c : Collect} {d : Draft} {rest : List Candidate} {cell : Cell}
    (h : Tidy w) (hc : w.collecting = some c) (hpc : c.pc = .register d rest)
    (hcell : w.heap d.addr = some cell) : cell.obj = d.candidate.obj := by
  obtain ⟨cell', hcell', hobj, -⟩ := h.candidate hc ((h.collecting c hc).registers d rest hpc)
  have heq : cell = cell' := Option.some.inj (hcell.symm.trans hcell')
  rw [heq]
  exact hobj

theorem le_finalizersAfter (addr : ℤ) (cell : Cell) (pc : Option CollectPc) :
    cell.finalizers ≤ finalizersAfter addr cell pc := by
  unfold finalizersAfter
  split
  · split
    · exact Nat.le_succ _
    · exact le_rfl
  · exact le_rfl

/-- An object that supports weak references gets its finalizer. -/
theorem finalizersAfter_pos {w : World} {addr : ℤ} {cell : Cell} (h : Tidy w)
    (hto : ToRegister w addr) (hcell : w.heap addr = some cell)
    (hweak : cell.obj.weakrefable = true) :
    0 < finalizersAfter addr cell (w.collecting.map Collect.pc) := by
  obtain ⟨c, d, rest, hc, hpc, rfl⟩ := hto
  have hobj := obj_of_register h hc hpc hcell
  rw [hc, Option.map_some, hpc, finalizersAfter, if_pos ⟨rfl, by rw [← hobj]; exact hweak⟩]
  exact Nat.succ_pos _

/-- An object whose type refuses weak references gets none. -/
theorem finalizersAfter_refused {w : World} {addr : ℤ} {cell : Cell} (h : Tidy w)
    (hcell : w.heap addr = some cell) (hweak : cell.obj.weakrefable = false) :
    finalizersAfter addr cell (w.collecting.map Collect.pc) = cell.finalizers := by
  cases hc : w.collecting with
  | none => rfl
  | some c =>
    cases hpc : c.pc with
    | register d rest =>
      rw [Option.map_some, hpc, finalizersAfter]
      refine if_neg fun hboth => ?_
      obtain ⟨rfl, hweak'⟩ := hboth
      rw [← obj_of_register h hc hpc hcell, hweak] at hweak'
      cases hweak'
    | _ =>
      rw [Option.map_some, hpc]
      rfl

/-- Only entering an object changes what was reported. -/
theorem reporting_cases (reported : ℤ → Option PyObject) (collecting : Option Collect) :
    reporting reported (collecting.map Collect.pc) = reported ∨
      ∃ c d rest, collecting = some c ∧ c.pc = .insert d rest ∧
        reporting reported (collecting.map Collect.pc) =
          Function.update reported d.addr (some d.candidate.obj) := by
  cases collecting with
  | none => exact .inl rfl
  | some c =>
    rw [Option.map_some]
    cases hpc : c.pc with
    | insert d rest => exact .inr ⟨c, d, rest, rfl, hpc, rfl⟩
    | _ => exact .inl rfl

/-- Where the collect enters an object, its finalizer is registered next. -/
theorem toRegister_of_insert {w w' : World} {env : Env} {c : Collect} {d : Draft}
    {rest : List Candidate} (h : MainEffect w env w') (hc : w.collecting = some c)
    (hpc : c.pc = .insert d rest) : ToRegister w' d.addr := by
  cases h with
  | collect c' out hcollect hstep hc' =>
    have heq : c' = c := Option.some.inj (hcollect.symm.trans hc)
    subst heq
    unfold collectStep at hstep
    rw [hpc] at hstep
    obtain ⟨-, rfl⟩ := Prod.mk.inj hstep
    exact ⟨_, d, rest, hc', rfl, rfl⟩
  | other hnone hlive htracked hmade hinit => cases hnone.symm.trans hc

/-- What is tracked already keeps its cell and its finalizer. -/
theorem Faithful.kept {w w' : World} {env : Env} (h : Faithful w) (hs : MainStep w env w') {a : ℤ}
    (ha : a ∈ w.layer.live) : ∃ cell, w'.heap a = some cell ∧ TrackedCell w' a cell := by
  obtain ⟨old, hold, htracked⟩ := h.cells a ha
  refine ⟨{ old with finalizers := finalizersAfter a old (w.collecting.map Collect.pc) }, ?_,
    ?_, htracked.dying, fun hweak => ?_⟩
  · rw [hs.heap', registering_apply, hold]
    rfl
  · rw [hs.reported']
    rcases reporting_cases w.reported w.collecting with hsame | ⟨c, d, rest, hc, hpc, hupdate⟩
    · rw [hsame]
      exact htracked.reported
    · have hdraft := (h.tidy.collecting c hc).draft (d := d) (by rw [todo, hpc]; simp)
      have hne : a ≠ d.addr := fun heq => hdraft.1 (heq ▸ ha)
      rw [hupdate, Function.update_of_ne hne]
      exact htracked.reported
  · rcases htracked.finalizer hweak with hpos | hrunning | hto
    · exact .inl (hpos.trans_le (le_finalizersAfter ..))
    · exact .inr (.inl hrunning)
    · exact .inl (finalizersAfter_pos h.tidy hto hold hweak)

/-- A step of the calling thread. -/
theorem Faithful.main {w w' : World} {env : Env} (h : Faithful w) (hs : MainStep w env w') :
    Faithful w' where
  tidy := h.tidy.main hs
  tracked := by
    cases hs.effect with
    | collect c out hc hstep hc' => exact collectStep_tracked hstep h.tracked
    | other hc hlive htracked hmade hinit =>
      rw [hlive, htracked]
      exact h.tracked
  cells a ha := by
    rcases hs.effect.live with hsame | ⟨c, d, rest, hc, hpc, hins⟩
    · rw [hsame] at ha
      exact h.kept hs ha
    · rw [hins] at ha
      rcases (AList.mem_insert _).mp ha with rfl | hold
      · have hdraft := (h.tidy.collecting c hc).draft (d := d) (by rw [todo, hpc]; simp)
        obtain ⟨-, cell, hcell, hobj, hdying⟩ := hdraft
        refine ⟨cell, ?_, ?_, fun hd => ?_, fun _ => ?_⟩
        · rw [hs.heap', hc, Option.map_some, hpc]
          exact hcell
        · rw [hs.reported', hc, Option.map_some, hpc, hobj]
          exact Function.update_self ..
        · rw [hdying] at hd
          cases hd
        · exact .inr (.inr (toRegister_of_insert hs.effect hc hpc))
      · exact h.kept hs hold
  refused a cell ha hweak := by
    rw [hs.heap'] at ha
    obtain ⟨old, hold, rfl⟩ := registering_eq_some ha
    rw [finalizersAfter_refused h.tidy hold hweak]
    exact h.refused a old hold hweak
  skipped c' hc' hscan a hskip cell ha := by
    rw [hs.heap'] at ha
    obtain ⟨old, hold, rfl⟩ := registering_eq_some ha
    rw [hs.reported']
    rcases hs.effect.collecting hc' with ⟨c, hc, hstep⟩ | ⟨-, rfl⟩
    · obtain ⟨hpc, hsnapshot⟩ := liveSnapshot_step hstep hscan
      have hreported : reporting w.reported (w.collecting.map Collect.pc) = w.reported := by
        rcases reporting_cases w.reported w.collecting with hsame | ⟨c₀, d, rest, hc₀, hpc₀, -⟩
        · exact hsame
        · have heq : c₀ = c := Option.some.inj (hc₀.symm.trans hc)
          subst heq
          exact absurd hpc₀ (hpc d rest)
      rw [hreported]
      rcases hsnapshot with hfresh | ⟨hscan', hsame⟩
      · rw [hfresh] at hskip
        obtain ⟨cell', hcell', htracked⟩ :=
          h.cells a (AList.mem_keys.mpr (List.mem_toFinset.mp hskip))
        have heq : old = cell' := Option.some.inj (hold.symm.trans hcell')
        rw [heq]
        exact htracked.reported
      · rw [hsame] at hskip
        exact h.skipped c hc hscan' a hskip old hold
    · cases hscan
  serials a obj ha := by
    rw [hs.reported'] at ha
    rw [hs.nextSerial']
    rcases reporting_cases w.reported w.collecting with hsame | ⟨c, d, rest, hc, hpc, hupdate⟩
    · rw [hsame] at ha
      exact h.serials a obj ha
    · rw [hupdate] at ha
      by_cases heq : a = d.addr
      · rw [heq, Function.update_self] at ha
        cases ha
        have hdraft := (h.tidy.collecting c hc).draft (d := d) (by rw [todo, hpc]; simp)
        obtain ⟨-, cell, hcell, hobj, -⟩ := hdraft
        rw [← hobj]
        exact h.heapSerials d.addr cell hcell
      · rw [Function.update_of_ne heq] at ha
        exact h.serials a obj ha
  heapSerials a cell ha := by
    rw [hs.heap'] at ha
    obtain ⟨old, hold, rfl⟩ := registering_eq_some ha
    rw [hs.nextSerial']
    exact h.heapSerials a old hold

/-- Past its step, a finalizer has its address out of the map. -/
theorem not_live_of_running {env : Env} {ly : Layer} {clock addr : ℤ} {pc : Dealloc}
    (h : RunOk ly.live clock addr pc) : addr ∉ (onDeallocStep env ly pc).1.live := by
  cases pc with
  | pop a =>
    have ha : a = addr := h
    subst ha
    exact fun hmem => (AList.mem_erase.mp hmem).1 rfl
  | stamp a info => exact h.2.1
  | number a info ts => exact h.2.1
  | append event => exact h.2

theorem faithful_step (w : World) (act : Action) (w' : World) (h : Faithful w)
    (hspares : Spares w act) (hstep : step w act = some w') : Faithful w' := by
  have htidy := tidy_step w act w' h.tidy hstep
  cases stepped_of_step hstep with
  | create obj hcell hserial =>
    have hnot : obj.addr ∉ w.layer.live := fun hmem => by
      obtain ⟨cell, hcell', -⟩ := h.cells obj.addr hmem
      rw [hcell] at hcell'
      cases hcell'
    refine h.touch htidy rfl rfl rfl (Nat.le_succ _) h.tracked (fun _ ha => ha)
      (fun ha => absurd ha hnot) ?_ ?_ ?_
    · intro cell hcell _
      cases hcell
      exact ⟨rfl, rfl⟩
    · intro c hc hscan hskip
      exact absurd hskip (hspares c hc hscan)
    · intro cell hcell
      cases hcell
      show obj.serial < w.nextSerial + 1
      omega
  | die addr cell hcell hdying hheld =>
    refine h.touch_cell htidy hcell rfl rfl rfl rfl rfl h.tracked (fun _ ha => ha) ?_
      (fun hzero hnone => ⟨hzero, hnone⟩)
    intro ha hok
    exact ⟨hok.reported, fun _ => hspares cell hcell ha, hok.finalizer⟩
  | callback addr cell hcell hdying hrunning hpos =>
    refine h.touch_cell htidy hcell rfl rfl rfl rfl rfl h.tracked (fun _ ha => ha) ?_ ?_
    · intro _ hok
      exact ⟨hok.reported, hok.dying, fun _ => .inr (.inl rfl)⟩
    · intro hzero _
      omega
  | finalizer addr env cell pc hcell hrunning hclock =>
    have hok := (h.tidy.cells addr cell hcell).running pc hrunning
    refine h.touch_cell htidy hcell rfl rfl rfl rfl rfl (onDeallocStep_tracked h.tracked) ?_ ?_ ?_
    · intro a ha
      obtain ⟨info, hinfo⟩ := Option.isSome_iff_exists.mp (AList.lookup_isSome.mpr ha)
      exact AList.lookup_isSome.mp (by rw [onDeallocStep_lookup hinfo]; rfl)
    · intro ha
      exact absurd ha (not_live_of_running hok)
    · intro _ hnone
      rw [hrunning] at hnone
      cases hnone
  | free addr cell hcell hdying hrunning hzero =>
    have hnot : addr ∉ w.layer.live := fun hmem => by
      obtain ⟨cell', hcell', -, hpending⟩ := h.present hmem
      have heq : cell = cell' := Option.some.inj (hcell.symm.trans hcell')
      subst heq
      rcases hpending hdying with hpos | hpop
      · omega
      · rw [hrunning] at hpop
        cases hpop
    refine h.touch htidy rfl rfl rfl le_rfl h.tracked (fun _ ha => ha)
      (fun ha => absurd ha hnot) ?_ ?_ ?_
    all_goals simp
  | call request hmain hrequest =>
    have hnot : ∀ a, ¬ToRegister w a := fun a hto => by
      obtain ⟨c, d, rest, hc, -⟩ := hto
      rw [World.collecting, hmain] at hc
      cases hc
    refine ⟨htidy, h.tracked, ?_, h.refused, ?_, h.serials, h.heapSerials⟩
    · intro a ha
      obtain ⟨cell, hcell, htracked⟩ := h.cells a ha
      refine ⟨cell, hcell, htracked.reported, htracked.dying, fun hweak => ?_⟩
      rcases htracked.finalizer hweak with hpos | hpop | hto
      · exact .inl hpos
      · exact .inr (.inl hpop)
      · exact absurd hto (hnot a)
    · intro c hc hscan
      cases request <;> cases hc
      cases hscan
  | main env _ hmain => exact h.main (mainStep_of_main hmain h.tidy.calling)

/-- A step against the condition leaves an address that is not true. -/
theorem not_truthful_of_not_spares (w : World) (act : Action) (w' : World) (h : Faithful w)
    (hspares : ¬Spares w act) (hstep : step w act = some w') : ¬Truthful w' := by
  intro htruth
  cases stepped_of_step hstep with
  | create obj hcell hserial =>
    apply hspares
    intro c hc hscan hskip
    have hreported := htruth.skipped c hc hscan obj.addr hskip { obj } (Function.update_self ..)
    have hlt := h.serials obj.addr obj hreported
    omega
  | die addr cell hcell hdying hheld =>
    apply hspares
    intro cell' hcell' hlive
    have heq : cell = cell' := Option.some.inj (hcell.symm.trans hcell')
    subst heq
    by_contra hweak
    obtain ⟨hzero, hnone⟩ := h.refused addr cell hcell (Bool.eq_false_iff.mpr hweak)
    obtain ⟨dead, hdead, -, hpending⟩ := htruth.live addr hlive
    have heq : { cell with dying := true } = dead :=
      Option.some.inj ((Function.update_self addr _ w.heap).symm.trans hdead)
    subst heq
    rcases hpending rfl with hpos | hpop
    · exact absurd hpos (by rw [hzero]; exact Nat.lt_irrefl 0)
    · cases hnone.symm.trans hpop
  | _ => exact hspares trivial

/-- In every run, the addresses are true in all states exactly if every tracked object
that dies supports weak references and none is created where the passes in progress
leave out the address. -/
theorem truthful_iff_spares (trackRefs : Bool) (nextId clock : ℤ) (actions : List Action)
    (w : World) (hrun : run step (.init trackRefs nextId clock) actions = some w) :
    Always step Truthful (.init trackRefs nextId clock) actions ↔
      Along step Spares (.init trackRefs nextId clock) actions :=
  always_iff_along (fun _ h => h.truthful) faithful_step not_truthful_of_not_spares
    (faithful_init trackRefs nextId clock) hrun

theorem truthful_iff_spares_reuseRun :
    Always step Truthful {} reuseRun ↔ Along step Spares {} reuseRun :=
  truthful_iff_spares false 1 0 reuseRun reuseEnd (Option.some_get reuseRun_isSome).symm

/-- A list does not support weak references. -/
def someList : PyObject := ⟨0, 4096, false⟩

/-- A list is reported and dies, and a collect comes upon a payload at its address. -/
def listRun : List Action :=
  startRun ++ [.create someList, .call .collect] ++
    List.replicate 15 (.main (finds someList 100 64)) ++
    [.die 4096, .free 4096, .create (payload 1), .call .collect] ++
    List.replicate 9 (.main (finds (payload 1) 300 128))

theorem listRun_isSome : (run step {} listRun).isSome = true := by decide +kernel

def listEnd : World := (run step {} listRun).get listRun_isSome

/-- The address of the list is still tracked, so that the payload is left out. -/
theorem listEnd_mistaken : run step {} listRun = some listEnd ∧ ¬Truthful listEnd ∧
    listEnd.batches.map List.length = [1, 0] := by
  refine ⟨(Option.some_get listRun_isSome).symm, fun htruth => ?_, by decide +kernel⟩
  obtain ⟨cell, hcell, hreported, -⟩ := htruth.live 4096 (by decide +kernel)
  have hthere : (listEnd.heap 4096).map Cell.obj = some (payload 1) := by decide +kernel
  have hlist : listEnd.reported 4096 = some someList := by decide +kernel
  rw [hcell, Option.map_some] at hthere
  rw [hthere, hlist] at hreported
  exact absurd hreported (by decide)

end HpcProfiler.TrackedTruth
