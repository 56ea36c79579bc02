import HpcProfiler.AllocationHistory
import HpcProfiler.DiscoveryPasses

/-!
Which objects a collect takes for new. It knows the tracebacks that have grown since the
previous snapshot, and takes up the objects of these tracebacks that it does not track yet;
when they were created makes no difference to it.
-/

namespace HpcProfiler.NewObjects

open AllocationHistory Discovery Events MemoryLayer LayerSteps LayerWorld StepSystem
open WorldInvariant

/-! What the passes take up. -/

/-- All candidates are as wanted. -/
def AllWanted (Wanted : PyObject → Prop) (d : Found) : Prop :=
  ∀ candidate ∈ d.candidates, Wanted candidate.obj

/-- The object may be taken up: its type is not excluded, it is not tracked and its traceback
has grown. -/
structure Eligible (grown : StatByTb) (tracked : Finset ℤ) (s : Sighting) : Prop where
  type : s.noWeakrefType = some false
  untracked : s.obj.addr ∉ tracked
  grown : ∃ tb ∈ grown.keys, s.traceback = some (some tb)

instance (grown : StatByTb) (tracked : Finset ℤ) (s : Sighting) :
    Decidable (Eligible grown tracked s) :=
  decidable_of_iff (s.noWeakrefType = some false ∧ s.obj.addr ∉ tracked ∧
    ∃ tb ∈ grown.keys, s.traceback = some (some tb))
    ⟨fun ⟨htype, huntracked, hgrown⟩ => ⟨htype, huntracked, hgrown⟩,
      fun ⟨htype, huntracked, hgrown⟩ => ⟨htype, huntracked, hgrown⟩⟩

section

variable {Wanted : PyObject → Prop} {d : Found} {obj : PyObject} {tb : Traceback}

theorem AllWanted.add (h : AllWanted Wanted d) (hobj : tb ∈ d.stats.keys → Wanted obj) (gen : ℤ) :
    AllWanted Wanted (d.addCandidate obj tb gen) := by
  unfold Found.addCandidate
  cases hstat : d.stats.lookup tb with
  | none => exact h
  | some stat =>
    have hgrown : tb ∈ d.stats.keys :=
      AList.mem_keys.mp (AList.lookup_isSome.mp (Option.isSome_of_mem hstat))
    intro candidate hmem
    rcases List.mem_append.mp hmem with hold | hnew
    · exact h candidate hold
    · rw [List.mem_singleton.mp hnew]
      exact hobj hgrown

theorem AllWanted.visitGc (h : AllWanted Wanted d) {s : Sighting} (gen : ℕ)
    (hobj : ∀ tb ∈ d.stats.keys, s.traceback = some (some tb) → Wanted s.obj) :
    AllWanted Wanted (d.visitGc gen s) := by
  unfold Found.visitGc
  split
  · rename_i tb htraceback
    have hadd : AllWanted Wanted (d.addGcObject s.obj tb gen) :=
      h.add (fun hgrown => hobj tb hgrown htraceback) gen
    split
    · rw [AllWanted, useQuota_candidates]
      exact hadd
    · split
      · exact hadd
      · exact h
  · exact h

theorem AllWanted.visitBuffer (h : AllWanted Wanted d) {s : Sighting}
    (hobj : ∀ tb ∈ d.stats.keys, s.traceback = some (some tb) → Wanted s.obj) :
    AllWanted Wanted (d.visitBuffer s) := by
  unfold Found.visitBuffer
  split
  · rename_i tb htraceback
    split
    · exact h.add (fun hgrown => hobj tb hgrown htraceback) (-1)
    · exact h
  · exact h

theorem addCandidate_stats (d : Found) (obj : PyObject) (tb : Traceback) (gen : ℤ) :
    (d.addCandidate obj tb gen).stats = d.stats := by
  unfold Found.addCandidate
  split <;> rfl

theorem visitGc_stats (d : Found) (gen : ℕ) (s : Sighting) :
    (d.visitGc gen s).stats = d.stats := by
  unfold Found.visitGc
  split
  · split
    · unfold Found.useQuota
      split <;> exact addCandidate_stats _ _ _ _
    · split
      · exact addCandidate_stats _ _ _ _
      · rfl
  · rfl

theorem visitBuffer_stats (d : Found) (s : Sighting) : (d.visitBuffer s).stats = d.stats := by
  unfold Found.visitBuffer
  split
  · split
    · exact addCandidate_stats _ _ _ _
    · rfl
  · rfl

/-- What a pass has found in a collect that knows the tracebacks that have grown and has seen
the addresses that are tracked. -/
structure Sound (Wanted : PyObject → Prop) (grown : StatByTb) (tracked : Finset ℤ) (d : Found) :
    Prop where
  stats : d.stats = grown
  seen : tracked ⊆ d.seenAddrs
  wanted : AllWanted Wanted d

variable {grown : StatByTb} {tracked : Finset ℤ} {sightings : List Sighting}

theorem Sound.see (h : Sound Wanted grown tracked d) (obj : PyObject) :
    Sound Wanted grown tracked (d.see obj) :=
  ⟨h.stats, h.seen.trans (Finset.subset_insert _ _), h.wanted⟩

theorem Sound.scanGc (h : Sound Wanted grown tracked d) (gen : ℕ)
    (hnew : ∀ s ∈ sightings, Eligible grown tracked s → Wanted s.obj) :
    Sound Wanted grown tracked (scanGc gen d sightings) := by
  apply scanGc_keeps h
  intro d s hs htype hfresh hd
  have hsee := hd.see s.obj
  have hgrows : Grows (fun _ => True) d ((d.see s.obj).visitGc gen s) :=
    grows_visitGc trivial hfresh
  refine ⟨(visitGc_stats _ _ _).trans hsee.stats, hd.seen.trans hgrows.seen,
    hsee.wanted.visitGc gen ?_⟩
  intro tb hgrown htraceback
  rw [hsee.stats] at hgrown
  exact hnew s hs ⟨htype, fun htracked => hfresh (hd.seen htracked), tb, hgrown, htraceback⟩

theorem Sound.scanBuffers (h : Sound Wanted grown tracked d)
    (hnew : ∀ s ∈ sightings, Eligible grown tracked s → s.bufferProbe = some true →
      Wanted s.obj) : Sound Wanted grown tracked (scanBuffers d sightings) := by
  apply scanBuffers_keeps h
  · intro d s _ _ hd
    exact hd.see s.obj
  · intro d s hs htype hprobe hfresh hd
    have hsee := hd.see s.obj
    have hgrows : Grows (fun _ => True) d ((d.see s.obj).visitBuffer s) :=
      grows_visitBuffer trivial hfresh
    refine ⟨(visitBuffer_stats _ _).trans hsee.stats, hd.seen.trans hgrows.seen,
      hsee.wanted.visitBuffer ?_⟩
    intro tb hgrown htraceback
    rw [hsee.stats] at hgrown
    exact hnew s hs ⟨htype, fun htracked => hfresh (hd.seen htracked), tb, hgrown, htraceback⟩
      hprobe

end

/-! What was made before a snapshot and what after it. -/

/-- An allocation event that has been made, its object and the number of objects created
before the previous snapshot. -/
structure Emission where
  event : CpuEvent
  obj : PyObject
  previous : ℕ

/-- The world, with the number of objects created before the last snapshot and before the
one before it, the tracebacks that have grown between the two and the addresses that were
tracked after the last. No step of the world depends on these. -/
structure Watch where
  world : World
  last : ℕ := 0
  previous : ℕ := 0
  grown : StatByTb := ∅
  tracked : Finset ℤ := ∅
  emitted : List Emission := []

def Watch.init (trackRefs : Bool) (nextId clock : ℤ) : Watch :=
  { world := .init trackRefs nextId clock }

/-- A step of a collect: it takes its snapshots, of the memory and of the live objects, or
makes an event. -/
def Watch.afterCollect (w : Watch) (env : Env) (c : Collect) (world : World) : Watch :=
  match c.pc with
  | .snapshot =>
    match env.snapshot, w.world.layer.lastSnapshot with
    | some current, some last =>
      { w with
        world
        last := w.world.nextSerial
        previous := w.last
        grown := statByTb (compareTo current last) }
    | _, _ => { w with world }
  | .snapLive => { w with world, tracked := w.world.layer.live.keys.toFinset }
  | .number d _ =>
    { w with
      world
      emitted := w.emitted ++
        [⟨allocEvent env w.world.layer.nextId c.rssKb d, d.candidate.obj, w.previous⟩] }
  | _ => { w with world }

/-- The first snapshot is that of start. -/
def Watch.after (w : Watch) (world : World) : Action → Watch
  | .main env =>
    match w.world.collecting, w.world.main with
    | some c, _ => w.afterCollect env c world
    | none, some (.start .startTracing) =>
      { w with world, last := if env.snapshot.isSome then w.world.nextSerial else w.last }
    | none, _ => { w with world }
  | _ => { w with world }

def step (w : Watch) (a : Action) : Option Watch :=
  (LayerWorld.step w.world a).map fun world => w.after world a

/-- Every event made is of an object that was created after the previous snapshot. -/
def Genuine (w : Watch) : Prop := ∀ m ∈ w.emitted, m.previous ≤ m.obj.serial

/-- The objects that a pass shows to the collect in this step: pass A all of its list, passes
B and C the buffers. -/
def shown (env : Env) (c : Collect) : List Sighting :=
  match c.pc with
  | .passA _ => env.sightings
  | .passB => if env.moreFrames then env.sightings.filter (·.bufferProbe = some true) else []
  | .passC (_ :: _) => env.sightings.filter (·.bufferProbe = some true)
  | _ => []

/-- Every object that a pass shows to the collect, that is not tracked and whose traceback has
grown since the previous snapshot was created after that snapshot. -/
def NewOnly (w : Watch) : Action → Prop
  | .main env => ∀ c ∈ w.world.collecting, ∀ s ∈ shown env c, Eligible w.grown w.tracked s →
      w.previous ≤ s.obj.serial
  | _ => True

instance (w : Watch) : (a : Action) → Decidable (NewOnly w a)
  | .main env => inferInstanceAs (Decidable (∀ c ∈ w.world.collecting, ∀ s ∈ shown env c,
      Eligible w.grown w.tracked s → w.previous ≤ s.obj.serial))
  | .create _ | .die _ | .callback _ | .finalizer _ _ | .free _ | .call _ => isTrue trivial

/-- What the collect in progress has taken up, and what it knows. -/
structure Inspected (previous : ℕ) (grown : StatByTb) (tracked : Finset ℤ) (c : Collect) :
    Prop where
  wanted : AllWanted (fun obj => previous ≤ obj.serial) c.found
  grown : c.pc = .snapLive ∨ scanning c.pc = true → c.found.stats = grown
  tracked : scanning c.pc = true → tracked ⊆ c.found.seenAddrs

section

variable {previous : ℕ} {grown : StatByTb} {tracked : Finset ℤ} {env : Env} {ly ly' : Layer}
variable {c c' : Collect}

theorem inspected_nothing (hcandidates : c.found.candidates = []) (hpc : c.pc ≠ .snapLive)
    (hscan : scanning c.pc = false) : Inspected previous grown tracked c where
  wanted candidate hmem := by simp [hcandidates] at hmem
  grown h := by simp [hpc, hscan] at h
  tracked h := by simp [hscan] at h

theorem inspected_of_sound
    (h : Sound (fun obj => previous ≤ obj.serial) grown tracked c.found) :
    Inspected previous grown tracked c := ⟨h.wanted, fun _ => h.stats, fun _ => h.seen⟩

theorem Inspected.sound (h : Inspected previous grown tracked c) (hscan : scanning c.pc = true) :
    Sound (fun obj => previous ≤ obj.serial) grown tracked c.found :=
  ⟨h.grown (.inr hscan), h.tracked hscan, h.wanted⟩

/-- Only the snapshot of the memory leads to that of the live objects. -/
theorem snapshot_of_snapLive (hstep : collectStep env ly c = (ly', .going c'))
    (hpc : c'.pc = .snapLive) : c.pc = .snapshot := by
  obtain ⟨pc, pending, found, rssKb, newAllocs⟩ := c
  cases pc with
  | snapshot => rfl
  | checkRunning =>
    cases hstep
    cases hrunning : ly.running <;> simp [hrunning] at hpc
  | passA gen =>
    cases hstep
    rcases afterPassA_cases gen (scanGc gen found env.sightings.reverse) with ⟨gen', hnext⟩ | hnext
    all_goals simp [hnext] at hpc
  | passB =>
    simp only [collectStep] at hstep
    split at hstep <;> cases hstep <;> cases hpc
  | passC rest => cases rest <;> cases hstep <;> cases hpc
  | build rest =>
    cases rest with
    | nil =>
      cases hstep
      cases hpc
    | cons candidate rest =>
      simp only [collectStep] at hstep
      split at hstep
      · cases hstep
        cases hpc
      · split at hstep
        · cases hstep
          cases hpc
        · cases hstep
          cases htrack : ly.trackRefs <;> simp [htrack] at hpc
  | idleExtend | extend => cases hstep
  | drain | snapLive | snapTracked | findParent | stamp | number | insert | register =>
    cases hstep
    cases hpc

theorem inspected_snapshot (hpc : c.pc = .snapshot)
    (hstep : collectStep env ly c = (ly', .going c')) :
    ∃ current last, env.snapshot = some current ∧ ly.lastSnapshot = some last ∧
      Inspected previous (statByTb (compareTo current last)) tracked c' := by
  unfold collectStep at hstep
  rw [hpc] at hstep
  dsimp only at hstep
  split at hstep
  · rename_i current last hcurrent hlast
    refine ⟨current, last, hcurrent, hlast, ?_⟩
    cases hstep
    refine ⟨fun _ hmem => absurd hmem List.not_mem_nil, fun _ => rfl, fun hscan => ?_⟩
    dsimp only at hscan
    split at hscan <;> cases hscan
  · cases hstep

theorem Inspected.snapLive (h : Inspected previous grown tracked c) (hpc : c.pc = .snapLive)
    (hstep : collectStep env ly c = (ly', .going c')) :
    Inspected previous grown ly.live.keys.toFinset c' := by
  unfold collectStep at hstep
  rw [hpc] at hstep
  cases hstep
  exact ⟨fun _ hmem => absurd hmem List.not_mem_nil, fun _ => h.grown (.inl hpc),
    fun _ => subset_rfl⟩

/-- A pass over what it shows keeps what the collect has taken up in order. -/
theorem Inspected.step (h : Inspected previous grown tracked c)
    (hnew : ∀ s ∈ shown env c, Eligible grown tracked s → previous ≤ s.obj.serial)
    (hsnapshot : c.pc ≠ .snapshot) (hsnapLive : c.pc ≠ .snapLive)
    (hstep : collectStep env ly c = (ly', .going c')) : Inspected previous grown tracked c' := by
  unfold shown at hnew
  cases foundEffect_of_step hstep with
  | snapshot current last pc hpc => exact absurd hpc hsnapshot
  | snapLive hpc => exact absurd hpc hsnapLive
  | scanGc gen pc hpc hscan =>
    rw [hpc] at hnew
    have hsound := h.sound (by rw [hpc]; rfl)
    exact inspected_of_sound (hsound.scanGc gen fun s hs => hnew s (List.mem_reverse.mp hs))
  | scanBuffers pc hpc hscan =>
    have hbuffers : ∀ s ∈ env.sightings, Eligible grown tracked s → s.bufferProbe = some true →
        previous ≤ s.obj.serial := by
      intro s hs heligible hprobe
      have hbuffer : s ∈ env.sightings.filter (·.bufferProbe = some true) :=
        List.mem_filter.mpr ⟨hs, decide_eq_true hprobe⟩
      rcases hpc with ⟨hpc, hmore⟩ | ⟨obj, rest, hpc⟩
      · rw [hpc] at hnew
        dsimp only at hnew
        rw [if_pos hmore] at hnew
        exact hnew s hbuffer heligible
      · rw [hpc] at hnew
        exact hnew s hbuffer heligible
    have hscanning : scanning c.pc = true := by
      rcases hpc with ⟨hpc, -⟩ | ⟨obj, rest, hpc⟩ <;> rw [hpc] <;> rfl
    exact inspected_of_sound ((h.sound hscanning).scanBuffers hbuffers)
  | onward _ _ hlive honward =>
    refine ⟨?_, ?_, ?_⟩
    · rw [honward.found]
      exact h.wanted
    · intro hpc
      rw [honward.found]
      rcases hpc with hpc | hscan
      · exact absurd (snapshot_of_snapLive hstep hpc) hsnapshot
      · exact h.grown (.inr (honward.scan hscan))
    · intro hscan
      rw [honward.found]
      exact h.tracked (honward.scan hscan)
  | number d rest hpc | insert d rest hpc =>
    exact ⟨h.wanted, fun hnext => by simp [scanning] at hnext, fun hscan => by cases hscan⟩

end

/-- The events of allocations among the events made. -/
def allocations (ly : Layer) : List CpuEvent := ly.made.filter fun e => e.isDealloc = some false

/-- Only the calling thread leads its collect on and makes events of allocations. -/
theorem other_step {w w' : World} {a : Action} (hstep : LayerWorld.step w a = some w')
    (hother : ∀ env, a ≠ .main env) : allocations w'.layer = allocations w.layer ∧
      ∀ c, w'.collecting = some c → w.collecting = some c ∨ c = {} := by
  cases stepped_of_step hstep with
  | finalizer addr env cell pc hcell hrunning hclock =>
    refine ⟨?_, fun c hc => .inl hc⟩
    cases pc with
    | number addr info deallocTs =>
      show (w.layer.made ++ [_]).filter _ = _
      rw [List.filter_append, List.filter_cons_of_neg (by simp [deallocEvent]), List.filter_nil,
        List.append_nil]
      rfl
    | _ => rfl
  | call request hmain hrequest =>
    refine ⟨rfl, fun c hc => .inr ?_⟩
    cases request with
    | collect =>
      cases hc
      rfl
    | onDealloc addr => exact absurd rfl (hrequest addr)
    | start | flush | stop => cases hc
  | main env _ hmain => exact absurd rfl (hother env)
  | create | die | callback | free => exact ⟨rfl, fun c hc => .inl hc⟩

structure Watched (w : Watch) : Prop where
  tidy : Tidy w.world
  inspected : ∀ c, w.world.collecting = some c → Inspected w.previous w.grown w.tracked c
  genuine : Genuine w

theorem watched_init (trackRefs : Bool) (nextId clock : ℤ) :
    Watched (.init trackRefs nextId clock) where
  tidy := tidy_init trackRefs nextId clock
  inspected c hc := by cases hc
  genuine m hm := by cases hm

theorem after_other {w : Watch} {world : World} {a : Action} (hother : ∀ env, a ≠ .main env) :
    w.after world a = { w with world } := by
  cases a with
  | main env => exact absurd rfl (hother env)
  | _ => rfl

/-- A step of the calling thread that is in no collect. -/
theorem after_idle {w : Watch} (world : World) (env : Env) (hc : w.world.collecting = none) :
    ∃ last, w.after world (.main env) = { w with world, last } := by
  unfold Watch.after
  rw [hc]
  cases w.world.main with
  | none => exact ⟨w.last, rfl⟩
  | some call =>
    cases call with
    | start pc => cases pc <;> exact ⟨_, rfl⟩
    | _ => exact ⟨w.last, rfl⟩

theorem after_collect {w : Watch} {world : World} {env : Env} {c : Collect}
    (hc : w.world.collecting = some c) :
    w.after world (.main env) = w.afterCollect env c world := by
  unfold Watch.after
  rw [hc]

/-- What the watch notes of a step of a collect: a snapshot, a new event or nothing. -/
inductive Noted (w : Watch) (env : Env) (c : Collect) (world : World) : Watch → Prop
  | snapshot (current last : Snapshot) (hpc : c.pc = .snapshot)
    (hcurrent : env.snapshot = some current) (hlast : w.world.layer.lastSnapshot = some last) :
    Noted w env c world { w with
      world
      last := w.world.nextSerial
      previous := w.last
      grown := statByTb (compareTo current last) }
  | raises (hpc : c.pc = .snapshot)
    (hnone : env.snapshot = none ∨ w.world.layer.lastSnapshot = none) :
    Noted w env c world { w with world }
  | snapLive (hpc : c.pc = .snapLive) :
    Noted w env c world { w with world, tracked := w.world.layer.live.keys.toFinset }
  | number (d : Draft) (rest : List Candidate) (hpc : c.pc = .number d rest) :
    Noted w env c world { w with
      world
      emitted := w.emitted ++
        [⟨allocEvent env w.world.layer.nextId c.rssKb d, d.candidate.obj, w.previous⟩] }
  | nothing (hsnapshot : c.pc ≠ .snapshot) (hsnapLive : c.pc ≠ .snapLive)
    (hnumber : ∀ d rest, c.pc ≠ .number d rest) : Noted w env c world { w with world }

theorem noted (w : Watch) (env : Env) (c : Collect) (world : World) :
    Noted w env c world (w.afterCollect env c world) := by
  unfold Watch.afterCollect
  split
  · rename_i hpc
    split
    · rename_i current last hcurrent hlast
      exact .snapshot current last hpc hcurrent hlast
    · rename_i hnone
      refine .raises hpc ?_
      cases hcurrent : env.snapshot with
      | none => exact .inl rfl
      | some current =>
        cases hlast : w.world.layer.lastSnapshot with
        | none => exact .inr rfl
        | some last => exact absurd hlast (hnone current last hcurrent)
  · rename_i hpc
    exact .snapLive hpc
  · rename_i d rest hpc
    exact .number d rest hpc
  · rename_i hsnapshot hsnapLive hnumber
    exact .nothing hsnapshot hsnapLive hnumber

/-- What a step does to the watch: no collect makes a step, so that nothing is noted and at
most a new collect begins, or the collect of the calling thread makes one. -/
inductive WatchStep (w : Watch) : Action → Watch → Prop
  | quiet (a : Action) (world : World) (last : ℕ) (htidy : Tidy world)
    (hmade : allocations world.layer = allocations w.world.layer)
    (hcollecting : ∀ c, world.collecting = some c → w.world.collecting = some c ∨ c = {}) :
    WatchStep w a { w with world, last }
  | collect (env : Env) (c : Collect) (out : Outcome Collect) (world : World) (w' : Watch)
    (htidy : Tidy world) (hc : w.world.collecting = some c)
    (hcollect : collectStep env w.world.layer c = (world.layer, out))
    (hc' : world.collecting = goingOn out) (hnoted : Noted w env c world w') :
    WatchStep w (.main env) w'

theorem watchStep_of_step {w w' : Watch} {a : Action} (htidy : Tidy w.world)
    (hstep : step w a = some w') : WatchStep w a w' := by
  obtain ⟨world, hworld, rfl⟩ := Option.map_eq_some_iff.mp hstep
  have htidy' : Tidy world := tidy_step w.world a world htidy hworld
  by_cases hmain : ∃ env, a = .main env
  · obtain ⟨env, rfl⟩ := hmain
    cases (mainStep_of_main hworld htidy.calling).effect with
    | other hc hlive htracked hmade hc' =>
      obtain ⟨last, hafter⟩ := after_idle world env hc
      rw [hafter]
      refine .quiet _ world last htidy' ?_ fun c hcollecting => .inr (hc' c hcollecting)
      rw [allocations, allocations, hmade]
    | collect c out hc hcollect hc' =>
      rw [after_collect hc]
      exact .collect env c out world _ htidy' hc hcollect hc' (noted w env c world)
  · have hother : ∀ env, a ≠ .main env := fun env heq => hmain ⟨env, heq⟩
    obtain ⟨hmade, hcollecting⟩ := other_step hworld hother
    rw [after_other hother]
    exact .quiet a world w.last htidy' hmade hcollecting

/-- A step of a collect keeps what it has taken up in order. -/
theorem inspected_noted {w w' : Watch} {env : Env} {ly' : Layer} {c c' : Collect} {world : World}
    (h : Inspected w.previous w.grown w.tracked c)
    (hnew : ∀ s ∈ shown env c, Eligible w.grown w.tracked s → w.previous ≤ s.obj.serial)
    (hstep : collectStep env w.world.layer c = (ly', .going c'))
    (hnoted : Noted w env c world w') : Inspected w'.previous w'.grown w'.tracked c' := by
  cases hnoted with
  | snapshot current last hpc hcurrent hlast =>
    obtain ⟨current', last', hcurrent', hlast', hinspected⟩ := inspected_snapshot hpc hstep
    rw [hcurrent] at hcurrent'
    rw [hlast] at hlast'
    cases hcurrent'
    cases hlast'
    exact hinspected
  | raises hpc hnone =>
    obtain ⟨current, last, hcurrent, hlast, -⟩ : ∃ current last, env.snapshot = some current ∧
        w.world.layer.lastSnapshot = some last ∧
          Inspected 0 (statByTb (compareTo current last)) ∅ c' :=
      inspected_snapshot hpc hstep
    rw [hcurrent, hlast] at hnone
    rcases hnone with hnone | hnone <;> cases hnone
  | snapLive hpc => exact h.snapLive hpc hstep
  | number d rest hpc => exact h.step hnew (by simp [hpc]) (by simp [hpc]) hstep
  | nothing hsnapshot hsnapLive => exact h.step hnew hsnapshot hsnapLive hstep

theorem watched_step (w : Watch) (a : Action) (w' : Watch) (h : Watched w) (hnew : NewOnly w a)
    (hstep : step w a = some w') : Watched w' := by
  cases watchStep_of_step h.tidy hstep with
  | quiet _ world last htidy hmade hcollecting =>
    refine ⟨htidy, fun c hc => ?_, h.genuine⟩
    rcases hcollecting c hc with hsame | hstart
    · exact h.inspected c hsame
    · rw [hstart]
      exact inspected_nothing rfl (by simp) rfl
  | collect env c out world _ htidy hc hcollect hc' hnoted =>
    have hinspected : ∀ c', world.collecting = some c' →
        Inspected w'.previous w'.grown w'.tracked c' := by
      intro c' hcollecting
      rw [hcollecting] at hc'
      cases out with
      | going c'' =>
        cases hc'
        exact inspected_noted (h.inspected c hc) (hnew c hc) hcollect hnoted
      | _ => cases hc'
    cases hnoted with
    | number d rest hpc =>
      have hmem : d.candidate ∈ c.found.candidates :=
        (h.tidy.collecting c hc).sublist.subset (by simp [todo, hpc])
      refine ⟨htidy, hinspected, fun m hm => ?_⟩
      rcases List.mem_append.mp hm with hold | hone
      · exact h.genuine m hold
      · rw [List.mem_singleton.mp hone]
        exact (h.inspected c hc).wanted d.candidate hmem
    | _ => exact ⟨htidy, hinspected, h.genuine⟩

theorem allocations_number {env : Env} {ly ly' : Layer} {c : Collect} {out : Outcome Collect}
    {d : Draft} {rest : List Candidate} (hpc : c.pc = .number d rest)
    (hstep : collectStep env ly c = (ly', out)) :
    allocations ly' = allocations ly ++ [allocEvent env ly.nextId c.rssKb d] := by
  unfold collectStep at hstep
  rw [hpc] at hstep
  cases hstep
  show (ly.made ++ [_]).filter _ = _
  rw [List.filter_append, List.filter_cons_of_pos (by simp [allocEvent]), List.filter_nil]
  rfl

theorem allocations_quiet {env : Env} {ly ly' : Layer} {c : Collect} {out : Outcome Collect}
    (hpc : ∀ d rest, c.pc ≠ .number d rest) (hstep : collectStep env ly c = (ly', out)) :
    allocations ly' = allocations ly := by
  cases collectStep_eq_effect hstep with
  | number d rest hnumber => exact absurd hnumber (hpc d rest)
  | _ => rfl

theorem recorded_step (w : Watch) (a : Action) (w' : Watch)
    (h : Tidy w.world ∧ allocations w.world.layer = w.emitted.map Emission.event)
    (hstep : step w a = some w') :
    Tidy w'.world ∧ allocations w'.world.layer = w'.emitted.map Emission.event := by
  obtain ⟨htidy, hrecorded⟩ := h
  cases watchStep_of_step htidy hstep with
  | quiet _ world last htidy' hmade => exact ⟨htidy', hmade.trans hrecorded⟩
  | collect env c out world _ htidy' hc hcollect hc' hnoted =>
    cases hnoted with
    | snapshot current last hpc =>
      exact ⟨htidy', (allocations_quiet (by simp [hpc]) hcollect).trans hrecorded⟩
    | raises hpc => exact ⟨htidy', (allocations_quiet (by simp [hpc]) hcollect).trans hrecorded⟩
    | snapLive hpc => exact ⟨htidy', (allocations_quiet (by simp [hpc]) hcollect).trans hrecorded⟩
    | number d rest hpc =>
      refine ⟨htidy', (allocations_number hpc hcollect).trans ?_⟩
      rw [hrecorded, List.map_append]
      rfl
    | nothing _ _ hnumber => exact ⟨htidy', (allocations_quiet hnumber hcollect).trans hrecorded⟩

/-- The watch has noted every event of an allocation. -/
theorem allocations_eq_emitted {trackRefs : Bool} {nextId clock : ℤ} {actions : List Action}
    {w : Watch} (hrun : run step (.init trackRefs nextId clock) actions = some w) :
    allocations w.world.layer = w.emitted.map Emission.event :=
  (run_keeps recorded_step ⟨tidy_init trackRefs nextId clock, rfl⟩ hrun).2

/-- In every run in which the untracked objects of grown tracebacks that the passes come upon
were created after the previous snapshot, this holds of every object reported. -/
theorem genuine_of_newOnly (trackRefs : Bool) (nextId clock : ℤ) (actions : List Action)
    (w : Watch) (hrun : run step (.init trackRefs nextId clock) actions = some w)
    (halong : Along step NewOnly (.init trackRefs nextId clock) actions) : Genuine w :=
  (run_along watched_step (watched_init trackRefs nextId clock) halong hrun).genuine

/-- One payload is reported, another of another line is missed. In the second collect the
program has a third one at the line of the first, and shows all three. -/
def growingRun : List Action :=
  let lines (size count : ℤ) : Snapshot :=
    AList.insert [("main.py", 3)] ⟨size, count⟩ (AList.insert [("main.py", 7)] ⟨32, 1⟩ ∅)
  startRun ++ [.create (payload 0), .create ⟨1, 8192, true⟩, .call .collect] ++
    List.replicate 15 (.main { finds (payload 0) 100 64 with snapshot := some (lines 64 1) }) ++
    [.create ⟨2, 12288, true⟩, .call .collect] ++
    List.replicate 15 (.main { finds (payload 0) 300 128 with
      snapshot := some (lines 128 2)
      sightings := [⟨payload 0, some false, some false, some (some [("main.py", 3)])⟩,
        ⟨⟨1, 8192, true⟩, some false, some false, some (some [("main.py", 7)])⟩,
        ⟨⟨2, 12288, true⟩, some false, some false, some (some [("main.py", 3)])⟩] })

theorem growingRun_isSome : (run step (.init false 1 0) growingRun).isSome = true := by
  decide +kernel

/-- The first and the third payload are new when they are reported; the second collect comes
upon two that are not. -/
theorem genuine_of_newOnly_growingRun :
    ((run step (.init false 1 0) growingRun).get growingRun_isSome).emitted.map
        (fun m => (m.previous, m.obj.serial)) = [(0, 0), (2, 2)] ∧
      Genuine ((run step (.init false 1 0) growingRun).get growingRun_isSome) := by
  refine ⟨by decide +kernel, ?_⟩
  exact genuine_of_newOnly false 1 0 growingRun _ (Option.some_get growingRun_isSome).symm
    (by decide +kernel)

/-- A collect misses the object that the program has created at its line, and the next one
comes upon it when the program has created another there. -/
def missedRun : List Action :=
  startRun ++ [.create (payload 0), .call .collect] ++
    List.replicate 9 (.main { finds (payload 0) 100 64 with sightings := [] }) ++
    [.create ⟨1, 8192, true⟩, .call .collect] ++
    List.replicate 11 (.main (finds (payload 0) 300 128))

theorem missedRun_isSome : (run step (.init false 1 0) missedRun).isSome = true := by
  decide +kernel

/-- The second collect reports the first object, which the first has left out. -/
theorem missed_object_reported : ¬∀ trackRefs nextId clock actions w,
    run step (.init trackRefs nextId clock) actions = some w → Genuine w := by
  intro hgenuine
  have hend := hgenuine false 1 0 missedRun _ (Option.some_get missedRun_isSome).symm
  have hreported : (1, 0) ∈
      ((run step (.init false 1 0) missedRun).get missedRun_isSome).emitted.map
      (fun m => (m.previous, m.obj.serial)) := by decide +kernel
  obtain ⟨m, hm, heq⟩ := List.mem_map.mp hreported
  obtain ⟨hprevious, hserial⟩ := Prod.mk.inj heq
  have hle := hend m hm
  omega

end HpcProfiler.NewObjects
