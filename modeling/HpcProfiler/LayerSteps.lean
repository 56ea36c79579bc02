import HpcProfiler.MemoryLayer

/-!
What the steps of a collect do to the layer. Five of them move or make events or
change the map of live objects; every other step changes nothing in the layer that is
looked at later but the last snapshot, and neither list of events in hand.
-/

namespace HpcProfiler.LayerSteps

open Events Discovery MemoryLayer

section

variable {σ τ : Type} {x : Layer × Outcome σ} {f : σ → τ} {ly' : Layer}

theorem going_of_map {call : τ} (h : x.map id (Outcome.map f) = (ly', .going call)) :
    ∃ call', x = (ly', .going call') ∧ f call' = call := by
  obtain ⟨ly, out⟩ := x
  cases out with
  | going call' =>
    cases h
    exact ⟨call', rfl, rfl⟩
  | returned result => cases h
  | raised => cases h

theorem returned_of_map {result : List CpuEvent}
    (h : x.map id (Outcome.map f) = (ly', .returned result)) : x = (ly', .returned result) := by
  obtain ⟨ly, out⟩ := x
  cases out with
  | going call' => cases h
  | returned result =>
    cases h
    rfl
  | raised => cases h

theorem raised_of_map (h : x.map id (Outcome.map f) = (ly', .raised)) : x = (ly', .raised) := by
  obtain ⟨ly, out⟩ := x
  cases out with
  | raised =>
    cases h
    rfl
  | _ => cases h

end

/-- The final collect of stop goes on, or has returned its result to stop. -/
theorem going_of_toStop {x : Layer × Outcome Collect} {ly' : Layer} {pc : Stop}
    (h : x.map id toStop = (ly', .going pc)) :
    (∃ c, x = (ly', .going c) ∧ pc = .collecting c) ∨
      ∃ remaining, x = (ly', .returned remaining) ∧ pc = .clearRunning remaining := by
  obtain ⟨ly, out⟩ := x
  cases out with
  | going c =>
    cases h
    exact .inl ⟨c, rfl, rfl⟩
  | returned remaining =>
    cases h
    exact .inr ⟨remaining, rfl, rfl⟩
  | raised => cases h

theorem not_returned_of_toStop {x : Layer × Outcome Collect} {ly' : Layer}
    {result : List CpuEvent} (h : x.map id toStop = (ly', .returned result)) : False := by
  obtain ⟨ly, out⟩ := x
  cases out <;> cases h

theorem raised_of_toStop {x : Layer × Outcome Collect} {ly' : Layer}
    (h : x.map id toStop = (ly', .raised)) : x = (ly', .raised) := by
  obtain ⟨ly, out⟩ := x
  cases out with
  | raised =>
    cases h
    rfl
  | _ => cases h

/-- The call has not yet its snapshot. -/
def CollectPc.early : CollectPc → Bool
  | .drain => true
  | .checkRunning => true
  | .idleExtend => true
  | .snapshot => true
  | _ => false

/-- The step from here moves no event, makes none and leaves the live objects alone. -/
def CollectPc.quiet : CollectPc → Bool
  | .drain => false
  | .idleExtend => false
  | .number _ _ => false
  | .insert _ _ => false
  | .extend => false
  | _ => true

/-- The places to which a quiet step may lead. -/
def CollectPc.afterQuiet : CollectPc → Bool
  | .drain => false
  | .checkRunning => false
  | .insert _ _ => false
  | .register _ _ => false
  | _ => true

/-- Before the snapshot is taken, no event has been made, and before the queue is drained
none is in hand. -/
structure WellBegun (c : Collect) : Prop where
  newAllocs : CollectPc.early c.pc = true → c.newAllocs = []
  pending : c.pc = .drain → c.pending = []

theorem wellBegun_init : WellBegun {} := ⟨fun _ => rfl, fun _ => rfl⟩

/-- The effect of one step of a collect. -/
inductive CollectEffect (env : Env) (ly : Layer) (c : Collect) : Layer → Outcome Collect → Prop
  | drain (hpc : c.pc = .drain) :
    CollectEffect env ly c { ly with deallocQueue := [] }
      (.going { c with pending := ly.deallocQueue, pc := .checkRunning })
  | idleExtend (hpc : c.pc = .idleExtend) :
    CollectEffect env ly c { ly with events := ly.events ++ c.pending } (.returned c.pending)
  | extend (hpc : c.pc = .extend) :
    CollectEffect env ly c { ly with events := ly.events ++ (c.newAllocs ++ c.pending) }
      (.returned (c.newAllocs ++ c.pending))
  | number (d : Draft) (rest : List Candidate) (hpc : c.pc = .number d rest) :
    CollectEffect env ly c
      { ly with
        nextId := ly.nextId + 1
        made := ly.made ++ [allocEvent env ly.nextId c.rssKb d] }
      (.going { c with
        newAllocs := c.newAllocs ++ [allocEvent env ly.nextId c.rssKb d]
        pc := .insert d rest })
  | insert (d : Draft) (rest : List Candidate) (hpc : c.pc = .insert d rest) :
    CollectEffect env ly c
      { ly with
        live := ly.live.insert d.addr d.info
        trackedAddrs := Insert.insert d.addr ly.trackedAddrs }
      (.going { c with pc := .register d rest })
  | raised (hpc : c.pc = .snapshot) : CollectEffect env ly c ly .raised
  | quiet (last : Option Snapshot) (c' : Collect) (hpending : c'.pending = c.pending)
    (hnew : c'.newAllocs = c.newAllocs) (hpc : CollectPc.quiet c.pc = true)
    (hnext : CollectPc.afterQuiet c'.pc = true)
    (hearly : CollectPc.early c'.pc = true → CollectPc.early c.pc = true) :
    CollectEffect env ly c { ly with lastSnapshot := last } (.going c')

theorem afterPassA_cases (gen : ℕ) (found : Found) :
    (∃ gen', afterPassA gen found = .passA gen') ∨ afterPassA gen found = .passB := by
  unfold afterPassA
  split
  · exact .inl ⟨_, rfl⟩
  · exact .inr rfl

/-- Every step has one of these effects. -/
theorem collectStep_effect (env : Env) (ly : Layer) (c : Collect) :
    CollectEffect env ly c (collectStep env ly c).1 (collectStep env ly c).2 := by
  obtain ⟨pc, pending, found, rssKb, newAllocs⟩ := c
  cases pc with
  | drain => exact .drain rfl
  | checkRunning =>
    refine .quiet ly.lastSnapshot _ rfl rfl rfl ?_ (fun _ => rfl)
    dsimp only
    split <;> rfl
  | idleExtend => exact .idleExtend rfl
  | snapshot =>
    unfold collectStep
    dsimp only
    split
    · refine .quiet _ _ rfl rfl rfl ?_ ?_
      all_goals dsimp only; split <;> simp [CollectPc.early, CollectPc.afterQuiet]
    · exact .raised rfl
  | snapLive => exact .quiet _ _ rfl rfl rfl rfl (fun h => h)
  | passA gen =>
    refine .quiet _ _ rfl rfl rfl ?_ ?_
    all_goals
      rcases afterPassA_cases gen (scanGc gen found env.sightings.reverse) with ⟨gen', h⟩ | h <;>
        simp [h, CollectPc.early, CollectPc.afterQuiet]
  | passB =>
    unfold collectStep
    dsimp only
    split
    · exact .quiet _ _ rfl rfl rfl rfl (fun h => h)
    · exact .quiet _ _ rfl rfl rfl rfl (fun h => h)
  | passC rest =>
    cases rest with
    | nil => exact .quiet _ _ rfl rfl rfl rfl (fun h => h)
    | cons obj rest => exact .quiet _ _ rfl rfl rfl rfl (fun h => h)
  | build rest =>
    cases rest with
    | nil => exact .quiet _ _ rfl rfl rfl rfl (fun h => h)
    | cons candidate rest =>
      unfold collectStep
      dsimp only
      split
      · exact .quiet _ _ rfl rfl rfl rfl (fun h => h)
      · split
        · exact .quiet _ _ rfl rfl rfl rfl (fun h => h)
        · refine .quiet _ _ rfl rfl rfl ?_ ?_
          all_goals dsimp only; split <;> simp [CollectPc.early, CollectPc.afterQuiet]
  | snapTracked d rest => exact .quiet _ _ rfl rfl rfl rfl (fun h => h)
  | findParent d tracked rest => exact .quiet _ _ rfl rfl rfl rfl (fun h => h)
  | stamp d rest => exact .quiet _ _ rfl rfl rfl rfl (fun h => h)
  | number d rest => exact .number d rest rfl
  | insert d rest => exact .insert d rest rfl
  | register d rest => exact .quiet _ _ rfl rfl rfl rfl (fun h => h)
  | extend => exact .extend rfl

theorem collectStep_eq_effect {env : Env} {ly ly' : Layer} {c : Collect} {out : Outcome Collect}
    (h : collectStep env ly c = (ly', out)) : CollectEffect env ly c ly' out := by
  have heffect := collectStep_effect env ly c
  rw [h] at heffect
  exact heffect

theorem WellBegun.step {env : Env} {ly ly' : Layer} {c c' : Collect} (h : WellBegun c)
    (heffect : CollectEffect env ly c ly' (.going c')) : WellBegun c' := by
  cases heffect with
  | drain hpc => exact ⟨fun _ => h.newAllocs (by rw [hpc]; rfl), by simp⟩
  | number d rest hpc => exact ⟨by simp [CollectPc.early], by simp⟩
  | insert d rest hpc => exact ⟨by simp [CollectPc.early], by simp⟩
  | quiet last _ hpending hnew hpc hnext hearly =>
    refine ⟨fun hc' => ?_, fun hc' => ?_⟩
    · rw [hnew]
      exact h.newAllocs (hearly hc')
    · rw [hc'] at hnext
      cases hnext

/-- Once a collect has its snapshot it does not come back before it. -/
theorem late_going {env : Env} {ly ly' : Layer} {c c' : Collect}
    (hearly : CollectPc.early c.pc = false) (heffect : CollectEffect env ly c ly' (.going c')) :
    CollectPc.early c'.pc = false := by
  cases heffect with
  | drain hpc =>
    rw [hpc] at hearly
    cases hearly
  | number d rest hpc => rfl
  | insert d rest hpc => rfl
  | quiet last _ hpending hnew hpc hnext hback =>
    rw [Bool.eq_false_iff] at hearly ⊢
    exact fun hearly' => hearly (hback hearly')

/-- The events made so far have ids in ascending order, all below the next id. -/
structure Numbered (ly : Layer) : Prop where
  sorted : (ly.made.map fun e => e.base.eventId).Pairwise (· < ·)
  bound : ∀ e ∈ ly.made, e.base.eventId < ly.nextId

theorem numbered_init (trackRefs : Bool) (nextId : ℤ) : Numbered (.init trackRefs nextId) :=
  ⟨List.Pairwise.nil, fun _ he => by cases he⟩

/-- A step makes at most one event, with the next id. -/
inductive Makes (ly ly' : Layer) : Prop
  | none (hmade : ly'.made = ly.made) (hid : ly'.nextId = ly.nextId)
  | one (e : CpuEvent) (hmade : ly'.made = ly.made ++ [e]) (he : e.base.eventId = ly.nextId)
    (hid : ly'.nextId = ly.nextId + 1)

theorem Numbered.step {ly ly' : Layer} (h : Numbered ly) (hmakes : Makes ly ly') :
    Numbered ly' := by
  cases hmakes with
  | none hmade hid => exact ⟨by rw [hmade]; exact h.sorted, by rw [hmade, hid]; exact h.bound⟩
  | one e hmade he hid =>
    refine ⟨?_, ?_⟩
    · rw [hmade, List.map_append, List.map_singleton, List.pairwise_append]
      refine ⟨h.sorted, List.pairwise_singleton _ _, ?_⟩
      intro m hm n hn
      obtain ⟨e', he', rfl⟩ := List.mem_map.mp hm
      rw [List.mem_singleton.mp hn, he]
      exact h.bound e' he'
    · intro e' he'
      rw [hmade, List.mem_append, List.mem_singleton] at he'
      rw [hid]
      rcases he' with he' | rfl
      · have hlt := h.bound e' he'
        omega
      · omega

theorem Numbered.nodup {ly : Layer} (h : Numbered ly) :
    (ly.made.map fun e => e.base.eventId).Nodup :=
  h.sorted.imp fun hlt heq => by omega

theorem CollectEffect.makes {env : Env} {ly ly' : Layer} {c : Collect} {out : Outcome Collect}
    (h : CollectEffect env ly c ly' out) : Makes ly ly' := by
  cases h with
  | number d rest hpc => exact .one _ rfl rfl rfl
  | _ => exact .none rfl rfl

theorem onDeallocStep_makes (env : Env) (ly : Layer) (pc : Dealloc) :
    Makes ly (onDeallocStep env ly pc).1 := by
  cases pc with
  | number addr info ts => exact .one _ rfl rfl rfl
  | _ => exact .none rfl rfl

theorem callStep_makes (env : Env) (ly : Layer) (call : Call) :
    Makes ly (callStep env ly call).1 := by
  cases call with
  | start pc =>
    cases pc with
    | startTracing =>
      unfold callStep startStep
      cases env.snapshot <;> exact .none rfl rfl
    | _ => exact .none rfl rfl
  | collect c => exact (collectStep_effect env ly c).makes
  | flush pc => cases pc <;> exact .none rfl rfl
  | stop pc =>
    cases pc with
    | collecting c => exact (collectStep_effect env ly c).makes
    | _ => exact .none rfl rfl
  | onDealloc pc => exact onDeallocStep_makes env ly pc

end HpcProfiler.LayerSteps
