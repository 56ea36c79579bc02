import HpcProfiler.CorrelatorSession

/-!
The two times that a correlator remembers. The start time is set by every start, and by
ingest if it is not set yet; the end time is set by every stop and never cleared. A
session takes both as they are, with the present time for an end time that is not set.
-/

namespace HpcProfiler.CorrelatorLifecycle

open Correlation Events StepSystem

structure ProfilingSession extends CorrelatorSession.Session where
  sessionId : String
  schemaVersion : String
  startTimeNs : ℕ
  endTimeNs : ℕ

/-- A correlator; a time that is not set is zero. The drain threads append to the lists of
events until ingest puts other lists in their place. -/
structure Correlator where
  timeWindow : ℤ
  cpuEvents : List CpuEvent := []
  gpuEvents : List GpuEvent := []
  draining : Bool := false
  sessionStartNs : ℕ := 0
  sessionEndNs : ℕ := 0

/-- Both ring buffers open. -/
def Correlator.start (c : Correlator) (now : ℕ) : Correlator :=
  { c with draining := true, sessionStartNs := now }

/-- The threads may still append what is left in the buffers. -/
def Correlator.stop (c : Correlator) (now : ℕ) : Correlator := { c with sessionEndNs := now }

def Correlator.ingest (c : Correlator) (cpuEvents : List CpuEvent) (gpuEvents : List GpuEvent)
    (now : ℕ) : Correlator :=
  { c with
    cpuEvents
    gpuEvents
    draining := false
    sessionStartNs := if c.sessionStartNs = 0 then now else c.sessionStartNs }

def Correlator.buildSession (c : Correlator) (sessionId : String) (now : ℕ) :
    ProfilingSession where
  sessionId := sessionId
  schemaVersion := "0.1"
  startTimeNs := c.sessionStartNs
  endTimeNs := if c.sessionEndNs = 0 then now else c.sessionEndNs
  cpuEvents := c.cpuEvents
  gpuEvents := c.gpuEvents
  correlatedEvents := runCorrelation c.cpuEvents c.gpuEvents c.timeWindow

/-- The calls of the program, and the appends of the drain threads. -/
inductive Action
  | start
  | stop
  | ingest (cpuEvents : List CpuEvent) (gpuEvents : List GpuEvent)
  | buildSession (sessionId : String)
  | drainCpu (event : CpuEvent)
  | drainGpu (event : GpuEvent)

/-- An action with the reading of the clock that it sees. -/
structure Timed where
  action : Action
  now : ℕ

structure World where
  correlator : Correlator
  clock : ℕ := 0
  sessions : List ProfilingSession := []

def World.init (timeWindow : ℤ) : World where
  correlator := { timeWindow }

def apply (c : Correlator) (t : Timed) : Correlator :=
  match t.action with
  | .start => c.start t.now
  | .stop => c.stop t.now
  | .ingest cpuEvents gpuEvents => c.ingest cpuEvents gpuEvents t.now
  | .buildSession _ => c
  | .drainCpu event => { c with cpuEvents := c.cpuEvents ++ [event] }
  | .drainGpu event => { c with gpuEvents := c.gpuEvents ++ [event] }

def built (c : Correlator) (t : Timed) : List ProfilingSession :=
  match t.action with
  | .buildSession sessionId => [c.buildSession sessionId t.now]
  | _ => []

def enabled (c : Correlator) : Action → Bool
  | .drainCpu _ => c.draining
  | .drainGpu _ => c.draining
  | _ => true

/-- The clock never goes backwards. -/
def step (w : World) (t : Timed) : Option World :=
  if w.clock ≤ t.now ∧ enabled w.correlator t.action = true then
    some {
      correlator := apply w.correlator t
      clock := t.now
      sessions := w.sessions ++ built w.correlator t }
  else none

def Timed.stops (t : Timed) : Prop := t.action = .stop

def Timed.starts (t : Timed) : Prop := t.action = .start

def Timed.ingests (t : Timed) : Prop :=
  ∃ cpuEvents gpuEvents, t.action = .ingest cpuEvents gpuEvents

def Timed.builds (t : Timed) : Prop := ∃ sessionId, t.action = .buildSession sessionId

/-- A start sets the start time, and so does an ingest that nothing came before which
could have set it; the clock at zero sets nothing. -/
def SetsStart (earlier : List Timed) (t : Timed) : Prop :=
  t.starts ∨ t.ingests ∧ ∀ u ∈ earlier, u.starts ∨ u.ingests → u.now = 0

/-- A stop with no other stop behind it. -/
def LastStop (calls : List Timed) (stop : Timed) : Prop :=
  ∃ before after, calls = before ++ stop :: after ∧ stop.stops ∧ ∀ t ∈ after, ¬t.stops

/-- After the last stop, at a later reading of the clock, the start time has been set. -/
def Restarted (calls : List Timed) : Prop :=
  ∃ before set after, calls = before ++ set :: after ∧ SetsStart before set ∧
    (∀ t ∈ set :: after, ¬t.stops) ∧ ∃ stop, LastStop before stop ∧
      0 < stop.now ∧ stop.now < set.now

/-- What an action does to the two times. -/
inductive Times (c : Correlator) (t : Timed) (c' : Correlator) : Prop
  | stop (hstops : t.stops) (hstart : c'.sessionStartNs = c.sessionStartNs)
    (hend : c'.sessionEndNs = t.now)
  | set (hstops : ¬t.stops) (hset : t.starts ∨ t.ingests ∧ c.sessionStartNs = 0)
    (hstart : c'.sessionStartNs = t.now) (hend : c'.sessionEndNs = c.sessionEndNs)
  | keep (hstops : ¬t.stops) (hset : ¬(t.starts ∨ t.ingests ∧ c.sessionStartNs = 0))
    (hstart : c'.sessionStartNs = c.sessionStartNs) (hend : c'.sessionEndNs = c.sessionEndNs)

theorem times_apply (c : Correlator) (t : Timed) : Times c t (apply c t) := by
  obtain ⟨action, now⟩ := t
  cases action with
  | start => exact .set (by simp [Timed.stops]) (.inl rfl) rfl rfl
  | stop => exact .stop rfl rfl rfl
  | ingest cpuEvents gpuEvents =>
    by_cases hzero : c.sessionStartNs = 0
    · refine .set (by simp [Timed.stops]) (.inr ⟨⟨cpuEvents, gpuEvents, rfl⟩, hzero⟩) ?_ rfl
      exact if_pos hzero
    · refine .keep (by simp [Timed.stops]) (by simp [Timed.starts, hzero]) ?_ rfl
      exact if_neg hzero
  | buildSession sessionId =>
    exact .keep (by simp [Timed.stops]) (by simp [Timed.starts, Timed.ingests]) rfl rfl
  | drainCpu event =>
    exact .keep (by simp [Timed.stops]) (by simp [Timed.starts, Timed.ingests]) rfl rfl
  | drainGpu event =>
    exact .keep (by simp [Timed.stops]) (by simp [Timed.starts, Timed.ingests]) rfl rfl

theorem not_setting_of_stops {t : Timed} (h : t.stops) : ¬(t.starts ∨ t.ingests) := by
  rintro (hstarts | ⟨cpuEvents, gpuEvents, hingests⟩)
  · exact Action.noConfusion (h.symm.trans hstarts)
  · exact Action.noConfusion (h.symm.trans hingests)

/-- The last of the calls is the chosen one, or it comes behind it. -/
theorem concat_eq_split {calls before after : List Timed} {t u : Timed}
    (h : calls ++ [t] = before ++ u :: after) :
    (calls = before ∧ t = u ∧ after = []) ∨
      ∃ after', after = after' ++ [t] ∧ calls = before ++ u :: after' := by
  rcases List.eq_nil_or_concat after with rfl | ⟨after', last, rfl⟩
  · obtain ⟨hcalls, hlast⟩ := List.append_inj' h rfl
    exact .inl ⟨hcalls, List.singleton_inj.mp hlast, rfl⟩
  · rw [List.concat_eq_append, ← List.cons_append, ← List.append_assoc] at h
    obtain ⟨hcalls, hlast⟩ := List.append_inj' h rfl
    rw [List.singleton_inj.mp hlast]
    exact .inr ⟨after', List.concat_eq_append, hcalls⟩

theorem forall_concat {p : Timed → Prop} {calls : List Timed} {t : Timed} (h : p t) :
    (∀ u ∈ calls ++ [t], p u) ↔ ∀ u ∈ calls, p u := by
  simp [or_imp, forall_and, h]

theorem lastStop_concat_of_stops {calls : List Timed} {t stop : Timed} (h : t.stops) :
    LastStop (calls ++ [t]) stop ↔ stop = t := by
  constructor
  · rintro ⟨before, after, hsplit, -, hafter⟩
    rcases concat_eq_split hsplit with ⟨-, rfl, -⟩ | ⟨after', rfl, -⟩
    · rfl
    · exact absurd h (hafter t (by simp))
  · rintro rfl
    exact ⟨calls, [], rfl, h, by simp⟩

theorem lastStop_concat {calls : List Timed} {t stop : Timed} (h : ¬t.stops) :
    LastStop (calls ++ [t]) stop ↔ LastStop calls stop := by
  constructor
  · rintro ⟨before, after, hsplit, hstops, hafter⟩
    rcases concat_eq_split hsplit with ⟨-, rfl, -⟩ | ⟨after', rfl, rfl⟩
    · exact absurd hstops h
    · exact ⟨before, after', rfl, hstops, (forall_concat h).mp hafter⟩
  · rintro ⟨before, after, rfl, hstops, hafter⟩
    exact ⟨before, after ++ [t], by simp, hstops, (forall_concat h).mpr hafter⟩

theorem not_restarted_of_stops {calls : List Timed} {t : Timed} (h : t.stops) :
    ¬Restarted (calls ++ [t]) := by
  rintro ⟨before, set, after, hsplit, -, hnone, -⟩
  rcases concat_eq_split hsplit with ⟨-, rfl, -⟩ | ⟨after', rfl, -⟩
  · exact hnone t (List.mem_cons_self ..) h
  · exact hnone t (by simp) h

theorem restarted_concat {calls : List Timed} {t : Timed} (h : ¬t.stops) :
    Restarted (calls ++ [t]) ↔ Restarted calls ∨
      SetsStart calls t ∧ ∃ stop, LastStop calls stop ∧ 0 < stop.now ∧ stop.now < t.now := by
  constructor
  · rintro ⟨before, set, after, hsplit, hset, hnone, hlast⟩
    rcases concat_eq_split hsplit with ⟨rfl, rfl, -⟩ | ⟨after', rfl, rfl⟩
    · exact .inr ⟨hset, hlast⟩
    · exact .inl ⟨before, set, after', rfl, hset, (forall_concat h).mp hnone, hlast⟩
  · rintro (⟨before, set, after, rfl, hset, hnone, hlast⟩ | ⟨hset, hlast⟩)
    · exact ⟨before, set, after ++ [t], by simp, hset, (forall_concat h).mpr hnone, hlast⟩
    · refine ⟨calls, t, [], rfl, hset, ?_, hlast⟩
      intro u hu
      rw [List.mem_singleton.mp hu]
      exact h

/-- What the correlator remembers of the calls. -/
structure Recorded (calls : List Timed) (w : World) : Prop where
  past : ∀ t ∈ calls, t.now ≤ w.clock
  start_le : w.correlator.sessionStartNs ≤ w.clock
  unset : w.correlator.sessionStartNs = 0 ↔ ∀ u ∈ calls, u.starts ∨ u.ingests → u.now = 0
  stopped : ∀ te, 0 < te →
    (w.correlator.sessionEndNs = te ↔ ∃ stop, LastStop calls stop ∧ stop.now = te)
  restarted : Restarted calls ↔ 0 < w.correlator.sessionEndNs ∧
    w.correlator.sessionEndNs < w.correlator.sessionStartNs

theorem recorded_init (timeWindow : ℤ) : Recorded [] (.init timeWindow) := by
  refine ⟨by simp, le_rfl, ⟨by simp, fun _ => rfl⟩, ?_, ?_⟩
  · intro te hpos
    constructor
    · intro h
      exact absurd h (by simp only [World.init]; omega)
    · rintro ⟨stop, ⟨before, after, hsplit, -⟩, -⟩
      cases before <;> cases hsplit
  · constructor
    · rintro ⟨before, set, after, hsplit, -⟩
      cases before <;> cases hsplit
    · rintro ⟨hpos, -⟩
      exact absurd hpos (lt_irrefl 0)

/-- A start, or an ingest before which the start time is not set. -/
theorem setsStart_iff {calls : List Timed} {w : World} (h : Recorded calls w) (t : Timed) :
    SetsStart calls t ↔ t.starts ∨ t.ingests ∧ w.correlator.sessionStartNs = 0 := by
  rw [SetsStart, h.unset]

/-- The end time is the reading of the last stop. -/
theorem lastStop_iff {calls : List Timed} {w : World} (h : Recorded calls w) (now : ℕ) :
    (∃ stop, LastStop calls stop ∧ 0 < stop.now ∧ stop.now < now) ↔
      0 < w.correlator.sessionEndNs ∧ w.correlator.sessionEndNs < now := by
  constructor
  · rintro ⟨stop, hstop, hpos, hlt⟩
    rw [(h.stopped stop.now hpos).mpr ⟨stop, hstop, rfl⟩]
    exact ⟨hpos, hlt⟩
  · rintro ⟨hpos, hlt⟩
    obtain ⟨stop, hstop, hnow⟩ := (h.stopped _ hpos).mp rfl
    exact ⟨stop, hstop, by omega, by omega⟩

section

variable {calls : List Timed} {w w' : World} {t : Timed}

theorem Recorded.past_concat (h : Recorded calls w) (hclock : w.clock ≤ t.now)
    (hnow : w'.clock = t.now) : ∀ u ∈ calls ++ [t], u.now ≤ w'.clock := by
  intro u hu
  rw [hnow]
  rcases List.mem_append.mp hu with hold | hnew
  · exact (h.past u hold).trans hclock
  · rw [List.mem_singleton.mp hnew]

/-- A call other than stop leaves the end time what it was. -/
theorem Recorded.stopped_concat (h : Recorded calls w) (hstops : ¬t.stops)
    (hend : w'.correlator.sessionEndNs = w.correlator.sessionEndNs) : ∀ te, 0 < te →
      (w'.correlator.sessionEndNs = te ↔ ∃ stop, LastStop (calls ++ [t]) stop ∧ stop.now = te) := by
  intro te hpos
  simp only [lastStop_concat hstops, hend]
  exact h.stopped te hpos

theorem Recorded.stop (h : Recorded calls w) (hclock : w.clock ≤ t.now) (hnow : w'.clock = t.now)
    (hstops : t.stops) (hstart : w'.correlator.sessionStartNs = w.correlator.sessionStartNs)
    (hend : w'.correlator.sessionEndNs = t.now) : Recorded (calls ++ [t]) w' := by
  have hbefore := h.start_le
  refine ⟨h.past_concat hclock hnow, by omega, ?_, ?_, ?_⟩
  · rw [hstart, h.unset, forall_concat fun hset => absurd hset (not_setting_of_stops hstops)]
  · intro te hpos
    simp only [lastStop_concat_of_stops hstops, exists_eq_left, hend]
  · refine iff_of_false (not_restarted_of_stops hstops) ?_
    omega

theorem Recorded.set (h : Recorded calls w) (hclock : w.clock ≤ t.now) (hnow : w'.clock = t.now)
    (hstops : ¬t.stops) (hset : t.starts ∨ t.ingests ∧ w.correlator.sessionStartNs = 0)
    (hstart : w'.correlator.sessionStartNs = t.now)
    (hend : w'.correlator.sessionEndNs = w.correlator.sessionEndNs) :
    Recorded (calls ++ [t]) w' := by
  have hpast := h.past_concat hclock hnow
  refine ⟨hpast, by omega, ?_, h.stopped_concat hstops hend, ?_⟩
  · rw [hstart]
    constructor
    · intro hzero u hu _
      have hle := hpast u hu
      omega
    · intro hall
      apply hall t (by simp)
      rcases hset with hstarts | ⟨hingests, -⟩
      · exact .inl hstarts
      · exact .inr hingests
  · -- The start time is that of this call, which comes after the last stop or at its reading.
    rw [restarted_concat hstops, h.restarted, setsStart_iff h, lastStop_iff h, hstart, hend]
    have hbefore := h.start_le
    constructor
    · intro hcases
      rcases hcases with ⟨hpos, hlt⟩ | ⟨-, hlast⟩
      · omega
      · exact hlast
    · intro hlast
      exact .inr ⟨hset, hlast⟩

theorem Recorded.keep (h : Recorded calls w) (hclock : w.clock ≤ t.now) (hnow : w'.clock = t.now)
    (hstops : ¬t.stops) (hset : ¬(t.starts ∨ t.ingests ∧ w.correlator.sessionStartNs = 0))
    (hstart : w'.correlator.sessionStartNs = w.correlator.sessionStartNs)
    (hend : w'.correlator.sessionEndNs = w.correlator.sessionEndNs) :
    Recorded (calls ++ [t]) w' := by
  have hbefore := h.start_le
  refine ⟨h.past_concat hclock hnow, by omega, ?_, h.stopped_concat hstops hend, ?_⟩
  · rw [hstart, h.unset]
    constructor
    · intro hall u hu hsets
      rcases List.mem_append.mp hu with hold | hnew
      · exact hall u hold hsets
      · rw [List.mem_singleton.mp hnew] at hsets
        refine absurd ?_ hset
        rcases hsets with hstarts | hingests
        · exact .inl hstarts
        · exact .inr ⟨hingests, h.unset.mpr hall⟩
    · intro hall u hu
      exact hall u (List.mem_append_left _ hu)
  · rw [restarted_concat hstops, h.restarted, setsStart_iff h, hstart, hend]
    simp only [hset, false_and, or_false]

theorem recorded_step (h : Recorded calls w) (hstep : step w t = some w') :
    Recorded (calls ++ [t]) w' := by
  unfold step at hstep
  split at hstep
  · rename_i hallowed
    obtain ⟨hclock, -⟩ := hallowed
    cases hstep
    cases times_apply w.correlator t with
    | stop hstops hstart hend => exact h.stop hclock rfl hstops hstart hend
    | set hstops hset hstart hend => exact h.set hclock rfl hstops hset hstart hend
    | keep hstops hset hstart hend => exact h.keep hclock rfl hstops hset hstart hend
  · cases hstep

end

theorem recorded_run (timeWindow : ℤ) {calls : List Timed} {w : World}
    (hrun : run step (.init timeWindow) calls = some w) : Recorded calls w := by
  induction calls using List.reverseRecOn generalizing w with
  | nil =>
    cases hrun
    exact recorded_init timeWindow
  | append_singleton calls t ih =>
    obtain ⟨mid, hmid, hstep⟩ := run_concat_eq_some.mp hrun
    exact recorded_step (ih hmid) hstep

/-- A session that is built is in order unless the correlator has been restarted. -/
theorem built_in_order_iff {calls : List Timed} {w : World} {t : Timed} (h : Recorded calls w)
    (hclock : w.clock ≤ t.now) :
    (∀ s ∈ built w.correlator t, s.startTimeNs ≤ s.endTimeNs) ↔ (t.builds → ¬Restarted calls) := by
  have hstart := h.start_le
  rw [h.restarted]
  obtain ⟨action, now⟩ := t
  dsimp only at hclock
  cases action with
  | buildSession sessionId =>
    have hbuilds : Timed.builds ⟨.buildSession sessionId, now⟩ := ⟨sessionId, rfl⟩
    simp only [built, List.mem_singleton, forall_eq, hbuilds, forall_const,
      Correlator.buildSession]
    split <;> omega
  | _ => simp [built, Timed.builds]

/-- Every session is in order exactly if no session is built after a restart. -/
theorem sessions_in_order_iff (timeWindow : ℤ) {calls : List Timed} {w : World}
    (hrun : run step (.init timeWindow) calls = some w) :
    (∀ s ∈ w.sessions, s.startTimeNs ≤ s.endTimeNs) ↔
      ∀ before t after, calls = before ++ t :: after → t.builds → ¬Restarted before := by
  induction calls using List.reverseRecOn generalizing w with
  | nil =>
    cases hrun
    simp [World.init]
  | append_singleton calls t ih =>
    obtain ⟨mid, hmid, hstep⟩ := run_concat_eq_some.mp hrun
    have hrecorded := recorded_run timeWindow hmid
    unfold step at hstep
    split at hstep
    · rename_i hallowed
      cases hstep
      simp only [List.mem_append, or_imp, forall_and]
      rw [ih hmid, built_in_order_iff hrecorded hallowed.1]
      constructor
      · rintro ⟨hearlier, hlast⟩ before u after hsplit
        rcases concat_eq_split hsplit with ⟨rfl, rfl, -⟩ | ⟨after', rfl, rfl⟩
        · exact hlast
        · exact hearlier before u after' rfl
      · intro hall
        refine ⟨?_, hall calls t [] rfl⟩
        rintro before u after rfl
        exact hall before u (after ++ [t]) (by simp)
    · cases hstep

/-- A correlator that is started, stopped, started again and asked for a session. -/
def startedAgain : List Timed := [⟨.start, 10⟩, ⟨.stop, 20⟩, ⟨.start, 30⟩, ⟨.buildSession "s", 40⟩]

theorem sessions_in_order_iff_again :
    ∃ w, run step (.init 50) startedAgain = some w ∧
      ((∀ s ∈ w.sessions, s.startTimeNs ≤ s.endTimeNs) ↔ ∀ before t after,
        startedAgain = before ++ t :: after → t.builds → ¬Restarted before) :=
  ⟨_, rfl, sessions_in_order_iff 50 rfl⟩

theorem started_again_out_of_order :
    ¬∀ timeWindow calls w, run step (.init timeWindow) calls = some w →
      ∀ s ∈ w.sessions, s.startTimeNs ≤ s.endTimeNs := by
  intro hall
  have hordered := hall 50 startedAgain _ rfl _ (List.mem_singleton_self _)
  exact absurd hordered (by decide)

end HpcProfiler.CorrelatorLifecycle
