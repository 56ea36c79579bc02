import HpcProfiler.StepSystem
import Mathlib.Logic.Function.Basic

/-!
The tracer of the batch test. The two callbacks of a call of the runtime read the clock,
keep the time of entry in a map under the correlation id, and print a line each; the calls
of all threads take the steps between the locks in any order. At the exit of cudaMalloc and
of cudaFree the tracer asks for the free memory of the device. That is a call of the runtime
itself, and its callbacks come with the correlation id of the call that is being left. The
run ends before shutdown_tracer, whose lines are not part of it.
-/

namespace HpcProfiler.TracerCallbacks

open StepSystem

/-- The directions of a copy that have a name. -/
inductive CopyKind
  | htod
  | dtoh
  | dtod
  | htoh
  | other
  deriving DecidableEq

def CopyKind.op : CopyKind → String
  | .htod => "HtoD"
  | .dtoh => "DtoH"
  | .dtod => "DtoD"
  | .htoh => "HtoH"
  | .other => "Other"

structure ActivityMemcpy where
  copyKind : CopyKind
  bytes : UInt64
  start : UInt64
  finish : UInt64
  streamId : UInt32
  correlationId : UInt32

structure ActivityKernel where
  name : Option String
  start : UInt64
  finish : UInt64
  grid : ℕ × ℕ × ℕ
  block : ℕ × ℕ × ℕ
  streamId : UInt32
  correlationId : UInt32

inductive Activity
  | memcpy (m : ActivityMemcpy)
  | kernel (k : ActivityKernel)
  | other

/-- A line of the trace. A duration is given in nanoseconds; the line of an exit without
an entry has none. -/
inductive Line
  | status (msg : String)
  | enter (api : String) (corr : UInt32) (t : ℕ)
  | exit (api : String) (corr : UInt32) (t : ℕ) (dur : Option ℕ)
  | meminfo (tag : String) (t : ℕ) (freeB totalB : UInt64)
  | memcpy (m : ActivityMemcpy) (dur : ℕ)
  | kernel (k : ActivityKernel) (name : String) (dur : ℕ)

/-- The correlation id and the name of the call that a line is about. -/
def Line.call : Line → Option (UInt32 × String)
  | .enter api corr _ => some (corr, api)
  | .exit api corr _ _ => some (corr, api)
  | _ => none

/-- Records of other kinds print nothing. -/
def printActivity : Activity → List Line
  | .memcpy m => [.memcpy m (m.finish - m.start).toNat]
  | .kernel k => [.kernel k (k.name.getD "(null)") (k.finish - k.start).toNat]
  | .other => []

/-- Where a call stands in its two callbacks: behind the first reading of the clock, with
its time in the map, in the runtime, behind the second reading, out of the map, while the
tracer's own call runs, behind the line of the memory, and left. The time of entry is
recorded in each; in the code it is known to the first callback only. -/
inductive Stage
  | entered (t : ℕ)
  | stored (t : ℕ)
  | running (t : ℕ)
  | leaving (t t' : ℕ)
  | taken (t t' t0 : ℕ)
  | asking (t t' t0 : ℕ) (query : ℕ)
  | logged (t t' t0 : ℕ)
  | left (t t' : ℕ)

structure Call where
  api : String
  corr : UInt32
  stage : Stage

/-- Each line of a callback is recorded with the number of its call. -/
structure Tracer where
  now : ℕ
  gCorrStartNs : UInt32 → Option ℕ
  calls : List Call
  out : List (Option ℕ × Line)

def init : Tracer where
  now := 0
  gCorrStartNs := fun _ => none
  calls := []
  out := [(none, .status "cupti tracer init")]

/-- Lines with the number of their call. -/
def tagged (call : Option ℕ) (lines : List Line) : List (Option ℕ × Line) :=
  lines.map fun line => (call, line)

namespace Tracer

def outPrintf (s : Tracer) (call : Option ℕ) (line : Line) : Tracer :=
  { s with out := s.out ++ [(call, line)] }

def moveTo (s : Tracer) (i : ℕ) (call : Call) (stage : Stage) : Tracer :=
  { s with calls := s.calls.set i { call with stage := stage } }

end Tracer

/-- Whether the exit of the call logs the memory of the device. -/
def logsMemory (api : String) : Bool := api = "cudaMalloc" || api = "cudaFree"

def duration (t t0 : ℕ) : Option ℕ := if t0 = 0 then none else some (t - t0)

/-- The steps of `callbackHandler`, at the entry and at the exit of a call. -/
def callbackHandler (s : Tracer) (i : ℕ) (call : Call) : Option Tracer :=
  match call.stage with
  | .entered t => some
      { s.moveTo i call (.stored t) with
        gCorrStartNs := Function.update s.gCorrStartNs call.corr (some t) }
  | .stored t =>
    some ((s.outPrintf (some i) (.enter call.api call.corr t)).moveTo i call (.running t))
  | .running t => some (s.moveTo i call (.leaving t s.now))
  | .leaving t t' => some
      { s.moveTo i call (.taken t t' ((s.gCorrStartNs call.corr).getD 0)) with
        gCorrStartNs := Function.update s.gCorrStartNs call.corr none }
  | .taken t t' t0 =>
    if logsMemory call.api then none
    else some ((s.outPrintf (some i) (.exit call.api call.corr t' (duration t' t0))).moveTo i call
      (.left t t'))
  | .asking .. => none
  | .logged t t' t0 => some
      ((s.outPrintf (some i) (.exit call.api call.corr t' (duration t' t0))).moveTo i call
        (.left t t'))
  | .left .. => none

/-- The tracer calls cudaMemGetInfo, and CUPTI calls the tracer back. -/
def askMemory (s : Tracer) (i : ℕ) (call : Call) : Option Tracer :=
  match call.stage with
  | .taken t t' t0 =>
    if logsMemory call.api then
      let s := s.moveTo i call (.asking t t' t0 s.calls.length)
      some { s with calls := s.calls ++ [⟨"cudaMemGetInfo", call.corr, .entered s.now⟩] }
    else none
  | _ => none

def isLeft (s : Tracer) (i : ℕ) : Bool :=
  match s.calls[i]? with
  | some ⟨_, _, .left ..⟩ => true
  | _ => false

/-- The rest of `log_meminfo`, which is given the free and the total memory or nothing; the
query had its callbacks, or CUPTI made none. -/
def logMeminfo (s : Tracer) (i : ℕ) (call : Call) (memory : Option (UInt64 × UInt64)) :
    Option Tracer :=
  let report (t t' t0 : ℕ) : Tracer :=
    (memory.elim s fun (freeB, totalB) =>
      s.outPrintf none (.meminfo (call.api ++ "_exit") t' freeB totalB)).moveTo i call
        (.logged t t' t0)
  match call.stage with
  | .taken t t' t0 => if logsMemory call.api then some (report t t' t0) else none
  | .asking t t' t0 query => if isLeft s query then some (report t t' t0) else none
  | _ => none

/-- Time passes, a thread calls the runtime, a call goes on, or a record is printed. -/
inductive Action
  | wait (ns : ℕ)
  | enter (functionName : Option String) (correlationId : UInt32)
  | callback (i : ℕ)
  | ask (i : ℕ)
  | log (i : ℕ) (memory : Option (UInt64 × UInt64))
  | activity (record : Activity)

/-- CUPTI gives every call of the program a correlation id of its own. -/
def step (s : Tracer) : Action → Option Tracer
  | .wait ns => some { s with now := s.now + ns }
  | .enter functionName correlationId =>
    if ∀ call ∈ s.calls, call.corr ≠ correlationId then
      let call := ⟨functionName.getD "(unknown)", correlationId, .entered s.now⟩
      some { s with calls := s.calls ++ [call] }
    else none
  | .callback i => s.calls[i]?.bind (callbackHandler s i)
  | .ask i => s.calls[i]?.bind (askMemory s i)
  | .log i memory => s.calls[i]?.bind fun call => logMeminfo s i call memory
  | .activity record =>
    some { s with out := s.out ++ tagged none (printActivity record) }

namespace Call

/-- The call has its correlation id to itself, up to its exit. -/
def pending (call : Call) : Bool :=
  match call.stage with
  | .entered _ | .stored _ | .running _ | .leaving .. => true
  | _ => false

/-- The time that the map has of the call. -/
def held (call : Call) : Option ℕ :=
  match call.stage with
  | .stored t | .running t | .leaving t _ => some t
  | _ => none

/-- The lines that the call has printed, each with its own times. -/
def lines (call : Call) : List Line :=
  match call.stage with
  | .entered _ | .stored _ => []
  | .running t | .leaving t _ | .taken t .. | .asking t .. | .logged t .. =>
    [.enter call.api call.corr t]
  | .left t t' => [.enter call.api call.corr t, .exit call.api call.corr t' (duration t' t)]

/-- The tracer has made its own call in it, or could not do it any more. -/
def asked (call : Call) : Bool :=
  match call.stage with
  | .asking .. | .logged .. | .left .. => true
  | _ => false

/-- The times are in order, and what was found in the map is the time of entry. -/
def Timely (now : ℕ) (call : Call) : Prop :=
  match call.stage with
  | .entered t | .stored t | .running t => t ≤ now
  | .leaving t t' | .left t t' => t ≤ t' ∧ t' ≤ now
  | .taken t t' t0 | .asking t t' t0 _ | .logged t t' t0 => t0 = t ∧ t ≤ t' ∧ t' ≤ now

end Call

/-- The lines that are recorded with the number of a call. -/
def linesOf (i : ℕ) (out : List (Option ℕ × Line)) : List Line :=
  (out.filter fun entry => entry.1 = some i).map Prod.snd

structure Consistent (s : Tracer) : Prop where
  lines : ∀ (i : ℕ) (call : Call), s.calls[i]? = some call → linesOf i s.out = call.lines
  owners : ∀ (i : ℕ) (line : Line), (some i, line) ∈ s.out → i < s.calls.length
  untagged : ∀ line, (none, line) ∈ s.out → line.call = none
  held : ∀ (i : ℕ) (call : Call), s.calls[i]? = some call → call.pending = true →
    s.gCorrStartNs call.corr = call.held
  free : ∀ corr, (∀ (i : ℕ) (call : Call), s.calls[i]? = some call → call.corr = corr →
    call.pending = false) → s.gCorrStartNs corr = none
  timely : ∀ (i : ℕ) (call : Call), s.calls[i]? = some call → call.Timely s.now
  family : ∀ (i j : ℕ) (a b : Call), s.calls[i]? = some a → s.calls[j]? = some b → i < j →
    a.corr = b.corr → a.asked = true ∧ logsMemory a.api = true ∧ b.api = "cudaMemGetInfo"

theorem linesOf_append (i : ℕ) (out out' : List (Option ℕ × Line)) :
    linesOf i (out ++ out') = linesOf i out ++ linesOf i out' := by
  rw [linesOf, List.filter_append, List.map_append, linesOf, linesOf]

theorem linesOf_eq_nil {i : ℕ} {out : List (Option ℕ × Line)}
    (h : ∀ line, (some i, line) ∉ out) : linesOf i out = [] := by
  rw [linesOf, List.map_eq_nil_iff, List.filter_eq_nil_iff]
  intro ⟨owner, line⟩ hmem howner
  apply h line
  rw [← of_decide_eq_true howner]
  exact hmem

theorem consistent_init : Consistent init where
  lines i call hi := by simp [init] at hi
  owners i line hmem := by simp [init] at hmem
  untagged line hmem := by
    rw [(Prod.mk.inj (List.mem_singleton.mp hmem)).2]
    rfl
  held i call hi := by simp [init] at hi
  free corr _ := rfl
  timely i call hi := by simp [init] at hi
  family i j a b hi := by simp [init] at hi

section

variable {s s' : Tracer} {i : ℕ} {call : Call}

theorem Call.Timely.mono {now now' : ℕ} (h : call.Timely now) (hle : now ≤ now') :
    call.Timely now' := by
  unfold Call.Timely at h ⊢
  cases hstage : call.stage <;> rw [hstage] at h <;> dsimp only at h ⊢ <;> omega

theorem Call.pending_of_held {t : ℕ} (h : call.held = some t) : call.pending = true := by
  unfold Call.held at h
  unfold Call.pending
  cases hstage : call.stage <;> rw [hstage] at h <;> first | rfl | cases h

theorem Call.not_asked_of_pending (h : call.pending = true) : call.asked = false := by
  unfold Call.pending at h
  unfold Call.asked
  cases hstage : call.stage <;> rw [hstage] at h <;> first | rfl | cases h

/-- No two calls have one correlation id to themselves. -/
theorem Consistent.alone (hs : Consistent s) {j : ℕ} {other : Call} (hi : s.calls[i]? = some call)
    (hj : s.calls[j]? = some other) (hcorr : call.corr = other.corr)
    (hpending : call.pending = true) (hother : other.pending = true) : i = j := by
  rcases Nat.lt_trichotomy i j with hlt | heq | hgt
  · have hasked := (hs.family i j call other hi hj hlt hcorr).1
    rw [Call.not_asked_of_pending hpending] at hasked
    cases hasked
  · exact heq
  · have hasked := (hs.family j i other call hj hi hgt hcorr.symm).1
    rw [Call.not_asked_of_pending hother] at hasked
    cases hasked

/-- What a step does to one call. -/
structure Moves (s s' : Tracer) (i : ℕ) (call next : Call) : Prop where
  calls : s'.calls = s.calls.set i next
  now : s'.now = s.now
  api : next.api = call.api
  corr : next.corr = call.corr
  out : ∃ printed : List Line, s'.out = s.out ++ tagged (some i) printed ∧
    next.lines = call.lines ++ printed
  map : ∀ corr, s'.gCorrStartNs corr =
    if call.pending = true ∧ corr = call.corr then next.held else s.gCorrStartNs corr
  pending : next.pending = true → call.pending = true
  asked : call.asked = true → next.asked = true
  timely : next.Timely s.now

theorem getElem?_set_of_some {next : Call} (hi : s.calls[i]? = some call) (j : ℕ) :
    (s.calls.set i next)[j]? = if j = i then some next else s.calls[j]? := by
  have hlt : i < s.calls.length := (List.getElem?_eq_some_iff.mp hi).1
  rw [List.getElem?_set]
  by_cases hji : j = i
  · rw [if_pos hji.symm, if_pos hji, if_pos hlt]
  · rw [if_neg (Ne.symm hji), if_neg hji]

theorem linesOf_own (i : ℕ) (printed : List Line) :
    linesOf i (tagged (some i) printed) = printed := by
  unfold linesOf tagged
  rw [List.filter_eq_self.mpr (by simp), List.map_map]
  exact List.map_id printed

theorem linesOf_others {j : ℕ} {owner : Option ℕ} (hne : owner ≠ some j) (printed : List Line) :
    linesOf j (tagged owner printed) = [] := by
  apply linesOf_eq_nil
  intro line hmem
  obtain ⟨_, _, heq⟩ := List.mem_map.mp hmem
  exact hne (Prod.mk.inj heq).1

theorem Moves.consistent {next : Call} (h : Moves s s' i call next) (hs : Consistent s)
    (hi : s.calls[i]? = some call) : Consistent s' := by
  obtain ⟨printed, hout, hlines⟩ := h.out
  have hcalls : ∀ j, s'.calls[j]? = if j = i then some next else s.calls[j]? := by
    intro j
    rw [h.calls, getElem?_set_of_some hi]
  -- A call of the new state is the moved one or one of the old state.
  have hcases : ∀ j other, s'.calls[j]? = some other →
      j = i ∧ other = next ∨ j ≠ i ∧ s.calls[j]? = some other := by
    intro j other hj
    rw [hcalls] at hj
    by_cases hji : j = i
    · rw [if_pos hji] at hj
      exact .inl ⟨hji, (Option.some.inj hj).symm⟩
    · rw [if_neg hji] at hj
      exact .inr ⟨hji, hj⟩
  refine ⟨?_, ?_, ?_, ?_, ?_, ?_, ?_⟩
  · intro j other hj
    rw [hout, linesOf_append]
    rcases hcases j other hj with ⟨rfl, rfl⟩ | ⟨hji, hj⟩
    · rw [hs.lines j call hi, linesOf_own, hlines]
    · have hne : some i ≠ some j := fun heq => hji (Option.some.inj heq).symm
      rw [hs.lines j other hj, linesOf_others hne, List.append_nil]
  · intro j line hmem
    rw [h.calls, List.length_set]
    rw [hout, List.mem_append] at hmem
    rcases hmem with hmem | hmem
    · exact hs.owners j line hmem
    · obtain ⟨_, _, heq⟩ := List.mem_map.mp hmem
      rw [← Option.some.inj (Prod.mk.inj heq).1]
      exact (List.getElem?_eq_some_iff.mp hi).1
  · intro line hmem
    rw [hout, List.mem_append] at hmem
    rcases hmem with hmem | hmem
    · exact hs.untagged line hmem
    · obtain ⟨_, _, heq⟩ := List.mem_map.mp hmem
      cases (Prod.mk.inj heq).1
  · intro j other hj hpending
    rw [h.map]
    rcases hcases j other hj with ⟨rfl, rfl⟩ | ⟨hji, hj⟩
    · rw [if_pos ⟨h.pending hpending, h.corr⟩]
    · rw [if_neg ?_]
      · exact hs.held j other hj hpending
      · intro ⟨hcall, hcorr⟩
        exact hji (hs.alone hj hi hcorr hpending hcall)
  · intro corr hfree
    rw [h.map]
    split
    · rename_i hcall
      have hnext := hfree i next (by rw [hcalls, if_pos rfl]) (h.corr.trans hcall.2.symm)
      cases hheld : next.held with
      | none => rfl
      | some t =>
        rw [Call.pending_of_held hheld] at hnext
        cases hnext
    · rename_i hcall
      apply hs.free
      intro j other hj hcorr
      by_cases hji : j = i
      · rw [hji, hi] at hj
        cases hj
        rw [← Bool.not_eq_true]
        exact fun hpending => hcall ⟨hpending, hcorr.symm⟩
      · exact hfree j other (by rw [hcalls, if_neg hji, hj]) hcorr
  · intro j other hj
    rw [h.now]
    rcases hcases j other hj with ⟨rfl, rfl⟩ | ⟨hji, hj⟩
    · exact h.timely
    · exact hs.timely j other hj
  · intro j k a b hj hk hlt hcorr
    rcases hcases j a hj with ⟨rfl, rfl⟩ | ⟨hji, hj⟩
    · rcases hcases k b hk with ⟨rfl, rfl⟩ | ⟨hki, hk⟩
      · omega
      · have hfamily := hs.family j k call b hi hk hlt (h.corr.symm.trans hcorr)
        rw [h.api]
        exact ⟨h.asked hfamily.1, hfamily.2⟩
    · rcases hcases k b hk with ⟨rfl, rfl⟩ | ⟨hki, hk⟩
      · rw [h.api]
        exact hs.family j k a call hj hi hlt (hcorr.trans h.corr)
      · exact hs.family j k a b hj hk hlt hcorr

/-- A new call has its correlation id to itself, or is the tracer's own. -/
theorem Consistent.enter (hs : Consistent s) {api : String} {corr : UInt32}
    (hnew : ∀ (j : ℕ) (other : Call), s.calls[j]? = some other → other.corr = corr →
      other.asked = true ∧ logsMemory other.api = true ∧ api = "cudaMemGetInfo") :
    Consistent { s with calls := s.calls ++ [⟨api, corr, .entered s.now⟩] } := by
  have hcases : ∀ j other, (s.calls ++ [⟨api, corr, .entered s.now⟩])[j]? = some other →
      j < s.calls.length ∧ s.calls[j]? = some other ∨
        j = s.calls.length ∧ other = ⟨api, corr, .entered s.now⟩ := by
    intro j other hj
    rcases Nat.lt_trichotomy j s.calls.length with hlt | heq | hgt
    · rw [List.getElem?_append_left hlt] at hj
      exact .inl ⟨hlt, hj⟩
    · rw [heq, List.getElem?_concat_length] at hj
      exact .inr ⟨heq, (Option.some.inj hj).symm⟩
    · rw [List.getElem?_eq_none (by rw [List.length_append, List.length_singleton]; omega)] at hj
      cases hj
  have hidle : ∀ (j : ℕ) (other : Call), s.calls[j]? = some other → other.corr = corr →
      other.pending = false := by
    intro j other hj hcorr
    have hasked := (hnew j other hj hcorr).1
    rw [← Bool.not_eq_true]
    intro hpending
    rw [Call.not_asked_of_pending hpending] at hasked
    cases hasked
  refine ⟨?_, ?_, hs.untagged, ?_, ?_, ?_, ?_⟩
  · intro j other hj
    rcases hcases j other hj with ⟨_, hj⟩ | ⟨rfl, rfl⟩
    · exact hs.lines j other hj
    · apply linesOf_eq_nil
      intro line hmem
      exact Nat.lt_irrefl _ (hs.owners _ line hmem)
  · intro j line hmem
    have hlt := hs.owners j line hmem
    rw [List.length_append, List.length_singleton]
    omega
  · intro j other hj hpending
    rcases hcases j other hj with ⟨_, hj⟩ | ⟨rfl, rfl⟩
    · exact hs.held j other hj hpending
    · exact hs.free corr hidle
  · intro corr' hfree
    apply hs.free
    intro j other hj hcorr
    apply hfree j other _ hcorr
    dsimp only
    rw [List.getElem?_append_left (List.getElem?_eq_some_iff.mp hj).1, hj]
  · intro j other hj
    rcases hcases j other hj with ⟨_, hj⟩ | ⟨rfl, rfl⟩
    · exact hs.timely j other hj
    · exact Nat.le_refl s.now
  · intro j k a b hj hk hlt hcorr
    rcases hcases k b hk with ⟨hklt, hk⟩ | ⟨rfl, rfl⟩
    · rcases hcases j a hj with ⟨_, hj⟩ | ⟨rfl, _⟩
      · exact hs.family j k a b hj hk hlt hcorr
      · omega
    · rcases hcases j a hj with ⟨_, hj⟩ | ⟨rfl, _⟩
      · exact hnew j a hj hcorr
      · omega

/-- The map keeps what it has where a step does not change what it has of the call. -/
theorem Consistent.map_same (hs : Consistent s) (hi : s.calls[i]? = some call) {next : Call}
    (hheld : call.pending = true → next.held = call.held) (corr : UInt32) :
    s.gCorrStartNs corr =
      if call.pending = true ∧ corr = call.corr then next.held else s.gCorrStartNs corr := by
  split
  · rename_i hcall
    rw [hcall.2, hs.held i call hi hcall.1, hheld hcall.1]
  · rfl

theorem map_update (s : Tracer) (next : Call) (hpending : call.pending = true) (corr : UInt32) :
    Function.update s.gCorrStartNs call.corr next.held corr =
      if call.pending = true ∧ corr = call.corr then next.held else s.gCorrStartNs corr := by
  rw [Function.update_apply]
  exact if_congr (and_iff_right hpending).symm rfl rfl

/-- A step that prints nothing. -/
theorem Moves.silent {stage : Stage} {map : UInt32 → Option ℕ}
    (hlines : { call with stage := stage : Call }.lines = call.lines)
    (hmap : ∀ corr, map corr = if call.pending = true ∧ corr = call.corr then
      { call with stage := stage : Call }.held else s.gCorrStartNs corr)
    (hpending : { call with stage := stage : Call }.pending = true → call.pending = true)
    (hasked : call.asked = true → { call with stage := stage : Call }.asked = true)
    (htimely : { call with stage := stage : Call }.Timely s.now) :
    Moves s { s.moveTo i call stage with gCorrStartNs := map } i call
      { call with stage := stage } where
  calls := rfl
  now := rfl
  api := rfl
  corr := rfl
  out := ⟨[], (List.append_nil _).symm, hlines.trans (List.append_nil _).symm⟩
  map := hmap
  pending := hpending
  asked := hasked
  timely := htimely

/-- A step that prints a line and leaves the map as it is. -/
theorem Moves.prints (hs : Consistent s) (hi : s.calls[i]? = some call) {stage : Stage}
    {line : Line} (hlines : { call with stage := stage : Call }.lines = call.lines ++ [line])
    (hheld : call.pending = true → { call with stage := stage : Call }.held = call.held)
    (hpending : { call with stage := stage : Call }.pending = true → call.pending = true)
    (hasked : call.asked = true → { call with stage := stage : Call }.asked = true)
    (htimely : { call with stage := stage : Call }.Timely s.now) :
    Moves s ((s.outPrintf (some i) line).moveTo i call stage) i call
      { call with stage := stage } where
  calls := rfl
  now := rfl
  api := rfl
  corr := rfl
  out := ⟨[line], rfl, hlines⟩
  map := hs.map_same hi hheld
  pending := hpending
  asked := hasked
  timely := htimely

theorem callbackHandler_moves (hs : Consistent s) (hi : s.calls[i]? = some call)
    (hstep : callbackHandler s i call = some s') : ∃ next, Moves s s' i call next := by
  have htimely := hs.timely i call hi
  obtain ⟨api, corr, stage⟩ := call
  have hno : ∀ {P : Prop}, false = true → P := fun h => absurd h Bool.false_ne_true
  cases stage with
  | entered t =>
    rw [← Option.some.inj hstep]
    exact ⟨_, .silent rfl (map_update s ⟨api, corr, .stored t⟩ rfl) (fun _ => rfl) hno htimely⟩
  | stored t =>
    rw [← Option.some.inj hstep]
    exact ⟨_, .prints hs hi rfl (fun _ => rfl) (fun _ => rfl) hno htimely⟩
  | running t =>
    rw [← Option.some.inj hstep]
    exact ⟨_, .silent rfl (hs.map_same hi fun _ => rfl) (fun _ => rfl) hno
      ⟨htimely, Nat.le_refl s.now⟩⟩
  | leaving t t' =>
    rw [← Option.some.inj hstep]
    have hfound : (s.gCorrStartNs corr).getD 0 = t := by
      rw [hs.held i _ hi rfl]
      rfl
    exact ⟨_, .silent rfl (map_update s ⟨api, corr, .taken t t' _⟩ rfl) (fun _ => rfl) hno
      ⟨hfound, htimely⟩⟩
  | taken t t' t0 =>
    obtain ⟨rfl, htimes⟩ := htimely
    unfold callbackHandler at hstep
    dsimp only at hstep
    split at hstep
    · cases hstep
    · rw [← Option.some.inj hstep]
      exact ⟨_, .prints hs hi rfl hno hno (fun _ => rfl) htimes⟩
  | asking t t' t0 query => cases hstep
  | logged t t' t0 =>
    obtain ⟨rfl, htimes⟩ := htimely
    rw [← Option.some.inj hstep]
    exact ⟨_, .prints hs hi rfl hno hno (fun _ => rfl) htimes⟩
  | left t t' => cases hstep

/-- Only the call in which it is made, at its exit, has the id of the tracer's own call. -/
theorem askMemory_consistent (hs : Consistent s) (hi : s.calls[i]? = some call)
    (hstep : askMemory s i call = some s') : Consistent s' := by
  have htimely := hs.timely i call hi
  obtain ⟨api, corr, stage⟩ := call
  have hno : ∀ {P : Prop}, false = true → P := fun h => absurd h Bool.false_ne_true
  unfold askMemory at hstep
  cases stage with
  | taken t t' t0 =>
    dsimp only at hstep
    split at hstep
    · rename_i hlogs
      have hmoves : Moves s (s.moveTo i ⟨api, corr, .taken t t' t0⟩
        (.asking t t' t0 s.calls.length))
          i ⟨api, corr, .taken t t' t0⟩ ⟨api, corr, .asking t t' t0 s.calls.length⟩ :=
        .silent rfl (hs.map_same hi hno) hno hno htimely
      rw [← Option.some.inj hstep]
      apply (hmoves.consistent hs hi).enter
      intro j other hj hcorr
      rw [hmoves.calls, getElem?_set_of_some hi] at hj
      by_cases hji : j = i
      · rw [if_pos hji] at hj
        cases hj
        exact ⟨rfl, hlogs, rfl⟩
      · rw [if_neg hji] at hj
        rcases Nat.lt_or_gt_of_ne hji with hlt | hgt
        · -- The call that is left would be the tracer's own, which logs no memory.
          have hown := (hs.family j i other _ hj hi hlt hcorr).2.2
          dsimp only at hown
          rw [hown] at hlogs
          cases hlogs
        · have hasked := (hs.family i j _ other hi hj hgt hcorr.symm).1
          cases hasked
    · cases hstep
  | entered t => cases hstep
  | stored t => cases hstep
  | running t => cases hstep
  | leaving t t' => cases hstep
  | asking t t' t0 query => cases hstep
  | logged t t' t0 => cases hstep
  | left t t' => cases hstep

theorem Consistent.append_untagged (hs : Consistent s) {printed : List Line}
    (hprinted : ∀ line ∈ printed, line.call = none) :
    Consistent { s with out := s.out ++ tagged none printed } := by
  refine { hs with lines := ?_, owners := ?_, untagged := ?_ }
  · intro j other hj
    rw [linesOf_append, linesOf_others (by simp), List.append_nil]
    exact hs.lines j other hj
  · intro j line hmem
    rcases List.mem_append.mp hmem with hmem | hmem
    · exact hs.owners j line hmem
    · obtain ⟨_, _, heq⟩ := List.mem_map.mp hmem
      cases (Prod.mk.inj heq).1
  · intro line hmem
    rcases List.mem_append.mp hmem with hmem | hmem
    · exact hs.untagged line hmem
    · obtain ⟨_, hline, heq⟩ := List.mem_map.mp hmem
      rw [← (Prod.mk.inj heq).2]
      exact hprinted _ hline

theorem logMeminfo_consistent (hs : Consistent s) (hi : s.calls[i]? = some call)
    {memory : Option (UInt64 × UInt64)} (hstep : logMeminfo s i call memory = some s') :
    Consistent s' := by
  have htimely := hs.timely i call hi
  obtain ⟨api, corr, stage⟩ := call
  have hno : ∀ {P : Prop}, false = true → P := fun h => absurd h Bool.false_ne_true
  -- With or without its line, the report moves the call on.
  have hreport : ∀ {t t' t0 : ℕ} {stage : Stage}, s.calls[i]? = some ⟨api, corr, stage⟩ →
      (⟨api, corr, stage⟩ : Call).lines = [.enter api corr t] →
      (⟨api, corr, stage⟩ : Call).pending = false → t0 = t ∧ t ≤ t' ∧ t' ≤ s.now →
      Consistent ((memory.elim s fun (freeB, totalB) =>
        s.outPrintf none (.meminfo (api ++ "_exit") t' freeB totalB)).moveTo i ⟨api, corr, stage⟩
          (.logged t t' t0)) := by
    intro t t' t0 stage hi hlines hpending htimes
    have hmoved : ∀ {s : Tracer}, Consistent s → s.calls[i]? = some ⟨api, corr, stage⟩ →
        t' ≤ s.now → Consistent (s.moveTo i ⟨api, corr, stage⟩ (.logged t t' t0)) := by
      intro s hs hi hnow
      have hheld : (⟨api, corr, stage⟩ : Call).pending = true →
          (⟨api, corr, .logged t t' t0⟩ : Call).held = (⟨api, corr, stage⟩ : Call).held :=
        fun h => hno (hpending ▸ h)
      have hmoves : Moves s (s.moveTo i ⟨api, corr, stage⟩ (.logged t t' t0)) i ⟨api, corr, stage⟩
          ⟨api, corr, .logged t t' t0⟩ :=
        .silent hlines.symm (hs.map_same hi hheld) hno (fun _ => rfl) ⟨htimes.1, htimes.2.1, hnow⟩
      exact hmoves.consistent hs hi
    cases memory with
    | none => exact hmoved hs hi htimes.2.2
    | some memory =>
      exact hmoved (hs.append_untagged (List.forall_mem_singleton.mpr rfl)) hi htimes.2.2
  unfold logMeminfo at hstep
  cases stage with
  | taken t t' t0 =>
    dsimp only at hstep
    split at hstep
    · rw [← Option.some.inj hstep]
      exact hreport hi rfl rfl htimely
    · cases hstep
  | asking t t' t0 query =>
    dsimp only at hstep
    split at hstep
    · rw [← Option.some.inj hstep]
      exact hreport hi rfl rfl htimely
    · cases hstep
  | entered t => cases hstep
  | stored t => cases hstep
  | running t => cases hstep
  | leaving t t' => cases hstep
  | logged t t' t0 => cases hstep
  | left t t' => cases hstep

end

theorem step_consistent {s s' : Tracer} {a : Action} (hs : Consistent s)
    (hstep : step s a = some s') :
    Consistent s' := by
  cases a with
  | wait ns =>
    cases hstep
    exact { hs with timely := fun i call hi => (hs.timely i call hi).mono (Nat.le_add_right ..) }
  | enter functionName correlationId =>
    unfold step at hstep
    dsimp only at hstep
    split at hstep
    · rename_i hnew
      cases hstep
      apply hs.enter
      intro j other hj hcorr
      exact absurd hcorr (hnew other (List.mem_of_getElem? hj))
    · cases hstep
  | callback i =>
    obtain ⟨call, hi, hcall⟩ := Option.bind_eq_some_iff.mp hstep
    obtain ⟨next, hmoves⟩ := callbackHandler_moves hs hi hcall
    exact hmoves.consistent hs hi
  | ask i =>
    obtain ⟨call, hi, hcall⟩ := Option.bind_eq_some_iff.mp hstep
    exact askMemory_consistent hs hi hcall
  | log i memory =>
    obtain ⟨call, hi, hcall⟩ := Option.bind_eq_some_iff.mp hstep
    exact logMeminfo_consistent hs hi hcall
  | activity record =>
    cases hstep
    apply hs.append_untagged
    intro line hline
    cases record with
    | memcpy m =>
      rw [List.mem_singleton.mp hline]
      rfl
    | kernel k =>
      rw [List.mem_singleton.mp hline]
      rfl
    | other => cases hline

theorem run_consistent {as : List Action} {s : Tracer} (hrun : run step init as = some s) :
    Consistent s :=
  run_keeps (fun _ _ _ h hstep => step_consistent h hstep) consistent_init hrun

theorem Consistent.map_iff {s : Tracer} (hs : Consistent s) (corr : UInt32) (t : ℕ) :
    s.gCorrStartNs corr = some t ↔ ∃ call ∈ s.calls, call.corr = corr ∧ call.held = some t := by
  constructor
  · intro hmap
    by_contra hnone
    have hfree := hs.free corr ?_
    · rw [hfree] at hmap
      cases hmap
    · intro i call hi hcorr
      rw [← Bool.not_eq_true]
      intro hpending
      apply hnone
      refine ⟨call, List.mem_of_getElem? hi, hcorr, ?_⟩
      rw [← hs.held i call hi hpending, hcorr, hmap]
  · intro ⟨call, hmem, hcorr, hheld⟩
    obtain ⟨i, hi⟩ := List.mem_iff_getElem?.mp hmem
    rw [← hcorr, hs.held i call hi (Call.pending_of_held hheld), hheld]

/-- The lines of the trace, as a reader finds them. -/
def trace (s : Tracer) : List Line := s.out.map Prod.snd

def Call.key (call : Call) : UInt32 × String := (call.corr, call.api)

theorem Call.call_of_mem_lines {call : Call} {line : Line} (h : line ∈ call.lines) :
    line.call = some call.key := by
  unfold Call.lines at h
  cases hstage : call.stage <;> rw [hstage] at h <;> simp at h
  case left t t' => rcases h with rfl | rfl <;> rfl
  all_goals
    rw [h]
    rfl

/-- A call of the tracer has another name than the call it shares its id with. -/
theorem Consistent.key_injective {s : Tracer} (hs : Consistent s) {i j : ℕ} {a b : Call}
    (hi : s.calls[i]? = some a) (hj : s.calls[j]? = some b) (hkey : a.key = b.key) : i = j := by
  obtain ⟨hcorr, hapi⟩ := Prod.mk.inj hkey
  rcases Nat.lt_trichotomy i j with hlt | heq | hgt
  · obtain ⟨-, hlogs, hown⟩ := hs.family i j a b hi hj hlt hcorr
    rw [hapi, hown] at hlogs
    cases hlogs
  · exact heq
  · obtain ⟨-, hlogs, hown⟩ := hs.family j i b a hj hi hgt hcorr.symm
    rw [← hapi, hown] at hlogs
    cases hlogs

/-- A line of a callback has been printed by a call, about itself. -/
theorem Consistent.call_of_mem {s : Tracer} (hs : Consistent s) {j : ℕ} {line : Line}
    (hmem : (some j, line) ∈ s.out) :
    ∃ call, s.calls[j]? = some call ∧ line ∈ call.lines := by
  have hj := List.getElem?_eq_getElem (hs.owners j line hmem)
  refine ⟨_, hj, ?_⟩
  rw [← hs.lines j _ hj]
  exact List.mem_map.mpr ⟨(some j, line), List.mem_filter.mpr ⟨hmem, by simp⟩, rfl⟩

/-- The ids and the names in the lines tell of them what the numbers of the calls tell. -/
theorem Consistent.filter_trace {s : Tracer} (hs : Consistent s) {i : ℕ} {call : Call}
    (hi : s.calls[i]? = some call) :
    (trace s).filter (fun line => line.call = some call.key) = call.lines := by
  rw [← hs.lines i call hi, trace, List.filter_map, linesOf]
  congr 1
  apply List.filter_congr
  intro ⟨owner, line⟩ hmem
  have hkey : line.call = some call.key ↔ owner = some i := by
    cases owner with
    | none => simp [hs.untagged line hmem]
    | some j =>
      obtain ⟨other, hj, hline⟩ := hs.call_of_mem hmem
      rw [Call.call_of_mem_lines hline, Option.some.injEq, Option.some.injEq]
      constructor
      · exact hs.key_injective hj hi
      · intro heq
        rw [heq, hi] at hj
        rw [Option.some.inj hj]
  exact decide_eq_decide.mpr hkey

/-- In every run of the tracer, whatever the threads do and in whatever order: the lines of
the trace with the id and the name of a call are its own, the one of its exit behind the one
of its entry and with its own duration, also where its exit has called the runtime again
under its id; no other lines are about a call; and the map has the times of entry of the
calls between their two callbacks and nothing else. -/
theorem calls_report_themselves (as : List Action) (s : Tracer) (hrun : run step init as = some s) :
    (∀ call ∈ s.calls, (trace s).filter (fun line => line.call = some call.key) = call.lines ∧
      call.Timely s.now) ∧
    (∀ line ∈ trace s, ∀ key, line.call = some key → ∃ call ∈ s.calls, call.key = key) ∧
    ∀ corr t, s.gCorrStartNs corr = some t ↔
      ∃ call ∈ s.calls, call.corr = corr ∧ call.held = some t := by
  have hs := run_consistent hrun
  refine ⟨?_, ?_, hs.map_iff⟩
  · intro call hcall
    obtain ⟨i, hi⟩ := List.mem_iff_getElem?.mp hcall
    exact ⟨hs.filter_trace hi, hs.timely i call hi⟩
  · intro line hline key hkey
    obtain ⟨⟨owner, _⟩, hmem, rfl⟩ := List.mem_map.mp hline
    cases owner with
    | none =>
      rw [hs.untagged _ hmem] at hkey
      cases hkey
    | some j =>
      obtain ⟨call, hj, hown⟩ := hs.call_of_mem hmem
      rw [Call.call_of_mem_lines hown] at hkey
      exact ⟨call, List.mem_of_getElem? hj, Option.some.inj hkey⟩

/-- A call of cudaMalloc whose exit asks for the memory, while another thread copies. -/
def twoThreads : List Action :=
  [.wait 100, .enter (some "cudaMalloc") 9, .callback 0, .callback 0, .wait 5,
    .enter (some "cudaMemcpy") 10, .callback 0, .callback 1, .callback 0, .ask 0, .callback 2,
    .callback 2, .wait 7, .callback 1, .callback 2, .callback 1, .callback 2, .callback 2,
    .log 0 (some (5430, 5747)), .callback 1, .callback 0, .callback 1]

theorem calls_report_themselves_twoThreads : ∃ s, run step init twoThreads = some s ∧
    (∀ call ∈ s.calls, (trace s).filter (fun line => line.call = some call.key) = call.lines ∧
      call.Timely s.now) ∧
    (∀ line ∈ trace s, ∀ key, line.call = some key → ∃ call ∈ s.calls, call.key = key) ∧
    ∀ corr t, s.gCorrStartNs corr = some t ↔
      ∃ call ∈ s.calls, call.corr = corr ∧ call.held = some t := by
  have hsome : (run step init twoThreads).isSome := by decide +kernel
  obtain ⟨s, hrun⟩ := Option.isSome_iff_exists.mp hsome
  exact ⟨s, hrun, calls_report_themselves twoThreads s hrun⟩

end HpcProfiler.TracerCallbacks
