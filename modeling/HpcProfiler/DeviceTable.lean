import HpcProfiler.StepSystem
import HpcProfiler.TracerCallbacks
import HpcProfiler.WordMixing

/-!
The table of device memory of the timeline tracer. The exit of cudaMalloc enters the
pointer that was returned, the exit of cudaFree takes it out, and the entry of a copy looks
both of its ends up. The callbacks of all threads run in any order, and none looks at what its call
has returned. The table agrees with the device as long as these calls succeed, no other
function allocates or frees, and no pointer is given out again before the call that freed it
has left its callback.
-/

namespace HpcProfiler.DeviceTable

open StepSystem WordMixing
open TracerCallbacks (CopyKind)

abbrev Ptr := BitVec 64

/-- The mixed bits of a pointer. -/
def ptrId (p : Ptr) : BitVec 64 :=
  let x := p ^^^ 0x9e3779b97f4a7c15#64
  let x := (x ^^^ x >>> 30) * 0xbf58476d1ce4e5b9#64
  let x := (x ^^^ x >>> 27) * 0x94d049bb133111eb#64
  x ^^^ x >>> 31

/-- A call of the runtime with its parameters. Those of a copy are the first words that any
function has whose name begins like that of cudaMemcpy. -/
inductive Api
  | malloc (size : UInt64)
  | free (devPtr : Ptr)
  | memcpy (functionName : String) (dst src : Ptr) (count : UInt64) (kind : CopyKind)
  | other (functionName : String)
  deriving DecidableEq

inductive Line
  | enter (functionName : String)
  | enterFree (dev : BitVec 64) (known : Option UInt64)
  | enterMemcpy (functionName : String) (dst src : BitVec 64) (count : UInt64) (kind : CopyKind)
      (dstIsDev srcIsDev : Bool)
  | exit (functionName : String)
  | exitMalloc (dev : BitVec 64) (size : UInt64)
  | exitFree (dev : BitVec 64)

/-- What the runtime makes of a call. An allocation leaves a pointer in the variable of the
program, also where it fails; what a function of another kind has allocated and freed is all
that is live behind it. -/
inductive Answer
  | done (p : Ptr)
  | failed (p : Ptr)
  | elsewhere (live : Ptr → Option UInt64)

/-- Where a call stands: at its entry, behind the first lookup of a copy, in the runtime,
back from it with a pointer, behind the change of the table, and left. -/
inductive Stage
  | entered
  | looked (dstIsDev : Bool)
  | running
  | returned (p : Ptr)
  | updated (p : Ptr)
  | left
  deriving DecidableEq

structure Call where
  api : Api
  stage : Stage
  deriving DecidableEq

/-- What the device has allocated, the table, and the calls of all threads. -/
structure Device where
  live : Ptr → Option UInt64
  gDevAllocs : BitVec 64 → Option UInt64
  calls : List Call
  out : List Line

def init : Device := ⟨fun _ => none, fun _ => none, [], []⟩

namespace Device

def moveTo (s : Device) (i : ℕ) (call : Call) (stage : Stage) : Device :=
  { s with calls := s.calls.set i { call with stage := stage } }

def print (s : Device) (line : Line) : Device := { s with out := s.out ++ [line] }

def isKnownDevPtr (s : Device) (devId : BitVec 64) : Option UInt64 := s.gDevAllocs devId

def recordDevAlloc (s : Device) (devId : BitVec 64) (size : UInt64) : Device :=
  { s with gDevAllocs := Function.update s.gDevAllocs devId (some size) }

def eraseDevAlloc (s : Device) (devId : BitVec 64) : Device :=
  { s with gDevAllocs := Function.update s.gDevAllocs devId none }

end Device

/-- The steps of the two callbacks of a call, cut where the table is unlocked. -/
def callbackHandler (s : Device) (i : ℕ) (call : Call) : Option Device :=
  match call.stage, call.api with
  | .entered, .malloc _ => some ((s.print (.enter "cudaMalloc")).moveTo i call .running)
  | .entered, .free p =>
    some ((s.print (.enterFree (ptrId p) (s.isKnownDevPtr (ptrId p)))).moveTo i call .running)
  | .entered, .memcpy _ dst _ _ _ =>
    some (s.moveTo i call (.looked (s.isKnownDevPtr (ptrId dst)).isSome))
  | .entered, .other name => some ((s.print (.enter name)).moveTo i call .running)
  | .looked dstIsDev, .memcpy name dst src count kind =>
    some ((s.print (.enterMemcpy name (ptrId dst) (ptrId src) count kind dstIsDev
      (s.isKnownDevPtr (ptrId src)).isSome)).moveTo i call .running)
  | .returned p, .malloc size => some ((s.recordDevAlloc (ptrId p) size).moveTo i call (.updated p))
  | .returned q, .free p => some ((s.eraseDevAlloc (ptrId p)).moveTo i call (.updated q))
  | .returned _, .memcpy name .. => some ((s.print (.exit name)).moveTo i call .left)
  | .returned _, .other name => some ((s.print (.exit name)).moveTo i call .left)
  | .updated p, .malloc size => some ((s.print (.exitMalloc (ptrId p) size)).moveTo i call .left)
  | .updated _, .free p => some ((s.print (.exitFree (ptrId p))).moveTo i call .left)
  | _, _ => none

/-- The runtime carries the call out. -/
def serve (s : Device) (i : ℕ) (call : Call) (answer : Answer) : Option Device :=
  match call.stage, call.api, answer with
  | .running, .malloc size, .done p => some
      { s.moveTo i call (.returned p) with live := Function.update s.live p (some size) }
  | .running, .malloc _, .failed p => some (s.moveTo i call (.returned p))
  | .running, .free q, .done _ => some
      { s.moveTo i call (.returned q) with live := Function.update s.live q none }
  | .running, .free q, .failed _ => some (s.moveTo i call (.returned q))
  | .running, .other _, .elsewhere live => some { s.moveTo i call (.returned 0) with live }
  | .running, .memcpy .., .done _ | .running, .memcpy .., .failed _
  | .running, .other _, .done _ | .running, .other _, .failed _ =>
    some (s.moveTo i call (.returned 0))
  | _, _, _ => none

inductive Action
  | enter (api : Api)
  | callback (i : ℕ)
  | serve (i : ℕ) (answer : Answer)

def step (s : Device) : Action → Option Device
  | .enter api => some { s with calls := s.calls ++ [⟨api, .entered⟩] }
  | .callback i => s.calls[i]?.bind (callbackHandler s i)
  | .serve i answer => s.calls[i]?.bind fun call => serve s i call answer

/-- The exit of an allocation is still to enter the pointer. -/
def Unrecorded (s : Device) (p : Ptr) (size : UInt64) : Prop :=
  ⟨.malloc size, .returned p⟩ ∈ s.calls

/-- The exit of a free is still to take the pointer out. -/
def Unerased (s : Device) (p : Ptr) : Prop := ∃ q, ⟨.free p, .returned q⟩ ∈ s.calls

/-- Every allocation succeeds, with a pointer that is neither live nor on its way out of the
table; a free fails only if nothing is live at its pointer, and frees none that is on its
way into the table; and no function of another kind allocates or frees. -/
def Serves (s : Device) : Api → Answer → Prop
  | .malloc _, .done p => s.live p = none ∧ ¬ Unerased s p
  | .malloc _, .failed _ => False
  | .free q, .done _ => ∀ size, ¬ Unrecorded s q size
  | .free q, .failed _ => s.live q = none
  | _, .elsewhere _ => False
  | _, _ => True

def Ok (s : Device) : Action → Prop
  | .serve i answer => ∀ call ∈ s.calls[i]?, Serves s call.api answer
  | _ => True

def Settled (s : Device) (p : Ptr) : Prop := ¬ Unerased s p ∧ ∀ size, ¬ Unrecorded s p size

structure Inv (s : Device) : Prop where
  known : ∀ p size, s.gDevAllocs (ptrId p) = some size → s.live p = some size ∨ Unerased s p
  live : ∀ p size, s.live p = some size →
    s.gDevAllocs (ptrId p) = some size ∨ Unrecorded s p size
  unrecorded : ∀ p size, Unrecorded s p size → s.live p = some size
  unerased : ∀ p, Unerased s p → s.live p = none

theorem ptrId_injective : Function.Injective ptrId := by
  have hfirst : 0xbf58476d1ce4e5b9#64 * 0x96de1b173f119089#64 = 1#64 := by decide
  have hsecond : 0x94d049bb133111eb#64 * 0x319642b2d24d8ec3#64 = 1#64 := by decide
  intro p q h
  apply xor_const_injective 0x9e3779b97f4a7c15#64
  apply xor_shift_injective (k := 30) (by omega)
  apply mul_injective hfirst
  apply xor_shift_injective (k := 27) (by omega)
  apply mul_injective hsecond
  exact xor_shift_injective (k := 31) (by omega) h

theorem mem_set_of_ne {calls : List Call} {i : ℕ} {call next c : Call}
    (hi : calls[i]? = some call) (hc : c ∈ calls) (hne : c ≠ call) : c ∈ calls.set i next := by
  obtain ⟨j, hj⟩ := List.getElem?_of_mem hc
  have hji : i ≠ j := by
    intro heq
    rw [heq, hj] at hi
    exact hne (Option.some.inj hi)
  apply List.mem_of_getElem? (i := j)
  rw [List.getElem?_set_ne hji]
  exact hj

section

variable {s : Device} {i : ℕ} {call : Call}

/-- A step of a call that neither stands behind the runtime nor comes there leaves the
table and the device as they are. -/
theorem Inv.moveTo {s' : Device} {stage : Stage} (h : Inv s) (hi : s.calls[i]? = some call)
    (hcalls : s'.calls = s.calls.set i { call with stage := stage })
    (hlive : s'.live = s.live) (htable : s'.gDevAllocs = s.gDevAllocs)
    (hbefore : ∀ p, call.stage = .returned p →
      (∀ size, call.api ≠ .malloc size) ∧ ∀ q, call.api ≠ .free q)
    (hbehind : ∀ p, stage = .returned p →
      (∀ size, call.api ≠ .malloc size) ∧ ∀ q, call.api ≠ .free q) : Inv s' := by
  have hunrecorded : ∀ p size, Unrecorded s' p size ↔ Unrecorded s p size := by
    intro p size
    unfold Unrecorded
    rw [hcalls]
    constructor
    · intro hmem
      rcases List.mem_or_eq_of_mem_set hmem with hold | hnew
      · exact hold
      · obtain ⟨hapi, hstage⟩ := Call.mk.inj hnew
        exact absurd hapi.symm ((hbehind p hstage.symm).1 size)
    · intro hmem
      apply mem_set_of_ne hi hmem
      intro heq
      rw [← heq] at hbefore
      exact (hbefore p rfl).1 size rfl
  have hunerased : ∀ p, Unerased s' p ↔ Unerased s p := by
    intro p
    unfold Unerased
    rw [hcalls]
    constructor
    · intro ⟨q, hmem⟩
      rcases List.mem_or_eq_of_mem_set hmem with hold | hnew
      · exact ⟨q, hold⟩
      · obtain ⟨hapi, hstage⟩ := Call.mk.inj hnew
        exact absurd hapi.symm ((hbehind q hstage.symm).2 p)
    · intro ⟨q, hmem⟩
      refine ⟨q, mem_set_of_ne hi hmem ?_⟩
      intro heq
      rw [← heq] at hbefore
      exact (hbefore q rfl).2 p rfl
  constructor
  · intro p size hp
    rw [htable] at hp
    rw [hlive, hunerased]
    exact h.known p size hp
  · intro p size hp
    rw [hlive] at hp
    rw [htable, hunrecorded]
    exact h.live p size hp
  · intro p size hp
    rw [hlive]
    exact h.unrecorded p size ((hunrecorded p size).mp hp)
  · intro p hp
    rw [hlive]
    exact h.unerased p ((hunerased p).mp hp)

theorem Inv.record {p : Ptr} {size : UInt64} (h : Inv s)
    (hi : s.calls[i]? = some ⟨.malloc size, .returned p⟩) :
    Inv ((s.recordDevAlloc (ptrId p) size).moveTo i ⟨.malloc size, .returned p⟩ (.updated p)) := by
  have hown : s.live p = some size := h.unrecorded p size (List.mem_of_getElem? hi)
  have hkeeps : ∀ {c : Call}, c ∈ s.calls.set i ⟨.malloc size, .updated p⟩ →
      c ≠ ⟨.malloc size, .updated p⟩ → c ∈ s.calls := by
    intro c hc hne
    exact (List.mem_or_eq_of_mem_set hc).resolve_right hne
  constructor
  · intro q n hq
    by_cases hqp : q = p
    · subst hqp
      change Function.update s.gDevAllocs (ptrId q) (some size) (ptrId q) = some n at hq
      rw [Function.update_self] at hq
      rw [← hq]
      exact Or.inl hown
    · change Function.update s.gDevAllocs (ptrId p) (some size) (ptrId q) = some n at hq
      rw [Function.update_of_ne fun heq => hqp (ptrId_injective heq)] at hq
      rcases h.known q n hq with hlive | ⟨q', hpending⟩
      · exact Or.inl hlive
      · exact Or.inr ⟨q', mem_set_of_ne hi hpending (by simp)⟩
  · intro q n hq
    change s.live q = some n at hq
    change Function.update s.gDevAllocs (ptrId p) (some size) (ptrId q) = some n ∨ _
    by_cases hqp : q = p
    · subst hqp
      rw [Function.update_self, ← hown]
      exact Or.inl hq
    · rw [Function.update_of_ne fun heq => hqp (ptrId_injective heq)]
      rcases h.live q n hq with htable | hpending
      · exact Or.inl htable
      · refine Or.inr (mem_set_of_ne hi hpending ?_)
        intro heq
        exact hqp (Stage.returned.inj (Call.mk.inj heq).2)
  · intro q n hq
    exact h.unrecorded q n (hkeeps hq (by simp))
  · intro q ⟨q', hq⟩
    exact h.unerased q ⟨q', hkeeps hq (by simp)⟩

theorem Inv.erase {p q : Ptr} (h : Inv s) (hi : s.calls[i]? = some ⟨.free p, .returned q⟩) :
    Inv ((s.eraseDevAlloc (ptrId p)).moveTo i ⟨.free p, .returned q⟩ (.updated q)) := by
  have hown : s.live p = none := h.unerased p ⟨q, List.mem_of_getElem? hi⟩
  have hkeeps : ∀ {c : Call}, c ∈ s.calls.set i ⟨.free p, .updated q⟩ →
      c ≠ ⟨.free p, .updated q⟩ → c ∈ s.calls := by
    intro c hc hne
    exact (List.mem_or_eq_of_mem_set hc).resolve_right hne
  constructor
  · intro r n hr
    change Function.update s.gDevAllocs (ptrId p) none (ptrId r) = some n at hr
    by_cases hrp : r = p
    · rw [hrp, Function.update_self] at hr
      cases hr
    · rw [Function.update_of_ne fun heq => hrp (ptrId_injective heq)] at hr
      rcases h.known r n hr with hlive | ⟨q', hpending⟩
      · exact Or.inl hlive
      · refine Or.inr ⟨q', mem_set_of_ne hi hpending ?_⟩
        intro heq
        exact hrp (Api.free.inj (Call.mk.inj heq).1)
  · intro r n hr
    change s.live r = some n at hr
    change Function.update s.gDevAllocs (ptrId p) none (ptrId r) = some n ∨ _
    have hrp : r ≠ p := by
      intro heq
      rw [heq, hown] at hr
      cases hr
    rw [Function.update_of_ne fun heq => hrp (ptrId_injective heq)]
    rcases h.live r n hr with htable | hpending
    · exact Or.inl htable
    · exact Or.inr (mem_set_of_ne hi hpending (by simp))
  · intro r n hr
    exact h.unrecorded r n (hkeeps hr (by simp))
  · intro r ⟨q', hr⟩
    exact h.unerased r ⟨q', hkeeps hr (by simp)⟩

theorem Inv.serveMalloc {p : Ptr} {size : UInt64} (h : Inv s)
    (hi : s.calls[i]? = some ⟨.malloc size, .running⟩) (hfree : s.live p = none)
    (hgone : ¬ Unerased s p) :
    Inv { s.moveTo i ⟨.malloc size, .running⟩ (.returned p) with
      live := Function.update s.live p (some size) } := by
  constructor
  · intro q n hq
    rcases h.known q n hq with hlive | ⟨q', hpending⟩
    · have hqp : q ≠ p := by
        intro heq
        rw [heq, hfree] at hlive
        cases hlive
      left
      change Function.update s.live p (some size) q = some n
      rw [Function.update_of_ne hqp]
      exact hlive
    · exact Or.inr ⟨q', mem_set_of_ne hi hpending (by simp)⟩
  · intro q n hq
    change Function.update s.live p (some size) q = some n at hq
    by_cases hqp : q = p
    · rw [hqp, Function.update_self] at hq
      rw [hqp, ← Option.some.inj hq]
      right
      exact List.mem_set (List.getElem?_eq_some_iff.mp hi).1 _
    · rw [Function.update_of_ne hqp] at hq
      rcases h.live q n hq with htable | hpending
      · exact Or.inl htable
      · exact Or.inr (mem_set_of_ne hi hpending (by simp))
  · intro q n hq
    change Function.update s.live p (some size) q = some n
    rcases List.mem_or_eq_of_mem_set hq with hold | hnew
    · have hlive := h.unrecorded q n hold
      have hqp : q ≠ p := by
        intro heq
        rw [heq, hfree] at hlive
        cases hlive
      rw [Function.update_of_ne hqp]
      exact hlive
    · obtain ⟨hapi, hstage⟩ := Call.mk.inj hnew
      rw [Stage.returned.inj hstage, Api.malloc.inj hapi, Function.update_self]
  · intro q ⟨q', hq⟩
    have hold : Unerased s q := ⟨q', (List.mem_or_eq_of_mem_set hq).resolve_right (by simp)⟩
    have hqp : q ≠ p := by
      intro heq
      exact hgone (heq ▸ hold)
    change Function.update s.live p (some size) q = none
    rw [Function.update_of_ne hqp]
    exact h.unerased q hold

theorem Inv.serveFree {p : Ptr} (h : Inv s) (hi : s.calls[i]? = some ⟨.free p, .running⟩)
    (hrecorded : ∀ size, ¬ Unrecorded s p size) :
    Inv { s.moveTo i ⟨.free p, .running⟩ (.returned p) with
      live := Function.update s.live p none } := by
  constructor
  · intro q n hq
    by_cases hqp : q = p
    · rw [hqp]
      exact Or.inr ⟨p, List.mem_set (List.getElem?_eq_some_iff.mp hi).1 _⟩
    · rcases h.known q n hq with hlive | ⟨q', hpending⟩
      · left
        change Function.update s.live p none q = some n
        rw [Function.update_of_ne hqp]
        exact hlive
      · exact Or.inr ⟨q', mem_set_of_ne hi hpending (by simp)⟩
  · intro q n hq
    change Function.update s.live p none q = some n at hq
    have hqp : q ≠ p := by
      intro heq
      rw [heq, Function.update_self] at hq
      cases hq
    rw [Function.update_of_ne hqp] at hq
    rcases h.live q n hq with htable | hpending
    · exact Or.inl htable
    · exact Or.inr (mem_set_of_ne hi hpending (by simp))
  · intro q n hq
    have hold : Unrecorded s q n := (List.mem_or_eq_of_mem_set hq).resolve_right (by simp)
    have hqp : q ≠ p := by
      intro heq
      exact hrecorded n (heq ▸ hold)
    change Function.update s.live p none q = some n
    rw [Function.update_of_ne hqp]
    exact h.unrecorded q n hold
  · intro q ⟨q', hq⟩
    change Function.update s.live p none q = none
    by_cases hqp : q = p
    · rw [hqp, Function.update_self]
    · rw [Function.update_of_ne hqp]
      refine h.unerased q ⟨q', (List.mem_or_eq_of_mem_set hq).resolve_right ?_⟩
      intro hnew
      exact hqp (Api.free.inj (Call.mk.inj hnew).1)

end

theorem inv_init : Inv init where
  known p size h := by cases h
  live p size h := by cases h
  unrecorded p size h := by cases h
  unerased p h := by
    obtain ⟨q, hmem⟩ := h
    cases hmem

theorem Inv.enter {s : Device} (h : Inv s) (api : Api) :
    Inv { s with calls := s.calls ++ [⟨api, .entered⟩] } := by
  have hold : ∀ {c : Call}, c ∈ s.calls ++ [⟨api, .entered⟩] → c.stage ≠ .entered →
      c ∈ s.calls := by
    intro c hc hne
    rcases List.mem_append.mp hc with hmem | hnew
    · exact hmem
    · rw [List.mem_singleton.mp hnew] at hne
      exact absurd rfl hne
  constructor
  · intro p n hp
    exact (h.known p n hp).imp id fun ⟨q, hpending⟩ => ⟨q, List.mem_append_left _ hpending⟩
  · intro p n hp
    exact (h.live p n hp).imp id fun hpending => List.mem_append_left _ hpending
  · intro p n hp
    exact h.unrecorded p n (hold hp (by simp))
  · intro p ⟨q, hp⟩
    exact h.unerased p ⟨q, hold hp (by simp)⟩

theorem Inv.callback {s s' : Device} {i : ℕ} {call : Call} (h : Inv s)
    (hi : s.calls[i]? = some call) (hstep : callbackHandler s i call = some s') : Inv s' := by
  obtain ⟨api, stage⟩ := call
  cases stage with
  | entered =>
    cases api <;> cases hstep <;> exact h.moveTo hi rfl rfl rfl (by simp) (by simp)
  | looked dstIsDev =>
    cases api with
    | memcpy =>
      cases hstep
      exact h.moveTo hi rfl rfl rfl (by simp) (by simp)
    | _ => cases hstep
  | running => cases hstep
  | returned p =>
    cases api with
    | malloc size =>
      cases hstep
      exact h.record hi
    | free q =>
      cases hstep
      exact h.erase hi
    | _ =>
      cases hstep
      exact h.moveTo hi rfl rfl rfl (by simp) (by simp)
  | updated p =>
    cases api with
    | malloc size =>
      cases hstep
      exact h.moveTo hi rfl rfl rfl (by simp) (by simp)
    | free q =>
      cases hstep
      exact h.moveTo hi rfl rfl rfl (by simp) (by simp)
    | _ => cases hstep
  | left => cases hstep

/-- A free that fails has nothing to free, so it might as well have succeeded. -/
theorem Inv.failFree {s : Device} {i : ℕ} {q : Ptr} (h : Inv s)
    (hi : s.calls[i]? = some ⟨.free q, .running⟩) (hdead : s.live q = none) :
    Inv (s.moveTo i ⟨.free q, .running⟩ (.returned q)) := by
  have hsame : Function.update s.live q none = s.live := by
    rw [← hdead]
    exact Function.update_eq_self q s.live
  have hrecorded : ∀ size, ¬ Unrecorded s q size := by
    intro size hpending
    have hlive := h.unrecorded q size hpending
    rw [hdead] at hlive
    cases hlive
  have hserved := h.serveFree hi hrecorded
  rw [hsame] at hserved
  exact hserved

theorem Inv.serve {s s' : Device} {i : ℕ} {call : Call} {answer : Answer} (h : Inv s)
    (hi : s.calls[i]? = some call) (hok : Ok s (.serve i answer))
    (hstep : serve s i call answer = some s') : Inv s' := by
  obtain ⟨api, stage⟩ := call
  have hallowed : Serves s api answer := hok _ hi
  cases stage with
  | running =>
    cases answer with
    | done p =>
      cases api with
      | malloc size =>
        cases hstep
        exact h.serveMalloc hi hallowed.1 hallowed.2
      | free q =>
        cases hstep
        exact h.serveFree hi hallowed
      | _ =>
        cases hstep
        exact h.moveTo hi rfl rfl rfl (by simp) (by simp)
    | failed p =>
      cases api with
      | malloc size => exact absurd hallowed id
      | free q =>
        cases hstep
        exact h.failFree hi hallowed
      | _ =>
        cases hstep
        exact h.moveTo hi rfl rfl rfl (by simp) (by simp)
    | elsewhere live =>
      cases api with
      | other name => exact absurd hallowed id
      | _ => cases hstep
  | _ => cases hstep

theorem inv_step (s : Device) (a : Action) (s' : Device) (h : Inv s) (hok : Ok s a)
    (hstep : step s a = some s') : Inv s' := by
  cases a with
  | enter api =>
    cases hstep
    exact h.enter api
  | callback i =>
    obtain ⟨call, hi, hcall⟩ := Option.bind_eq_some_iff.mp hstep
    exact h.callback hi hcall
  | serve i answer =>
    obtain ⟨call, hi, hcall⟩ := Option.bind_eq_some_iff.mp hstep
    exact h.serve hi hok hcall

theorem Inv.table_eq_live {s : Device} (h : Inv s) {p : Ptr} (hsettled : Settled s p) :
    s.gDevAllocs (ptrId p) = s.live p := by
  cases hlive : s.live p with
  | some size =>
    exact (h.live p size hlive).resolve_right (hsettled.2 size)
  | none =>
    cases htable : s.gDevAllocs (ptrId p) with
    | none => rfl
    | some size =>
      have hback := (h.known p size htable).resolve_right hsettled.1
      rw [hlive] at hback
      cases hback

/-- A pointer that is given out again too early is live, but the exit of the call that freed
it takes its new entry out of the table. -/
theorem forgets {s : Device} {i j : ℕ} {p q : Ptr} {size : UInt64}
    (hi : s.calls[i]? = some ⟨.free p, .returned q⟩)
    (hj : s.calls[j]? = some ⟨.malloc size, .running⟩) :
    ∃ s', run step s [.serve j (.done p), .callback j, .callback i] = some s' ∧
      s'.live p = some size ∧ s'.gDevAllocs (ptrId p) = none := by
  have hji : j ≠ i := by
    intro heq
    rw [heq, hi] at hj
    cases hj
  obtain ⟨s₁, hserve, hlive₁, hj₁, hi₁⟩ : ∃ s₁, step s (.serve j (.done p)) = some s₁ ∧
      s₁.live p = some size ∧ s₁.calls[j]? = some ⟨.malloc size, .returned p⟩ ∧
      s₁.calls[i]? = some ⟨.free p, .returned q⟩ := by
    refine ⟨{ s.moveTo j ⟨.malloc size, .running⟩ (.returned p) with
      live := Function.update s.live p (some size) }, ?_, Function.update_self .., ?_, ?_⟩
    · rw [step, hj]
      rfl
    · exact List.getElem?_set_self (List.getElem?_eq_some_iff.mp hj).1
    · rw [← hi]
      exact List.getElem?_set_ne hji
  obtain ⟨s₂, hrecord, hlive₂, hi₂⟩ : ∃ s₂, step s₁ (.callback j) = some s₂ ∧
      s₂.live p = some size ∧ s₂.calls[i]? = some ⟨.free p, .returned q⟩ := by
    refine ⟨(s₁.recordDevAlloc (ptrId p) size).moveTo j ⟨.malloc size, .returned p⟩ (.updated p),
      ?_, hlive₁, ?_⟩
    · rw [step, hj₁]
      rfl
    · rw [← hi₁]
      exact List.getElem?_set_ne hji
  obtain ⟨s₃, herase, hlive₃, htable⟩ : ∃ s₃, step s₂ (.callback i) = some s₃ ∧
      s₃.live p = some size ∧ s₃.gDevAllocs (ptrId p) = none := by
    refine ⟨(s₂.eraseDevAlloc (ptrId p)).moveTo i ⟨.free p, .returned q⟩ (.updated q),
      ?_, hlive₂, Function.update_self ..⟩
    rw [step, hi₂]
    rfl
  refine ⟨s₃, ?_, hlive₃, htable⟩
  apply run_cons_eq_some.mpr
  refine ⟨s₁, hserve, run_cons_eq_some.mpr ⟨s₂, hrecord, ?_⟩⟩
  exact run_cons_eq_some.mpr ⟨s₃, herase, rfl⟩

theorem run_served {s : Device} {i : ℕ} {call : Call} {answer : Answer} {p : Ptr}
    (hi : s.calls[i]? = some call)
    (hserve : serve s i call answer = some (s.moveTo i call (.returned p))) :
    run step s [.serve i answer, .callback i] =
      callbackHandler (s.moveTo i call (.returned p)) i { call with stage := .returned p } := by
  have hmoved : (s.moveTo i call (.returned p)).calls[i]? =
      some { call with stage := .returned p } :=
    List.getElem?_set_self (List.getElem?_eq_some_iff.mp hi).1
  rw [run, step, hi, Option.bind_some, hserve, Option.bind_some, run, step, hmoved,
    Option.bind_some]
  exact Option.bind_fun_some _

/-- An allocation that fails leaves an entry for whatever its variable holds. -/
theorem enters_failed {s : Device} {j : ℕ} {size : UInt64}
    (hj : s.calls[j]? = some ⟨.malloc size, .running⟩) (p : Ptr) :
    ∃ s', run step s [.serve j (.failed p), .callback j] = some s' ∧
      s'.live = s.live ∧ s'.gDevAllocs (ptrId p) = some size :=
  ⟨_, run_served hj rfl, rfl, Function.update_self ..⟩

/-- A free that fails takes the pointer out of the table all the same. -/
theorem erases_failed {s : Device} {i : ℕ} {p : Ptr}
    (hi : s.calls[i]? = some ⟨.free p, .running⟩) (q : Ptr) :
    ∃ s', run step s [.serve i (.failed q), .callback i] = some s' ∧
      s'.live = s.live ∧ s'.gDevAllocs (ptrId p) = none :=
  ⟨_, run_served hi rfl, rfl, Function.update_self ..⟩

/-- Whatever the order of the callbacks: a pointer that no call is busy with is in the
table exactly if the device has it, with its size. Without the conditions on the device the
table may forget a pointer, and enter one that it does not have. -/
theorem table_matches_device {actions : List Action} {s : Device}
    (hok : Along step Ok init actions) (hrun : run step init actions = some s) :
    (∀ p, Settled s p → s.gDevAllocs (ptrId p) = s.live p) ∧
    (∀ p q size i j, s.calls[i]? = some ⟨.free p, .returned q⟩ →
      s.calls[j]? = some ⟨.malloc size, .running⟩ →
      ∃ s', run step s [.serve j (.done p), .callback j, .callback i] = some s' ∧
        s'.live p = some size ∧ s'.gDevAllocs (ptrId p) = none) ∧
    (∀ p size j, s.calls[j]? = some ⟨.malloc size, .running⟩ →
      ∃ s', run step s [.serve j (.failed p), .callback j] = some s' ∧
        s'.live = s.live ∧ s'.gDevAllocs (ptrId p) = some size) ∧
    (∀ p q i, s.calls[i]? = some ⟨.free p, .running⟩ →
      ∃ s', run step s [.serve i (.failed q), .callback i] = some s' ∧
        s'.live = s.live ∧ s'.gDevAllocs (ptrId p) = none) := by
  have h := run_along inv_step inv_init hok hrun
  refine ⟨fun p => h.table_eq_live, ?_, ?_, ?_⟩
  · intro p q size i j hi hj
    exact forgets hi hj
  · intro p size j hj
    exact enters_failed hj p
  · intro p q i hi
    exact erases_failed hi q

instance (s : Device) (p : Ptr) : Decidable (Unerased s p) :=
  decidable_of_iff (∃ call ∈ s.calls, call.api = .free p ∧ call.stage matches .returned _) <| by
    constructor
    · intro ⟨call, hmem, hapi, hstage⟩
      obtain ⟨api, stage⟩ := call
      cases hapi
      cases stage with
      | returned q => exact ⟨q, hmem⟩
      | _ => cases hstage
    · intro ⟨q, hmem⟩
      exact ⟨_, hmem, rfl, rfl⟩

instance (s : Device) (p : Ptr) : Decidable (∀ size, ¬ Unrecorded s p size) :=
  decidable_of_iff (∀ call ∈ s.calls, call.stage = .returned p →
      ¬ (call.api matches .malloc _)) <| by
    constructor
    · intro h size hpending
      exact h _ hpending rfl rfl
    · intro h call hmem hstage hapi
      obtain ⟨api, stage⟩ := call
      cases hstage
      cases api with
      | malloc size => exact h size hmem
      | _ => cases hapi

instance (s : Device) (p : Ptr) : Decidable (Settled s p) := inferInstanceAs (Decidable (_ ∧ _))

instance (s : Device) : (api : Api) → (answer : Answer) → Decidable (Serves s api answer)
  | .malloc _, .done _ => inferInstanceAs (Decidable (_ ∧ _))
  | .malloc _, .failed _ => inferInstanceAs (Decidable False)
  | .free q, .done _ => inferInstanceAs (Decidable (∀ size, ¬ Unrecorded s q size))
  | .free q, .failed _ => inferInstanceAs (Decidable (s.live q = none))
  | .malloc _, .elsewhere _ | .free _, .elsewhere _ | .memcpy .., .elsewhere _
  | .other _, .elsewhere _ => inferInstanceAs (Decidable False)
  | .memcpy .., .done _ | .memcpy .., .failed _ | .other _, .done _ | .other _, .failed _ =>
    inferInstanceAs (Decidable True)

instance (s : Device) : (a : Action) → Decidable (Ok s a)
  | .serve i answer => inferInstanceAs (Decidable (∀ call ∈ s.calls[i]?, Serves s call.api answer))
  | .enter _ | .callback _ => inferInstanceAs (Decidable True)

/-- Two threads allocate at the same time. One copies to its memory and frees it, then a free
of no memory fails; the other's memory stays. -/
def twoThreads : List Action :=
  [.enter (.malloc 256), .enter (.malloc 512), .callback 0, .callback 1,
    .serve 1 (.done 8192), .serve 0 (.done 4096), .callback 0, .callback 1,
    .enter (.memcpy "cudaMemcpy" 4096 16 256 .htod), .callback 2, .callback 2,
    .serve 2 (.done 0), .enter (.free 4096), .callback 3, .serve 3 (.done 0),
    .enter (.free 12288), .callback 4, .serve 4 (.failed 0), .callback 3, .callback 4]

/-- The freed pointer is no longer in the table, and the other one is, with its size. -/
theorem table_matches_device_twoThreads : ∃ s, run step init twoThreads = some s ∧
    s.gDevAllocs (ptrId 4096) = none ∧ s.gDevAllocs (ptrId 8192) = some 512 := by
  have halong : Along step Ok init twoThreads := by decide +kernel
  have hsome : (run step init twoThreads).isSome := by decide +kernel
  have hend : ∀ s ∈ run step init twoThreads, Settled s 4096 ∧ Settled s 8192 ∧
      s.live 4096 = none ∧ s.live 8192 = some 512 := by decide +kernel
  obtain ⟨s, hrun⟩ := Option.isSome_iff_exists.mp hsome
  obtain ⟨hsettled, hsettled', hfreed, hlive⟩ := hend s hrun
  have hmatches := (table_matches_device halong hrun).1
  exact ⟨s, hrun, (hmatches 4096 hsettled).trans hfreed, (hmatches 8192 hsettled').trans hlive⟩

end HpcProfiler.DeviceTable
