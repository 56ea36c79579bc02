import HpcProfiler.Injection

/-!
What an injection leaves behind when a step of it fails. Every step is listed with the
registers that it finds; the body of an injection ends at the first of these that
fails, with these registers. The process is let go as it was saved exactly when the
clean-up is reached, and the steps of it that this needs are there and succeed.
-/

namespace HpcProfiler.InjectionCleanup

open FallibleSteps StructFormat Injection

variable {α β : Type}

/-- A step, as whether it fails, whether that is with an interrupt, and the registers it
finds. -/
structure Stage where
  fails : Bool
  interrupt : Bool
  regs : UserRegs

def stage (env : Env) (p : Point) (regs : UserRegs) : Stage :=
  ⟨env.fails p, env.interrupts p, regs⟩

/-- A step of the attacher itself, which fails with an Exception. -/
def check (failed : Bool) (regs : UserRegs) : Stage := ⟨failed, false, regs⟩

/-- The first stage that fails. -/
def failedAt (stages : List Stage) : Option Stage := stages.find? Stage.fails

/-- The steps that both functions make inside of their try. -/
def payloadStages (env : Env) (saved : UserRegs) : List Stage :=
  [stage env .resolve saved, stage env .findSyscall saved,
    stage env .mmapSetRegs saved, stage env .mmapStep (mmapCall saved env.syscallAddr),
    stage env .mmapWait env.mmapRegs, stage env .mmapGetRegs env.mmapRegs,
    check (decide (2 ^ 63 < env.mmapRegs.rax.toNat)) env.mmapRegs,
    check (!(makeShellcode (env.mmapRegs.rax.toNat + 512) env.symbols).isOk) env.mmapRegs,
    stage env .writeShellcode env.mmapRegs, stage env .writePayload env.mmapRegs,
    stage env .setRegs env.mmapRegs,
    stage env .cont (injectRegs saved env.mmapRegs.rax), stage env .contWait env.trapRegs]

def simpleStages (env : Env) (saved : UserRegs) : List Stage :=
  payloadStages env saved ++ [stage env .restore env.trapRegs]

def attachStages (env : Env) (saved : UserRegs) : List Stage :=
  payloadStages env saved ++
    [check (env.stopSignal.any (fun sig => sig != SIGTRAP)) env.trapRegs,
      stage env .restore env.trapRegs]

/-- The result of running through the stages, the process being traced throughout. -/
structure Follows (stages : List Stage) (final : UserRegs) (t : Target)
    (result : Except Exception α × Target) : Prop where
  traced : result.2.traced = t.traced
  ok : failedAt stages = none → (∃ a, result.1 = .ok a) ∧ result.2.regs = final
  error : ∀ found, failedAt stages = some found →
    (∃ e, result.1 = .error e ∧ e.caught = !found.interrupt) ∧ result.2.regs = found.regs

theorem Follows.traced_of_run {stages : List Stage} {final : UserRegs} {t t' : Target}
    {body : Inject α} {outcome : Except Exception α} (h : Follows stages final t (body t))
    (hrun : body t = (outcome, t')) : t'.traced = t.traced := by
  have hsame := h.traced
  rw [hrun] at hsame
  exact hsame

theorem failedAt_cons_of_fails {first : Stage} (h : first.fails = true) (stages : List Stage) :
    failedAt (first :: stages) = some first := List.find?_cons_of_pos h

theorem failedAt_cons_of_passes {first : Stage} (h : first.fails = false) (stages : List Stage) :
    failedAt (first :: stages) = failedAt stages := List.find?_cons_of_neg (by simp [h])

theorem call_ok {env : Env} {p : Point} {effect : Target → Target} {t : Target}
    (h : env.fails p = false) : call env p effect t = (.ok (), effect t) := by
  simp [call, Env.failure, h, attempt_none]

theorem call_error {env : Env} {p : Point} {effect : Target → Target} {t : Target}
    (h : env.fails p = true) :
    call env p effect t = (.error (.raisedAt p (env.interrupts p)), t) := by
  simp [call, Env.failure, h, attempt_some]

theorem getRegs_ok {env : Env} {p : Point} {t : Target} (h : env.fails p = false) :
    getRegs env p t = (.ok t.regs, t) := by
  simp [getRegs, Env.failure, h, attemptRead]

theorem getRegs_error {env : Env} {p : Point} {t : Target} (h : env.fails p = true) :
    getRegs env p t = (.error (.raisedAt p (env.interrupts p)), t) := by
  simp [getRegs, Env.failure, h, attemptRead]

section

variable {first : Stage} {stages : List Stage} {final regs : UserRegs} {t t' : Target}
  {result : Except Exception α × Target}

theorem Follows.of_error {e : Exception} (hfails : first.fails = true) (hregs : t.regs = first.regs)
    (hcaught : e.caught = !first.interrupt) (hresult : result = (.error e, t)) :
    Follows (first :: stages) final t result := by
  subst hresult
  refine ⟨rfl, ?_, ?_⟩
  · intro h
    rw [failedAt_cons_of_fails hfails] at h
    cases h
  · intro found h
    rw [failedAt_cons_of_fails hfails] at h
    cases h
    exact ⟨⟨e, rfl, hcaught⟩, hregs⟩

theorem Follows.of_ok (hpasses : first.fails = false) (htraced : t'.traced = t.traced)
    (h : Follows stages final t' result) : Follows (first :: stages) final t result := by
  refine ⟨?_, ?_, ?_⟩
  · rw [h.traced, htraced]
  · intro hnone
    rw [failedAt_cons_of_passes hpasses] at hnone
    exact h.ok hnone
  · intro found hsome
    rw [failedAt_cons_of_passes hpasses] at hsome
    exact h.error found hsome

/-- Where every stage has passed, the result is the value computed. -/
theorem Follows.done {a : α} (hregs : t.regs = final) :
    Follows [] final t ((.ok a, t) : Except Exception α × Target) := by
  refine ⟨rfl, fun _ => ⟨⟨a, rfl⟩, hregs⟩, ?_⟩
  intro found h
  cases h

theorem Follows.of_call {env : Env} {p : Point} {effect : Target → Target}
    {f : Unit → Inject α} (hregs : t.regs = regs) (htraced : (effect t).traced = t.traced)
    (h : Follows stages final (effect t) (f () (effect t))) :
    Follows (stage env p regs :: stages) final t ((call env p effect >>= f) t) := by
  cases hfails : env.fails p with
  | true => exact .of_error hfails hregs rfl (bind_error (call_error hfails))
  | false =>
    rw [bind_ok (call_ok hfails)]
    exact .of_ok hfails htraced h

theorem Follows.of_read {env : Env} {p : Point} {f : UserRegs → Inject α} (hregs : t.regs = regs)
    (h : Follows stages final t (f t.regs t)) :
    Follows (stage env p regs :: stages) final t ((getRegs env p >>= f) t) := by
  cases hfails : env.fails p with
  | true => exact .of_error hfails hregs rfl (bind_error (getRegs_error hfails))
  | false =>
    rw [bind_ok (getRegs_ok hfails)]
    exact .of_ok hfails rfl h

theorem Follows.of_check {c : Prop} [Decidable c] {e : Exception} {b : β} {f : β → Inject α}
    (hcaught : e.caught = true) (hregs : t.regs = regs) (h : Follows stages final t (f b t)) :
    Follows (check (decide c) regs :: stages) final t
      (((if c then raise e else pure b) >>= f) t) := by
  by_cases hc : c
  · rw [if_pos hc]
    exact .of_error (decide_eq_true hc) hregs hcaught (bind_error (raise_apply e t))
  · rw [if_neg hc]
    exact .of_ok (decide_eq_false hc) rfl h

theorem Follows.of_compute {x : Except PyError β} {e : Exception} {f : β → Inject α}
    (hcaught : e.caught = true) (hregs : t.regs = regs)
    (h : ∀ b, Follows stages final t (f b t)) :
    Follows (check (!x.isOk) regs :: stages) final t
      ((ofExcept (x.mapError fun _ => e) >>= f) t) := by
  cases x with
  | error e' => exact .of_error rfl hregs hcaught (bind_error (ofExcept_apply _ t))
  | ok b => exact .of_ok rfl rfl (h b)

theorem Follows.of_last {env : Env} {p : Point} {effect : Target → Target}
    (hregs : t.regs = regs) (htraced : (effect t).traced = t.traced)
    (hfinal : (effect t).regs = final) :
    Follows [stage env p regs] final t (call env p effect t) := by
  cases hfails : env.fails p with
  | true => exact .of_error hfails hregs rfl (call_error hfails)
  | false =>
    rw [call_ok hfails]
    exact .of_ok hfails htraced (.done hfinal)

theorem Follows.of_signal {env : Env} {f : Unit → Inject α} (hregs : t.regs = regs)
    (h : Follows stages final t (f () t)) :
    Follows (check (env.stopSignal.any (fun sig => sig != SIGTRAP)) regs :: stages) final t
      ((checkSignal env >>= f) t) := by
  unfold checkSignal
  cases env.stopSignal with
  | none => exact .of_ok rfl rfl h
  | some sig =>
    by_cases htrap : sig = SIGTRAP
    · subst htrap
      exact .of_ok rfl rfl h
    · have hany : (some sig).any (fun sig => sig != SIGTRAP) = true := by simpa using htrap
      exact .of_error hany hregs rfl (bind_error (e := .unexpectedSignal sig)
        (by simp [htrap, raise_apply]))

end

/-- From the symbol lookup to the stop behind the shellcode, and on from there. -/
theorem follows_payload {env : Env} {payload : List UInt8} {stages : List Stage}
    {saved final : UserRegs} {t : Target} {f : Unit → Inject α} (hregs : t.regs = saved)
    (h : ∀ t', t'.traced = t.traced → t'.regs = env.trapRegs →
      Follows stages final t' (f () t')) :
    Follows (payloadStages env saved ++ stages) final t
      ((runPayload env payload saved >>= f) t) := by
  unfold runPayload injectMmap setRegs resume waitpid memWrite payloadStages
  simp only [bind_assoc, List.cons_append, List.nil_append]
  refine .of_call hregs rfl (.of_call hregs rfl (.of_call hregs rfl (.of_call rfl rfl
    (.of_call rfl rfl (.of_read rfl (.of_check rfl rfl (.of_compute rfl rfl ?_)))))))
  intro shellcode
  refine .of_call rfl rfl (.of_call rfl rfl (.of_call rfl rfl ?_))
  refine .of_call rfl rfl (.of_call rfl rfl ?_)
  exact h _ rfl rfl

theorem follows_attach {env : Env} {bootstrap : List UInt8} {saved : UserRegs} {t : Target}
    (hregs : t.regs = saved) :
    Follows (attachStages env saved) saved t
      ((do
        runPayload env bootstrap saved
        checkSignal env
        setRegs env .restore saved : Inject Unit) t) := by
  apply follows_payload hregs
  intro t' htraced hregs'
  exact .of_signal hregs' (.of_last hregs' rfl rfl)

theorem follows_simple {env : Env} {payload : List UInt8} {saved : UserRegs} {t : Target}
    (hregs : t.regs = saved) :
    Follows (simpleStages env saved) saved t
      ((do
        runPayload env payload saved
        setRegs env .restore saved : Inject Unit) t) := by
  apply follows_payload hregs
  intro t' htraced hregs'
  exact .of_last hregs' rfl rfl

/-- The process was stopped in a system call. -/
def MidSyscall (regs : UserRegs) : Prop := regs.origRax ≠ 0xFFFFFFFFFFFFFFFF

instance (regs : UserRegs) : Decidable (MidSyscall regs) := inferInstanceAs (Decidable (_ ≠ _))

/-- The last saved copy of the registers. -/
def savedRegs (env : Env) (regs : UserRegs) : UserRegs :=
  if MidSyscall regs then env.stepRegs else regs

/-- No step between the stop of the process and the saved copy fails. -/
def SavesRegs (env : Env) (regs : UserRegs) : Prop :=
  env.fails .attachWait = false ∧ env.fails .getRegs = false ∧
    (MidSyscall regs → env.fails .singleStep = false ∧ env.fails .stepWait = false ∧
      env.fails .getRegsAgain = false)

theorem stopAndSave_ok {env : Env} {t : Target} (hattach : env.fails .ptraceAttach = false)
    (h : SavesRegs env t.regs) :
    stopAndSave env t = (.ok (savedRegs env t.regs),
      { t with traced := true, regs := savedRegs env t.regs }) := by
  obtain ⟨hwait, hget, hmid⟩ := h
  unfold stopAndSave savedRegs
  rw [bind_ok (call_ok hattach)]
  unfold waitpid
  rw [bind_ok (call_ok hwait), bind_ok (getRegs_ok hget)]
  by_cases hsys : MidSyscall t.regs
  · obtain ⟨hstep, hstepWait, hagain⟩ := hmid hsys
    unfold resume
    rw [if_pos hsys]
    show ((if MidSyscall t.regs then _ else _ : Inject UserRegs) _) = _
    rw [if_pos hsys, bind_ok (call_ok hstep), bind_ok (call_ok hstepWait), getRegs_ok hagain]
    rfl
  · rw [if_neg hsys]
    show ((if MidSyscall t.regs then _ else _ : Inject UserRegs) _) = _
    rw [if_neg hsys]
    rfl

/-- Before the registers are saved a failure leaves the process stopped. -/
theorem stopAndSave_error {env : Env} {t : Target} (hattach : env.fails .ptraceAttach = false)
    (h : ¬SavesRegs env t.regs) :
    ∃ e t', stopAndSave env t = (.error e, t') ∧ t'.traced = true := by
  unfold stopAndSave waitpid resume
  rw [bind_ok (call_ok hattach)]
  cases hwait : env.fails .attachWait with
  | true => exact ⟨_, _, bind_error (call_error hwait), rfl⟩
  | false =>
    rw [bind_ok (call_ok hwait)]
    cases hget : env.fails .getRegs with
    | true => exact ⟨_, _, bind_error (getRegs_error hget), rfl⟩
    | false =>
      rw [bind_ok (getRegs_ok hget)]
      have hsys : MidSyscall t.regs := by
        by_contra hnot
        exact h ⟨hwait, hget, fun hmid => absurd hmid hnot⟩
      show ∃ e t', ((if MidSyscall t.regs then _ else _ : Inject UserRegs) _) = _ ∧ _
      rw [if_pos hsys]
      cases hstep : env.fails .singleStep with
      | true => exact ⟨_, _, bind_error (call_error hstep), rfl⟩
      | false =>
        rw [bind_ok (call_ok hstep)]
        cases hstepWait : env.fails .stepWait with
        | true => exact ⟨_, _, bind_error (call_error hstepWait), rfl⟩
        | false =>
          rw [bind_ok (call_ok hstepWait)]
          cases hagain : env.fails .getRegsAgain with
          | true => exact ⟨_, _, getRegs_error hagain, rfl⟩
          | false => exact absurd ⟨hwait, hget, fun _ => ⟨hstep, hstepWait, hagain⟩⟩ h

/-- The process is let go with the registers it was saved with. -/
def Resumed (env : Env) (t t' : Target) : Prop :=
  t'.traced = false ∧ t'.regs = savedRegs env t.regs

/-- The registers are saved, and then either every stage and the detach succeed, or the
failing stage raises an Exception, the detach of the handler succeeds, and what the stage
has found is set back to the saved copy or, if that fails with an Exception too, is the
saved copy. -/
def AttachCleansUp (env : Env) (regs : UserRegs) : Prop :=
  SavesRegs env regs ∧
    match failedAt (attachStages env (savedRegs env regs)) with
    | none => env.fails .detach = false
    | some found => found.interrupt = false ∧ env.fails .rescueDetach = false ∧
      (env.fails .rescueRestore = false ∨
        env.interrupts .rescueRestore = false ∧ found.regs = savedRegs env regs)

/-- The registers are saved, the detach succeeds, and what a failing stage has found is
the saved copy. -/
def SimpleCleansUp (env : Env) (regs : UserRegs) : Prop :=
  SavesRegs env regs ∧ env.fails .detach = false ∧
    ∀ found ∈ failedAt (simpleStages env (savedRegs env regs)), found.regs = savedRegs env regs

/-- The handler of attach: the registers are set back if that works, and the process is
let go unless that is interrupted, if that works. -/
theorem rescue_target (env : Env) (saved : UserRegs) (e : Exception) (t : Target)
    (htraced : t.traced = true) :
    ∃ e' t', ((do
      onException Exception.caught (setRegs env .rescueRestore saved) (fun _ => pure ())
      ptraceDetach env .rescueDetach
      raise e : Inject Unit) t) = (.error e', t') ∧
      (t'.traced = false ↔ env.fails .rescueDetach = false ∧
        (env.fails .rescueRestore = false ∨ env.interrupts .rescueRestore = false)) ∧
      (t'.regs = if env.fails .rescueRestore then t.regs else saved) := by
  unfold setRegs ptraceDetach
  cases hrestore : env.fails .rescueRestore with
  | true =>
    cases hinterrupt : env.interrupts .rescueRestore with
    | true =>
      have hpasses : Exception.caught
          (.raisedAt .rescueRestore (env.interrupts .rescueRestore)) = false := by
        simp [Exception.caught, hinterrupt]
      rw [bind_error (onException_passes hpasses (call_error hrestore))]
      exact ⟨_, t, rfl, by simp [htraced], rfl⟩
    | false =>
      have hcaught : Exception.caught
          (.raisedAt .rescueRestore (env.interrupts .rescueRestore)) = true := by
        simp [Exception.caught, hinterrupt]
      rw [bind_ok (show onException _ _ _ t = (.ok (), t) from
        (onException_error hcaught (call_error hrestore)).trans (pure_apply () t))]
      cases hdetach : env.fails .rescueDetach with
      | true => exact ⟨_, _, bind_error (call_error hdetach), by simp [htraced], rfl⟩
      | false => exact ⟨e, _, bind_ok (call_ok hdetach), by simp, rfl⟩
  | false =>
    rw [bind_ok (onException_ok (call_ok hrestore))]
    cases hdetach : env.fails .rescueDetach with
    | true => exact ⟨_, _, bind_error (call_error hdetach), by simp [htraced], rfl⟩
    | false => exact ⟨e, _, bind_ok (call_ok hdetach), by simp, rfl⟩

/-- A body that is followed by a handler and a detach, on a stopped process. -/
theorem resumed_rescue_iff {env : Env} {stages : List Stage} {body : Inject Unit} {t t₀ : Target}
    (htraced : t.traced = true)
    (hbody : Follows stages (savedRegs env t₀.regs) t (body t)) :
    Resumed env t₀ ((do
      onException Exception.caught body (fun e => do
        onException Exception.caught (setRegs env .rescueRestore (savedRegs env t₀.regs))
          (fun _ => pure ())
        ptraceDetach env .rescueDetach
        raise e)
      ptraceDetach env .detach
      attempt none fun t => { t with attached := true } : Inject Unit) t).2 ↔
      match failedAt stages with
      | none => env.fails .detach = false
      | some found => found.interrupt = false ∧ env.fails .rescueDetach = false ∧
        (env.fails .rescueRestore = false ∨
          env.interrupts .rescueRestore = false ∧ found.regs = savedRegs env t₀.regs) := by
  rcases hrun : body t with ⟨outcome, t'⟩
  have htraced' : t'.traced = true := (hbody.traced_of_run hrun).trans htraced
  cases hfailed : failedAt stages with
  | none =>
    obtain ⟨⟨u, hu⟩, hregs⟩ := hbody.ok hfailed
    rw [hrun] at hu hregs
    dsimp only at hu hregs
    subst hu
    rw [bind_ok (onException_ok hrun)]
    unfold ptraceDetach
    cases hdetach : env.fails .detach with
    | true =>
      rw [bind_error (call_error hdetach)]
      simp [Resumed, htraced']
    | false =>
      rw [bind_ok (call_ok hdetach)]
      exact iff_of_true ⟨rfl, hregs⟩ rfl
  | some found =>
    obtain ⟨⟨e, he, hkind⟩, hregs⟩ := hbody.error found hfailed
    rw [hrun] at he hregs
    dsimp only at he hregs
    subst he
    cases hinterrupt : found.interrupt with
    | true =>
      -- an interrupt passes by the handler, and the process stays stopped
      rw [bind_error (onException_passes (by rw [hkind, hinterrupt]; rfl) hrun)]
      simp [Resumed, htraced', hinterrupt]
    | false =>
      obtain ⟨e', t'', hrescue, hletGo, hset⟩ :=
        rescue_target env (savedRegs env t₀.regs) e t' htraced'
      rw [bind_error
        ((onException_error (by rw [hkind, hinterrupt]; rfl) hrun).trans hrescue)]
      show t''.traced = false ∧ t''.regs = savedRegs env t₀.regs ↔ _
      rw [hletGo, hset, hregs]
      cases env.fails .rescueRestore <;> simp [hinterrupt, and_assoc]

/-- A body with a detach as its final part, on a stopped process. -/
theorem resumed_finally_iff {env : Env} {stages : List Stage} {body : Inject Unit}
    {t t₀ : Target} (htraced : t.traced = true)
    (hbody : Follows stages (savedRegs env t₀.regs) t (body t)) :
    Resumed env t₀ (andFinally body (ptraceDetach env .detach) t).2 ↔
      env.fails .detach = false ∧
        ∀ found ∈ failedAt stages, found.regs = savedRegs env t₀.regs := by
  rcases hrun : body t with ⟨outcome, t'⟩
  have htraced' : t'.traced = true := (hbody.traced_of_run hrun).trans htraced
  unfold ptraceDetach
  cases hdetach : env.fails .detach with
  | true =>
    rw [andFinally_error hrun (call_error hdetach)]
    simp [Resumed, htraced']
  | false =>
    rw [andFinally_ok hrun (call_ok hdetach)]
    show false = false ∧ t'.regs = savedRegs env t₀.regs ↔ _
    cases hfailed : failedAt stages with
    | none =>
      obtain ⟨-, hregs⟩ := hbody.ok hfailed
      rw [hrun] at hregs
      exact iff_of_true ⟨rfl, hregs⟩ ⟨rfl, by simp⟩
    | some found =>
      obtain ⟨-, hregs⟩ := hbody.error found hfailed
      rw [hrun] at hregs
      dsimp only at hregs
      rw [hregs]
      simp

/-- A process whose registers could not be saved stays stopped. -/
theorem not_resumed_unsaved {env : Env} {t : Target} (hattach : env.fails .ptraceAttach = false)
    (hsaves : ¬SavesRegs env t.regs) (body : UserRegs → Inject Unit) :
    ¬Resumed env t ((stopAndSave env >>= body) t).2 := by
  obtain ⟨e, t', hstop, htraced⟩ := stopAndSave_error hattach hsaves
  rw [bind_error hstop]
  intro h
  rw [h.1] at htraced
  cases htraced

theorem resumed_attach_iff (env : Env) (bootstrap : List UInt8) (t : Target)
    (hfree : t.attached = false) (hattach : env.fails .ptraceAttach = false) :
    Resumed env t (attach env bootstrap t).2 ↔ AttachCleansUp env t.regs := by
  unfold attach AttachCleansUp
  rw [if_neg (by simp [hfree])]
  by_cases hsaves : SavesRegs env t.regs
  · rw [bind_ok (stopAndSave_ok hattach hsaves), and_iff_right hsaves]
    exact resumed_rescue_iff rfl (follows_attach rfl)
  · exact iff_of_false (not_resumed_unsaved hattach hsaves _) fun h => hsaves h.1

theorem resumed_injectSimple_iff (env : Env) (payload : List UInt8) (t : Target)
    (hattach : env.fails .ptraceAttach = false) :
    Resumed env t (injectSimple env payload t).2 ↔ SimpleCleansUp env t.regs := by
  unfold injectSimple SimpleCleansUp
  by_cases hsaves : SavesRegs env t.regs
  · rw [bind_ok (stopAndSave_ok hattach hsaves), and_iff_right hsaves]
    exact resumed_finally_iff rfl (follows_simple rfl)
  · exact iff_of_false (not_resumed_unsaved hattach hsaves _) fun h => hsaves h.1

/-- Once the process has been attached to, both injections let it go as it was saved
exactly when their clean-up is reached by the step that fails, and works. -/
theorem resumed_iff_cleansUp (env : Env) (payload : List UInt8) (t : Target)
    (hattach : env.fails .ptraceAttach = false) :
    (t.attached = false →
      (Resumed env t (attach env payload t).2 ↔ AttachCleansUp env t.regs)) ∧
      (Resumed env t (injectSimple env payload t).2 ↔ SimpleCleansUp env t.regs) :=
  ⟨fun hfree => resumed_attach_iff env payload t hfree hattach,
    resumed_injectSimple_iff env payload t hattach⟩

def zeroRegs : UserRegs :=
  ⟨0, 0, 0, 0, 0, 0, 0, 0, 0, 0, 0, 0, 0, 0, 0, 0, 0, 0, 0, 0, 0, 0, 0, 0, 0, 0, 0⟩

/-- A process stopped outside of a system call. -/
def stoppedRegs : UserRegs :=
  { zeroRegs with
    origRax := 0xFFFFFFFFFFFFFFFF, rax := 42, rip := 0x401000, rsp := 0x7FFDE000 }

/-- A process in which the injected mmap runs out of memory and returns its error. -/
def mmapRefused : Env where
  fails := fun _ => false
  interrupts := fun _ => false
  symbols := ⟨0x500000, 0x500100, 0x500200⟩
  syscallAddr := 0x7FFF1000
  stepRegs := zeroRegs
  mmapRegs := { mmapCall stoppedRegs 0x7FFF1000 with rax := 0xFFFFFFFFFFFFFFF4 }
  trapRegs := zeroRegs
  stopSignal := some SIGTRAP

/-- The attacher is interrupted while it waits for the trap. -/
def interrupted : Env :=
  { mmapRefused with
    fails := fun p => p = .contWait
    interrupts := fun p => p = .contWait
    mmapRegs := { mmapCall stoppedRegs 0x7FFF1000 with rax := 0x7F0000000000 } }

/-- A refused mmap is cleaned up after by attach and not by the stop of the profiler; an
interrupt is not cleaned up after by attach. -/
theorem resumed_iff_cleansUp_mmapRefused :
    Resumed mmapRefused { regs := stoppedRegs }
        (attach mmapRefused [] { regs := stoppedRegs }).2 ∧
      ¬Resumed mmapRefused { regs := stoppedRegs }
        (injectSimple mmapRefused [] { regs := stoppedRegs }).2 ∧
      ¬Resumed interrupted { regs := stoppedRegs }
        (attach interrupted [] { regs := stoppedRegs }).2 := by
  have hrefused := resumed_iff_cleansUp mmapRefused [] { regs := stoppedRegs } rfl
  have hinterrupted := resumed_iff_cleansUp interrupted [] { regs := stoppedRegs } rfl
  refine ⟨(hrefused.1 rfl).mpr ?_, ?_, ?_⟩
  · exact ⟨⟨rfl, rfl, fun h => absurd rfl h⟩, rfl, rfl, .inl rfl⟩
  · intro h
    have hregs := (hrefused.2.mp h).2.2 (check true mmapRefused.mmapRegs) rfl
    exact absurd hregs (by decide)
  · intro h
    have hkind := ((hinterrupted.1 rfl).mp h).2.1
    exact absurd hkind (by decide)

/-- The stop of the profiler lets the process go with the registers of the refused mmap
call. -/
theorem injectSimple_mmapRefused :
    ¬ ∀ (env : Env) (payload : List UInt8) (t : Target), t.attached = false →
      env.fails .ptraceAttach = false →
      Resumed env t (attach env payload t).2 ∧ Resumed env t (injectSimple env payload t).2 := by
  intro h
  obtain ⟨-, -, hregs⟩ := h mmapRefused [] { regs := stoppedRegs } rfl rfl
  revert hregs
  decide

end HpcProfiler.InjectionCleanup
