import HpcProfiler.BootstrapSource
import HpcProfiler.InjectionCleanup

/-!
The region that an injection obtains with its mmap, and what it writes there. The
shellcode comes to stand at the start of the region and the source 512 bytes behind it;
no step compares the length of the source with what is left of the 4096 bytes.
-/

namespace HpcProfiler.InjectionRegion

open FallibleSteps StructFormat Injection InjectionCleanup BootstrapSource

variable {α : Type}

/-- The bytes that were written lie within the region. -/
def Within (region : ℕ) (write : ℕ × List UInt8) : Prop :=
  region ≤ write.1 ∧ write.1 + write.2.length ≤ region + 4096

/-- No byte belongs to both writes. -/
def Apart (write write' : ℕ × List UInt8) : Prop :=
  write.1 + write.2.length ≤ write'.1 ∨ write'.1 + write'.2.length ≤ write.1

/-- The call has failed before it wrote anything, or it has written a shellcode and the
payload, both within the region and apart from each other. -/
def Contained (env : Env) (payload : List UInt8) (t : Target)
    (result : Except Exception α × Target) : Prop :=
  let region := env.mmapRegs.rax.toNat
  (∃ e, result.1 = .error e) ∧ result.2.writes = t.writes ∨
    ∃ shellcode strAddr, makeShellcode strAddr env.symbols = .ok shellcode ∧
      result.2.writes = t.writes ++ [(region, shellcode), (strAddr, payload)] ∧
      Within region (region, shellcode) ∧ Within region (strAddr, payload) ∧
      Apart (region, shellcode) (strAddr, payload)

/-- No stage up to the writing of the shellcode fails. -/
def WritesShellcode (env : Env) (regs : UserRegs) : Prop :=
  env.fails .ptraceAttach = false ∧ SavesRegs env regs ∧
    failedAt ((payloadStages env (savedRegs env regs)).take 9) = none

/-- Instructions around the eight bytes of an address. -/
theorem addressed_length {addr : ℤ} {opcode after code : List UInt8}
    (h : (pack [.Q] [addr]).map (fun bytes => opcode ++ bytes ++ after) = .ok code) :
    code.length = opcode.length + 8 + after.length := by
  obtain ⟨bytes, hpack, rfl⟩ := ok_of_map h
  have hbytes : bytes.length = 8 := pack_length hpack
  rw [List.length_append, List.length_append, hbytes]

theorem callAbs_length {addr : ℤ} {code : List UInt8} (h : callAbs addr = .ok code) :
    code.length = 12 := addressed_length h

theorem movabsRdi_length {addr : ℤ} {code : List UInt8} (h : movabsRdi addr = .ok code) :
    code.length = 10 := by
  have hcode : (pack [.Q] [addr]).map (fun bytes => [0x48, 0xBF] ++ bytes ++ []) = .ok code := by
    simp only [List.append_nil]
    exact h
  exact addressed_length hcode

theorem makeShellcode_length {strAddr : ℕ} {symbols : Symbols} {shellcode : List UInt8}
    (h : makeShellcode strAddr symbols = .ok shellcode) : shellcode.length = 53 := by
  obtain ⟨ensure, hensure, h⟩ := ok_of_bind h
  obtain ⟨argument, hargument, h⟩ := ok_of_bind h
  obtain ⟨run, hrun, h⟩ := ok_of_bind h
  obtain ⟨release, hrelease, h⟩ := ok_of_bind h
  cases h
  simp [callAbs_length hensure, movabsRdi_length hargument, callAbs_length hrun,
    callAbs_length hrelease]

/-- The steps before the writes: the lookups, the mmap and the shellcode. -/
def prepare (env : Env) (saved : UserRegs) : Inject (UInt64 × List UInt8) := do
  call env .resolve id
  call env .findSyscall id
  let rwxAddr ← injectMmap env saved
  let shellcode ← ofExcept
    ((makeShellcode (rwxAddr.toNat + 512) env.symbols).mapError fun _ => .structError)
  pure (rwxAddr, shellcode)

/-- The two writes and the run of the shellcode. -/
def writeAndRun (env : Env) (payload : List UInt8) (saved : UserRegs)
    (prepared : UInt64 × List UInt8) : Inject Unit := do
  memWrite env .writeShellcode prepared.1.toNat prepared.2
  memWrite env .writePayload (prepared.1.toNat + 512) payload
  setRegs env .setRegs (injectRegs saved prepared.1)
  resume env .cont env.trapRegs
  waitpid env .contWait

theorem runPayload_eq (env : Env) (payload : List UInt8) (saved : UserRegs) :
    runPayload env payload saved = prepare env saved >>= writeAndRun env payload saved := by
  unfold runPayload prepare
  simp only [bind_assoc]
  rfl

theorem keeps_call {env : Env} {p : Point} {effect : Target → Target}
    (heffect : ∀ t, (effect t).writes = t.writes) : Keeps Target.writes (call env p effect) :=
  keeps_attempt heffect _

theorem keeps_getRegs (env : Env) (p : Point) : Keeps Target.writes (getRegs env p) :=
  keeps_attemptRead _ _

theorem keeps_setRegs (env : Env) (p : Point) (regs : UserRegs) :
    Keeps Target.writes (setRegs env p regs) := keeps_call fun _ => rfl

theorem keeps_detach (env : Env) (p : Point) : Keeps Target.writes (ptraceDetach env p) :=
  keeps_call fun _ => rfl

theorem keeps_checkSignal (env : Env) : Keeps Target.writes (checkSignal env) := by
  unfold checkSignal
  split
  · exact keeps_ite (keeps_raise _) (keeps_pure _)
  · exact keeps_pure _

theorem keeps_stopAndSave (env : Env) : Keeps Target.writes (stopAndSave env) := by
  refine keeps_bind (keeps_call fun _ => rfl) fun _ => keeps_bind (keeps_call fun _ => rfl) fun _ =>
    keeps_bind (keeps_getRegs env _) fun saved => keeps_ite ?_ (keeps_pure saved)
  exact keeps_bind (keeps_call fun _ => rfl) fun _ => keeps_bind (keeps_call fun _ => rfl) fun _ =>
    keeps_getRegs env _

theorem keeps_injectMmap (env : Env) (saved : UserRegs) :
    Keeps Target.writes (injectMmap env saved) := by
  refine keeps_bind (keeps_call fun _ => rfl) fun _ => keeps_bind (keeps_call fun _ => rfl) fun _ =>
    keeps_bind (keeps_call fun _ => rfl) fun _ => keeps_bind (keeps_getRegs env _) fun regs => ?_
  exact keeps_ite (keeps_raise _) (keeps_pure _)

theorem keeps_prepare (env : Env) (saved : UserRegs) : Keeps Target.writes (prepare env saved) :=
  keeps_bind (keeps_call fun _ => rfl) fun _ => keeps_bind (keeps_call fun _ => rfl) fun _ =>
    keeps_bind (keeps_injectMmap env saved) fun _ => keeps_bind (keeps_ofExcept _) fun _ =>
      keeps_pure _

theorem follows_prepare {env : Env} {saved : UserRegs} {t : Target} (hregs : t.regs = saved) :
    Follows ((payloadStages env saved).take 8) env.mmapRegs t (prepare env saved t) := by
  unfold prepare injectMmap setRegs resume waitpid payloadStages
  simp only [bind_assoc, List.take]
  refine .of_call hregs rfl (.of_call hregs rfl (.of_call hregs rfl (.of_call rfl rfl
    (.of_call rfl rfl (.of_read rfl (.of_check rfl rfl (.of_compute rfl rfl ?_)))))))
  intro shellcode
  exact .done rfl

/-- Where none of its stages fails, the region is what the mmap has returned. -/
theorem prepare_ok {env : Env} {saved : UserRegs} {t : Target}
    (h : failedAt ((payloadStages env saved).take 8) = none) :
    ∃ shellcode, makeShellcode (env.mmapRegs.rax.toNat + 512) env.symbols = .ok shellcode ∧
      prepare env saved t =
        (.ok (env.mmapRegs.rax, shellcode), { t with regs := env.mmapRegs }) := by
  have hstages : ∀ found ∈ (payloadStages env saved).take 8, found.fails = false := by
    simpa [failedAt] using h
  simp only [payloadStages, List.take, List.forall_mem_cons] at hstages
  obtain ⟨hresolve, hfind, hset, hstep, hwait, hget, hmmap, hshellcode, -⟩ := hstages
  cases hcode : makeShellcode (env.mmapRegs.rax.toNat + 512) env.symbols with
  | error e =>
    rw [hcode] at hshellcode
    cases hshellcode
  | ok shellcode =>
    refine ⟨shellcode, rfl, ?_⟩
    unfold prepare injectMmap setRegs resume waitpid
    simp only [bind_assoc]
    rw [bind_ok (call_ok hresolve), bind_ok (call_ok hfind), bind_ok (call_ok hset),
      bind_ok (call_ok hstep), bind_ok (call_ok hwait), bind_ok (getRegs_ok hget)]
    dsimp only [id]
    rw [if_neg (of_decide_eq_false hmmap), bind_ok (pure_apply _ _)]
    rw [hcode]
    exact bind_ok (ofExcept_apply _ _)

theorem failedAt_shellcode (env : Env) (saved : UserRegs) :
    failedAt ((payloadStages env saved).take 9) = none ↔
      failedAt ((payloadStages env saved).take 8) = none ∧ env.fails .writeShellcode = false := by
  simp [failedAt, payloadStages, and_assoc, stage]

theorem keeps_run (env : Env) (saved : UserRegs) (rwxAddr : UInt64) :
    Keeps Target.writes (do
      setRegs env .setRegs (injectRegs saved rwxAddr)
      resume env .cont env.trapRegs
      waitpid env .contWait : Inject Unit) :=
  keeps_bind (keeps_call fun _ => rfl) fun _ => keeps_bind (keeps_call fun _ => rfl) fun _ =>
    keeps_call fun _ => rfl

/-- If a stage up to the writing of the shellcode fails then nothing is written. -/
theorem runPayload_early {env : Env} (payload : List UInt8) {saved : UserRegs} {t : Target}
    (hregs : t.regs = saved) (h : failedAt ((payloadStages env saved).take 9) ≠ none) :
    ∃ e t', runPayload env payload saved t = (.error e, t') ∧ t'.writes = t.writes := by
  rw [runPayload_eq]
  by_cases hprepared : failedAt ((payloadStages env saved).take 8) = none
  · obtain ⟨shellcode, -, hprepare⟩ := prepare_ok (t := t) hprepared
    have hwrite : env.fails .writeShellcode = true := by
      rw [Ne, failedAt_shellcode] at h
      simpa [hprepared] using h
    exact ⟨_, _, (bind_ok hprepare).trans (bind_error (call_error hwrite)), rfl⟩
  · obtain ⟨found, hfailed⟩ := Option.ne_none_iff_exists'.mp hprepared
    obtain ⟨⟨e, he, -⟩, -⟩ := (follows_prepare hregs).error found hfailed
    have hkept := keeps_prepare env saved t
    rcases hrun : prepare env saved t with ⟨outcome, t'⟩
    rw [hrun] at he hkept
    dsimp only at he hkept
    subst he
    exact ⟨e, t', bind_error hrun, hkept⟩

/-- Otherwise the shellcode is written, and the payload if its write does not fail. -/
theorem runPayload_writes {env : Env} (payload : List UInt8) {saved : UserRegs} (t : Target)
    (h : failedAt ((payloadStages env saved).take 9) = none) :
    ∃ shellcode, makeShellcode (env.mmapRegs.rax.toNat + 512) env.symbols = .ok shellcode ∧
      (runPayload env payload saved t).2.writes =
        t.writes ++ (env.mmapRegs.rax.toNat, shellcode) ::
          if env.fails .writePayload then [] else [(env.mmapRegs.rax.toNat + 512, payload)] := by
  obtain ⟨hprepared, hwrite⟩ := (failedAt_shellcode env saved).mp h
  obtain ⟨shellcode, hcode, hprepare⟩ := prepare_ok (t := t) hprepared
  refine ⟨shellcode, hcode, ?_⟩
  rw [runPayload_eq, bind_ok hprepare]
  unfold writeAndRun memWrite
  rw [bind_ok (call_ok hwrite)]
  cases hpayload : env.fails .writePayload with
  | true =>
    rw [bind_error (call_error hpayload)]
    rfl
  | false =>
    rw [bind_ok (call_ok hpayload), keeps_run]
    simp

theorem apart_shellcode {region : ℕ} {shellcode payload : List UInt8}
    (h : shellcode.length = 53) : Apart (region, shellcode) (region + 512, payload) := by
  left
  dsimp only
  omega

/-- Whatever goes on around it, what the payload's part has written decides. -/
theorem contained_iff_of_run {env : Env} {payload : List UInt8} {saved : UserRegs}
    {t : Target} (stopped : Target) {result : Except Exception α × Target}
    (hregs : stopped.regs = saved) (hwrites : stopped.writes = t.writes)
    (hsame : result.2.writes = (runPayload env payload saved stopped).2.writes)
    (herror : ∀ e t', runPayload env payload saved stopped = (.error e, t') →
      ∃ e, result.1 = .error e) :
    Contained env payload t result ↔ (failedAt ((payloadStages env saved).take 9) = none →
      env.fails .writePayload = false ∧ payload.length ≤ 3584) := by
  by_cases hstages : failedAt ((payloadStages env saved).take 9) = none
  · obtain ⟨shellcode, hcode, hrun⟩ := runPayload_writes payload stopped hstages
    have hlength := makeShellcode_length hcode
    rw [hrun, hwrites] at hsame
    rw [imp_iff_right hstages]
    constructor
    · rintro (⟨-, hnone⟩ | ⟨shellcode', strAddr, -, htwo, -, ⟨-, hwithin⟩, -⟩)
      · rw [hsame] at hnone
        simp at hnone
      · rw [hsame, List.append_cancel_left_eq] at htwo
        cases hfails : env.fails .writePayload with
        | true =>
          rw [hfails] at htwo
          cases htwo
        | false =>
          rw [hfails] at htwo
          cases htwo
          dsimp only at hwithin
          exact ⟨rfl, by omega⟩
    · rintro ⟨hfails, hfits⟩
      rw [hfails] at hsame
      refine .inr ⟨shellcode, _, hcode, hsame, ?_, ?_, apart_shellcode hlength⟩
      · exact ⟨Nat.le_refl _, by dsimp only; omega⟩
      · exact ⟨by dsimp only; omega, by dsimp only; omega⟩
  · obtain ⟨e, t', hrun, hkept⟩ := runPayload_early payload hregs hstages
    rw [hrun] at hsame
    refine iff_of_true (.inl ⟨herror e t' hrun, ?_⟩) fun h => absurd h hstages
    rw [hsame, ← hwrites]
    exact hkept

/-- A process whose registers could not be saved has nothing written to it. -/
theorem contained_unsaved {env : Env} {payload : List UInt8} {t : Target}
    (h : ¬(env.fails .ptraceAttach = false ∧ SavesRegs env t.regs))
    (body : UserRegs → Inject Unit) :
    Contained env payload t ((stopAndSave env >>= body) t) := by
  have hfails : ∃ e t', stopAndSave env t = (.error e, t') := by
    cases hattach : env.fails .ptraceAttach with
    | true => exact ⟨_, _, bind_error (call_error hattach)⟩
    | false =>
      obtain ⟨e, t', hstop, -⟩ := stopAndSave_error hattach fun hsaves => h ⟨hattach, hsaves⟩
      exact ⟨e, t', hstop⟩
  obtain ⟨e, t', hstop⟩ := hfails
  have hkept := keeps_stopAndSave env t
  rw [hstop] at hkept
  rw [bind_error hstop]
  exact .inl ⟨⟨e, rfl⟩, hkept⟩

/-- A call that stops the process, and whose part after that writes what the payload's
part of it writes and raises where that raises. -/
theorem contained_iff_of_stopAndSave {env : Env} {payload : List UInt8} {t : Target}
    {body : UserRegs → Inject Unit}
    (hsame : ∀ stopped, (body (savedRegs env t.regs) stopped).2.writes =
      (runPayload env payload (savedRegs env t.regs) stopped).2.writes)
    (herror : ∀ stopped e t', runPayload env payload (savedRegs env t.regs) stopped =
      (.error e, t') → ∃ e', (body (savedRegs env t.regs) stopped).1 = .error e') :
    Contained env payload t ((stopAndSave env >>= body) t) ↔
      (WritesShellcode env t.regs →
        env.fails .writePayload = false ∧ payload.length ≤ 3584) := by
  unfold WritesShellcode
  by_cases hsaves : env.fails .ptraceAttach = false ∧ SavesRegs env t.regs
  · rw [bind_ok (stopAndSave_ok hsaves.1 hsaves.2), and_iff_right hsaves.1, and_iff_right hsaves.2]
    exact contained_iff_of_run { t with traced := true, regs := savedRegs env t.regs }
      rfl rfl (hsame _) (herror _)
  · refine iff_of_true (contained_unsaved hsaves _) ?_
    rintro ⟨hattach, hregs, -⟩
    exact absurd ⟨hattach, hregs⟩ hsaves

theorem contained_injectSimple_iff (env : Env) (payload : List UInt8) (t : Target) :
    Contained env payload t (injectSimple env payload t) ↔
      (WritesShellcode env t.regs →
        env.fails .writePayload = false ∧ payload.length ≤ 3584) := by
  unfold injectSimple
  refine contained_iff_of_stopAndSave ?_ ?_
  · intro stopped
    exact (keeps_final (keeps_detach env _) _).trans
      (keeps_second (fun _ => keeps_setRegs env _ _) _)
  · intro stopped e t' hrun
    exact andFinally_raises (bind_error hrun)

/-- The handler of attach. -/
def rescue (env : Env) (saved : UserRegs) (e : Exception) : Inject Unit := do
  onException Exception.caught (setRegs env .rescueRestore saved) (fun _ => pure ())
  ptraceDetach env .rescueDetach
  raise e

theorem keeps_rescue (env : Env) (saved : UserRegs) (e : Exception) :
    Keeps Target.writes (rescue env saved e) := by
  refine keeps_bind ?_ fun _ => keeps_bind (keeps_detach env _) fun _ => keeps_raise e
  intro t
  exact (keeps_handler (fun _ => keeps_pure ()) t).trans (keeps_setRegs env _ _ t)

theorem rescue_raises (env : Env) (saved : UserRegs) (e : Exception) (t : Target) :
    ∃ e', (rescue env saved e t).1 = .error e' :=
  bind_raises (fun _ => bind_raises fun _ _ => ⟨e, rfl⟩) t

theorem keeps_attached : Keeps Target.writes
    (attempt none fun t => { t with attached := true } : Inject Unit) := by
  intro t
  rfl

theorem contained_attach_iff (env : Env) (payload : List UInt8) (t : Target)
    (hfree : t.attached = false) : Contained env payload t (attach env payload t) ↔
      (WritesShellcode env t.regs →
        env.fails .writePayload = false ∧ payload.length ≤ 3584) := by
  unfold attach
  rw [if_neg (by simp [hfree])]
  refine contained_iff_of_stopAndSave ?_ ?_
  · intro stopped
    have hlast := fun _ : Unit => keeps_bind (keeps_detach env .detach) fun _ => keeps_attached
    have hrestore := fun _ : Unit => keeps_bind (keeps_checkSignal env) fun _ =>
      keeps_setRegs env .restore (savedRegs env t.regs)
    exact (keeps_second hlast _).trans
      ((keeps_handler (keeps_rescue env _) _).trans (keeps_second hrestore _))
  · intro stopped e t' hrun
    have hbody : (do
        runPayload env payload (savedRegs env t.regs)
        checkSignal env
        setRegs env .restore (savedRegs env t.regs) : Inject Unit) stopped = (.error e, t') :=
      bind_error hrun
    exact bind_raises_of_first (onException_raises (rescue_raises env (savedRegs env t.regs)) hbody)

/-- The code given to _inject_simple, in UTF-8 with its terminating zero. -/
def simplePayload (code : String) : List UInt8 := Utf8Replace.encode code ++ [0]

/-- Both injections write within the region, the shellcode and the source apart, if and
only if nothing is written at all or the source is written and fits behind its offset. -/
theorem contained_iff_fits (env : Env) (t : Target) (code parent shmName soPath : String) :
    (Contained env (simplePayload code) t (injectSimple env (simplePayload code) t) ↔
      (WritesShellcode env t.regs →
        env.fails .writePayload = false ∧ (Utf8Replace.encode code).length ≤ 3583)) ∧
    (t.attached = false →
      (Contained env (makeBootstrap parent shmName soPath) t
          (attach env (makeBootstrap parent shmName soPath) t) ↔
        (WritesShellcode env t.regs →
          env.fails .writePayload = false ∧
            (Utf8Replace.encode parent).length + (Utf8Replace.encode shmName).length ≤ 2466))) := by
  have hsimple : (simplePayload code).length = (Utf8Replace.encode code).length + 1 :=
    List.length_append
  have hbootstrap := length_makeBootstrap parent shmName soPath
  constructor
  · rw [contained_injectSimple_iff]
    refine imp_congr_right fun _ => and_congr_right fun _ => ?_
    omega
  · intro hfree
    rw [contained_attach_iff env _ t hfree]
    refine imp_congr_right fun _ => and_congr_right fun _ => ?_
    omega

/-- A process in which every step of an injection succeeds. -/
def willing : Env where
  fails := fun _ => false
  interrupts := fun _ => false
  symbols := ⟨0x500000, 0x500100, 0x500200⟩
  syscallAddr := 0x7FFF1000
  stepRegs := zeroRegs
  mmapRegs := { mmapCall stoppedRegs 0x7FFF1000 with rax := 0x7F0000000000 }
  trapRegs := zeroRegs
  stopSignal := some SIGTRAP

theorem contained_iff_fits_willing :
    Contained willing (simplePayload "import sys; sys._hpc_profiler_active = False")
        { regs := stoppedRegs } (injectSimple willing
          (simplePayload "import sys; sys._hpc_profiler_active = False")
          { regs := stoppedRegs }) ∧
      Contained willing (makeBootstrap "/opt/hpc/src/python" "/hpc_profiler_cpu" "")
        { regs := stoppedRegs } (attach willing
          (makeBootstrap "/opt/hpc/src/python" "/hpc_profiler_cpu" "")
          { regs := stoppedRegs }) := by
  have hfits := contained_iff_fits willing { regs := stoppedRegs }
    "import sys; sys._hpc_profiler_active = False" "/opt/hpc/src/python" "/hpc_profiler_cpu" ""
  exact ⟨hfits.1.mpr fun _ => ⟨rfl, by decide⟩, (hfits.2 rfl).mpr fun _ => ⟨rfl, by decide⟩⟩

/-- As many characters as the region has bytes behind the offset, so that the zero is
written behind its end. -/
def longCode : String := String.ofList (List.replicate 3584 '#')

theorem length_encode_replicate (n : ℕ) :
    (Utf8Replace.encode (String.ofList (List.replicate n '#'))).length = n := by
  rw [Utf8Replace.encode, String.toList_ofList]
  induction n with
  | zero => rfl
  | succ n ih =>
    rw [List.replicate_succ, List.flatMap_cons, List.length_append, ih]
    exact Nat.add_comm 1 n

theorem longCode_overruns :
    ¬ ∀ (env : Env) (t : Target) (code : String),
      Contained env (simplePayload code) t (injectSimple env (simplePayload code) t) := by
  intro h
  have hfits := (contained_injectSimple_iff willing _ { regs := stoppedRegs }).mp
    (h willing { regs := stoppedRegs } longCode)
  have hwrites : WritesShellcode willing stoppedRegs :=
    ⟨rfl, ⟨rfl, rfl, fun _ => ⟨rfl, rfl, rfl⟩⟩, by decide⟩
  have hlength : (simplePayload longCode).length = 3585 := by
    have hcode : (Utf8Replace.encode longCode).length = 3584 := length_encode_replicate 3584
    rw [simplePayload, List.length_append, hcode, List.length_singleton]
  have hle := (hfits hwrites).2
  omega

end HpcProfiler.InjectionRegion
