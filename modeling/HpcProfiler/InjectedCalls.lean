import HpcProfiler.ShellcodeRun

/-!
The injections on a machine that executes what they write. When a call of attach or of
_inject_simple returns, the process has gone on from the start of the shellcode, in the
memory that the call has written to; whatever the routines of the interpreter do, its run
makes the three calls and traps behind the last of them.
-/

namespace HpcProfiler.InjectedCalls

open MachineCode StraightLine StepSystem FallibleSteps Injection InjectionCleanup
  InjectionRegion ShellcodeRun

def gpr (regs : UserRegs) : Reg → UInt64
  | .rax => regs.rax
  | .rcx => regs.rcx
  | .rdx => regs.rdx
  | .rbx => regs.rbx
  | .rsp => regs.rsp
  | .rbp => regs.rbp
  | .rsi => regs.rsi
  | .rdi => regs.rdi
  | .r8 => regs.r8
  | .r9 => regs.r9
  | .r10 => regs.r10
  | .r11 => regs.r11
  | .r12 => regs.r12
  | .r13 => regs.r13
  | .r14 => regs.r14
  | .r15 => regs.r15

def machineOf (regs : UserRegs) (mem : Memory) : Machine := ⟨gpr regs, regs.rip, mem⟩

def applyWrites (mem : Memory) (writes : List (ℕ × List UInt8)) : Memory :=
  writes.foldl (fun mem write => store mem (UInt64.ofNat write.1) write.2) mem

/-- The stack pointer of the injected code. -/
def safeRsp (saved : UserRegs) : UInt64 := (saved.rsp - 4096) &&& ~~~0xF

theorem failedAt_eq_none_iff {stages : List Stage} :
    failedAt stages = none ↔ ∀ found ∈ stages, found.fails = false := by
  simp [failedAt]

section

variable {env : Env} {payload : List UInt8} {t t' : Target}

/-- What is done to a stopped process is done with its registers saved. -/
theorem saved_of_bind {f : UserRegs → Inject Unit}
    (h : (stopAndSave env >>= f) t = (.ok (), t')) :
    env.fails .ptraceAttach = false ∧ SavesRegs env t.regs ∧
      f (savedRegs env t.regs) { t with traced := true, regs := savedRegs env t.regs } =
        (.ok (), t') := by
  obtain ⟨saved, stopped, hstop, hrest⟩ := parts_of_bind h
  have hattach : env.fails .ptraceAttach = false := by
    by_contra hfails
    obtain ⟨e, stopped', herror⟩ : ∃ e t', stopAndSave env t = (.error e, t') :=
      ⟨_, _, bind_error (call_error (by simpa using hfails))⟩
    rw [herror] at hstop
    cases hstop
  have hsaves : SavesRegs env t.regs := by
    by_contra hnot
    obtain ⟨e, stopped', herror, -⟩ := stopAndSave_error hattach hnot
    rw [herror] at hstop
    cases hstop
  rw [stopAndSave_ok hattach hsaves] at hstop
  cases hstop
  exact ⟨hattach, hsaves, hrest⟩

/-- A body that does not raise has no stage that fails. -/
theorem failedAt_of_ok {stages : List Stage} {final : UserRegs} {body : Inject Unit}
    {stopped mid : Target} (h : Follows stages final stopped (body stopped))
    (hbody : body stopped = (.ok (), mid)) : failedAt stages = none ∧ mid.regs = final := by
  rw [hbody] at h
  have hnone : failedAt stages = none := by
    by_contra hfailed
    obtain ⟨regs, hregs⟩ := Option.ne_none_iff_exists'.mp hfailed
    obtain ⟨⟨e, he, -⟩, -⟩ := h.error regs hregs
    cases he
  exact ⟨hnone, (h.ok hnone).2⟩

theorem writesShellcode_of_stages {stages : List Stage} (hattach : env.fails .ptraceAttach = false)
    (hsaves : SavesRegs env t.regs)
    (hstages : failedAt (payloadStages env (savedRegs env t.regs) ++ stages) = none) :
    WritesShellcode env t.regs ∧ env.fails .writePayload = false := by
  rw [failedAt_eq_none_iff] at hstages
  refine ⟨⟨hattach, hsaves, ?_⟩, ?_⟩
  · rw [failedAt_eq_none_iff]
    intro found hfound
    exact hstages found (List.mem_append_left _ (List.mem_of_mem_take hfound))
  · exact hstages (stage env .writePayload env.mmapRegs) (by simp [payloadStages])

theorem attach_returned (hfree : t.attached = false)
    (h : attach env payload t = (.ok (), t')) :
    (WritesShellcode env t.regs ∧ env.fails .writePayload = false) ∧
      t'.regs = savedRegs env t.regs := by
  unfold attach at h
  rw [if_neg (by simp [hfree])] at h
  obtain ⟨hattach, hsaves, hrest⟩ := saved_of_bind h
  obtain ⟨u, mid, hbody, hlast⟩ := parts_of_bind hrest
  obtain ⟨v, left, hdetach, hend⟩ := parts_of_bind hlast
  rcases htry : (do
      runPayload env payload (savedRegs env t.regs)
      checkSignal env
      setRegs env .restore (savedRegs env t.regs) : Inject Unit)
    { t with traced := true, regs := savedRegs env t.regs } with ⟨outcome, found⟩
  cases outcome with
  | error e =>
    obtain ⟨e', he'⟩ : ∃ e', (onException Exception.caught _
        (rescue env (savedRegs env t.regs)) _).1 = .error e' :=
      onException_raises (rescue_raises env (savedRegs env t.regs)) htry
    unfold rescue at he'
    rw [hbody] at he'
    cases he'
  | ok w =>
    obtain ⟨hstages, hregs⟩ := failedAt_of_ok (follows_attach rfl) htry
    rw [onException_ok htry] at hbody
    cases hbody
    refine ⟨writesShellcode_of_stages hattach hsaves hstages, ?_⟩
    have hfails : env.fails .detach = false := by
      by_contra hfails
      rw [ptraceDetach, call_error (by simpa using hfails)] at hdetach
      cases hdetach
    rw [ptraceDetach, call_ok hfails] at hdetach
    cases hdetach
    cases hend
    exact hregs

theorem injectSimple_returned (h : injectSimple env payload t = (.ok (), t')) :
    (WritesShellcode env t.regs ∧ env.fails .writePayload = false) ∧
      t'.regs = savedRegs env t.regs := by
  unfold injectSimple at h
  obtain ⟨hattach, hsaves, hrest⟩ := saved_of_bind h
  rcases htry : (do
      runPayload env payload (savedRegs env t.regs)
      setRegs env .restore (savedRegs env t.regs) : Inject Unit)
    { t with traced := true, regs := savedRegs env t.regs } with ⟨outcome, found⟩
  rw [andFinally_apply htry] at hrest
  have hfails : env.fails .detach = false := by
    by_contra hfails
    rw [ptraceDetach, call_error (by simpa using hfails)] at hrest
    cases hrest
  rw [ptraceDetach, call_ok hfails] at hrest
  cases hrest
  obtain ⟨hstages, hregs⟩ := failedAt_of_ok (follows_simple rfl) htry
  exact ⟨writesShellcode_of_stages hattach hsaves hstages, hregs⟩

end

theorem safeRsp_aligned (saved : UserRegs) : (safeRsp saved).toNat % 16 = 0 := by
  have hmask : (safeRsp saved).toNat &&& 2 ^ 4 - 1 = 0 := by
    rw [safeRsp, UInt64.toNat_and, Nat.and_assoc]
    exact Nat.and_zero _
  rw [Nat.and_two_pow_sub_one_eq_mod] at hmask
  exact hmask

theorem applyWrites_append (mem : Memory) (writes writes' : List (ℕ × List UInt8)) :
    applyWrites mem (writes ++ writes') = applyWrites (applyWrites mem writes) writes' :=
  List.foldl_append

theorem length_code (strAddr : UInt64) (symbols : Symbols) :
    (assemble (code strAddr symbols)).length = 53 := by
  simp [code, body, callAbsCode, assemble, encode, word_length, Reg.number]

/-- Both writes of an injection stand in the memory after it, in kept blocks. -/
theorem ready_of_contained {env : Env} {payload shellcode : List UInt8} {strAddr : ℕ}
    {saved : UserRegs} {writes : List (ℕ × List UInt8)} (mem : Memory)
    (hcode : makeShellcode strAddr env.symbols = .ok shellcode)
    (hwithin : Within env.mmapRegs.rax.toNat (strAddr, payload))
    (hapart : Apart (env.mmapRegs.rax.toNat, shellcode) (strAddr, payload))
    (hstack : Separate env.mmapRegs.rax 4096 (safeRsp saved - 8) 8) :
    Ready (InBlock env.mmapRegs.rax 4096)
      (machineOf (injectRegs saved env.mmapRegs.rax)
        (applyWrites mem (writes ++ [(env.mmapRegs.rax.toNat, shellcode), (strAddr, payload)])))
      (UInt64.ofNat strAddr) env.symbols payload := by
  have hlength := makeShellcode_length hcode
  obtain ⟨hfrom, hto⟩ := hwithin
  obtain ⟨d, rfl⟩ := Nat.exists_eq_add_of_le hfrom
  have hfits : d + payload.length ≤ 4096 := by
    dsimp only at hto
    omega
  have hbehind : 53 ≤ d ∨ payload.length = 0 := by
    unfold Apart at hapart
    dsimp only at hapart
    omega
  set region := env.mmapRegs.rax with hregion
  have haddr : UInt64.ofNat (region.toNat + d) = region + UInt64.ofNat d := by
    rw [UInt64.ofNat_add, UInt64.ofNat_toNat]
  have hzero : region + UInt64.ofNat 0 = region := UInt64.add_zero _
  have hlow : ∀ x, InBlock region 53 x → InBlock region 4096 x :=
    fun x hx => Nat.lt_of_lt_of_le hx (by omega)
  have hseparate : Separate region 53 (region + UInt64.ofNat d) payload.length := by
    rcases hbehind with hd | hnone
    · have hoffsets : Separate (region + UInt64.ofNat 0) 53 (region + UInt64.ofNat d)
          payload.length := separate_offsets (by omega) (by omega)
      rw [hzero] at hoffsets
      exact hoffsets
    · intro x _ hx
      rw [InBlock, hnone] at hx
      omega
  have hbytes := makeShellcode_eq hcode
  rw [haddr] at hbytes
  rw [applyWrites_append, haddr, hbytes]
  rw [hbytes] at hlength
  refine ⟨⟨?_, ?_, ?_, ?_, ?_⟩, ?_, ?_, ?_, ?_, safeRsp_aligned saved⟩
  · show Holds (store (store _ (UInt64.ofNat region.toNat) (assemble (code _ env.symbols)))
      (UInt64.ofNat (region.toNat + d)) payload) region (assemble (code _ env.symbols))
    rw [haddr, UInt64.ofNat_toNat]
    exact (holds_store (by omega)).store (by omega) (by rw [hlength]; exact hseparate)
  · omega
  · simp [code, body, callAbsCode, Instr.sets]
  · rw [hlength]
    exact hlow
  · rw [hlength]
    exact fun x hx => hstack x (hlow x hx)
  · show Holds (store _ (UInt64.ofNat (region.toNat + d)) _) (region + UInt64.ofNat d) _
    rw [haddr]
    exact holds_store (by omega)
  · omega
  · exact fun x hx => inBlock_of_offset hx hfits (by omega)
  · exact hstack.of_offset hfits (by omega)

/-- A run of the process from where it was continued, with the calls it makes, is one of
the injected code. -/
structure Injected (symbols : Symbols) (payload : List UInt8) (region : UInt64)
    (saved : UserRegs) (afters : List Machine) (s : Execution) : Prop where
  calls : Calls symbols payload s.events
  goesOn : s.trapped = false → ∀ after, (step s after).isSome
  ends : s.trapped = true ↔ afters.length = 10
  released : s.trapped = true → Released symbols payload s.events ∧
    s.machine.rip = region + 53 ∧ s.machine.reg .rsp = safeRsp saved ∧
    ∀ r ∈ calleeSaved, r ≠ .rbx → s.machine.reg r = gpr saved r

theorem untouched : ∀ r ∈ calleeSaved, r ≠ .rbx → r ≠ .rax ∧ r ≠ .rdi ∧ r ≠ .rsp := by decide

theorem gpr_injectRegs (saved : UserRegs) (region : UInt64) {r : Reg} (hr : r ≠ .rsp) :
    gpr (injectRegs saved region) r = gpr saved r := by
  cases r with
  | rsp => exact absurd rfl hr
  | _ => rfl

theorem code_take_ten (strAddr : UInt64) (symbols : Symbols) :
    (code strAddr symbols).take 10 = code strAddr symbols := rfl

/-- Whatever the routines do that are called, a run of a ready process is one of the
injected code. -/
theorem injected_of_ready {symbols : Symbols} {payload : List UInt8} {region strAddr : UInt64}
    {saved : UserRegs} {mem : Memory} {afters : List Machine} {s : Execution}
    (hready : Ready (InBlock region 4096) (machineOf (injectRegs saved region) mem) strAddr
      symbols payload)
    (halong : Along step (Ok (InBlock region 4096))
      { machine := machineOf (injectRegs saved region) mem } afters)
    (hrun : run step { machine := machineOf (injectRegs saved region) mem } afters = some s) :
    Injected symbols payload region saved afters s := by
  have hrunnable : Runnable _ _ (body strAddr symbols ++ [.int3]) := hready.runnable
  obtain ⟨done, hlen, hpart, hexec⟩ := run_executed hrunnable .start List.nil_prefix halong hrun
  rw [List.nil_append] at hpart hexec
  have hten : (code strAddr symbols).length = 10 := rfl
  have hdone : done = (code strAddr symbols).take afters.length := by
    rw [← hlen]
    exact List.prefix_iff_eq_take.mp hpart
  have hle : afters.length ≤ 10 := by
    rw [← hlen, ← hten]
    exact hpart.length_le
  subst hdone
  have hplaced := upto_placed hready hexec
  have hends : s.trapped = true ↔ afters.length = 10 := by
    constructor
    · intro htrap
      by_contra hne
      have hlt : afters.length ≤ 9 := by omega
      have hbody : (code strAddr symbols).take afters.length =
          (body strAddr symbols).take afters.length := List.take_append_of_le_length hlt
      have hnot := hexec.not_trapped (by
        rw [hbody]
        intro hmem
        have hin := List.mem_of_mem_take hmem
        simp [body, callAbsCode] at hin)
      rw [htrap] at hnot
      cases hnot
    · intro hall
      rw [hall] at hexec
      have hwhole : Executed _ _ (body strAddr symbols ++ [.int3]) s := hexec
      exact hwhole.trapped
  refine ⟨upto_calls hready hle hexec, ?_, hends, ?_⟩
  · intro htrap after
    exact hexec.enabled hrunnable hpart htrap after
  · intro htrap
    have hall := hends.mp htrap
    rw [hall] at hexec hplaced
    refine ⟨upto_ten hready hexec, ?_, hplaced.rsp, ?_⟩
    · rw [hplaced.rip, code_take_ten, length_code]
      rfl
    · intro r hr hne
      obtain ⟨hrax, hrdi, hrsp⟩ := untouched r hr hne
      rw [hexec.saved hr]
      · exact gpr_injectRegs saved region hrsp
      · simp [code, body, callAbsCode, Instr.sets, hrax.symm, hrdi.symm, Ne.symm hne]

/-- The process as an injection has let it go on, with all that was written to it. -/
def continued (env : Env) (mem : Memory) (t t' : Target) : Machine :=
  machineOf (injectRegs (savedRegs env t.regs) env.mmapRegs.rax) (applyWrites mem t'.writes)

theorem ready_continued {env : Env} {payload : List UInt8} {t t' : Target} (mem : Memory)
    (hstack : Separate env.mmapRegs.rax 4096 (safeRsp (savedRegs env t.regs) - 8) 8)
    (hcontained : Contained env payload t ((.ok () : Except Exception Unit), t')) :
    ∃ strAddr, Ready (InBlock env.mmapRegs.rax 4096) (continued env mem t t') strAddr env.symbols
      payload := by
  rcases hcontained with ⟨⟨e, he⟩, -⟩ | ⟨shellcode, strAddr, hcode, hsame, -, hwithin, hapart⟩
  · cases he
  · refine ⟨UInt64.ofNat strAddr, ?_⟩
    unfold continued
    rw [hsame]
    exact ready_of_contained mem hcode hwithin hapart hstack

/-- An injection that returns lets the process go with its registers as they were, after
it has gone on as a ready machine. -/
theorem ready_of_call {env : Env} {payload : List UInt8} {t t' : Target}
    (hcall : attach env payload t = (.ok (), t') ∧ t.attached = false ∨
      injectSimple env payload t = (.ok (), t'))
    (hfits : payload.length ≤ 3584) (mem : Memory)
    (hstack : Separate env.mmapRegs.rax 4096 (safeRsp (savedRegs env t.regs) - 8) 8) :
    t'.regs = savedRegs env t.regs ∧
      ∃ strAddr, Ready (InBlock env.mmapRegs.rax 4096) (continued env mem t t') strAddr
        env.symbols payload := by
  rcases hcall with ⟨hattach, hfree⟩ | hsimple
  · obtain ⟨⟨-, hpayload⟩, hregs⟩ := attach_returned hfree hattach
    have hiff := contained_attach_iff env payload t hfree
    rw [hattach] at hiff
    exact ⟨hregs, ready_continued mem hstack (hiff.mpr fun _ => ⟨hpayload, hfits⟩)⟩
  · obtain ⟨⟨-, hpayload⟩, hregs⟩ := injectSimple_returned hsimple
    have hiff := contained_injectSimple_iff env payload t
    rw [hsimple] at hiff
    exact ⟨hregs, ready_continued mem hstack (hiff.mpr fun _ => ⟨hpayload, hfits⟩)⟩

/-- An injection that returns has run its payload between the taking and the giving back
of the interpreter's lock, and lets the process go with its registers as they were. -/
theorem injected_calls {env : Env} {payload : List UInt8} {t t' : Target}
    (hcall : attach env payload t = (.ok (), t') ∧ t.attached = false ∨
      injectSimple env payload t = (.ok (), t'))
    (hfits : payload.length ≤ 3584) (mem : Memory)
    (hstack : Separate env.mmapRegs.rax 4096 (safeRsp (savedRegs env t.regs) - 8) 8)
    {afters : List Machine} {s : Execution}
    (halong : Along step (Ok (InBlock env.mmapRegs.rax 4096))
      { machine := continued env mem t t' } afters)
    (hrun : run step { machine := continued env mem t t' } afters = some s) :
    t'.regs = savedRegs env t.regs ∧
      Injected env.symbols payload env.mmapRegs.rax (savedRegs env t.regs) afters s := by
  obtain ⟨hregs, strAddr, hready⟩ := ready_of_call hcall hfits mem hstack
  exact ⟨hregs, injected_of_ready hready halong hrun⟩

/-- The region that the willing process maps lies apart from its stack. -/
theorem separate_willing :
    Separate willing.mmapRegs.rax 4096 (safeRsp (savedRegs willing stoppedRegs) - 8) 8 := by
  have hoffsets : Separate ((0x7FFDCFF8 : UInt64) + UInt64.ofNat 0) 8
      (0x7FFDCFF8 + UInt64.ofNat 0x7EFF80023008) 4096 := separate_offsets (by omega) (by omega)
  intro x hx hx'
  exact hoffsets x hx' hx

theorem injected_calls_willing : ∃ t' afters s,
    injectSimple willing (simplePayload "pass") { regs := stoppedRegs } = (.ok (), t') ∧
      Along step (Ok (InBlock willing.mmapRegs.rax 4096))
        { machine := continued willing (fun _ => 0) { regs := stoppedRegs } t' } afters ∧
      run step { machine := continued willing (fun _ => 0) { regs := stoppedRegs } t' } afters =
        some s ∧ s.trapped = true ∧ t'.regs = savedRegs willing stoppedRegs ∧
      Injected willing.symbols (simplePayload "pass") willing.mmapRegs.rax
        (savedRegs willing stoppedRegs) afters s := by
  obtain ⟨t', hcall⟩ : ∃ t', injectSimple willing (simplePayload "pass") { regs := stoppedRegs } =
      (.ok (), t') := ⟨_, rfl⟩
  have hfits : (simplePayload "pass").length ≤ 3584 := by decide
  obtain ⟨-, strAddr, hready⟩ := ready_of_call (.inr hcall) hfits (fun _ => 0) separate_willing
  have hrunnable : Runnable _ _ (body strAddr willing.symbols ++ [.int3]) := hready.runnable
  obtain ⟨afters, s, halong, hrun, htrap⟩ :=
    run_completes hrunnable .start rfl rfl (by simp [body, callAbsCode])
  exact ⟨t', afters, s, hcall, halong, hrun, htrap,
    injected_calls (.inr hcall) hfits (fun _ => 0) separate_willing halong hrun⟩

end HpcProfiler.InjectedCalls
