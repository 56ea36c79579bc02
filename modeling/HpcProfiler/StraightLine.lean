import HpcProfiler.MachineCode
import HpcProfiler.StepSystem

/-!
Running machine code that has no jumps. Routines that are called and the kernel are not
part of the code: the machine that they leave is given, and need only be one that the
calling convention allows. Where the code ends with a trap and stands in memory that
nobody writes, a run goes through its instructions one after another.
-/

namespace HpcProfiler.StraightLine

open LittleEndian MachineCode StepSystem

structure Machine where
  reg : Reg → UInt64
  rip : UInt64
  mem : Memory

def Machine.set (m : Machine) (r : Reg) (v : UInt64) : Machine :=
  { m with reg := Function.update m.reg r v }

def Machine.push (m : Machine) (v : UInt64) : Machine :=
  { m with
    reg := Function.update m.reg .rsp (m.reg .rsp - 8)
    mem := store m.mem (m.reg .rsp - 8) (word v) }

/-- The machine at the first instruction of the routine in the register. -/
def Machine.enter (m : Machine) (target : Reg) : Machine :=
  { m.push m.rip with rip := m.reg target }

def Machine.skip (m : Machine) (n : ℕ) : Machine := { m with rip := m.rip + UInt64.ofNat n }

/-- What an instruction leads to: the next state, the entry of a routine, the kernel with
a system call, or the end. -/
inductive Effect
  | next (m : Machine)
  | call (entry : Machine)
  | kernel (entry : Machine)
  | trap (m : Machine)

/-- The instruction pointer is already behind the instruction. -/
def exec (m : Machine) : Instr → Effect
  | .movImm dst value => .next (m.set dst value)
  | .movReg dst src => .next (m.set dst (m.reg src))
  | .call target => .call (m.enter target)
  | .int3 => .trap m
  | .syscall => .kernel m

def Machine.effect (m : Machine) : Option Effect :=
  (decode fun i => m.mem (m.rip + UInt64.ofNat i)).map fun (i, n) => exec (m.skip n) i

inductive Event
  | call (entry after : Machine)
  | syscall (entry after : Machine)

structure Execution where
  machine : Machine
  events : List Event := []
  trapped : Bool := false

def advance (s : Execution) (after : Machine) : Effect → Execution
  | .next m => { s with machine := m }
  | .call entry => { s with machine := after, events := s.events ++ [.call entry after] }
  | .kernel entry => { s with machine := after, events := s.events ++ [.syscall entry after] }
  | .trap m => { s with machine := m, trapped := true }

/-- One instruction, together with what it calls. -/
def step (s : Execution) (after : Machine) : Option Execution :=
  if s.trapped then none else s.machine.effect.map (advance s after)

def calleeSaved : List Reg := [.rbx, .rbp, .r12, .r13, .r14, .r15]

theorem ne_rsp : ∀ r ∈ calleeSaved, r ≠ .rsp := by decide

theorem not_scratch : ∀ r ∈ calleeSaved, r ∉ [Reg.rax, .rcx, .r11] := by decide

/-- A routine has returned behind its call, with the stack as it was and with what it
must keep for its caller. -/
structure Returns (kept : UInt64 → Prop) (entry after : Machine) : Prop where
  rip : after.rip = wordAt (fun i => entry.mem (entry.reg .rsp + UInt64.ofNat i)) 0
  rsp : after.reg .rsp = entry.reg .rsp + 8
  saved : ∀ r ∈ calleeSaved, after.reg r = entry.reg r
  mem : ∀ x, kept x → after.mem x = entry.mem x

/-- The kernel goes on behind the system call, with its result in the first register. -/
structure Resumes (kept : UInt64 → Prop) (entry after : Machine) : Prop where
  rip : after.rip = entry.rip
  saved : ∀ r, r ∉ [Reg.rax, .rcx, .r11] → after.reg r = entry.reg r
  mem : ∀ x, kept x → after.mem x = entry.mem x

def Proper (kept : UInt64 → Prop) (after : Machine) : Effect → Prop
  | .call entry => Returns kept entry after
  | .kernel entry => Resumes kept entry after
  | _ => True

/-- What is called in this state keeps to its convention. -/
def Ok (kept : UInt64 → Prop) (s : Execution) (after : Machine) : Prop :=
  ∀ effect, s.machine.effect = some effect → Proper kept after effect

def assemble (code : List Instr) : List UInt8 := code.flatMap encode

/-- The instructions have been executed in their order, whatever was called has kept to
its convention. -/
inductive Executed (kept : UInt64 → Prop) (start : Machine) : List Instr → Execution → Prop
  | start : Executed kept start [] { machine := start }
  | snoc {done : List Instr} {s : Execution} {i : Instr} {after : Machine}
      (hdone : Executed kept start done s)
      (hproper : Proper kept after (exec (s.machine.skip (encode i).length) i)) :
      Executed kept start (done ++ [i])
        (advance s after (exec (s.machine.skip (encode i).length) i))

section

variable {kept : UInt64 → Prop} {start : Machine} {code done rest : List Instr} {i : Instr}
  {s s' : Execution} {after : Machine} {afters : List Machine}

theorem assemble_append (code code' : List Instr) :
    assemble (code ++ code') = assemble code ++ assemble code' := List.flatMap_append

theorem Executed.cons_inv (h : Executed kept start (done ++ [i]) s') :
    ∃ s after, Executed kept start done s ∧
      Proper kept after (exec (s.machine.skip (encode i).length) i) ∧
      s' = advance s after (exec (s.machine.skip (encode i).length) i) := by
  generalize hcode : done ++ [i] = code at h
  cases h with
  | start => simp at hcode
  | snoc hdone hproper =>
    obtain ⟨rfl, hlast⟩ := List.append_inj' hcode rfl
    cases hlast
    exact ⟨_, _, hdone, hproper, rfl⟩

/-- What the state before an instruction has, and what the instruction does to it. -/
theorem Executed.then {P Q : Execution → Prop} (h : Executed kept start (done ++ [i]) s')
    (hbefore : ∀ s, Executed kept start done s → P s)
    (hstep : ∀ s after, Executed kept start done s → P s →
      Proper kept after (exec (s.machine.skip (encode i).length) i) →
      Q (advance s after (exec (s.machine.skip (encode i).length) i))) : Q s' := by
  obtain ⟨s, after, hdone, hproper, rfl⟩ := h.cons_inv
  exact hstep s after hdone (hbefore s hdone) hproper

theorem executed_nil : Executed kept start [] s ↔ s = { machine := start } := by
  constructor
  · intro h
    generalize hcode : ([] : List Instr) = code at h
    cases h with
    | start => rfl
    | snoc hdone hproper => simp at hcode
  · rintro rfl
    exact .start

/-- A word that was pushed is found on the stack. -/
theorem wordAt_push (m : Machine) (v : UInt64) :
    wordAt (fun i => (m.push v).mem ((m.push v).reg .rsp + UInt64.ofNat i)) 0 = v := by
  apply Begins.wordAt
  have hheld : Holds (store m.mem (m.reg .rsp - 8) (word v)) (m.reg .rsp - 8) (word v) :=
    holds_store (by rw [word_length]; omega)
  have hrsp : (m.push v).reg .rsp = m.reg .rsp - 8 := by simp [Machine.push]
  rw [hrsp]
  exact hheld

theorem enter_rsp (m : Machine) (target : Reg) : (m.enter target).reg .rsp + 8 = m.reg .rsp := by
  simp [Machine.enter, Machine.push]

theorem enter_reg (m : Machine) (target : Reg) {r : Reg} (hr : r ≠ .rsp) :
    (m.enter target).reg r = m.reg r := Function.update_of_ne hr _ _

theorem enter_mem (m : Machine) (target : Reg) {x : UInt64}
    (hout : ¬InBlock (m.reg .rsp - 8) 8 x) : (m.enter target).mem x = m.mem x :=
  store_of_not_inBlock (by rw [word_length]; exact hout)

/-- A call and the routine it calls leave the stack pointer, the registers of the caller
and the kept memory as they were. -/
theorem returns_call {m : Machine} {target : Reg}
    (h : Returns kept (m.enter target) after) :
    after.rip = m.rip ∧ after.reg .rsp = m.reg .rsp ∧
      (∀ r ∈ calleeSaved, after.reg r = m.reg r) ∧
      ∀ x, kept x → ¬InBlock (m.reg .rsp - 8) 8 x → after.mem x = m.mem x := by
  refine ⟨?_, ?_, ?_, ?_⟩
  · rw [h.rip]
    exact wordAt_push m m.rip
  · rw [h.rsp, enter_rsp]
  · intro r hr
    rw [h.saved r hr, enter_reg m target (ne_rsp r hr)]
  · intro x hkept hout
    rw [h.mem x hkept, enter_mem m target hout]

/-- Code that can be run where it stands: it leaves the stack pointer to its calls, its
bytes are kept, and its calls push no byte onto it. -/
structure Runnable (kept : UInt64 → Prop) (start : Machine) (code : List Instr) : Prop where
  held : Holds start.mem start.rip (assemble code)
  len : (assemble code).length ≤ 2 ^ 64
  rsp : ∀ i ∈ code, i.sets ≠ some .rsp
  kept : ∀ x, InBlock start.rip (assemble code).length x → kept x
  apart : Separate start.rip (assemble code).length (start.reg .rsp - 8) 8

/-- The place of a machine in its code. -/
structure Placed (start : Machine) (code done : List Instr) (m : Machine) : Prop where
  rip : m.rip = start.rip + UInt64.ofNat (assemble done).length
  rsp : m.reg .rsp = start.reg .rsp
  held : Holds m.mem start.rip (assemble code)

theorem Placed.skip {m : Machine} (h : Placed start code done m) :
    Placed start code (done ++ [i]) (m.skip (encode i).length) := by
  refine ⟨?_, h.rsp, h.held⟩
  rw [Machine.skip, h.rip, add_ofNat_add, assemble_append, List.length_append]
  simp [assemble]

theorem Placed.set {m : Machine} {r : Reg} {v : UInt64} (h : Placed start code done m)
    (hr : r ≠ .rsp) : Placed start code done (m.set r v) := by
  refine ⟨h.rip, ?_, h.held⟩
  rw [← h.rsp]
  exact Function.update_of_ne (Ne.symm hr) _ _

theorem Placed.of_call {m : Machine} {target : Reg} (hrun : Runnable kept start code)
    (h : Placed start code done m)
    (hreturns : Returns kept (m.enter target) after) :
    Placed start code done after := by
  obtain ⟨hrip, hrsp, -, hmem⟩ := returns_call hreturns
  refine ⟨by rw [hrip, h.rip], by rw [hrsp, h.rsp], ?_⟩
  refine h.held.of_same hrun.len fun x hx => hmem x (hrun.kept x hx) ?_
  rw [h.rsp]
  exact hrun.apart x hx

theorem Placed.of_kernel {m : Machine} (hrun : Runnable kept start code)
    (h : Placed start code done m) (hresumes : Resumes kept m after) :
    Placed start code done after := by
  refine ⟨by rw [hresumes.rip, h.rip], ?_, ?_⟩
  · rw [hresumes.saved .rsp (by decide), h.rsp]
  · exact h.held.of_same hrun.len fun x hx => hresumes.mem x (hrun.kept x hx)

/-- Executing the next instruction moves the machine behind it. -/
theorem Placed.exec (hrun : Runnable kept start code) (hsets : i.sets ≠ some .rsp)
    (h : Placed start code done s.machine)
    (hproper : Proper kept after (exec (s.machine.skip (encode i).length) i)) :
    Placed start code (done ++ [i])
      (advance s after (exec (s.machine.skip (encode i).length) i)).machine := by
  have hskip := h.skip (i := i)
  cases i with
  | movImm dst value => exact hskip.set fun hdst => hsets (congrArg some hdst)
  | movReg dst src => exact hskip.set fun hdst => hsets (congrArg some hdst)
  | call target => exact hskip.of_call hrun hproper
  | int3 => exact hskip
  | syscall => exact hskip.of_kernel hrun hproper

theorem Executed.placed (hrun : Runnable kept start code) (h : Executed kept start done s)
    (hpart : done <+: code) : Placed start code done s.machine := by
  induction h with
  | start => exact ⟨by simp [assemble], rfl, hrun.held⟩
  | @snoc done s i after hdone hproper ih =>
    have hmem : i ∈ code := hpart.subset (by simp)
    exact (ih ((List.prefix_append done [i]).trans hpart)).exec hrun (hrun.rsp i hmem) hproper

/-- The machine decodes the instruction of the code that comes next. -/
theorem Placed.effect {m : Machine} (h : Placed start (done ++ i :: rest) done m) :
    m.effect = some (StraightLine.exec (m.skip (encode i).length) i) := by
  have hheld := h.held
  rw [assemble_append] at hheld
  have hnext : Holds m.mem m.rip (encode i ++ assemble rest) := by
    rw [h.rip]
    exact hheld.right
  rw [Machine.effect, decode_encode hnext.left]
  rfl

/-- What is kept is written by the pushes of the calls only. -/
theorem Executed.mem (hrun : Runnable kept start code) (h : Executed kept start done s)
    (hpart : done <+: code) {x : UInt64} (hkept : kept x)
    (hout : ¬InBlock (start.reg .rsp - 8) 8 x) : s.machine.mem x = start.mem x := by
  induction h with
  | start => rfl
  | @snoc done s i after hdone hproper ih =>
    have hpart' := (List.prefix_append done [i]).trans hpart
    have hrsp := (hdone.placed hrun hpart').rsp
    rw [← ih hpart']
    cases i with
    | movImm dst value => rfl
    | movReg dst src => rfl
    | call target =>
      refine (returns_call hproper).2.2.2 x hkept ?_
      rw [← hrsp] at hout
      exact hout
    | int3 => rfl
    | syscall => exact hproper.mem x hkept

/-- A register of the caller that the code does not set keeps its value. -/
theorem Executed.saved (h : Executed kept start done s) {r : Reg} (hr : r ∈ calleeSaved)
    (hsets : ∀ i ∈ done, i.sets ≠ some r) : s.machine.reg r = start.reg r := by
  induction h with
  | start => rfl
  | @snoc done s i after hdone hproper ih =>
    have hkeeps := ih fun j hj => hsets j (List.mem_append_left _ hj)
    have hother := hsets i (by simp)
    rw [← hkeeps]
    cases i with
    | movImm dst value =>
      exact Function.update_of_ne (fun heq => hother (congrArg some heq.symm)) _ _
    | movReg dst src => exact Function.update_of_ne (fun heq => hother (congrArg some heq.symm)) _ _
    | call target => exact (returns_call hproper).2.2.1 r hr
    | int3 => rfl
    | syscall => exact hproper.saved r (not_scratch r hr)

theorem Executed.not_trapped (h : Executed kept start done s) (hnot : .int3 ∉ done) :
    s.trapped = false := by
  induction h with
  | start => rfl
  | @snoc done s i after hdone hproper ih =>
    have hbefore := ih fun hin => hnot (List.mem_append_left _ hin)
    cases i with
    | int3 => exact absurd (by simp) hnot
    | _ => exact hbefore

theorem Executed.trapped (h : Executed kept start (done ++ [.int3]) s) : s.trapped = true := by
  obtain ⟨s, after, -, -, rfl⟩ := h.cons_inv
  rfl

/-- As long as the trap is not reached there is an instruction to execute. -/
theorem Executed.next (h : Executed kept start done s) (hpart : done <+: code ++ [.int3])
    (htrap : s.trapped = false) : ∃ i rest, code ++ [.int3] = done ++ i :: rest := by
  obtain ⟨rest, hrest⟩ := hpart
  cases rest with
  | cons i rest => exact ⟨i, rest, hrest.symm⟩
  | nil =>
    rw [List.append_nil] at hrest
    subst hrest
    rw [h.trapped] at htrap
    cases htrap

/-- A step of a run executes the next instruction. -/
theorem Executed.step (hrun : Runnable kept start (code ++ [.int3]))
    (h : Executed kept start done s) (hpart : done <+: code ++ [.int3]) (hok : Ok kept s after)
    (hstep : StraightLine.step s after = some s') :
    ∃ i, done ++ [i] <+: code ++ [.int3] ∧ Executed kept start (done ++ [i]) s' := by
  unfold StraightLine.step at hstep
  split at hstep
  · cases hstep
  · rename_i htrap
    obtain ⟨i, rest, hcode⟩ := h.next hpart (by simpa using htrap)
    have hplaced := h.placed hrun hpart
    rw [hcode] at hplaced
    have heffect := hplaced.effect
    rw [heffect] at hstep
    cases hstep
    refine ⟨i, ?_, .snoc h (hok _ heffect)⟩
    rw [hcode]
    exact ⟨rest, by simp⟩

/-- A run of the code executes as many of its instructions as it has steps. -/
theorem run_executed (hrun : Runnable kept start (code ++ [.int3]))
    (h : Executed kept start done s) (hpart : done <+: code ++ [.int3])
    (halong : Along step (Ok kept) s afters) (hsteps : run step s afters = some s') :
    ∃ more, more.length = afters.length ∧ done ++ more <+: code ++ [.int3] ∧
      Executed kept start (done ++ more) s' := by
  induction afters generalizing s done with
  | nil =>
    cases hsteps
    exact ⟨[], rfl, by simpa using hpart, by simpa using h⟩
  | cons after afters ih =>
    obtain ⟨mid, hmid, hrest⟩ := run_cons_eq_some.mp hsteps
    obtain ⟨i, hpart', h'⟩ := h.step hrun hpart halong.1 hmid
    obtain ⟨more, hlen, hmore, hexec⟩ := ih h' hpart' (halong.2 mid hmid) hrest
    refine ⟨i :: more, by simp [hlen], ?_, ?_⟩
    · simpa using hmore
    · simpa using hexec

/-- No run of the code gets stuck before its trap. -/
theorem Executed.enabled (hrun : Runnable kept start (code ++ [.int3]))
    (h : Executed kept start done s) (hpart : done <+: code ++ [.int3])
    (htrap : s.trapped = false) (after : Machine) : (StraightLine.step s after).isSome := by
  obtain ⟨i, rest, hcode⟩ := h.next hpart htrap
  have hplaced := h.placed hrun hpart
  rw [hcode] at hplaced
  rw [StraightLine.step, htrap, hplaced.effect]
  rfl

/-- A routine that does nothing but return. -/
def Machine.returned (entry : Machine) : Machine where
  reg := Function.update entry.reg .rsp (entry.reg .rsp + 8)
  rip := wordAt (fun i => entry.mem (entry.reg .rsp + UInt64.ofNat i)) 0
  mem := entry.mem

theorem returns_returned (entry : Machine) : Returns kept entry entry.returned where
  rip := rfl
  rsp := by simp [Machine.returned]
  saved := fun r hr => Function.update_of_ne (ne_rsp r hr) _ _
  mem := fun x hx => rfl

/-- The machine that such routines and an idle kernel leave. -/
def Effect.left : Effect → Machine
  | .next m => m
  | .call entry => entry.returned
  | .kernel entry => entry
  | .trap m => m

theorem proper_left (effect : Effect) : Proper kept effect.left effect := by
  cases effect with
  | call entry => exact returns_returned entry
  | kernel entry => exact ⟨rfl, fun r hr => rfl, fun x hx => rfl⟩
  | _ => exact trivial

/-- Where everything returns that is called, the code is run to its trap. -/
theorem run_completes (hrun : Runnable kept start (code ++ [.int3]))
    (h : Executed kept start done s) (hcode : done ++ rest = code ++ [.int3])
    (htrap : s.trapped = false) (hnot : .int3 ∉ code) :
    ∃ afters s', Along step (Ok kept) s afters ∧ run step s afters = some s' ∧
      s'.trapped = true := by
  induction rest generalizing done s with
  | nil =>
    rw [List.append_nil] at hcode
    subst hcode
    rw [h.trapped] at htrap
    cases htrap
  | cons i rest ih =>
    have hpart : done <+: code ++ [.int3] := ⟨i :: rest, hcode⟩
    have hplaced := h.placed hrun hpart
    rw [← hcode] at hplaced
    have heffect := hplaced.effect
    set effect := StraightLine.exec (s.machine.skip (encode i).length) i with hdef
    have hproper : Proper kept effect.left effect := proper_left effect
    have hok : Ok kept s effect.left := by
      intro other hother
      rw [heffect] at hother
      cases hother
      exact hproper
    have hstep : StraightLine.step s effect.left = some (advance s effect.left effect) := by
      rw [StraightLine.step, htrap, heffect]
      rfl
    have hnext : Executed kept start (done ++ [i]) (advance s effect.left effect) := .snoc h hproper
    cases rest with
    | nil =>
      obtain ⟨-, hlast⟩ := List.append_inj' hcode rfl
      cases hlast
      refine ⟨[effect.left], _, ⟨hok, fun s' _ => trivial⟩, ?_, hnext.trapped⟩
      rw [run, hstep]
      rfl
    | cons j rest =>
      have hin : done ++ [i] <+: code := by
        apply List.prefix_of_prefix_length_le ⟨j :: rest, by simpa using hcode⟩
          (List.prefix_append code [.int3])
        have hlen := congrArg List.length hcode
        simp only [List.length_append, List.length_cons, List.length_nil] at hlen ⊢
        omega
      have htrap' := hnext.not_trapped fun hmem => hnot (hin.subset hmem)
      obtain ⟨afters, s', halong, hsteps, hend⟩ := ih hnext (by simpa using hcode) htrap'
      refine ⟨effect.left :: afters, s', ⟨hok, ?_⟩, ?_, hend⟩
      · intro s'' hs''
        rw [hstep] at hs''
        cases hs''
        exact halong
      · rw [run, hstep]
        exact hsteps

end

end HpcProfiler.StraightLine
