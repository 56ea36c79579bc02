import HpcProfiler.InjectionRegion
import HpcProfiler.StraightLine
import Mathlib.Tactic.IntervalCases

/-!
Running the shellcode. Its bytes are ten instructions, and in every run of them the
routines that the target offers are called in the order and with the arguments that a
caller of the interpreter owes: the lock is taken, the source is run from where it was
written, and the lock is given back with the state that its taking returned.
-/

namespace HpcProfiler.ShellcodeRun

open LittleEndian StructFormat MachineCode StraightLine StepSystem FallibleSteps Injection
  InjectionCleanup InjectionRegion

/-- A symbol's address as the machine has it. -/
def address (v : ℤ) : UInt64 := UInt64.ofNat v.toNat

def callAbsCode (addr : UInt64) : List Instr := [.movImm .rax addr, .call .rax]

/-- The instructions of the shellcode before its trap. -/
def body (strAddr : UInt64) (symbols : Symbols) : List Instr :=
  callAbsCode (address symbols.pyGILStateEnsure) ++ [.movReg .rbx .rax, .movImm .rdi strAddr] ++
    callAbsCode (address symbols.pyRunSimpleString) ++ [.movReg .rdi .rbx] ++
    callAbsCode (address symbols.pyGILStateRelease)

def code (strAddr : UInt64) (symbols : Symbols) : List Instr := body strAddr symbols ++ [.int3]

theorem pack_word {addr : ℤ} {bytes : List UInt8} (h : pack [.Q] [addr] = .ok bytes) :
    bytes = word (address addr) := by
  obtain ⟨⟨hlow, hhigh⟩, rest, hrest, rfl⟩ := pack_cons_ok h
  cases hrest
  have hnonneg : 0 ≤ addr := hlow
  have hlt : addr < 256 ^ 8 := by simpa [Code.low, Code.signed, Code.modulus, Code.size] using hhigh
  have hmod : addr % 256 ^ 8 = addr := Int.emod_eq_of_lt hnonneg hlt
  have hnat : (address addr).toNat = addr.toNat := by
    rw [address, UInt64.toNat_ofNat_of_lt']
    rw [UInt64.size]
    omega
  rw [List.append_nil, word, hnat, Code.bytes, Code.modulus]
  exact congrArg (fun v : ℤ => leBytes 8 v.toNat) hmod

theorem callAbs_eq {addr : ℤ} {code : List UInt8} (h : callAbs addr = .ok code) :
    code = assemble (callAbsCode (address addr)) := by
  obtain ⟨bytes, hpack, rfl⟩ := ok_of_map h
  rw [pack_word hpack]
  rfl

theorem movabsRdi_eq {addr : ℤ} {code : List UInt8} (h : movabsRdi addr = .ok code) :
    code = assemble [.movImm .rdi (address addr)] := by
  obtain ⟨bytes, hpack, rfl⟩ := ok_of_map h
  rw [pack_word hpack]
  simp [assemble, encode, Reg.number]

/-- The bytes of the shellcode are these instructions. -/
theorem makeShellcode_eq {strAddr : ℕ} {symbols : Symbols} {shellcode : List UInt8}
    (h : makeShellcode strAddr symbols = .ok shellcode) :
    shellcode = assemble (code (UInt64.ofNat strAddr) symbols) := by
  obtain ⟨ensure, hensure, h⟩ := ok_of_bind h
  obtain ⟨argument, hargument, h⟩ := ok_of_bind h
  obtain ⟨run, hrun, h⟩ := ok_of_bind h
  obtain ⟨release, hrelease, h⟩ := ok_of_bind h
  cases h
  rw [callAbs_eq hensure, movabsRdi_eq hargument, callAbs_eq hrun, callAbs_eq hrelease]
  have haddr : address ((strAddr : ℕ) : ℤ) = UInt64.ofNat strAddr := rfl
  simp [code, body, assemble_append, haddr]
  simp [assemble, encode, Reg.number]

/-- A routine is entered, with the stack aligned as the convention asks. -/
structure Entered (addr : ℤ) (entry : Machine) : Prop where
  rip : entry.rip = address addr
  aligned : (entry.reg .rsp + 8).toNat % 16 = 0

/-- The lock has been taken, and this state returned. -/
def Ensured (symbols : Symbols) (events : List Event) (gil : UInt64) : Prop :=
  ∃ entry after, events = [.call entry after] ∧ Entered symbols.pyGILStateEnsure entry ∧
    after.reg .rax = gil

/-- The source has been run as well, from where it stands in the memory. -/
def Ran (symbols : Symbols) (source : List UInt8) (events : List Event) (gil : UInt64) : Prop :=
  ∃ before entry after, Ensured symbols before gil ∧ events = before ++ [.call entry after] ∧
    Entered symbols.pyRunSimpleString entry ∧ Holds entry.mem (entry.reg .rdi) source

/-- The lock has been given back with the state that was returned. -/
def Released (symbols : Symbols) (source : List UInt8) (events : List Event) : Prop :=
  ∃ before gil entry after, Ran symbols source before gil ∧
    events = before ++ [.call entry after] ∧ Entered symbols.pyGILStateRelease entry ∧
    entry.reg .rdi = gil

/-- The calls that have been made are the first of the three. -/
def Calls (symbols : Symbols) (source : List UInt8) (events : List Event) : Prop :=
  events = [] ∨ (∃ gil, Ensured symbols events gil) ∨ (∃ gil, Ran symbols source events gil) ∨
    Released symbols source events

section

variable {kept : UInt64 → Prop} {start : Machine} {strAddr : UInt64} {symbols : Symbols}
  {source : List UInt8} {s : Execution}

/-- What the run of the shellcode rests on: code and source stand in kept memory on which
its calls push nothing, and the stack is aligned. -/
structure Ready (kept : UInt64 → Prop) (start : Machine) (strAddr : UInt64) (symbols : Symbols)
    (source : List UInt8) : Prop where
  runnable : Runnable kept start (code strAddr symbols)
  held : Holds start.mem strAddr source
  len : source.length ≤ 2 ^ 64
  kept : ∀ x, InBlock strAddr source.length x → kept x
  apart : Separate strAddr source.length (start.reg .rsp - 8) 8
  aligned : (start.reg .rsp).toNat % 16 = 0

/-- The first instructions of the shellcode have been executed. -/
abbrev Upto (kept : UInt64 → Prop) (start : Machine) (strAddr : UInt64) (symbols : Symbols) (n : ℕ)
    (s : Execution) : Prop :=
  Executed kept start ((code strAddr symbols).take n) s

theorem upto_placed {n : ℕ} (hready : Ready kept start strAddr symbols source)
    (h : Upto kept start strAddr symbols n s) :
    Placed start (code strAddr symbols) ((code strAddr symbols).take n)
      s.machine :=
  h.placed hready.runnable (List.take_prefix _ _)

/-- A call from an aligned stack enters its routine as the convention asks. -/
theorem entered {n : ℕ} {addr : ℤ} {target : Reg} (len : ℕ)
    (hready : Ready kept start strAddr symbols source) (h : Upto kept start strAddr symbols n s)
    (htarget : s.machine.reg target = address addr) :
    Entered addr ((s.machine.skip len).enter target) := by
  refine ⟨htarget, ?_⟩
  have hrsp := (upto_placed hready h).rsp
  rw [enter_rsp]
  show (s.machine.reg .rsp).toNat % 16 = 0
  rw [hrsp]
  exact hready.aligned

/-- What the next instruction does to a state that the ones before it have led to. -/
theorem upto_then {n : ℕ} {P Q : Execution → Prop} (i : Instr)
    (hnext : (code strAddr symbols).take (n + 1) = (code strAddr symbols).take n ++ [i])
    (h : Upto kept start strAddr symbols (n + 1) s)
    (hbefore : ∀ s, Upto kept start strAddr symbols n s → P s)
    (hstep : ∀ s after, Upto kept start strAddr symbols n s → P s →
      Proper kept after (exec (s.machine.skip (encode i).length) i) →
      Q (advance s after (exec (s.machine.skip (encode i).length) i))) : Q s := by
  have hexec : Executed kept start ((code strAddr symbols).take n ++ [i]) s := hnext ▸ h
  exact hexec.then hbefore hstep

theorem upto_one (h : Upto kept start strAddr symbols 1 s) :
    s.events = [] ∧ s.machine.reg .rax = address symbols.pyGILStateEnsure := by
  refine upto_then (P := fun s => s.events = [])
    (Q := fun s => s.events = [] ∧ s.machine.reg .rax = address symbols.pyGILStateEnsure)
    (.movImm .rax (address symbols.pyGILStateEnsure)) rfl h ?_ ?_
  · intro s hdone
    rw [executed_nil.mp hdone]
  · intro s after hdone hevents hproper
    exact ⟨hevents, by simp [exec, advance, Machine.set]⟩

theorem upto_two (hready : Ready kept start strAddr symbols source)
    (h : Upto kept start strAddr symbols 2 s) :
    ∃ gil, Ensured symbols s.events gil ∧ s.machine.reg .rax = gil := by
  apply upto_then (.call .rax) rfl h (fun s h => upto_one h)
  intro s after hdone ⟨hevents, hrax⟩ hproper
  refine ⟨after.reg .rax, ⟨_, after, ?_, entered 2 hready hdone hrax, rfl⟩, rfl⟩
  show s.events ++ _ = _
  rw [hevents]
  rfl

theorem upto_three (hready : Ready kept start strAddr symbols source)
    (h : Upto kept start strAddr symbols 3 s) :
    ∃ gil, Ensured symbols s.events gil ∧ s.machine.reg .rbx = gil := by
  apply upto_then (.movReg .rbx .rax) rfl h (fun s h => upto_two hready h)
  intro s after hdone ⟨gil, hensured, hrax⟩ hproper
  refine ⟨gil, hensured, ?_⟩
  rw [← hrax]
  simp [exec, advance, Machine.set, Machine.skip]

theorem upto_four (hready : Ready kept start strAddr symbols source)
    (h : Upto kept start strAddr symbols 4 s) :
    ∃ gil, Ensured symbols s.events gil ∧ s.machine.reg .rbx = gil ∧
      s.machine.reg .rdi = strAddr := by
  apply upto_then (.movImm .rdi strAddr) rfl h (fun s h => upto_three hready h)
  intro s after hdone ⟨gil, hensured, hrbx⟩ hproper
  refine ⟨gil, hensured, ?_, ?_⟩
  · rw [← hrbx]
    simp [exec, advance, Machine.set, Machine.skip]
  · simp [exec, advance, Machine.set]

theorem upto_five (hready : Ready kept start strAddr symbols source)
    (h : Upto kept start strAddr symbols 5 s) :
    ∃ gil, Ensured symbols s.events gil ∧ s.machine.reg .rbx = gil ∧
      s.machine.reg .rdi = strAddr ∧ s.machine.reg .rax = address symbols.pyRunSimpleString := by
  apply upto_then (.movImm .rax (address symbols.pyRunSimpleString)) rfl h
    (fun s h => upto_four hready h)
  intro s after hdone ⟨gil, hensured, hrbx, hrdi⟩ hproper
  refine ⟨gil, hensured, ?_, ?_, ?_⟩
  · rw [← hrbx]
    simp [exec, advance, Machine.set, Machine.skip]
  · rw [← hrdi]
    simp [exec, advance, Machine.set, Machine.skip]
  · simp [exec, advance, Machine.set]

/-- The source is found at its address when a routine is entered. -/
theorem holds_source {n : ℕ} {target : Reg} {len : ℕ}
    (hready : Ready kept start strAddr symbols source) (h : Upto kept start strAddr symbols n s) :
    Holds ((s.machine.skip len).enter target).mem strAddr source := by
  refine hready.held.of_same hready.len fun x hx => ?_
  have hout := hready.apart x hx
  have hrsp := (upto_placed hready h).rsp
  rw [enter_mem _ _ (by rw [← hrsp] at hout; exact hout)]
  exact h.mem hready.runnable (List.take_prefix _ _) (hready.kept x hx) hout

theorem upto_six (hready : Ready kept start strAddr symbols source)
    (h : Upto kept start strAddr symbols 6 s) :
    ∃ gil, Ran symbols source s.events gil ∧ s.machine.reg .rbx = gil := by
  apply upto_then (.call .rax) rfl h (fun s h => upto_five hready h)
  intro s after hdone ⟨gil, hensured, hrbx, hrdi, hrax⟩ hproper
  refine ⟨gil, ⟨s.events, _, after, hensured, rfl, entered _ hready hdone hrax, ?_⟩, ?_⟩
  · rw [enter_reg _ _ (by decide)]
    show Holds _ (s.machine.reg .rdi) source
    rw [hrdi]
    exact holds_source hready hdone
  · rw [← hrbx]
    exact (returns_call hproper).2.2.1 .rbx (by decide)

theorem upto_seven (hready : Ready kept start strAddr symbols source)
    (h : Upto kept start strAddr symbols 7 s) :
    ∃ gil, Ran symbols source s.events gil ∧ s.machine.reg .rdi = gil := by
  apply upto_then (.movReg .rdi .rbx) rfl h (fun s h => upto_six hready h)
  intro s after hdone ⟨gil, hran, hrbx⟩ hproper
  refine ⟨gil, hran, ?_⟩
  rw [← hrbx]
  simp [exec, advance, Machine.set, Machine.skip]

theorem upto_eight (hready : Ready kept start strAddr symbols source)
    (h : Upto kept start strAddr symbols 8 s) :
    ∃ gil, Ran symbols source s.events gil ∧ s.machine.reg .rdi = gil ∧
      s.machine.reg .rax = address symbols.pyGILStateRelease := by
  apply upto_then (.movImm .rax (address symbols.pyGILStateRelease)) rfl h
    (fun s h => upto_seven hready h)
  intro s after hdone ⟨gil, hran, hrdi⟩ hproper
  refine ⟨gil, hran, ?_, ?_⟩
  · rw [← hrdi]
    simp [exec, advance, Machine.set, Machine.skip]
  · simp [exec, advance, Machine.set]

theorem upto_nine (hready : Ready kept start strAddr symbols source)
    (h : Upto kept start strAddr symbols 9 s) : Released symbols source s.events := by
  apply upto_then (.call .rax) rfl h (fun s h => upto_eight hready h)
  intro s after hdone ⟨gil, hran, hrdi, hrax⟩ hproper
  refine ⟨s.events, gil, _, after, hran, rfl, entered _ hready hdone hrax, ?_⟩
  rw [enter_reg _ _ (by decide)]
  exact hrdi

theorem upto_ten (hready : Ready kept start strAddr symbols source)
    (h : Upto kept start strAddr symbols 10 s) : Released symbols source s.events := by
  apply upto_then (.int3) rfl h (fun s h => upto_nine hready h)
  intro s after hdone hreleased hproper
  exact hreleased

theorem upto_calls {n : ℕ} (hready : Ready kept start strAddr symbols source) (hn : n ≤ 10)
    (h : Upto kept start strAddr symbols n s) : Calls symbols source s.events := by
  interval_cases n
  · exact .inl (by rw [executed_nil.mp h])
  · exact .inl (upto_one h).1
  · obtain ⟨gil, hensured, -⟩ := upto_two hready h
    exact .inr (.inl ⟨gil, hensured⟩)
  · obtain ⟨gil, hensured, -⟩ := upto_three hready h
    exact .inr (.inl ⟨gil, hensured⟩)
  · obtain ⟨gil, hensured, -⟩ := upto_four hready h
    exact .inr (.inl ⟨gil, hensured⟩)
  · obtain ⟨gil, hensured, -⟩ := upto_five hready h
    exact .inr (.inl ⟨gil, hensured⟩)
  · obtain ⟨gil, hran, -⟩ := upto_six hready h
    exact .inr (.inr (.inl ⟨gil, hran⟩))
  · obtain ⟨gil, hran, -⟩ := upto_seven hready h
    exact .inr (.inr (.inl ⟨gil, hran⟩))
  · obtain ⟨gil, hran, -⟩ := upto_eight hready h
    exact .inr (.inr (.inl ⟨gil, hran⟩))
  · exact .inr (.inr (.inr (upto_nine hready h)))
  · exact .inr (.inr (.inr (upto_ten hready h)))

end

end HpcProfiler.ShellcodeRun
