import HpcProfiler.FallibleSteps
import HpcProfiler.StructFormat

/-!
Injecting code into a stopped process: the functions attach and _inject_simple of the
attacher, as sequences of steps on the traced process. Any step may fail, with an
Exception or with an interrupt of the attacher itself, and what the process has in its
registers at each of its stops is given by the process.
-/

namespace HpcProfiler.Injection

open FallibleSteps StructFormat

structure UserRegs where
  r15 : UInt64
  r14 : UInt64
  r13 : UInt64
  r12 : UInt64
  rbp : UInt64
  rbx : UInt64
  r11 : UInt64
  r10 : UInt64
  r9 : UInt64
  r8 : UInt64
  rax : UInt64
  rcx : UInt64
  rdx : UInt64
  rsi : UInt64
  rdi : UInt64
  origRax : UInt64
  rip : UInt64
  cs : UInt64
  eflags : UInt64
  rsp : UInt64
  ss : UInt64
  fsBase : UInt64
  gsBase : UInt64
  ds : UInt64
  es : UInt64
  fs : UInt64
  gs : UInt64
  deriving DecidableEq

def PROT_RWX : UInt64 := 7

def MAP_ANON_PRIV : UInt64 := 34

def MMAP_SYSCALL : UInt64 := 9

def SIGTRAP : ℕ := 5

/-- The places at which a call of ptrace, waitpid, a symbol lookup or a memory write
may raise, in the order of the source. -/
inductive Point
  | ptraceAttach
  | attachWait
  | getRegs
  | singleStep
  | stepWait
  | getRegsAgain
  | resolve
  | findSyscall
  | mmapSetRegs
  | mmapStep
  | mmapWait
  | mmapGetRegs
  | writeShellcode
  | writePayload
  | setRegs
  | cont
  | contWait
  | restore
  | rescueRestore
  | rescueDetach
  | detach
  deriving DecidableEq

/-- A call at one of the points raises an Exception, or an interrupt such as
KeyboardInterrupt, which is none. -/
inductive Exception
  | raisedAt (point : Point) (interrupt : Bool)
  | structError
  | runtimeError (message : String)
  | unexpectedSignal (sig : ℕ)
  deriving DecidableEq

/-- An except clause for Exception catches it. -/
def Exception.caught : Exception → Bool
  | .raisedAt _ interrupt => !interrupt
  | .structError | .runtimeError _ | .unexpectedSignal _ => true

structure Symbols where
  pyGILStateEnsure : ℤ
  pyRunSimpleString : ℤ
  pyGILStateRelease : ℤ

/-- Which steps fail and which of these with an interrupt, what the lookups return, and
the registers of the process when it stops after the single step out of a system call,
after the injected mmap and after it was continued. The stop signal is absent if the
process has not stopped. -/
structure Env where
  fails : Point → Bool
  interrupts : Point → Bool
  symbols : Symbols
  syscallAddr : ℕ
  stepRegs : UserRegs
  mmapRegs : UserRegs
  trapRegs : UserRegs
  stopSignal : Option ℕ

/-- The attacher's flag and the process: whether it is traced, its registers, and what
was written to its memory. -/
structure Target where
  attached : Bool := false
  traced : Bool := false
  regs : UserRegs
  writes : List (ℕ × List UInt8) := []

abbrev Inject (α : Type) : Type := Fallible Target Exception α

def Env.failure (env : Env) (p : Point) : Option Exception :=
  if env.fails p then some (.raisedAt p (env.interrupts p)) else none

/-- A call that may fail or else has the given effect. -/
def call (env : Env) (p : Point) (effect : Target → Target) : Inject Unit :=
  attempt (env.failure p) effect

def getRegs (env : Env) (p : Point) : Inject UserRegs := attemptRead (env.failure p) Target.regs

def setRegs (env : Env) (p : Point) (regs : UserRegs) : Inject Unit :=
  call env p fun t => { t with regs }

/-- The process goes on and stops with these registers. -/
def resume (env : Env) (p : Point) (regs : UserRegs) : Inject Unit :=
  call env p fun t => { t with regs }

def waitpid (env : Env) (p : Point) : Inject Unit := call env p id

def memWrite (env : Env) (p : Point) (addr : ℕ) (data : List UInt8) : Inject Unit :=
  call env p fun t => { t with writes := t.writes ++ [(addr, data)] }

def ptraceDetach (env : Env) (p : Point) : Inject Unit :=
  call env p fun t => { t with traced := false }

/-- The registers of the injected mmap call. -/
def mmapCall (saved : UserRegs) (syscallAddr : ℕ) : UserRegs :=
  { saved with
    rax := MMAP_SYSCALL
    rdi := 0
    rsi := 4096
    rdx := PROT_RWX
    r10 := MAP_ANON_PRIV
    r8 := 0xFFFFFFFFFFFFFFFF
    r9 := 0
    rip := UInt64.ofNat syscallAddr }

def injectMmap (env : Env) (saved : UserRegs) : Inject UInt64 := do
  setRegs env .mmapSetRegs (mmapCall saved env.syscallAddr)
  resume env .mmapStep env.mmapRegs
  waitpid env .mmapWait
  let postRegs ← getRegs env .mmapGetRegs
  if 2 ^ 63 < postRegs.rax.toNat then
    raise (.runtimeError
      s!"mmap syscall failed in target, errno={2 ^ 64 - postRegs.rax.toNat}")
  else pure postRegs.rax

def callAbs (addr : ℤ) : Except PyError (List UInt8) :=
  (pack [.Q] [addr]).map fun bytes => [0x48, 0xB8] ++ bytes ++ [0xFF, 0xD0]

def movabsRdi (addr : ℤ) : Except PyError (List UInt8) :=
  (pack [.Q] [addr]).map fun bytes => [0x48, 0xBF] ++ bytes

def makeShellcode (strAddr : ℕ) (symbols : Symbols) : Except PyError (List UInt8) := do
  let ensure ← callAbs symbols.pyGILStateEnsure
  let argument ← movabsRdi strAddr
  let run ← callAbs symbols.pyRunSimpleString
  let release ← callAbs symbols.pyGILStateRelease
  return ensure ++ [0x48, 0x89, 0xC3] ++ argument ++ run ++ [0x48, 0x89, 0xDF] ++ release ++ [0xCC]

/-- The registers with which the shellcode is entered, its stack 4 KB below the
process's own and aligned to 16 bytes. -/
def injectRegs (saved : UserRegs) (rwxAddr : UInt64) : UserRegs :=
  { saved with rip := rwxAddr, rsp := (saved.rsp - 4096) &&& ~~~0xF }

/-- Stopping the process and saving its registers, past the system call it may be in. -/
def stopAndSave (env : Env) : Inject UserRegs := do
  call env .ptraceAttach fun t => { t with traced := true }
  waitpid env .attachWait
  let saved ← getRegs env .getRegs
  if saved.origRax ≠ 0xFFFFFFFFFFFFFFFF then
    resume env .singleStep env.stepRegs
    waitpid env .stepWait
    getRegs env .getRegsAgain
  else pure saved

/-- The steps from the symbol lookup to the stop behind the shellcode. -/
def runPayload (env : Env) (payload : List UInt8) (saved : UserRegs) : Inject Unit := do
  call env .resolve id
  call env .findSyscall id
  let rwxAddr ← injectMmap env saved
  let strAddr := rwxAddr.toNat + 512
  let shellcode ← ofExcept ((makeShellcode strAddr env.symbols).mapError fun _ => .structError)
  memWrite env .writeShellcode rwxAddr.toNat shellcode
  memWrite env .writePayload strAddr payload
  setRegs env .setRegs (injectRegs saved rwxAddr)
  resume env .cont env.trapRegs
  waitpid env .contWait

/-- A stop by any other signal than the trap is an error. -/
def checkSignal (env : Env) : Inject Unit :=
  match env.stopSignal with
  | some sig => if sig ≠ SIGTRAP then raise (.unexpectedSignal sig) else pure ()
  | none => pure ()

def attach (env : Env) (bootstrap : List UInt8) : Inject Unit := fun t =>
  if t.attached then (.ok (), t)
  else (do
    let saved ← stopAndSave env
    onException Exception.caught
      (do
        runPayload env bootstrap saved
        checkSignal env
        setRegs env .restore saved)
      (fun e => do
        onException Exception.caught (setRegs env .rescueRestore saved) (fun _ => pure ())
        ptraceDetach env .rescueDetach
        raise e)
    ptraceDetach env .detach
    attempt none fun t => { t with attached := true } : Inject Unit) t

/-- The source of the code in UTF-8 with its terminating zero. -/
def injectSimple (env : Env) (payload : List UInt8) : Inject Unit := do
  let saved ← stopAndSave env
  andFinally
    (do
      runPayload env payload saved
      setRegs env .restore saved)
    (ptraceDetach env .detach)

end HpcProfiler.Injection
