import HpcProfiler.HexText
import HpcProfiler.InjectedCalls
import HpcProfiler.SymbolLookup
import Mathlib.Data.List.Find
import Mathlib.Data.List.Infix

/-!
The addresses that an injection looks up in the list of a process's mappings: the load
base of its binary, and a system call instruction in its vdso. The list is the kernel's,
one line for each mapping; the lookups search its lines for pieces of text. A text file
is cut at carriage returns as well, which the kernel leaves as they are: the paths are
taken to have none.
-/

namespace HpcProfiler.ProcessMaps

open PythonText HexText SymbolLookup MachineCode StraightLine Injection InjectedCalls

/-- The operator in of Python's strings. -/
def isIn (part text : String) : Bool := part.toList <:+: text.toList

inductive MapsError
  | resolve (e : ResolveError)
  | noVdso
  | noSyscall
  | valueError
  | indexError
  deriving DecidableEq

def MapsError.message : MapsError → Option String
  | .resolve e => some e.message
  | .noVdso => some "Could not find vdso in target process maps"
  | .noSyscall => some "Could not find syscall instruction in vdso"
  | _ => none

/-- The call int(text, 16). -/
def readHex (text : List Char) : Except MapsError ℤ :=
  match int16 (String.ofList (stripInt text)) with
  | some value => .ok value
  | none => .error .valueError

/-- The call text.split("-"), which has a part at least. -/
def splitDash (text : List Char) : List (List Char) := text.splitOnP (· = '-')

/-- The output of readelf tells a binary that may be loaded anywhere. -/
def getLoadBase (pid : ℤ) (pythonBinary readelf : String) (maps : List String) :
    Except MapsError ℤ :=
  if !isIn "DYN" readelf then .ok 0
  else
    match maps.find? fun line => isIn pythonBinary line && isIn "r--p 00000000" line with
    | some line => readHex ((splitDash line.toList).headD [])
    | none => .error (.resolve (.loadBase pythonBinary pid))

def vdsoRange (maps : List String) : Except MapsError (ℤ × ℤ) :=
  match maps.find? fun line => isIn "[vdso]" line with
  | none => .error .noVdso
  | some line =>
    match split line with
    | [] => .error .indexError
    | field :: _ => do
      let parts := splitDash field.toList
      let vdsoStart ← readHex (parts.headD [])
      match parts[1]? with
      | none => .error .indexError
      | some part => do
        let vdsoEnd ← readHex part
        return (vdsoStart, vdsoEnd)

/-- The index of the first two bytes that are a system call. -/
def findSyscall : List UInt8 → Option ℕ
  | [] => none
  | b :: rest =>
    if b = 0x0F ∧ rest.head? = some 0x05 then some 0 else (findSyscall rest).map (· + 1)

/-- The memory of the process is read as a file, so many bytes from a position on. -/
def findSyscallInVdso (maps : List String) (read : ℤ → ℤ → List UInt8) : Except MapsError ℤ := do
  let (vdsoStart, vdsoEnd) ← vdsoRange maps
  match findSyscall (read vdsoStart (vdsoEnd - vdsoStart)) with
  | some idx => return vdsoStart + idx
  | none => .error .noSyscall

/-! The list of the kernel. -/

structure Mapping where
  start : ℕ
  finish : ℕ
  readable : Bool
  writable : Bool
  executable : Bool
  shared : Bool
  offset : ℕ
  major : ℕ
  minor : ℕ
  inode : ℕ
  blanks : ℕ
  path : List Char

namespace Mapping

/-- The part of a line before the permissions. -/
def range (m : Mapping) : List Char := hexPadded 8 m.start ++ '-' :: hexPadded 8 m.finish

def perms (m : Mapping) : List Char :=
  [if m.readable then 'r' else '-', if m.writable then 'w' else '-',
    if m.executable then 'x' else '-', if m.shared then 's' else 'p']

/-- The device and the inode, and the blanks before the path. -/
def device (m : Mapping) : List Char :=
  ' ' :: hexPadded 2 m.major ++ ':' :: hexPadded 2 m.minor ++ ' ' :: Nat.toDigits 10 m.inode ++
    List.replicate m.blanks ' '

def line (m : Mapping) : String := String.ofList
  (m.range ++ ' ' :: m.perms ++ ' ' :: hexPadded 8 m.offset ++ m.device ++ m.path ++ ['\n'])

end Mapping

/-- A private mapping that can only be read, of a file from its beginning. -/
def Mapping.Base (m : Mapping) : Prop :=
  m.readable = true ∧ m.writable = false ∧ m.executable = false ∧ m.shared = false ∧ m.offset = 0

instance (m : Mapping) : Decidable m.Base := inferInstanceAs (Decidable (_ ∧ _))

/-! Pieces of text in a line. -/

theorem infix_append_of_not_mem {c : Char} {part before text : List Char} (h : c ∉ before) :
    c :: part <:+: before ++ text ↔ c :: part <:+: text := by
  induction before with
  | nil => rfl
  | cons b before ih =>
    simp only [List.mem_cons, not_or] at h
    rw [List.cons_append, List.infix_cons_iff, ih h.2]
    refine or_iff_right ?_
    intro hpart
    exact h.1 (List.cons_prefix_cons.mp hpart).1

theorem infix_concat_of_not_mem {c : Char} {part text : List Char} (hne : part ≠ [])
    (h : c ∉ part) : part <:+: text ++ [c] ↔ part <:+: text := by
  rw [List.infix_concat_iff]
  refine or_iff_right ?_
  intro hsuffix
  rcases List.suffix_concat_iff.mp hsuffix with hnil | ⟨part', rfl, -⟩
  · exact hne hnil
  · simp at h

theorem not_mem_device {c : Char} (hdigit : c.isDigit = false)
    (hhex : ∀ d < 16, Nat.digitChar d ≠ c) (hspace : c ≠ ' ') (hcolon : c ≠ ':')
    (m : Mapping) : c ∉ m.device := by
  have hnumber : ∀ w n, c ∉ hexPadded w n :=
    fun w n hmem => forall_hexPadded (P := fun b => b ≠ c) hhex w n c hmem rfl
  have hinode : c ∉ Nat.toDigits 10 m.inode := by
    intro hmem
    rw [Nat.isDigit_of_mem_toDigits (by decide) (by decide) hmem] at hdigit
    cases hdigit
  simp [Mapping.device, hnumber, hinode, hspace, hcolon]

theorem not_mem_range {c : Char} (hhex : ∀ d < 16, Nat.digitChar d ≠ c) (hdash : c ≠ '-')
    (m : Mapping) : c ∉ m.range := by
  have hnumber : ∀ w n, c ∉ hexPadded w n :=
    fun w n hmem => forall_hexPadded (P := fun b => b ≠ c) hhex w n c hmem rfl
  simp [Mapping.range, hnumber, hdash]

/-- A path begins where the first character is found that no other field has. -/
theorem infix_line_iff {c : Char} {part : List Char} (hdigit : c.isDigit = false)
    (hhex : ∀ d < 16, Nat.digitChar d ≠ c) (hplain : c ∉ [' ', ':', '-', 'r', 'w', 'x', 's', 'p'])
    (hnewline : '\n' ∉ c :: part) (m : Mapping) :
    c :: part <:+: m.line.toList ↔ c :: part <:+: m.path := by
  simp only [List.mem_cons, List.not_mem_nil, or_false, not_or] at hplain
  obtain ⟨hspace, hcolon, hdash, hr, hw, hx, hs, hp⟩ := hplain
  have hperms : c ∉ m.perms := by
    unfold Mapping.perms
    simp only [List.mem_cons, List.not_mem_nil, or_false, not_or]
    refine ⟨?_, ?_, ?_, ?_⟩ <;> split <;> assumption
  have hoffset : c ∉ hexPadded 8 m.offset :=
    fun hmem => forall_hexPadded (P := fun b => b ≠ c) hhex 8 m.offset c hmem rfl
  have hbefore : c ∉ m.range ++ ' ' :: m.perms ++ ' ' :: hexPadded 8 m.offset ++ m.device := by
    simp [not_mem_range hhex hdash m, hperms, hoffset, not_mem_device hdigit hhex hspace hcolon m,
      hspace]
  rw [Mapping.line, String.toList_ofList, List.append_assoc _ m.path,
    infix_append_of_not_mem hbefore]
  exact infix_concat_of_not_mem (by simp) hnewline

theorem length_hexPadded (width n : ℕ) : width ≤ (hexPadded width n).length := by
  simp [hexPadded]
  omega

theorem zeros_prefix_iff (n : ℕ) (rest : List Char) :
    List.replicate 8 '0' <+: hexPadded 8 n ++ rest ↔ n = 0 := by
  constructor
  · intro h
    apply eq_zero_of_zeros (Nat.succ_pos 7)
    apply List.prefix_of_prefix_length_le h (List.prefix_append _ _)
    rw [List.length_replicate]
    exact length_hexPadded 8 n
  · rintro rfl
    exact List.prefix_append (hexPadded 8 0) rest

/-- The fields of a base at the place of the permissions. -/
theorem prefix_base_iff (m : Mapping) (rest : List Char) :
    "r--p 00000000".toList <+: m.perms ++ ' ' :: (hexPadded 8 m.offset ++ rest) ↔ m.Base := by
  have hpart : "r--p 00000000".toList = 'r' :: '-' :: '-' :: 'p' :: ' ' :: List.replicate 8 '0' :=
    rfl
  rw [hpart]
  unfold Mapping.perms Mapping.Base
  simp only [List.cons_append, List.nil_append, List.cons_prefix_cons, zeros_prefix_iff, true_and]
  cases m.readable <;> cases m.writable <;> cases m.executable <;> cases m.shared <;> simp

/-- The permissions and the offset are those of a base, or the path has their text. -/
theorem infix_base_iff (m : Mapping) : "r--p 00000000".toList <:+: m.line.toList ↔
    m.Base ∨ "r--p 00000000".toList <:+: m.path := by
  have hnumber : ∀ w n, 'r' ∉ hexPadded w n :=
    fun w n hmem => forall_hexPadded (P := fun b => b ≠ 'r') (by decide) w n 'r' hmem rfl
  have hrange : 'r' ∉ m.range := not_mem_range (by decide) (by decide) m
  have hdevice : 'r' ∉ m.device :=
    not_mem_device (by decide) (by decide) (by decide) (by decide) m
  have hbefore : 'r' ∉ m.range ++ [' '] := by simp [hrange]
  have hflags : 'r' ∉ m.perms.tail := by
    unfold Mapping.perms
    simp only [List.tail_cons, List.mem_cons, List.not_mem_nil, or_false, not_or]
    refine ⟨?_, ?_, ?_⟩ <;> split <;> decide
  have hbehind : 'r' ∉ m.perms.tail ++ ' ' :: hexPadded 8 m.offset ++ m.device := by
    simp [hflags, hnumber, hdevice]
  obtain ⟨first, hperms⟩ : ∃ first, m.perms = first :: m.perms.tail := ⟨_, rfl⟩
  have hline : m.line.toList = m.range ++ [' '] ++
      first :: (m.perms.tail ++ ' ' :: hexPadded 8 m.offset ++ m.device ++ (m.path ++ ['\n'])) := by
    rw [Mapping.line, String.toList_ofList]
    nth_rewrite 1 [hperms]
    simp
  have hrest : first :: (m.perms.tail ++ ' ' :: hexPadded 8 m.offset ++ m.device ++
      (m.path ++ ['\n'])) =
      m.perms ++ ' ' :: (hexPadded 8 m.offset ++ (m.device ++ (m.path ++ ['\n']))) := by
    nth_rewrite 2 [hperms]
    simp
  have hpart : "r--p 00000000".toList = 'r' :: "--p 00000000".toList := rfl
  rw [hline, hpart, infix_append_of_not_mem hbefore, List.infix_cons_iff,
    infix_append_of_not_mem hbehind, infix_concat_of_not_mem (by simp) (by decide), hrest, ← hpart,
    prefix_base_iff]

/-! Reading the range back. -/

theorem stripInt_eq {text : List Char} (h : ∀ c ∈ text, isIntSpace c = false) :
    stripInt text = text := by
  have hdrop : ∀ text : List Char, (∀ c ∈ text, isIntSpace c = false) →
      text.dropWhile isIntSpace = text := by
    intro text htext
    cases text with
    | nil => rfl
    | cons c rest => rw [List.dropWhile_cons, htext c (by simp)]; rfl
  rw [stripInt, hdrop text h, hdrop _ (by simpa using h), List.reverse_reverse]

theorem readHex_hexPadded (width n : ℕ) : readHex (hexPadded width n) = .ok (n : ℤ) := by
  rw [readHex, stripInt_eq (forall_hexPadded (by decide) width n), int16_hexPadded]

theorem splitDash_range (m : Mapping) :
    splitDash m.range = [hexPadded 8 m.start, hexPadded 8 m.finish] := by
  have hplain : ∀ w n, ∀ c ∈ hexPadded w n, decide (c = '-') = false :=
    fun w n => forall_hexPadded (by decide) w n
  rw [splitDash, Mapping.range,
    List.splitOnP_append_cons_of_forall_mem (hplain 8 m.start) '-' (by decide),
    List.splitOnP_eq_singleton (hplain 8 m.finish)]

theorem splitDash_line (m : Mapping) :
    (splitDash m.line.toList).headD [] = hexPadded 8 m.start := by
  have hplain : ∀ c ∈ hexPadded 8 m.start, decide (c = '-') = false :=
    forall_hexPadded (by decide) 8 m.start
  rw [splitDash, Mapping.line, String.toList_ofList, Mapping.range]
  simp only [List.append_assoc, List.cons_append]
  rw [List.splitOnP_append_cons_of_forall_mem hplain '-' (by decide)]
  rfl

theorem split_line (m : Mapping) : ∃ rest, split m.line = String.ofList m.range :: rest := by
  have hplain : ∀ c ∈ m.range, isSpace c = false := by
    intro c hc
    rcases List.mem_append.mp hc with hstart | hlater
    · exact forall_hexPadded (P := fun c => isSpace c = false) (by decide) 8 m.start c hstart
    · rcases List.mem_cons.mp hlater with rfl | hfinish
      · rfl
      · exact forall_hexPadded (P := fun c => isSpace c = false) (by decide) 8 m.finish c hfinish
  have hne : m.range ≠ [] := by simp [Mapping.range]
  rw [split, Mapping.line, String.toList_ofList]
  simp only [List.append_assoc, List.cons_append]
  rw [List.splitOnP_append_cons_of_forall_mem hplain ' ' (by decide),
    List.filter_cons_of_pos (by simpa using hne), List.map_cons]
  exact ⟨_, rfl⟩

/-- Searching the lines is searching the mappings. -/
theorem find?_lines (test : String → Bool) {wanted : Mapping → Prop} [DecidablePred wanted]
    {ms : List Mapping} (h : ∀ m ∈ ms, (test m.line = true ↔ wanted m)) :
    (ms.map Mapping.line).find? test =
      (ms.find? fun m => decide (wanted m)).map Mapping.line := by
  rw [List.find?_map]
  congr 1
  apply List.find?_congr
  intro m hm
  exact Bool.eq_iff_iff.mpr ((h m hm).trans decide_eq_true_iff.symm)

/-- The first base among the mappings of files whose path has this text. -/
def firstBase (pythonBinary : String) (ms : List Mapping) : Option Mapping :=
  ms.find? fun m => pythonBinary.toList <:+: m.path ∧ m.Base

/-- The load base by the mappings themselves. -/
def loadBase (pid : ℤ) (pythonBinary readelf : String) (ms : List Mapping) : Except MapsError ℤ :=
  if !isIn "DYN" readelf then .ok 0
  else
    match firstBase pythonBinary ms with
    | some m => .ok m.start
    | none => .error (.resolve (.loadBase pythonBinary pid))

/-- A process of a position independent binary, behind another file that is mapped. -/
def someMaps : List Mapping :=
  [⟨0x400000, 0x401000, true, false, false, false, 0, 8, 2, 131, 5, "/opt/hpc/data".toList⟩,
    ⟨0x555555554000, 0x555555580000, true, false, false, false, 0, 8, 2, 77, 5,
      "/usr/bin/python3.12".toList⟩,
    ⟨0x555555580000, 0x555555700000, true, false, true, false, 0x2C000, 8, 2, 77, 5,
      "/usr/bin/python3.12".toList⟩]

/-- The first mapping whose path has the name of the vdso. -/
def firstVdso (ms : List Mapping) : Option Mapping :=
  ms.find? fun m => "[vdso]".toList <:+: m.path

theorem vdsoRange_lines (ms : List Mapping) : vdsoRange (ms.map Mapping.line) =
    match firstVdso ms with
    | some m => .ok ((m.start : ℤ), (m.finish : ℤ))
    | none => .error .noVdso := by
  have htest : ∀ m ∈ ms, (isIn "[vdso]" m.line = true ↔ "[vdso]".toList <:+: m.path) := by
    intro m hm
    have hpath : '[' :: "vdso]".toList <:+: m.line.toList ↔ '[' :: "vdso]".toList <:+: m.path :=
      infix_line_iff (by decide) (by decide) (by decide) (by decide) m
    unfold isIn
    rw [decide_eq_true_iff]
    exact hpath
  have hfind := find?_lines (fun line => isIn "[vdso]" line) htest
  rw [← firstVdso] at hfind
  unfold vdsoRange
  rw [hfind]
  cases firstVdso ms with
  | none => rfl
  | some m =>
    obtain ⟨rest, hsplit⟩ := split_line m
    rw [Option.map_some]
    dsimp only
    rw [hsplit]
    dsimp only
    rw [String.toList_ofList, splitDash_range]
    dsimp only [List.headD_cons, List.getElem?_cons_succ, List.getElem?_cons_zero]
    rw [readHex_hexPadded, readHex_hexPadded]
    rfl

/-- The two bytes of a system call, at an index. -/
def SyscallBytes (bytes : List UInt8) (i : ℕ) : Prop :=
  bytes[i]? = some 0x0F ∧ bytes[i + 1]? = some 0x05

theorem findSyscall_eq_some_iff {bytes : List UInt8} {i : ℕ} : findSyscall bytes = some i ↔
    SyscallBytes bytes i ∧ ∀ j < i, ¬SyscallBytes bytes j := by
  induction bytes generalizing i with
  | nil => simp [findSyscall, SyscallBytes]
  | cons b rest ih =>
    have hzero : SyscallBytes (b :: rest) 0 ↔ b = 0x0F ∧ rest.head? = some 0x05 := by
      simp [SyscallBytes, List.head?_eq_getElem?]
    unfold findSyscall
    by_cases hfirst : b = 0x0F ∧ rest.head? = some 0x05
    · rw [if_pos hfirst]
      constructor
      · intro heq
        cases heq
        exact ⟨hzero.mpr hfirst, by omega⟩
      · intro ⟨_, hbefore⟩
        cases i with
        | zero => rfl
        | succ i => exact absurd (hzero.mpr hfirst) (hbefore 0 (by omega))
    · rw [if_neg hfirst]
      cases i with
      | zero =>
        rw [hzero]
        simp [hfirst]
      | succ i =>
        rw [Option.map_eq_some_iff]
        simp only [Nat.add_right_cancel_iff, exists_eq_right]
        rw [ih]
        constructor
        · intro ⟨hat, hbefore⟩
          refine ⟨hat, ?_⟩
          intro j hj
          cases j with
          | zero => exact fun h => hfirst (hzero.mp h)
          | succ j => exact hbefore j (by omega)
        · intro ⟨hat, hbefore⟩
          exact ⟨hat, fun j hj => hbefore (j + 1) (by omega)⟩

/-- The file of a process's memory. -/
def readMem (mem : Memory) (start len : ℤ) : List UInt8 :=
  (List.range len.toNat).map fun i => mem (UInt64.ofNat (start.toNat + i))

/-- There is a system call at the address, within the mapping. -/
def SyscallAt (mem : Memory) (m : Mapping) (addr : ℕ) : Prop :=
  m.start ≤ addr ∧ addr + 2 ≤ m.finish ∧ Holds mem (UInt64.ofNat addr) (encode .syscall)

theorem holds_syscall_iff (mem : Memory) (addr : ℕ) :
    Holds mem (UInt64.ofNat addr) (encode .syscall) ↔
      mem (UInt64.ofNat addr) = 0x0F ∧ mem (UInt64.ofNat (addr + 1)) = 0x05 := by
  constructor
  · intro h
    have h0 := h 0 _ rfl
    have h1 := h 1 _ rfl
    dsimp only at h0 h1
    rw [← UInt64.ofNat_add] at h0 h1
    exact ⟨h0, h1⟩
  · intro ⟨h0, h1⟩ i b hb
    dsimp only
    rw [← UInt64.ofNat_add]
    match i with
    | 0 => exact h0.trans (Option.some.inj hb)
    | 1 => exact h1.trans (Option.some.inj hb)
    | i + 2 => simp [encode] at hb

theorem getElem?_map_range {f : ℕ → UInt8} {n i : ℕ} {b : UInt8} :
    ((List.range n).map f)[i]? = some b ↔ i < n ∧ f i = b := by
  by_cases hi : i < n
  · rw [List.getElem?_map, List.getElem?_range hi]
    simp [hi]
  · rw [List.getElem?_eq_none (by simpa using hi)]
    simp [hi]

theorem syscallBytes_iff (mem : Memory) (m : Mapping) (i : ℕ) :
    SyscallBytes (readMem mem m.start (m.finish - m.start)) i ↔ SyscallAt mem m (m.start + i) := by
  have hlen : ((m.finish : ℤ) - m.start).toNat = m.finish - m.start := by omega
  unfold SyscallBytes SyscallAt readMem
  rw [holds_syscall_iff, hlen, getElem?_map_range, getElem?_map_range, Int.toNat_natCast,
    Nat.add_assoc m.start i 1]
  constructor
  · intro ⟨⟨_, hfirst⟩, hlt, hsecond⟩
    exact ⟨by omega, by omega, hfirst, hsecond⟩
  · intro ⟨_, hle, hfirst, hsecond⟩
    exact ⟨⟨by omega, hfirst⟩, by omega, hsecond⟩

/-- The address of the first system call in the first mapping that is named as the vdso. -/
def FirstSyscall (ms : List Mapping) (mem : Memory) (addr : ℕ) : Prop :=
  ∃ m, firstVdso ms = some m ∧ SyscallAt mem m addr ∧ ∀ a < addr, ¬SyscallAt mem m a

theorem findSyscallInVdso_lines (ms : List Mapping) (mem : Memory) :
    findSyscallInVdso (ms.map Mapping.line) (readMem mem) =
      match firstVdso ms with
      | some m =>
        match findSyscall (readMem mem m.start (m.finish - m.start)) with
        | some idx => .ok ((m.start : ℤ) + idx)
        | none => .error .noSyscall
      | none => .error .noVdso := by
  unfold findSyscallInVdso
  rw [vdsoRange_lines]
  cases firstVdso ms with
  | none => rfl
  | some m => rfl

theorem findSyscall_eq_none_iff {bytes : List UInt8} :
    findSyscall bytes = none ↔ ∀ i, ¬SyscallBytes bytes i := by
  classical
  constructor
  · intro hnone i hi
    have hexists : ∃ i, SyscallBytes bytes i := ⟨i, hi⟩
    have hfirst := findSyscall_eq_some_iff.mpr
      ⟨Nat.find_spec hexists, fun j hj => Nat.find_min hexists hj⟩
    rw [hnone] at hfirst
    cases hfirst
  · intro hall
    cases hfind : findSyscall bytes with
    | none => rfl
    | some i => exact absurd (findSyscall_eq_some_iff.mp hfind).1 (hall i)

/-- Where a mapping has no system call by index it has none by address. -/
theorem syscallAt_iff (mem : Memory) (m : Mapping) (addr : ℕ) : SyscallAt mem m addr ↔
    ∃ i, addr = m.start + i ∧ SyscallBytes (readMem mem m.start (m.finish - m.start)) i := by
  constructor
  · intro h
    obtain ⟨i, rfl⟩ := Nat.exists_eq_add_of_le h.1
    exact ⟨i, rfl, (syscallBytes_iff mem m i).mpr h⟩
  · rintro ⟨i, rfl, h⟩
    exact (syscallBytes_iff mem m i).mp h

/-- The lookup returns the address of the first system call, and no other. -/
theorem findSyscallInVdso_eq_ok_iff (ms : List Mapping) (mem : Memory) (addr : ℕ) :
    findSyscallInVdso (ms.map Mapping.line) (readMem mem) = .ok (addr : ℤ) ↔
      FirstSyscall ms mem addr := by
  rw [findSyscallInVdso_lines]
  unfold FirstSyscall
  cases firstVdso ms with
  | none => simp
  | some m =>
    simp only [Option.some.injEq, exists_eq_left', syscallAt_iff]
    cases hfind : findSyscall (readMem mem m.start (m.finish - m.start)) with
    | some idx =>
      obtain ⟨hhere, hbefore⟩ := findSyscall_eq_some_iff.mp hfind
      show Except.ok ((m.start : ℤ) + idx) = Except.ok (addr : ℤ) ↔ _
      rw [Except.ok.injEq]
      constructor
      · intro heq
        refine ⟨⟨idx, by omega, hhere⟩, ?_⟩
        rintro a ha ⟨j, rfl, hj⟩
        exact hbefore j (by omega) hj
      · rintro ⟨⟨j, rfl, hj⟩, hnone⟩
        have hle : idx ≤ j := by
          by_contra hlt
          exact hbefore j (by omega) hj
        have hge : j ≤ idx := by
          by_contra hlt
          exact hnone (m.start + idx) (by omega) ⟨idx, rfl, hhere⟩
        omega
    | none =>
      rw [findSyscall_eq_none_iff] at hfind
      refine iff_of_false (by simp) ?_
      rintro ⟨⟨j, -, hj⟩, -⟩
      exact hfind j hj

theorem findSyscallInVdso_eq_error_iff (ms : List Mapping) (mem : Memory) (e : MapsError) :
    findSyscallInVdso (ms.map Mapping.line) (readMem mem) = .error e ↔
      e = .noVdso ∧ firstVdso ms = none ∨
        e = .noSyscall ∧ ∃ m, firstVdso ms = some m ∧ ∀ a, ¬SyscallAt mem m a := by
  rw [findSyscallInVdso_lines]
  cases firstVdso ms with
  | none => simp [eq_comm]
  | some m =>
    simp only [Option.some.injEq, exists_eq_left', syscallAt_iff]
    cases hfind : findSyscall (readMem mem m.start (m.finish - m.start)) with
    | some idx =>
      obtain ⟨hhere, -⟩ := findSyscall_eq_some_iff.mp hfind
      refine iff_of_false (by simp) ?_
      rintro (⟨-, hnone⟩ | ⟨-, hnone⟩)
      · cases hnone
      · exact hnone (m.start + idx) ⟨idx, rfl, hhere⟩
    | none =>
      rw [findSyscall_eq_none_iff] at hfind
      constructor
      · intro heq
        cases heq
        refine .inr ⟨rfl, ?_⟩
        rintro a ⟨i, -, hi⟩
        exact hfind i hi
      · rintro (⟨-, hnone⟩ | ⟨rfl, -⟩)
        · cases hnone
        · rfl

/-- The registers of a process that asks the kernel for a private page of its own, which
can be read, written and executed, and the rest of them as they were. -/
structure AsksForPage (saved : UserRegs) (entry : Machine) : Prop where
  number : entry.reg .rax = 9
  address : entry.reg .rdi = 0
  length : entry.reg .rsi = 4096
  protection : entry.reg .rdx = 7
  flags : entry.reg .r10 = 34
  descriptor : entry.reg .r8 = 0xFFFFFFFFFFFFFFFF
  offset : entry.reg .r9 = 0
  rest : ∀ r, r ∉ [Reg.rax, .rdi, .rsi, .rdx, .r10, .r8, .r9] → entry.reg r = gpr saved r

end HpcProfiler.ProcessMaps
