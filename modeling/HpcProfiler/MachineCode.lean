import HpcProfiler.LittleEndian
import Mathlib.Data.List.GetD
import Mathlib.Logic.Function.Basic

/-!
A fragment of the machine code of x86-64: moves of a constant to a register and from a
register to another, calls through a register, the trap and the system call. An
instruction is decoded from the bytes at the instruction pointer; its decoding undoes
its encoding. Addresses wrap around.
-/

namespace HpcProfiler.MachineCode

open LittleEndian

inductive Reg
  | rax | rcx | rdx | rbx | rsp | rbp | rsi | rdi
  | r8 | r9 | r10 | r11 | r12 | r13 | r14 | r15
  deriving DecidableEq

def Reg.number : Reg → ℕ
  | .rax => 0 | .rcx => 1 | .rdx => 2 | .rbx => 3 | .rsp => 4 | .rbp => 5 | .rsi => 6 | .rdi => 7
  | .r8 => 8 | .r9 => 9 | .r10 => 10 | .r11 => 11 | .r12 => 12 | .r13 => 13 | .r14 => 14
  | .r15 => 15

def Reg.all : List Reg :=
  [.rax, .rcx, .rdx, .rbx, .rsp, .rbp, .rsi, .rdi, .r8, .r9, .r10, .r11, .r12, .r13, .r14, .r15]

def Reg.ofNumber (n : ℕ) : Reg := Reg.all.getD n .rax

theorem Reg.ofNumber_number (r : Reg) : Reg.ofNumber r.number = r := by
  cases r <;> rfl

theorem Reg.number_lt (r : Reg) : r.number < 16 := by
  cases r <;> decide

inductive Instr
  | movImm (dst : Reg) (value : UInt64)
  | movReg (dst src : Reg)
  | call (target : Reg)
  | int3
  | syscall
  deriving DecidableEq

/-- The register that an instruction sets, calls apart. -/
def Instr.sets : Instr → Option Reg
  | .movImm dst _ => some dst
  | .movReg dst _ => some dst
  | _ => none

def word (v : UInt64) : List UInt8 := leBytes 8 v.toNat

/-- The bits of a register number beyond the third stand in the REX byte. -/
def encode : Instr → List UInt8
  | .movImm dst value =>
    [UInt8.ofNat (0x48 + dst.number / 8), UInt8.ofNat (0xB8 + dst.number % 8)] ++ word value
  | .movReg dst src =>
    [UInt8.ofNat (0x48 + 4 * (src.number / 8) + dst.number / 8), 0x89,
      UInt8.ofNat (0xC0 + 8 * (src.number % 8) + dst.number % 8)]
  | .call target =>
    (if target.number < 8 then [] else [0x41]) ++ [0xFF, UInt8.ofNat (0xD0 + target.number % 8)]
  | .int3 => [0xCC]
  | .syscall => [0x0F, 0x05]

/-- The eight bytes from an offset on, as a number. -/
def wordAt (f : ℕ → UInt8) (off : ℕ) : UInt64 :=
  UInt64.ofNat (leNat ((List.range 8).map fun i => f (off + i)))

/-- The instruction that a stream of bytes begins with, and its length. -/
def decode (f : ℕ → UInt8) : Option (Instr × ℕ) :=
  let b0 := (f 0).toNat
  let b1 := (f 1).toNat
  let b2 := (f 2).toNat
  if b0 = 0xCC then some (.int3, 1)
  else if b0 = 0x0F ∧ b1 = 0x05 then some (.syscall, 2)
  else if b0 = 0xFF ∧ b1 / 8 = 26 then some (.call (.ofNumber (b1 % 8)), 2)
  else if b0 = 0x41 ∧ b1 = 0xFF ∧ b2 / 8 = 26 then some (.call (.ofNumber (8 + b2 % 8)), 3)
  else if b0 / 2 = 36 ∧ b1 / 8 = 23 then
    some (.movImm (.ofNumber (8 * (b0 % 2) + b1 % 8)) (wordAt f 2), 10)
  else if (b0 / 2 = 36 ∨ b0 / 2 = 38) ∧ b1 = 0x89 ∧ b2 / 64 = 3 then
    some (.movReg (.ofNumber (8 * (b0 % 2) + b2 % 8))
      (.ofNumber (8 * (b0 / 4 % 2) + b2 / 8 % 8)), 3)
  else none

/-- The stream begins with these bytes. -/
def Begins (f : ℕ → UInt8) (bytes : List UInt8) : Prop := ∀ i b, bytes[i]? = some b → f i = b

theorem word_length (v : UInt64) : (word v).length = 8 := leBytes_length _ _

theorem leNat_word (v : UInt64) : leNat (word v) = v.toNat := leNat_leBytes v.toNat_lt

theorem Begins.map_range {f : ℕ → UInt8} {bytes : List UInt8} (h : Begins f bytes) :
    (List.range bytes.length).map f = bytes := by
  apply List.ext_getElem?
  intro i
  by_cases hi : i < bytes.length
  · have hbyte := h i bytes[i] (List.getElem?_eq_getElem hi)
    rw [List.getElem?_map, List.getElem?_range hi, List.getElem?_eq_getElem hi]
    exact congrArg some hbyte
  · rw [List.getElem?_eq_none (by simpa using hi), List.getElem?_eq_none (by omega)]

theorem Begins.left {f : ℕ → UInt8} {bytes rest : List UInt8} (h : Begins f (bytes ++ rest)) :
    Begins f bytes := by
  intro i b hb
  obtain ⟨hi, -⟩ := List.getElem?_eq_some_iff.mp hb
  exact h i b (by rw [List.getElem?_append_left hi, hb])

theorem Begins.right {f : ℕ → UInt8} {bytes rest : List UInt8} (h : Begins f (bytes ++ rest)) :
    Begins (fun i => f (bytes.length + i)) rest := by
  intro i b hb
  apply h
  rw [List.getElem?_append_right (by omega), Nat.add_sub_cancel_left, hb]

theorem Begins.wordAt {f : ℕ → UInt8} {v : UInt64} (h : Begins f (word v)) : wordAt f 0 = v := by
  have hbytes := h.map_range
  rw [word_length] at hbytes
  unfold MachineCode.wordAt
  simp only [Nat.zero_add]
  rw [hbytes, leNat_word, UInt64.ofNat_toNat]

/-- Decoding undoes encoding, whatever the bytes behind the instruction are. -/
theorem decode_encode {f : ℕ → UInt8} {i : Instr} (h : Begins f (encode i)) :
    decode f = some (i, (encode i).length) := by
  cases i with
  | int3 =>
    have h0 : f 0 = 0xCC := h 0 _ rfl
    simp [decode, h0, encode]
  | syscall =>
    have h0 : f 0 = 0x0F := h 0 _ rfl
    have h1 : f 1 = 0x05 := h 1 _ rfl
    simp [decode, h0, h1, encode]
  | call target =>
    by_cases hlow : target.number < 8
    · simp only [encode, hlow, if_true, List.nil_append] at h ⊢
      have h0 : f 0 = 0xFF := h 0 _ rfl
      have h1 : f 1 = UInt8.ofNat (0xD0 + target.number % 8) := h 1 _ rfl
      have hb1 : (f 1).toNat = 0xD0 + target.number := by
        rw [h1, UInt8.toNat_ofNat']
        omega
      have hreg : (0xD0 + target.number) % 8 = target.number := by omega
      have hhigh : (0xD0 + target.number) / 8 = 26 := by omega
      simp [decode, h0, hb1, hreg, hhigh, Reg.ofNumber_number]
    · have hlt := target.number_lt
      simp only [encode, hlow, if_false, List.cons_append, List.nil_append] at h ⊢
      have h0 : f 0 = 0x41 := h 0 _ rfl
      have h1 : f 1 = 0xFF := h 1 _ rfl
      have h2 : f 2 = UInt8.ofNat (0xD0 + target.number % 8) := h 2 _ rfl
      have hb2 : (f 2).toNat = 0xC8 + target.number := by
        rw [h2, UInt8.toNat_ofNat']
        omega
      have hreg : 8 + (0xC8 + target.number) % 8 = target.number := by omega
      have hhigh : (0xC8 + target.number) / 8 = 26 := by omega
      simp [decode, h0, h1, hb2, hreg, hhigh, Reg.ofNumber_number]
  | movImm dst value =>
    have hlt := dst.number_lt
    have h0 : f 0 = UInt8.ofNat (0x48 + dst.number / 8) := h 0 _ rfl
    have h1 : f 1 = UInt8.ofNat (0xB8 + dst.number % 8) := h 1 _ rfl
    have hb0 : (f 0).toNat = 0x48 + dst.number / 8 := by
      rw [h0, UInt8.toNat_ofNat']
      omega
    have hb1 : (f 1).toNat = 0xB8 + dst.number % 8 := by
      rw [h1, UInt8.toNat_ofNat']
      omega
    have hvalue : wordAt f 2 = value := by
      have hword := Begins.wordAt (Begins.right h)
      simpa [wordAt, Nat.add_comm] using hword
    have hreg : 8 * ((0x48 + dst.number / 8) % 2) + (0xB8 + dst.number % 8) % 8 = dst.number := by
      omega
    unfold decode
    simp only [hb0, hb1, hvalue, hreg, Reg.ofNumber_number]
    rw [if_neg (by omega), if_neg (by omega), if_neg (by omega), if_neg (by omega),
      if_pos (by omega)]
    simp [encode, word_length]
  | movReg dst src =>
    have hdst := dst.number_lt
    have hsrc := src.number_lt
    have h0 : f 0 = UInt8.ofNat (0x48 + 4 * (src.number / 8) + dst.number / 8) := h 0 _ rfl
    have h1 : f 1 = 0x89 := h 1 _ rfl
    have h2 : f 2 = UInt8.ofNat (0xC0 + 8 * (src.number % 8) + dst.number % 8) := h 2 _ rfl
    have hb0 : (f 0).toNat = 0x48 + 4 * (src.number / 8) + dst.number / 8 := by
      rw [h0, UInt8.toNat_ofNat']
      omega
    have hb1 : (f 1).toNat = 0x89 := by
      rw [h1]
      rfl
    have hb2 : (f 2).toNat = 0xC0 + 8 * (src.number % 8) + dst.number % 8 := by
      rw [h2, UInt8.toNat_ofNat']
      omega
    have hregDst : 8 * ((0x48 + 4 * (src.number / 8) + dst.number / 8) % 2) +
        (0xC0 + 8 * (src.number % 8) + dst.number % 8) % 8 = dst.number := by
      omega
    have hregSrc : 8 * ((0x48 + 4 * (src.number / 8) + dst.number / 8) / 4 % 2) +
        (0xC0 + 8 * (src.number % 8) + dst.number % 8) / 8 % 8 = src.number := by
      omega
    have hrex : (0x48 + 4 * (src.number / 8) + dst.number / 8) / 2 = 36 ∨
        (0x48 + 4 * (src.number / 8) + dst.number / 8) / 2 = 38 := by
      omega
    have hmod : (0xC0 + 8 * (src.number % 8) + dst.number % 8) / 64 = 3 := by
      omega
    unfold decode
    simp only [hb0, hb1, hb2, hregDst, hregSrc, Reg.ofNumber_number]
    rw [if_neg (by omega), if_neg (by omega), if_neg (by omega), if_neg (by omega),
      if_neg (by omega), if_pos ⟨hrex, trivial, hmod⟩]
    rfl

/-! Memory. -/

abbrev Memory : Type := UInt64 → UInt8

/-- The memory has these bytes from the address on. -/
def Holds (mem : Memory) (addr : UInt64) (bytes : List UInt8) : Prop :=
  Begins (fun i => mem (addr + UInt64.ofNat i)) bytes

def store (mem : Memory) (addr : UInt64) (bytes : List UInt8) : Memory := fun x =>
  (bytes[(x - addr).toNat]?).getD (mem x)

/-- The address is one of the `len` addresses from the given one on. -/
def InBlock (addr : UInt64) (len : ℕ) (x : UInt64) : Prop := (x - addr).toNat < len

instance (addr : UInt64) (len : ℕ) (x : UInt64) : Decidable (InBlock addr len x) :=
  inferInstanceAs (Decidable (_ < _))

/-- No address is in both blocks. -/
def Separate (addr : UInt64) (len : ℕ) (addr' : UInt64) (len' : ℕ) : Prop :=
  ∀ x, InBlock addr len x → ¬InBlock addr' len' x

theorem add_ofNat_add (addr : UInt64) (i j : ℕ) :
    addr + UInt64.ofNat i + UInt64.ofNat j = addr + UInt64.ofNat (i + j) := by
  rw [UInt64.ofNat_add, UInt64.add_assoc]

theorem toNat_offset (addr : UInt64) {i : ℕ} (hi : i < 2 ^ 64) :
    (addr + UInt64.ofNat i - addr).toNat = i := by
  have hsub : addr + UInt64.ofNat i - addr = UInt64.ofNat i := by grind
  rw [hsub, UInt64.toNat_ofNat_of_lt' hi]

theorem inBlock_of_offset {addr x : UInt64} {d len len' : ℕ}
    (h : InBlock (addr + UInt64.ofNat d) len x) (hle : d + len ≤ len') (hlen' : len' ≤ 2 ^ 64) :
    InBlock addr len' x := by
  unfold InBlock at *
  have hsub : x - addr = UInt64.ofNat (d + (x - (addr + UInt64.ofNat d)).toNat) := by
    rw [UInt64.ofNat_add, UInt64.ofNat_toNat]
    grind
  rw [hsub, UInt64.toNat_ofNat_of_lt' (Nat.lt_of_lt_of_le (by omega) hlen')]
  omega

/-- Blocks at different offsets from one address are separate. -/
theorem separate_offsets {addr : UInt64} {i len j len' : ℕ} (hle : i + len ≤ j)
    (hlen' : j + len' ≤ 2 ^ 64) :
    Separate (addr + UInt64.ofNat i) len (addr + UInt64.ofNat j) len' := by
  intro x hx hx'
  unfold InBlock at hx hx'
  have heq : UInt64.ofNat (i + (x - (addr + UInt64.ofNat i)).toNat) =
      UInt64.ofNat (j + (x - (addr + UInt64.ofNat j)).toNat) := by
    rw [UInt64.ofNat_add, UInt64.ofNat_add, UInt64.ofNat_toNat, UInt64.ofNat_toNat]
    grind
  have hnat := congrArg UInt64.toNat heq
  rw [UInt64.toNat_ofNat_of_lt' (Nat.lt_of_lt_of_le (by omega) hlen'),
    UInt64.toNat_ofNat_of_lt' (Nat.lt_of_lt_of_le (by omega) hlen')] at hnat
  omega

theorem Separate.of_offset {addr addr' : UInt64} {d len len' n : ℕ}
    (h : Separate addr len' addr' n) (hle : d + len ≤ len') (hlen' : len' ≤ 2 ^ 64) :
    Separate (addr + UInt64.ofNat d) len addr' n :=
  fun x hx => h x (inBlock_of_offset hx hle hlen')

theorem store_of_not_inBlock {mem : Memory} {addr x : UInt64} {bytes : List UInt8}
    (h : ¬InBlock addr bytes.length x) : store mem addr bytes x = mem x := by
  rw [store, List.getElem?_eq_none (by rw [InBlock] at h; omega), Option.getD_none]

theorem holds_store {mem : Memory} {addr : UInt64} {bytes : List UInt8}
    (h : bytes.length ≤ 2 ^ 64) : Holds (store mem addr bytes) addr bytes := by
  intro i b hb
  obtain ⟨hi, -⟩ := List.getElem?_eq_some_iff.mp hb
  dsimp only
  rw [store, toNat_offset addr (by omega), hb, Option.getD_some]

theorem inBlock_offset {addr : UInt64} {i len : ℕ} (hi : i < len) (hlen : len ≤ 2 ^ 64) :
    InBlock addr len (addr + UInt64.ofNat i) := by
  rw [InBlock, toNat_offset addr (by omega)]
  exact hi

/-- What a memory holds, it also holds after a change elsewhere. -/
theorem Holds.of_same {mem mem' : Memory} {addr : UInt64} {bytes : List UInt8}
    (h : Holds mem addr bytes) (hlen : bytes.length ≤ 2 ^ 64)
    (hsame : ∀ x, InBlock addr bytes.length x → mem' x = mem x) : Holds mem' addr bytes := by
  intro i b hb
  obtain ⟨hi, -⟩ := List.getElem?_eq_some_iff.mp hb
  dsimp only
  rw [hsame _ (inBlock_offset hi hlen)]
  exact h i b hb

theorem Holds.store {mem : Memory} {addr addr' : UInt64} {bytes bytes' : List UInt8}
    (h : Holds mem addr bytes) (hlen : bytes.length ≤ 2 ^ 64)
    (hapart : Separate addr bytes.length addr' bytes'.length) :
    Holds (store mem addr' bytes') addr bytes :=
  h.of_same hlen fun x hx => store_of_not_inBlock (hapart x hx)

theorem Holds.left {mem : Memory} {addr : UInt64} {bytes rest : List UInt8}
    (h : Holds mem addr (bytes ++ rest)) : Holds mem addr bytes := Begins.left h

theorem Holds.right {mem : Memory} {addr : UInt64} {bytes rest : List UInt8}
    (h : Holds mem addr (bytes ++ rest)) :
    Holds mem (addr + UInt64.ofNat bytes.length) rest := by
  intro i b hb
  dsimp only
  rw [add_ofNat_add]
  exact Begins.right h i b hb

end HpcProfiler.MachineCode
