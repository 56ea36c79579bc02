import HpcProfiler.LittleEndian
import Mathlib.Data.List.Forall2

/-!
Packed records of fixed-width little-endian integers. A format is a list of codes,
each with a width and a sign. Packing checks every value against its code's range;
unpacking gives back exactly the packed values.
-/

namespace HpcProfiler.StructFormat

open LittleEndian

/-- The exceptions of packing, of an explicit check and of a missing key. -/
inductive PyError
  | structError
  | valueError (message : String)
  | keyError (key : String)
  deriving DecidableEq

theorem ok_bind {α β : Type} (a : α) (f : α → Except PyError β) : (Except.ok a >>= f) = f a :=
  rfl

theorem ok_of_bind {α β : Type} {x : Except PyError α} {f : α → Except PyError β} {b : β}
    (h : (x >>= f) = .ok b) : ∃ a, x = .ok a ∧ f a = .ok b := by
  cases x with
  | error e => cases h
  | ok a => exact ⟨a, rfl, h⟩

theorem ok_of_map {α β : Type} {x : Except PyError α} {f : α → β} {b : β}
    (h : x.map f = .ok b) : ∃ a, x = .ok a ∧ f a = b := by
  cases x with
  | error e => cases h
  | ok a =>
    cases h
    exact ⟨a, rfl, rfl⟩

inductive Code
  | Q
  | I
  | H
  | B
  | b
  | i
  deriving DecidableEq

def Code.size : Code → ℕ
  | .Q => 8
  | .I => 4
  | .H => 2
  | .B => 1
  | .b => 1
  | .i => 4

def Code.signed : Code → Bool
  | .b => true
  | .i => true
  | _ => false

def Code.modulus (c : Code) : ℤ := 256 ^ c.size

/-- The least value of the code's range. -/
def Code.low (c : Code) : ℤ := if c.signed then -(c.modulus / 2) else 0

def Code.Fits (c : Code) (v : ℤ) : Prop := c.low ≤ v ∧ v < c.low + c.modulus

instance (c : Code) (v : ℤ) : Decidable (c.Fits v) := inferInstanceAs (Decidable (_ ∧ _))

def Code.bytes (c : Code) (v : ℤ) : List UInt8 := leBytes c.size (v % c.modulus).toNat

/-- The value of the code's range that is congruent to the bytes' number. -/
def Code.value (c : Code) (bytes : List UInt8) : ℤ :=
  c.low + ((leNat bytes : ℤ) - c.low) % c.modulus

def size (fmt : List Code) : ℕ := (fmt.map Code.size).sum

def pack : List Code → List ℤ → Except PyError (List UInt8)
  | [], [] => .ok []
  | c :: fmt, v :: vs =>
    if c.Fits v then (pack fmt vs).map (fun rest => c.bytes v ++ rest) else .error .structError
  | _, _ => .error .structError

def values : List Code → List UInt8 → List ℤ
  | [], _ => []
  | c :: fmt, bytes => c.value (bytes.take c.size) :: values fmt (bytes.drop c.size)

def unpack (fmt : List Code) (bytes : List UInt8) : Except PyError (List ℤ) :=
  if bytes.length = size fmt then .ok (values fmt bytes) else .error .structError

def unpackFrom (fmt : List Code) (payload : List UInt8) (off : ℕ) : Except PyError (List ℤ) :=
  if off + size fmt ≤ payload.length then .ok (values fmt (payload.drop off))
  else .error .structError

theorem Code.modulus_pos (c : Code) : 0 < c.modulus := by
  unfold Code.modulus
  positivity

@[simp] theorem Code.bytes_length (c : Code) (v : ℤ) : (c.bytes v).length = c.size :=
  leBytes_length _ _

theorem Code.value_bytes {c : Code} {v : ℤ} (h : c.Fits v) : c.value (c.bytes v) = v := by
  have hpos := c.modulus_pos
  have hnonneg : 0 ≤ v % c.modulus := Int.emod_nonneg v (by omega)
  have hlt : v % c.modulus < c.modulus := Int.emod_lt_of_pos v hpos
  have hbound : (v % c.modulus).toNat < 256 ^ c.size := by
    rw [← Int.ofNat_lt, Int.toNat_of_nonneg hnonneg]
    simpa [Code.modulus] using hlt
  obtain ⟨hlow, hhigh⟩ := h
  have hresidue : (v - c.low) % c.modulus = v - c.low :=
    Int.emod_eq_of_lt (by omega) (by omega)
  rw [Code.value, Code.bytes, leNat_leBytes hbound, Int.toNat_of_nonneg hnonneg,
    Int.emod_sub_emod, hresidue]
  omega

theorem size_cons (c : Code) (fmt : List Code) : size (c :: fmt) = c.size + size fmt := rfl

theorem size_replicate (n : ℕ) (c : Code) : size (List.replicate n c) = n * c.size := by
  induction n with
  | zero => simp [size]
  | succ n ih => rw [List.replicate_succ, size_cons, ih, Nat.succ_mul, Nat.add_comm]

/-- What is packed behind a code is the value's own bytes and what is packed after it. -/
theorem pack_cons_ok {c : Code} {fmt : List Code} {v : ℤ} {vs : List ℤ} {bytes : List UInt8}
    (h : pack (c :: fmt) (v :: vs) = .ok bytes) :
    c.Fits v ∧ ∃ rest, pack fmt vs = .ok rest ∧ bytes = c.bytes v ++ rest := by
  unfold pack at h
  by_cases hfit : c.Fits v
  · rw [if_pos hfit] at h
    cases hrest : pack fmt vs with
    | error e =>
      rw [hrest] at h
      cases h
    | ok rest =>
      rw [hrest] at h
      cases h
      exact ⟨hfit, rest, rfl, rfl⟩
  · rw [if_neg hfit] at h
    cases h

theorem pack_length {fmt : List Code} {vs : List ℤ} {bytes : List UInt8}
    (h : pack fmt vs = .ok bytes) : bytes.length = size fmt := by
  induction fmt generalizing vs bytes with
  | nil =>
    cases vs with
    | nil =>
      cases h
      rfl
    | cons v vs => cases h
  | cons c fmt ih =>
    cases vs with
    | nil => cases h
    | cons v vs =>
      obtain ⟨-, rest, hrest, rfl⟩ := pack_cons_ok h
      rw [List.length_append, Code.bytes_length, ih hrest, size_cons]

/-- Only values that fit their codes are packed. -/
theorem forall₂_fits_of_pack {fmt : List Code} {vs : List ℤ} {bytes : List UInt8}
    (h : pack fmt vs = .ok bytes) : List.Forall₂ Code.Fits fmt vs := by
  induction fmt generalizing vs bytes with
  | nil =>
    cases vs with
    | nil => exact .nil
    | cons v vs => cases h
  | cons c fmt ih =>
    cases vs with
    | nil => cases h
    | cons v vs =>
      obtain ⟨hfit, rest, hrest, -⟩ := pack_cons_ok h
      exact .cons hfit (ih hrest)

/-- The values are packed to these bytes, as many as the format takes, and are read
back from them whatever follows. -/
structure Packed (fmt : List Code) (vs : List ℤ) (bytes : List UInt8) : Prop where
  packs : pack fmt vs = .ok bytes
  length_eq : bytes.length = size fmt
  values_eq : ∀ rest, values fmt (bytes ++ rest) = vs

theorem Packed.nil : Packed [] [] [] := ⟨rfl, rfl, fun _ => rfl⟩

theorem Packed.cons {c : Code} {v : ℤ} {fmt : List Code} {vs : List ℤ} {bytes : List UInt8}
    (hfit : c.Fits v) (h : Packed fmt vs bytes) :
    Packed (c :: fmt) (v :: vs) (c.bytes v ++ bytes) := by
  refine ⟨?_, ?_, ?_⟩
  · rw [pack, if_pos hfit, h.packs]
    rfl
  · rw [List.length_append, Code.bytes_length, h.length_eq, size_cons]
  · intro rest
    rw [List.append_assoc, values, List.take_left' (Code.bytes_length c v),
      List.drop_left' (Code.bytes_length c v), Code.value_bytes hfit, h.values_eq]

theorem exists_packed {fmt : List Code} {vs : List ℤ} (h : List.Forall₂ Code.Fits fmt vs) :
    ∃ bytes, Packed fmt vs bytes := by
  induction h with
  | nil => exact ⟨[], Packed.nil⟩
  | @cons c v fmt vs hfit _ ih =>
    obtain ⟨bytes, hbytes⟩ := ih
    exact ⟨c.bytes v ++ bytes, Packed.cons hfit hbytes⟩

/-- A number that the width of the code can hold is packed to its own bytes. -/
theorem Code.bytes_natCast {c : Code} {n : ℕ} (hn : n < 256 ^ c.size) :
    c.bytes (n : ℤ) = leBytes c.size n := by
  have hmod : (n : ℤ) % c.modulus = n := by
    apply Int.emod_eq_of_lt (Int.natCast_nonneg n)
    unfold Code.modulus
    exact_mod_cast hn
  rw [Code.bytes, hmod, Int.toNat_natCast]

theorem Code.fits_natCast {c : Code} {n : ℕ} (hsign : c.signed = false)
    (hn : n < 256 ^ c.size) : c.Fits (n : ℤ) := by
  have hlow : c.low = 0 := by simp [Code.low, hsign]
  refine ⟨by omega, ?_⟩
  rw [hlow, zero_add, Code.modulus]
  exact_mod_cast hn

/-- An unsigned field in front of packed ones. -/
theorem Packed.unsigned {c : Code} {n : ℕ} {fmt : List Code} {vs : List ℤ}
    {bytes : List UInt8} (hsign : c.signed = false) (hn : n < 256 ^ c.size)
    (h : Packed fmt vs bytes) : Packed (c :: fmt) ((n : ℤ) :: vs) (leBytes c.size n ++ bytes) := by
  rw [← Code.bytes_natCast hn]
  exact Packed.cons (Code.fits_natCast hsign hn) h

theorem unpack_ok {fmt : List Code} {bytes : List UInt8} (h : bytes.length = size fmt) :
    unpack fmt bytes = .ok (values fmt bytes) := if_pos h

theorem unpackFrom_ok {fmt : List Code} {payload : List UInt8} {off : ℕ}
    (h : off + size fmt ≤ payload.length) :
    unpackFrom fmt payload off = .ok (values fmt (payload.drop off)) := if_pos h

theorem values_take (fmt : List Code) (bytes : List UInt8) :
    values fmt (bytes.take (size fmt)) = values fmt bytes := by
  induction fmt generalizing bytes with
  | nil => rfl
  | cons c fmt ih =>
    rw [values, values, size_cons, List.take_take, Nat.min_eq_left (Nat.le_add_right _ _),
      List.drop_take, Nat.add_sub_cancel_left, ih]

theorem values_take_of_le {fmt : List Code} {m : ℕ} (bytes : List UInt8) (h : size fmt ≤ m) :
    values fmt (bytes.take m) = values fmt bytes := by
  rw [← values_take fmt (bytes.take m), List.take_take, Nat.min_eq_left h, values_take]

/-- A record that lies in front of a cut is read as from the whole payload. -/
theorem unpackFrom_take {fmt : List Code} {payload : List UInt8} {off n : ℕ}
    (hn : n ≤ payload.length) (h : off + size fmt ≤ n) :
    unpackFrom fmt (payload.take n) off = unpackFrom fmt payload off := by
  have hlen : (payload.take n).length = n := by
    exact List.length_take_of_le hn
  rw [unpackFrom_ok (by omega), unpackFrom_ok (by omega), List.drop_take,
    values_take_of_le _ (by omega)]

theorem Packed.unpack {fmt : List Code} {vs : List ℤ} {bytes : List UInt8}
    (h : Packed fmt vs bytes) : unpack fmt bytes = .ok vs := by
  have hvalues := h.values_eq []
  rw [List.append_nil] at hvalues
  rw [unpack_ok h.length_eq, hvalues]

/-- From the offset on, exactly these bytes of the payload remain. -/
def Remains (payload : List UInt8) (off : ℕ) (rest : List UInt8) : Prop :=
  off ≤ payload.length ∧ payload.drop off = rest

theorem Remains.start (before rest : List UInt8) :
    Remains (before ++ rest) before.length rest := by
  refine ⟨?_, List.drop_left⟩
  rw [List.length_append]
  omega

theorem Remains.length_eq {payload rest : List UInt8} {off : ℕ} (h : Remains payload off rest) :
    payload.length = off + rest.length := by
  obtain ⟨hle, hdrop⟩ := h
  rw [← hdrop, List.length_drop]
  omega

theorem Remains.next {payload bytes rest : List UInt8} {off n : ℕ}
    (h : Remains payload off (bytes ++ rest)) (hn : bytes.length = n) :
    Remains payload (off + n) rest := by
  have hlen := h.length_eq
  rw [List.length_append] at hlen
  refine ⟨by omega, ?_⟩
  rw [← List.drop_drop, h.2, List.drop_left' hn]

/-- Packed values are read back at the place where they were put. -/
theorem Packed.unpackFrom {fmt : List Code} {vs : List ℤ} {bytes payload rest : List UInt8}
    {off : ℕ} (h : Packed fmt vs bytes) (hat : Remains payload off (bytes ++ rest)) :
    unpackFrom fmt payload off = .ok vs := by
  have hlen := hat.length_eq
  have hsize := h.length_eq
  rw [List.length_append] at hlen
  rw [unpackFrom_ok (by omega), hat.2, h.values_eq]

end HpcProfiler.StructFormat
