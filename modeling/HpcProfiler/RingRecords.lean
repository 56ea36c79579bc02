import HpcProfiler.LittleEndian
import HpcProfiler.SharedRing
import Mathlib.Algebra.BigOperators.Group.List.Basic

/-!
Records in the data region. A record is a length prefix followed by its payload.
The prefix reads back as the length it was written with, and the byte loops of
the ring buffer are the cyclic block operations at the counter's position while
the mapping covers the capacity.
-/

namespace HpcProfiler.RingRecords

open CyclicCells WrappingCounter LittleEndian SharedRing

theorem toNat_orLenByte (len : UInt32) (i : ℕ) (b : UInt8) (hi : i < 4)
    (hlen : len.toNat < 2 ^ (8 * i)) :
    (orLenByte len i b).toNat = len.toNat + b.toNat * 2 ^ (8 * i) := by
  have hb : b.toNat < 2 ^ 8 := b.toNat_lt
  have hshift : (UInt32.ofNat (8 * i)).toNat % 32 = 8 * i := by
    rw [UInt32.toNat_ofNat', Nat.mod_eq_of_lt (by omega), Nat.mod_eq_of_lt (by omega)]
  have hfit : b.toNat * 2 ^ (8 * i) < 2 ^ 32 := by
    calc b.toNat * 2 ^ (8 * i) < 2 ^ 8 * 2 ^ (8 * i) :=
          (Nat.mul_lt_mul_right (Nat.two_pow_pos _)).mpr hb
      _ = 2 ^ (8 + 8 * i) := (Nat.pow_add 2 8 (8 * i)).symm
      _ ≤ 2 ^ 32 := Nat.pow_le_pow_right (by norm_num) (by omega)
  rw [orLenByte, UInt32.toNat_or, UInt32.toNat_shiftLeft, hshift, UInt8.toNat_toUInt32,
    Nat.shiftLeft_eq, Nat.mod_eq_of_lt hfit, Nat.or_comm, ← Nat.shiftLeft_eq,
    ← Nat.shiftLeft_add_eq_or_of_lt hlen, Nat.add_comm]

/-- The prefix loop adds up the bytes it reads in little-endian order. -/
theorem toNat_assembleLenFrom (bytes : List UInt8) (i : ℕ) (len : UInt32)
    (hi : i + bytes.length ≤ 4) (hlen : len.toNat < 2 ^ (8 * i)) :
    (assembleLenFrom i len bytes).toNat = len.toNat + 2 ^ (8 * i) * leNat bytes := by
  induction bytes generalizing i len with
  | nil => simp [assembleLenFrom, leNat]
  | cons b bs ih =>
    simp only [List.length_cons] at hi
    have hb : b.toNat < 256 := b.toNat_lt
    have hbyte := toNat_orLenByte len i b (by omega) hlen
    have hpow : 2 ^ (8 * (i + 1)) = 2 ^ (8 * i) * 256 := by
      rw [Nat.mul_add, pow_add]
      norm_num
    have hnext : (orLenByte len i b).toNat < 2 ^ (8 * (i + 1)) := by
      rw [hbyte, hpow, Nat.mul_comm b.toNat]
      calc len.toNat + 2 ^ (8 * i) * b.toNat < 2 ^ (8 * i) + 2 ^ (8 * i) * b.toNat := by omega
        _ = 2 ^ (8 * i) * (b.toNat + 1) := by ring
        _ ≤ 2 ^ (8 * i) * 256 := Nat.mul_le_mul_left _ hb
    rw [assembleLenFrom, ih (i + 1) _ (by omega) hnext, hbyte, leNat, hpow]
    ring

theorem lenBytes_eq (len : UInt32) : lenBytes len = leBytes 4 len.toNat := by
  have h255 : (0xFF : UInt32) = 256 - 1 := by decide
  have hpow : PowerOfTwo 256 := ⟨8, by decide⟩
  have hbyte (x : UInt32) : (x &&& 0xFF).toUInt8 = UInt8.ofNat (x.toNat % 256) := by
    apply UInt8.toNat_inj.mp
    rw [UInt32.toNat_toUInt8, h255, hpow.toNat_and_pred, UInt8.toNat_ofNat']
    rfl
  have h8 : (8 : UInt32).toNat % 32 = 8 := by decide
  have h16 : (16 : UInt32).toNat % 32 = 16 := by decide
  have h24 : (24 : UInt32).toNat % 32 = 24 := by decide
  simp only [lenBytes, hbyte, UInt32.toNat_shiftRight, h8, h16, h24, leBytes,
    Nat.shiftRight_eq_div_pow, Nat.div_div_eq_div_mul]

@[simp] theorem lenBytes_length (len : UInt32) : (lenBytes len).length = 4 := rfl

theorem toNat_assembleLen (bytes : List UInt8) (h : bytes.length ≤ 4) :
    (assembleLen bytes).toNat = leNat bytes := by
  have hsum := toNat_assembleLenFrom bytes 0 0 (by omega) (by norm_num)
  rw [assembleLen, hsum]
  norm_num

theorem assembleLen_lenBytes (len : UInt32) : assembleLen (lenBytes len) = len := by
  apply UInt32.toNat_inj.mp
  rw [toNat_assembleLen _ (by simp), lenBytes_eq, leNat_leBytes]
  exact len.toNat_lt

/-- The bytes a payload occupies in the data region. -/
def record (payload : List UInt8) : List UInt8 :=
  lenBytes (UInt32.ofNat payload.length) ++ payload

@[simp] theorem record_length (payload : List UInt8) :
    (record payload).length = 4 + payload.length := by
  simp [record]

/-- The payload follows the prefix. -/
theorem getElem?_record (payload : List UInt8) (i : ℕ) :
    (record payload)[4 + i]? = payload[i]? := by
  rw [record, List.getElem?_append_right (by simp), lenBytes_length, Nat.add_sub_cancel_left]

/-- Bytes a payload takes up together with its length prefix. -/
def recordCost (payload : List UInt8) : ℕ := 4 + payload.length

theorem recordCost_pos (payload : List UInt8) : 0 < recordCost payload := by
  unfold recordCost
  omega

/-- Lengths whose record size does not overflow 32 bits. -/
def Storable (payload : List UInt8) : Prop := 1 ≤ payload.length ∧ 4 + payload.length < 2 ^ 32

theorem toNat_ofNat_length {payload : List UInt8} (h : Storable payload) :
    (UInt32.ofNat payload.length).toNat = payload.length := by
  have hlt := h.2
  rw [UInt32.toNat_ofNat']
  exact Nat.mod_eq_of_lt (by omega)

theorem toNat_recordSize {payload : List UInt8} (h : Storable payload) :
    (4 + UInt32.ofNat payload.length : UInt32).toNat = recordCost payload := by
  have hlt := h.2
  have hfour : (4 : UInt32).toNat = 4 := by decide
  rw [UInt32.toNat_add, toNat_ofNat_length h, hfour, recordCost]
  exact Nat.mod_eq_of_lt hlt

theorem ofNat_length_ne_zero {payload : List UInt8} (h : Storable payload) :
    UInt32.ofNat payload.length ≠ 0 := by
  intro h0
  have hlen := congrArg UInt32.toNat h0
  rw [toNat_ofNat_length h] at hlen
  have hpos := h.1
  have hzero : (0 : UInt32).toNat = 0 := by decide
  omega

/-- The bytes of a list of records laid end to end. -/
def stream (payloads : List (List UInt8)) : List UInt8 := payloads.flatMap record

@[simp] theorem stream_nil : stream [] = [] := rfl

@[simp] theorem stream_cons (p : List UInt8) (ps : List (List UInt8)) :
    stream (p :: ps) = record p ++ stream ps := rfl

@[simp] theorem stream_append (ps qs : List (List UInt8)) :
    stream (ps ++ qs) = stream ps ++ stream qs := by
  simp [stream]

theorem storeBytes_eq {rb : RingBuffer} {cap : UInt32} (hcap : PowerOfTwo cap)
    (hmap : cap.toNat ≤ rb.dataLength) (bytes : List UInt8) (seg : Segment) (pos : ℕ) :
    storeBytes rb cap seg (UInt32.ofNat pos) bytes =
      some ({ seg with data := put seg.data cap.toNat pos bytes },
        UInt32.ofNat (pos + bytes.length)) := by
  induction bytes generalizing seg pos with
  | nil => rfl
  | cons b bs ih =>
    have hidx := hcap.toNat_mask pos
    have hlt : pos % cap.toNat < rb.dataLength := (Nat.mod_lt _ hcap.pos).trans_le hmap
    simp only [storeBytes, RingBuffer.store, hidx, hlt, if_true, Option.bind_some, ofNat_succ, ih,
      put, List.length_cons, Nat.add_assoc, Nat.add_comm 1]

theorem loadBytes_eq {rb : RingBuffer} {cap : UInt32} (hcap : PowerOfTwo cap)
    (hmap : cap.toNat ≤ rb.dataLength) (seg : Segment) (pos n : ℕ) :
    loadBytes rb seg cap (UInt32.ofNat pos) n = some (window seg.data cap.toNat pos n) := by
  induction n generalizing pos with
  | zero => rfl
  | succ n ih =>
    have hidx := hcap.toNat_mask pos
    have hlt : pos % cap.toNat < rb.dataLength := (Nat.mod_lt _ hcap.pos).trans_le hmap
    simp only [loadBytes, RingBuffer.load, hidx, hlt, if_true, Option.bind_some, ofNat_succ, ih,
      Option.map_some, window]

end HpcProfiler.RingRecords
