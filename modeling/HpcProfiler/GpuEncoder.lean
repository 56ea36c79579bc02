import HpcProfiler.LittleEndian
import Mathlib.Data.List.TakeWhile

/-!
The writing side of the wire format of GPU events: the function serialise_event of
the CUPTI layer and the push functions that append its fields to a buffer. A C
string is given by its bytes before the terminating zero.
-/

namespace HpcProfiler.GpuEncoder

open LittleEndian

def EVENT_TRANSFER : UInt8 := 2

def EVENT_PAGE_FAULT : UInt8 := 3

def EVENT_KERNEL : UInt8 := 4

def XFER_H2D : UInt8 := 0

def XFER_D2H : UInt8 := 1

def XFER_D2D : UInt8 := 2

def XFER_PREFETCH : UInt8 := 3

structure CString where
  chars : List UInt8
  nonzero : ∀ b ∈ chars, b ≠ 0

/-- The bytes from the pointer on, up to and with the terminator. -/
def CString.memory (s : CString) : List UInt8 := s.chars ++ [0]

def strnlen (s : CString) (n : ℕ) : ℕ := ((s.memory.take n).takeWhile (fun b => b != 0)).length

def pushU8 (b : List UInt8) (v : UInt8) : List UInt8 := b ++ [v]

def pushI8 (b : List UInt8) (v : Int8) : List UInt8 := b ++ [v.toUInt8]

def pushU16 (b : List UInt8) (v : UInt16) : List UInt8 :=
  b ++ [(v &&& 0xFF).toUInt8] ++ [((v >>> 8) &&& 0xFF).toUInt8]

def pushU32 (b : List UInt8) (v : UInt32) : List UInt8 :=
  (List.range 4).foldl (fun b i => b ++ [((v >>> UInt32.ofNat (8 * i)) &&& 0xFF).toUInt8]) b

def pushU64 (b : List UInt8) (v : UInt64) : List UInt8 :=
  (List.range 8).foldl (fun b i => b ++ [((v >>> UInt64.ofNat (8 * i)) &&& 0xFF).toUInt8]) b

/-- A null pointer is written as the empty string. -/
def pushStr (b : List UInt8) : Option CString → List UInt8
  | none => pushU16 b 0
  | some s =>
    let len := UInt16.ofNat (strnlen s 65535)
    pushU16 b len ++ s.memory.take len.toNat

structure GpuEventData where
  tsNs : UInt64 := 0
  pid : UInt32 := 0
  eventType : UInt8 := 0
  label : Option CString := some ⟨[], by simp⟩
  deviceId : UInt32 := 0
  srcAddress : UInt64 := 0
  dstAddress : UInt64 := 0
  transferSize : UInt64 := 0
  transferKind : UInt8 := XFER_D2D
  pageFaults : UInt32 := 0
  kernelDurationNs : UInt64 := 0
  streamId : UInt32 := 0
  deviceMemUsedMb : UInt32 := 0
  umBytesHtod : UInt64 := 0
  umBytesDtoh : UInt64 := 0
  gridX : UInt32 := 0
  gridY : UInt32 := 0
  gridZ : UInt32 := 0
  blockX : UInt32 := 0
  blockY : UInt32 := 0
  blockZ : UInt32 := 0
  registersPerThread : UInt32 := 0
  sharedMemBytes : UInt32 := 0
  correlationId : UInt32 := 0

/-- The fields in front of the label. -/
def pushHeader (eventId : UInt64) (ev : GpuEventData) (b : List UInt8) : List UInt8 :=
  let b := pushU64 b eventId
  let b := pushU64 b ev.tsNs
  let b := pushU32 b ev.pid
  let b := pushU64 b 0
  let b := pushU8 b ev.eventType
  let b := pushU8 b 0
  let b := pushU64 b 0
  let b := pushU64 b 0
  let b := pushU32 b 0
  pushI8 b 0

/-- The extension block behind the label. -/
def pushExtension (ev : GpuEventData) (b : List UInt8) : List UInt8 :=
  let b := pushU32 b ev.deviceId
  let b := pushU64 b ev.srcAddress
  let b := pushU64 b ev.dstAddress
  let b := pushU64 b ev.transferSize
  let b := pushU8 b ev.transferKind
  let b := pushU32 b ev.pageFaults
  let b := pushU64 b ev.kernelDurationNs
  let b := pushU32 b ev.streamId
  let b := pushU32 b ev.deviceMemUsedMb
  let b := pushU64 b ev.umBytesHtod
  let b := pushU64 b ev.umBytesDtoh
  let b := pushU32 b ev.gridX
  let b := pushU32 b ev.gridY
  let b := pushU32 b ev.gridZ
  let b := pushU32 b ev.blockX
  let b := pushU32 b ev.blockY
  let b := pushU32 b ev.blockZ
  let b := pushU32 b ev.registersPerThread
  let b := pushU32 b ev.sharedMemBytes
  pushU32 b ev.correlationId

/-- The payload of an event and the next value of the event counter. -/
def serialiseEvent (gEventId : UInt64) (ev : GpuEventData) : List UInt8 × UInt64 :=
  let b := pushHeader gEventId ev []
  let b := pushStr b ev.label
  (pushExtension ev b, gEventId + 1)

theorem foldl_push {α : Type*} (f : α → UInt8) (xs : List α) (b : List UInt8) :
    xs.foldl (fun b x => b ++ [f x]) b = b ++ xs.map f := by
  induction xs generalizing b with
  | nil => simp
  | cons x xs ih =>
    rw [List.foldl_cons, ih, List.append_assoc, List.map_cons, List.singleton_append]

theorem leBytes_eq_map (n v : ℕ) :
    leBytes n v = (List.range n).map (fun i => UInt8.ofNat (v / 256 ^ i % 256)) := by
  induction n generalizing v with
  | zero => rfl
  | succ n ih =>
    rw [leBytes, ih, List.range_succ_eq_map, List.map_cons, List.map_map, pow_zero, Nat.div_one]
    congr 1
    apply List.map_congr_left
    intro i _
    show UInt8.ofNat (v / 256 / 256 ^ i % 256) = UInt8.ofNat (v / 256 ^ (i + 1) % 256)
    rw [Nat.div_div_eq_div_mul, pow_succ, Nat.mul_comm 256]

/-- The byte that a shift by whole bytes and a mask pick out. -/
theorem shift_mask_eq (v i : ℕ) : (v >>> (8 * i) &&& 255) % 256 = v / 256 ^ i % 256 := by
  have hmask : v >>> (8 * i) &&& 255 = v >>> (8 * i) % 2 ^ 8 := Nat.and_two_pow_sub_one_eq_mod _ 8
  rw [hmask, Nat.shiftRight_eq_div_pow, pow_mul, Nat.mod_mod_of_dvd _ (by norm_num)]
  rfl

theorem pushU32_eq (b : List UInt8) (v : UInt32) : pushU32 b v = b ++ leBytes 4 v.toNat := by
  rw [pushU32, foldl_push, leBytes_eq_map]
  congr 1
  apply List.map_congr_left
  intro i hi
  have hlt : i < 4 := List.mem_range.mp hi
  have hshift : 8 * i % 2 ^ 32 % 32 = 8 * i := by omega
  apply UInt8.toNat.inj
  rw [UInt32.toNat_toUInt8, UInt32.toNat_and, UInt32.toNat_shiftRight, UInt32.toNat_ofNat',
    hshift, UInt8.toNat_ofNat', Nat.mod_mod]
  exact shift_mask_eq v.toNat i

theorem pushU64_eq (b : List UInt8) (v : UInt64) : pushU64 b v = b ++ leBytes 8 v.toNat := by
  rw [pushU64, foldl_push, leBytes_eq_map]
  congr 1
  apply List.map_congr_left
  intro i hi
  have hlt : i < 8 := List.mem_range.mp hi
  have hshift : 8 * i % 2 ^ 64 % 64 = 8 * i := by omega
  apply UInt8.toNat.inj
  rw [UInt64.toNat_toUInt8, UInt64.toNat_and, UInt64.toNat_shiftRight, UInt64.toNat_ofNat',
    hshift, UInt8.toNat_ofNat', Nat.mod_mod]
  exact shift_mask_eq v.toNat i

theorem pushU16_eq (b : List UInt8) (v : UInt16) : pushU16 b v = b ++ leBytes 2 v.toNat := by
  have hlow : (v &&& 0xFF).toUInt8 = UInt8.ofNat (v.toNat / 256 ^ 0 % 256) := by
    apply UInt8.toNat.inj
    rw [UInt16.toNat_toUInt8, UInt16.toNat_and, UInt8.toNat_ofNat', Nat.mod_mod]
    exact shift_mask_eq v.toNat 0
  have hhigh : ((v >>> 8) &&& 0xFF).toUInt8 = UInt8.ofNat (v.toNat / 256 ^ 1 % 256) := by
    apply UInt8.toNat.inj
    rw [UInt16.toNat_toUInt8, UInt16.toNat_and, UInt16.toNat_shiftRight, UInt8.toNat_ofNat',
      Nat.mod_mod]
    exact shift_mask_eq v.toNat 1
  rw [pushU16, hlow, hhigh, List.append_assoc, leBytes_eq_map]
  rfl

theorem pushU8_eq (b : List UInt8) (v : UInt8) : pushU8 b v = b ++ leBytes 1 v.toNat := by
  have hbyte : UInt8.ofNat (v.toNat % 256) = v := by
    rw [Nat.mod_eq_of_lt v.toNat_lt, UInt8.ofNat_toNat]
  rw [leBytes, hbyte]
  rfl

/-- Up to the limit, the length is the number of bytes before the terminator. -/
theorem strnlen_eq (s : CString) (n : ℕ) : strnlen s n = min n s.chars.length := by
  have hchars : (s.chars.take n).takeWhile (fun b => b != 0) = s.chars.take n := by
    rw [List.takeWhile_eq_self_iff]
    intro b hb
    simpa using s.nonzero b (List.mem_of_mem_take hb)
  have hend : ([0].take (n - s.chars.length)).takeWhile (fun b : UInt8 => b != 0) = [] := by
    cases n - s.chars.length <;> simp
  unfold strnlen CString.memory
  rw [List.take_append, List.takeWhile_append, hchars, hend, if_pos rfl, List.append_nil,
    List.length_take]

/-- The characters that a pointer leads to, none for a null pointer. -/
def charsOf : Option CString → List UInt8
  | none => []
  | some s => s.chars

/-- What is written of a string: the length of its first 65535 bytes, and these. -/
theorem pushStr_eq (b : List UInt8) (label : Option CString) :
    pushStr b label =
      b ++ (leBytes 2 ((charsOf label).take 65535).length ++ (charsOf label).take 65535) := by
  cases label with
  | none =>
    show pushU16 b 0 = b ++ (leBytes 2 0 ++ [])
    rw [pushU16_eq, List.append_nil]
    rfl
  | some s =>
    show _ = b ++ (leBytes 2 (s.chars.take 65535).length ++ s.chars.take 65535)
    have hlen : (UInt16.ofNat (strnlen s 65535)).toNat = (s.chars.take 65535).length := by
      rw [strnlen_eq, UInt16.toNat_ofNat', List.length_take]
      omega
    have htake : s.memory.take (s.chars.take 65535).length = s.chars.take 65535 := by
      rw [List.length_take, CString.memory, List.take_append_of_le_length (Nat.min_le_right _ _),
        ← List.take_take, List.take_length]
    rw [pushStr, pushU16_eq, hlen, htake, List.append_assoc]

end HpcProfiler.GpuEncoder
