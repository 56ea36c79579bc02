import Mathlib.Data.Nat.ModEq
import Mathlib.Tactic.NormNum

/-!
Free-running 32-bit counters over a power-of-two range. A counter stands for an
unbounded position; masking it with capacity minus one gives that position modulo
the capacity, and the masked difference of two counters gives the distance of
their positions while that distance is below the capacity. Both facts hold
however often the counters have wrapped.
-/

namespace HpcProfiler.WrappingCounter

/-- A power of two that fits 32 bits. -/
def PowerOfTwo (cap : UInt32) : Prop := ∃ k, cap.toNat = 2 ^ k

theorem PowerOfTwo.pos {cap : UInt32} (h : PowerOfTwo cap) : 0 < cap.toNat := by
  obtain ⟨k, hk⟩ := h
  rw [hk]
  exact Nat.two_pow_pos k

theorem PowerOfTwo.dvd {cap : UInt32} (h : PowerOfTwo cap) : cap.toNat ∣ 2 ^ 32 := by
  obtain ⟨k, hk⟩ := h
  have hlt : 2 ^ k < 2 ^ 32 := by
    rw [← hk]
    exact cap.toNat_lt
  rw [hk]
  exact Nat.pow_dvd_pow 2 ((Nat.pow_lt_pow_iff_right (by norm_num)).mp hlt).le

theorem PowerOfTwo.toNat_pred {cap : UInt32} (h : PowerOfTwo cap) :
    (cap - 1).toNat = cap.toNat - 1 := by
  have hpos := h.pos
  rw [UInt32.toNat_sub_of_le]
  · rfl
  · rw [UInt32.le_iff_toNat_le]
    exact hpos

/-- The mask keeps the remainder modulo the capacity. -/
theorem PowerOfTwo.toNat_and_pred {cap : UInt32} (h : PowerOfTwo cap) (x : UInt32) :
    (x &&& (cap - 1)).toNat = x.toNat % cap.toNat := by
  rw [UInt32.toNat_and, h.toNat_pred]
  obtain ⟨k, hk⟩ := h
  rw [hk, Nat.and_two_pow_sub_one_eq_mod]

/-- The cell index of a counter is its position modulo the capacity. -/
theorem PowerOfTwo.toNat_mask {cap : UInt32} (h : PowerOfTwo cap) (n : ℕ) :
    (UInt32.ofNat n &&& (cap - 1)).toNat = n % cap.toNat := by
  rw [h.toNat_and_pred, UInt32.toNat_ofNat', Nat.mod_mod_of_dvd _ h.dvd]

/-- The masked difference of two counters is the distance of their positions. -/
theorem PowerOfTwo.toNat_mask_sub {cap : UInt32} (h : PowerOfTwo cap) {a b : ℕ}
    (hab : a ≤ b) (hlt : b - a < cap.toNat) :
    ((UInt32.ofNat b - UInt32.ofNat a) &&& (cap - 1)).toNat = b - a := by
  rw [← UInt32.ofNat_sub hab, h.toNat_mask, Nat.mod_eq_of_lt hlt]

/-- What is left of a capacity, less one, when no more than that is used. -/
theorem toNat_sub_sub_one {cap used : UInt32} (h : used.toNat < cap.toNat) :
    (cap - used - 1).toNat = cap.toNat - used.toNat - 1 := by
  have hone : (1 : UInt32).toNat = 1 := by decide
  have hsub : (cap - used).toNat = cap.toNat - used.toNat := by
    rw [UInt32.toNat_sub_of_le]
    rw [UInt32.le_iff_toNat_le]
    exact h.le
  rw [UInt32.toNat_sub_of_le, hsub, hone]
  rw [UInt32.le_iff_toNat_le, hsub, hone]
  omega

theorem ofNat_succ (n : ℕ) : UInt32.ofNat n + 1 = UInt32.ofNat (n + 1) := by
  rw [UInt32.ofNat_add]
  rfl

theorem ofNat_add_four (n : ℕ) : UInt32.ofNat n + 4 = UInt32.ofNat (n + 4) := by
  rw [UInt32.ofNat_add]
  rfl

/-- Clearing the lowest set bit leaves nothing exactly for the powers of two and zero. -/
theorem and_pred_eq_zero_iff {cap : UInt32} (h0 : cap ≠ 0) :
    cap &&& (cap - 1) = 0 ↔ PowerOfTwo cap := by
  have hne : cap.toNat ≠ 0 := by
    intro h
    exact h0 (UInt32.toNat_inj.mp h)
  have hle : (1 : UInt32) ≤ cap := by
    rw [UInt32.le_iff_toNat_le]
    exact Nat.one_le_iff_ne_zero.mpr hne
  rw [← UInt32.toNat_inj, UInt32.toNat_and, UInt32.toNat_sub_of_le _ _ hle]
  exact Nat.and_sub_one_eq_zero_iff_isPowerOfTwo hne

end HpcProfiler.WrappingCounter
