import Mathlib.Data.BitVec

/-!
Steps that mix the bits of a word and lose nothing: an exclusive or with a constant, one
with the word shifted to the right, and the product with a number that has an inverse.
-/

namespace HpcProfiler.WordMixing

variable {w : ℕ}

theorem xor_const_injective (c : BitVec w) : Function.Injective fun x => x ^^^ c := by
  intro x y h
  exact (BitVec.xor_left_inj c).mp h

/-- A word that is its own half is zero. -/
theorem eq_zero_of_shifted {k : ℕ} (hk : 0 < k) {d : BitVec w} (h : d = d >>> k) :
    d = 0#w := by
  have hhalf := congrArg BitVec.toNat h
  rw [BitVec.toNat_ushiftRight, Nat.shiftRight_eq_div_pow] at hhalf
  apply BitVec.eq_of_toNat_eq
  rw [BitVec.toNat_zero]
  by_contra hne
  have hlt : d.toNat / 2 ^ k < d.toNat :=
    Nat.div_lt_self (by omega) (Nat.one_lt_two_pow (by omega))
  omega

theorem xor_shift_injective {k : ℕ} (hk : 0 < k) :
    Function.Injective fun x : BitVec w => x ^^^ x >>> k := by
  intro x y h
  have hdiff : x ^^^ y = (x ^^^ y) >>> k := by
    rw [BitVec.ushiftRight_xor_distrib]
    change x ^^^ x >>> k = y ^^^ y >>> k at h
    apply (BitVec.xor_left_inj (y >>> k)).mp
    calc (x ^^^ y) ^^^ y >>> k = x ^^^ (y ^^^ y >>> k) := BitVec.xor_assoc ..
      _ = x ^^^ (x ^^^ x >>> k) := by rw [h]
      _ = x >>> k := by rw [← BitVec.xor_assoc, BitVec.xor_self, BitVec.zero_xor]
      _ = (x >>> k ^^^ y >>> k) ^^^ y >>> k := by
        rw [BitVec.xor_assoc, BitVec.xor_self, BitVec.xor_zero]
  exact BitVec.xor_eq_zero_iff.mp (eq_zero_of_shifted hk hdiff)

theorem mul_injective {m inverse : BitVec w} (h : m * inverse = 1#w) :
    Function.Injective fun x => x * m := by
  intro x y hxy
  have hback : ∀ z : BitVec w, z * m * inverse = z := by
    intro z
    rw [BitVec.mul_assoc, h, BitVec.mul_one]
  calc x = x * m * inverse := (hback x).symm
    _ = y * m * inverse := congrArg (· * inverse) hxy
    _ = y := hback y

end HpcProfiler.WordMixing
