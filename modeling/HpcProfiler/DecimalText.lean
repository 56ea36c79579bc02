import Mathlib.Data.Int.Basic
import Mathlib.Data.List.Basic
import Mathlib.Logic.Function.Basic

/-!
Decimal numerals in text. An integer can be read back from its numeral, and a text that ends
with a separator and a numeral can be taken apart, since a numeral has no other characters
than its sign and its digits.
-/

namespace HpcProfiler.DecimalText

theorem isDigit_of_mem_digits {n : ℕ} {c : Char} (h : c ∈ Nat.toDigits 10 n) : c.isDigit = true :=
  Nat.isDigit_of_mem_toDigits (by decide) (by decide) h

theorem toDigits_injective : Function.Injective (Nat.toDigits 10) := by
  intro m n h
  rw [← Nat.ofDigitChars_ten_toDigits (n := m), h, Nat.ofDigitChars_ten_toDigits]

theorem toList_numeral (n : ℤ) : (toString n).toList =
    if n < 0 then '-' :: Nat.toDigits 10 n.natAbs else Nat.toDigits 10 n.natAbs := by
  cases n with
  | ofNat n =>
    show (Nat.repr n).toList = _
    rw [Nat.toList_repr, if_neg (by simp)]
    rfl
  | negSucc n =>
    show ("-" ++ Nat.repr (n + 1)).toList = _
    rw [String.toList_append, Nat.toList_repr, if_pos (Int.negSucc_lt_zero n)]
    rfl

theorem mem_numeral {n : ℤ} {c : Char} (h : c ∈ (toString n).toList) :
    c = '-' ∨ c.isDigit = true := by
  rw [toList_numeral] at h
  split at h
  · rcases List.mem_cons.mp h with heq | hdigit
    · exact .inl heq
    · exact .inr (isDigit_of_mem_digits hdigit)
  · exact .inr (isDigit_of_mem_digits h)

theorem colon_not_mem_numeral (n : ℤ) : ':' ∉ (toString n).toList := by
  intro hmem
  rcases mem_numeral hmem with heq | hdigit
  · cases heq
  · cases hdigit

theorem numeral_injective {m n : ℤ} (h : (toString m).toList = (toString n).toList) : m = n := by
  have hminus : ∀ k l : ℕ, '-' :: Nat.toDigits 10 k ≠ Nat.toDigits 10 l := by
    intro k l heq
    have hmem : '-' ∈ Nat.toDigits 10 l := by
      rw [← heq]
      exact List.mem_cons_self ..
    cases isDigit_of_mem_digits hmem
  rw [toList_numeral, toList_numeral] at h
  split at h <;> split at h
  · have habs := toDigits_injective (List.cons.inj h).2
    omega
  · exact absurd h (hminus _ _)
  · exact absurd h.symm (hminus _ _)
  · have habs := toDigits_injective h
    omega

/-- Nothing but the separator itself can stand before the last separator of a list. -/
theorem eq_nil_of_last {α : Type*} {sep : α} {mid after after' : List α} (hafter : sep ∉ after)
    (h : sep :: after = mid ++ sep :: after') : mid = [] := by
  cases mid with
  | nil => rfl
  | cons first mid =>
    obtain ⟨-, hlater⟩ := List.cons.inj h
    rw [hlater] at hafter
    exact absurd (List.mem_append_right _ (List.mem_cons_self ..)) hafter

/-- A list is split at the last occurrence of a separator in one way only. -/
theorem split_at_last {α : Type*} {sep : α} {before before' after after' : List α}
    (hafter : sep ∉ after) (hafter' : sep ∉ after')
    (h : before ++ sep :: after = before' ++ sep :: after') :
    before = before' ∧ after = after' := by
  rcases List.append_eq_append_iff.mp h with ⟨mid, hbefore, hrest⟩ | ⟨mid, hbefore, hrest⟩
  · rw [eq_nil_of_last hafter hrest] at hbefore hrest
    exact ⟨by rw [hbefore, List.append_nil], (List.cons.inj hrest).2⟩
  · rw [eq_nil_of_last hafter' hrest] at hbefore hrest
    exact ⟨by rw [hbefore, List.append_nil], (List.cons.inj hrest).2.symm⟩

/-- A name and a number are told by the text that a colon joins them to. -/
theorem name_colon_numeral {name name' : String} {n n' : ℤ}
    (h : name ++ ":" ++ toString n = name' ++ ":" ++ toString n') : name = name' ∧ n = n' := by
  have hlist := congrArg String.toList h
  simp only [String.toList_append, List.append_assoc] at hlist
  obtain ⟨hname, hnumeral⟩ :=
    split_at_last (colon_not_mem_numeral n) (colon_not_mem_numeral n') hlist
  exact ⟨String.toList_inj.mp hname, numeral_injective hnumeral⟩

end HpcProfiler.DecimalText
