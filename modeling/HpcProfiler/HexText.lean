import HpcProfiler.PythonText
import Mathlib.Algebra.Ring.Nat
import Mathlib.Data.List.TakeWhile

/-!
Hexadecimal numerals in text. A numeral, padded with zeros to some width, is read back
as its number, and it has no other characters than the digits of base 16.
-/

namespace HpcProfiler.HexText

open PythonText

/-- The numeral in base 16 with small letters, with zeros before it up to the width. -/
def hexPadded (width n : ℕ) : List Char :=
  List.replicate (width - (Nat.toDigits 16 n).length) '0' ++ Nat.toDigits 16 n

theorem mem_toDigits {n : ℕ} {c : Char} (h : c ∈ Nat.toDigits 16 n) :
    ∃ d < 16, c = Nat.digitChar d := by
  induction n using Nat.strong_induction_on with
  | _ n ih =>
    rw [Nat.toDigits_eq_if (by decide)] at h
    split at h
    · rename_i hn
      exact ⟨n, hn, List.mem_singleton.mp h⟩
    · rename_i hn
      rcases List.mem_append.mp h with hmem | hlast
      · exact ih (n / 16) (by omega) hmem
      · exact ⟨n % 16, by omega, List.mem_singleton.mp hlast⟩

theorem mem_hexPadded {width n : ℕ} {c : Char} (h : c ∈ hexPadded width n) :
    ∃ d < 16, c = Nat.digitChar d := by
  rcases List.mem_append.mp h with hzero | hdigit
  · exact ⟨0, by decide, List.eq_of_mem_replicate hzero⟩
  · exact mem_toDigits hdigit

/-- What every digit of base 16 has, every character of a numeral has. -/
theorem forall_hexPadded {P : Char → Prop} (hP : ∀ d < 16, P (Nat.digitChar d)) (width n : ℕ) :
    ∀ c ∈ hexPadded width n, P c := by
  intro c hc
  obtain ⟨d, hd, rfl⟩ := mem_hexPadded hc
  exact hP d hd

theorem digitValue_digitChar : ∀ d < 16, digitValue (Nat.digitChar d) = some d := by decide

theorem digitChar_ne_underscore : ∀ d < 16, Nat.digitChar d ≠ '_' := by decide

/-- One more digit at the end of a text that has been read. -/
theorem hexDigits_concat {text : List Char} {value v d : ℕ} {due : Bool} (hd : d < 16)
    (h : hexDigits value due text = some v) :
    hexDigits value due (text ++ [Nat.digitChar d]) = some (16 * v + d) := by
  induction text generalizing value due with
  | nil =>
    cases due with
    | true => cases h
    | false =>
      cases h
      simp [hexDigits, digitChar_ne_underscore d hd, digitValue_digitChar d hd]
  | cons c rest ih =>
    rw [List.cons_append]
    unfold hexDigits at h ⊢
    by_cases hc : c = '_'
    · rw [if_pos hc] at h ⊢
      cases due with
      | true => cases h
      | false => exact ih h
    · rw [if_neg hc] at h ⊢
      obtain ⟨digit, hdigit, hrest⟩ := Option.bind_eq_some_iff.mp h
      rw [hdigit]
      exact ih hrest

theorem hexDigits_toDigits (n : ℕ) (due : Bool) :
    hexDigits 0 due (Nat.toDigits 16 n) = some n := by
  induction n using Nat.strong_induction_on with
  | _ n ih =>
    rw [Nat.toDigits_eq_if (by decide)]
    split
    · rename_i hn
      simp [hexDigits, digitChar_ne_underscore n hn, digitValue_digitChar n hn]
    · rename_i hn
      have hread := hexDigits_concat (d := n % 16) (by omega) (ih (n / 16) (by omega))
      rw [hread]
      congr 1
      omega

/-- Zeros in front are skipped. -/
theorem hexDigits_hexPadded (width n : ℕ) : hexDigits 0 true (hexPadded width n) = some n := by
  have hzeros : ∀ k due, hexDigits 0 due (List.replicate k '0' ++ Nat.toDigits 16 n) = some n := by
    intro k
    induction k with
    | zero => exact hexDigits_toDigits n
    | succ k ih =>
      intro due
      rw [List.replicate_succ, List.cons_append]
      exact ih false
  exact hzeros _ true

theorem map_toAscii (width n : ℕ) : (hexPadded width n).map toAscii = hexPadded width n := by
  have hsame : ∀ d < 16, toAscii (Nat.digitChar d) = Nat.digitChar d := by decide
  have hmap := List.map_congr_left (g := id) (forall_hexPadded hsame width n)
  rw [hmap, List.map_id]

/-- A text without the letter is not behind a prefix 0x. -/
theorem dropHexPrefix_eq {text : List Char} (h : 'x' ∉ text) (h' : 'X' ∉ text) :
    dropHexPrefix text = text := by
  have hsecond : ∀ a x : Char, ∀ rest, text = a :: x :: rest → ¬(x = 'x' ∨ x = 'X') := by
    intro a x rest htext hx
    rw [htext] at h h'
    rcases hx with rfl | rfl
    · exact h (by simp)
    · exact h' (by simp)
  unfold dropHexPrefix
  split
  · exact if_neg (hsecond _ _ _ rfl)
  · exact if_neg (hsecond _ _ _ rfl)
  · rfl

/-- A numeral is read back. -/
theorem int16_hexPadded (width n : ℕ) :
    int16 (String.ofList (hexPadded width n)) = some (n : ℤ) := by
  have hchars := forall_hexPadded (P := fun c => c ≠ '-' ∧ c ≠ '+' ∧ c ≠ 'x' ∧ c ≠ 'X')
    (by decide) width n
  have hdigits : dropHexPrefix (hexPadded width n) = hexPadded width n :=
    dropHexPrefix_eq (fun hmem => (hchars _ hmem).2.2.1 rfl) fun hmem => (hchars _ hmem).2.2.2 rfl
  have hread := hexDigits_hexPadded width n
  unfold int16
  rw [String.toList_ofList, map_toAscii]
  split
  · rename_i rest htext
    exact absurd rfl (hchars '-' (by rw [htext]; simp)).1
  · rename_i rest htext
    exact absurd rfl (hchars '+' (by rw [htext]; simp)).2.1
  · rw [hdigits, hread]
    rfl

/-- The numeral of a number other than zero does not begin with a zero. -/
theorem head_toDigits {n : ℕ} (hn : 0 < n) : (Nat.toDigits 16 n).head? ≠ some '0' := by
  induction n using Nat.strong_induction_on with
  | _ n ih =>
    rw [Nat.toDigits_eq_if (by decide)]
    split
    · rename_i hlt
      have hne : ∀ d < 16, 0 < d → Nat.digitChar d ≠ '0' := by decide
      simpa using hne n hlt hn
    · rename_i hlt
      rw [List.head?_append_of_ne_nil _ Nat.toDigits_ne_nil]
      exact ih (n / 16) (by omega) (by omega)

/-- As many zeros as the width begin the numeral of zero only. -/
theorem eq_zero_of_zeros {width n : ℕ} (hwidth : 0 < width)
    (h : List.replicate width '0' <+: hexPadded width n) : n = 0 := by
  by_contra hne
  by_cases hlen : (Nat.toDigits 16 n).length ≤ width
  · have heq : List.replicate width '0' = hexPadded width n := by
      apply h.eq_of_length
      simp [hexPadded]
      omega
    have hread := hexDigits_hexPadded width n
    have hzero := hexDigits_hexPadded width 0
    rw [← heq] at hread
    have hsame : hexPadded width 0 = List.replicate width '0' := by
      rw [hexPadded, Nat.toDigits_zero]
      show List.replicate (width - 1) '0' ++ List.replicate 1 '0' = _
      rw [← List.replicate_add]
      congr 1
      omega
    rw [hsame, hread] at hzero
    cases hzero
    exact hne rfl
  · have hplain : hexPadded width n = Nat.toDigits 16 n := by
      rw [hexPadded, Nat.sub_eq_zero_of_le (by omega)]
      rfl
    rw [hplain] at h
    obtain ⟨rest, hrest⟩ := h
    apply head_toDigits (n := n) (by omega)
    rw [← hrest]
    obtain ⟨w, rfl⟩ := Nat.exists_eq_add_one_of_ne_zero (Nat.ne_of_gt hwidth)
    rfl

end HpcProfiler.HexText
