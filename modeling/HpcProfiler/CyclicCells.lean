import Mathlib.Data.List.Basic
import Mathlib.Data.Nat.ModEq
import Mathlib.Logic.Function.Basic
import Mathlib.Tactic.NormNum

/-!
Cyclic stores of cells. A position is an unbounded natural number; the cell
holding it is found modulo the size N. Reading a block and storing a block both
walk the positions one by one, so a block may straddle the end of the store.
Blocks whose positions lie within one revolution do not disturb each other.
-/

namespace HpcProfiler.CyclicCells

variable {α β : Type*}

/-- The `n` cells from position `pos` on. -/
def window (cells : ℕ → α) (N pos : ℕ) : ℕ → List α
  | 0 => []
  | n + 1 => cells (pos % N) :: window cells N (pos + 1) n

/-- Store a block from position `pos` on. -/
def put (cells : ℕ → α) (N pos : ℕ) : List α → ℕ → α
  | [] => cells
  | x :: xs => put (Function.update cells (pos % N) x) N (pos + 1) xs

@[simp] theorem window_zero (cells : ℕ → α) (N pos : ℕ) : window cells N pos 0 = [] := rfl

@[simp] theorem window_length (cells : ℕ → α) (N pos n : ℕ) :
    (window cells N pos n).length = n := by
  induction n generalizing pos with
  | zero => rfl
  | succ n ih => simp [window, ih]

/-- Two positions less than one revolution apart have different cells. -/
theorem mod_ne_mod {N a b : ℕ} (hab : a < b) (hb : b < a + N) : a % N ≠ b % N := by
  intro h
  have hdvd : N ∣ b - a := (Nat.modEq_iff_dvd' hab.le).mp h
  have := Nat.le_of_dvd (by omega) hdvd
  omega

theorem window_add (cells : ℕ → α) (N pos m n : ℕ) :
    window cells N pos (m + n) = window cells N pos m ++ window cells N (pos + m) n := by
  induction m generalizing pos with
  | zero => simp
  | succ m ih =>
    rw [Nat.succ_add, window, ih, window, List.cons_append, Nat.add_assoc, Nat.add_comm 1 m]

theorem window_succ (cells : ℕ → α) (N pos n : ℕ) :
    window cells N pos (n + 1) = window cells N pos n ++ [cells ((pos + n) % N)] :=
  window_add cells N pos n 1

/-- A block of two parts reads as their concatenation when each part reads as itself. -/
theorem window_eq_append_iff (cells : ℕ → α) (N pos : ℕ) (xs ys : List α) :
    window cells N pos (xs ++ ys).length = xs ++ ys ↔
      window cells N pos xs.length = xs ∧ window cells N (pos + xs.length) ys.length = ys := by
  rw [List.length_append, window_add]
  constructor
  · intro h
    exact List.append_inj h (by simp)
  · rintro ⟨hx, hy⟩
    rw [hx, hy]

theorem window_congr {cells cells' : ℕ → α} {N pos n : ℕ}
    (h : ∀ i, i < n → cells ((pos + i) % N) = cells' ((pos + i) % N)) :
    window cells N pos n = window cells' N pos n := by
  induction n generalizing pos with
  | zero => rfl
  | succ n ih =>
    have hhead := h 0 (by omega)
    have htail : window cells N (pos + 1) n = window cells' N (pos + 1) n := by
      apply ih
      intro i hi
      simpa [show pos + 1 + i = pos + (i + 1) by omega] using h (i + 1) (by omega)
    simp only [Nat.add_zero] at hhead
    simp only [window, hhead, htail]

theorem getElem?_window (cells : ℕ → α) (N pos n i : ℕ) (hi : i < n) :
    (window cells N pos n)[i]? = some (cells ((pos + i) % N)) := by
  have hsplit : n = i + ((n - i - 1) + 1) := by omega
  rw [hsplit, window_add, List.getElem?_append_right (by simp)]
  simp [window]

/-- Storing one cell outside a block leaves the block alone. -/
theorem window_update (cells : ℕ → α) (N pos n q : ℕ) (x : α)
    (hq : pos + n ≤ q) (hN : q < pos + N) :
    window (Function.update cells (q % N) x) N pos n = window cells N pos n := by
  apply window_congr
  intro i hi
  have hne : (pos + i) % N ≠ q % N := mod_ne_mod (by omega) (by omega)
  exact Function.update_of_ne hne x cells

/-- Storing a block after another one, within one revolution, leaves the other alone. -/
theorem window_put_of_le (cells : ℕ → α) (N pos n q : ℕ) (xs : List α)
    (hq : pos + n ≤ q) (hN : q + xs.length ≤ pos + N) :
    window (put cells N q xs) N pos n = window cells N pos n := by
  induction xs generalizing cells q with
  | nil => rfl
  | cons x xs ih =>
    simp only [List.length_cons] at hN
    rw [put, ih _ (q + 1) (by omega) (by omega),
      window_update cells N pos n q x hq (by omega)]

/-- A block that fits into the store reads back as it was stored. -/
theorem window_put_self (cells : ℕ → α) (N pos : ℕ) (xs : List α) (hN : xs.length ≤ N) :
    window (put cells N pos xs) N pos xs.length = xs := by
  induction xs generalizing cells pos with
  | nil => rfl
  | cons x xs ih =>
    simp only [List.length_cons] at hN
    have hhead : put (Function.update cells (pos % N) x) N (pos + 1) xs (pos % N) = x := by
      have h := window_put_of_le (Function.update cells (pos % N) x) N pos 1 (pos + 1) xs
        (by omega) (by omega)
      simpa [window] using h
    rw [List.length_cons, window, put, hhead, ih _ (pos + 1) (by omega)]

theorem put_append (cells : ℕ → α) (N pos : ℕ) (xs ys : List α) :
    put cells N pos (xs ++ ys) = put (put cells N pos xs) N (pos + xs.length) ys := by
  induction xs generalizing cells pos with
  | nil => rfl
  | cons x xs ih =>
    rw [List.cons_append, put, ih, put, List.length_cons, Nat.add_assoc, Nat.add_comm 1]

end HpcProfiler.CyclicCells
