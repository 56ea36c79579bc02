import Mathlib.Data.List.Basic

/-!
Histories in which openings and closings take turns. A history grows at its end and
knows the opening that is not yet closed; read from its start, every other entry is an
opening, and each of those between closes the one before it.
-/

namespace HpcProfiler.AlternatingHistory

variable {α : Type*} {Opens : α → Prop} {Closes : α → α → Prop}

/-- A history and its last opening, if this is not yet closed. -/
inductive History (Opens : α → Prop) (Closes : α → α → Prop) : List α → Option α → Prop
  | nil : History Opens Closes [] none
  | opened {xs : List α} {a : α} (h : History Opens Closes xs none) (ha : Opens a) :
    History Opens Closes (xs ++ [a]) (some a)
  | closed {xs : List α} {a b : α} (h : History Opens Closes xs (some a)) (hb : Closes a b) :
    History Opens Closes (xs ++ [b]) none

/-- Openings stand at the even places, and each odd place closes the one before. -/
def Alternates (Opens : α → Prop) (Closes : α → α → Prop) (xs : List α) : Prop :=
  ∀ (i : ℕ) (b : α), xs[i]? = some b →
    (i % 2 = 0 → Opens b) ∧ (i % 2 = 1 → ∃ a, xs[i - 1]? = some a ∧ Closes a b)

/-- An open history has odd length and ends with its opening, a closed one has even
length. -/
theorem History.length {xs : List α} {last : Option α} (h : History Opens Closes xs last) :
    match last with
    | some a => xs.length % 2 = 1 ∧ xs[xs.length - 1]? = some a
    | none => xs.length % 2 = 0 := by
  induction h with
  | nil => rfl
  | opened h ha ih =>
    dsimp only at ih ⊢
    rw [List.length_append, List.length_singleton, Nat.add_sub_cancel]
    exact ⟨by omega, List.getElem?_concat_length⟩
  | closed h hb ih =>
    dsimp only at ih ⊢
    rw [List.length_append, List.length_singleton]
    omega

theorem Alternates.concat {xs : List α} {b : α} (h : Alternates Opens Closes xs)
    (hopens : xs.length % 2 = 0 → Opens b)
    (hcloses : xs.length % 2 = 1 → ∃ a, xs[xs.length - 1]? = some a ∧ Closes a b) :
    Alternates Opens Closes (xs ++ [b]) := by
  intro i c hi
  rcases Nat.lt_trichotomy i xs.length with hlt | heq | hgt
  · rw [List.getElem?_append_left hlt] at hi
    obtain ⟨heven, hodd⟩ := h i c hi
    refine ⟨heven, fun hi' => ?_⟩
    rw [List.getElem?_append_left (by omega)]
    exact hodd hi'
  · subst heq
    rw [List.getElem?_concat_length] at hi
    cases hi
    refine ⟨hopens, fun hodd => ?_⟩
    rw [List.getElem?_append_left (by omega)]
    exact hcloses hodd
  · rw [List.getElem?_eq_none (by rw [List.length_append, List.length_singleton]; omega)] at hi
    cases hi

theorem History.alternates {xs : List α} {last : Option α} (h : History Opens Closes xs last) :
    Alternates Opens Closes xs := by
  induction h with
  | nil =>
    intro i b hi
    cases hi
  | opened h ha ih =>
    have heven := h.length
    exact ih.concat (fun _ => ha) fun hodd => by dsimp only at heven; omega
  | closed h hb ih =>
    obtain ⟨hodd, hlast⟩ := h.length
    exact ih.concat (fun heven => by omega) fun _ => ⟨_, hlast, hb⟩

end HpcProfiler.AlternatingHistory
