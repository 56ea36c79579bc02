import Mathlib.Data.List.Chain
import Mathlib.Data.List.Nodup

/-!
Lists in which two kinds of entries take turns. Each entry of the first kind has as its
partner the entry of the second kind right behind it, if there is one. The last entry of
the second kind in the whole list is the partner of every entry of the first kind exactly
if there is one such entry, with no entry of the second kind in front of it that is not
followed by another.
-/

namespace HpcProfiler.TakingTurns

variable {α : Type*} {second : α → Bool}

def TakeTurns (second : α → Bool) (xs : List α) : Prop :=
  xs.IsChain fun x y => second x ≠ second y

/-- The entry behind, if it is of the second kind. -/
def partner (second : α → Bool) (after : List α) : Option α := (after.takeWhile second).head?

def lastSecond (second : α → Bool) (xs : List α) : Option α := (xs.filter second).getLast?

/-- All other entries are of the second kind, and the last of all is. -/
def Alone (second : α → Bool) (before after : List α) : Prop :=
  (∀ x ∈ before ++ after, second x = true) ∧ (after = [] → before = [])

theorem partner_cons {d : α} (rest : List α) (hd : second d = true) :
    partner second (d :: rest) = some d := by
  rw [partner, List.takeWhile_cons_of_pos hd, List.head?_cons]

theorem TakeTurns.behind {before after : List α} {x y : α}
    (h : TakeTurns second (before ++ x :: y :: after)) : second x ≠ second y :=
  (List.isChain_cons_cons.mp (List.isChain_append.mp h).2.1).1

/-- Behind an entry of the first kind there is nothing or one of the second. -/
theorem TakeTurns.after_first {before after : List α} {a : α}
    (h : TakeTurns second (before ++ a :: after)) (ha : second a = false) :
    after = [] ∨ ∃ d rest, after = d :: rest ∧ second d = true := by
  cases after with
  | nil => exact .inl rfl
  | cons d rest =>
    have hne := h.behind
    rw [ha] at hne
    exact .inr ⟨d, rest, rfl, by simpa using hne.symm⟩

/-- Before an entry of the first kind there is nothing or one of the second. -/
theorem TakeTurns.before_first {before after : List α} {a : α}
    (h : TakeTurns second (before ++ a :: after)) (ha : second a = false) :
    before = [] ∨ ∃ front d, before = front ++ [d] ∧ second d = true := by
  rcases List.eq_nil_or_concat' before with hnil | ⟨front, d, rfl⟩
  · exact .inl hnil
  · rw [List.append_assoc] at h
    have hne := TakeTurns.behind h
    rw [ha] at hne
    exact .inr ⟨front, d, rfl, by simpa using hne⟩

theorem lastSecond_append (xs ys : List α) :
    lastSecond second (xs ++ ys) = (lastSecond second ys).or (lastSecond second xs) := by
  unfold lastSecond
  rw [List.filter_append, List.getLast?_append]

theorem lastSecond_cons_first {a : α} (xs : List α) (ha : second a = false) :
    lastSecond second (a :: xs) = lastSecond second xs := by
  unfold lastSecond
  rw [List.filter_cons_of_neg (by simp [ha])]

theorem lastSecond_cons_second {d : α} (xs : List α) (hd : second d = true) :
    lastSecond second (d :: xs) = (lastSecond second xs).or (some d) := by
  rw [← List.singleton_append, lastSecond_append]
  congr 1
  unfold lastSecond
  rw [List.filter_cons_of_pos hd]
  rfl

theorem lastSecond_eq_none {xs : List α} (h : lastSecond second xs = none) :
    ∀ x ∈ xs, second x = false := by
  intro x hx
  by_contra hsecond
  have hmem := List.mem_filter.mpr ⟨hx, by simpa using hsecond⟩
  rw [List.getLast?_eq_none_iff.mp h] at hmem
  cases hmem

/-- Everyone's partner is the last of the second kind. -/
def LastIsPartner (second : α → Bool) (xs : List α) : Prop :=
  ∀ before a after, xs = before ++ a :: after → second a = false →
    lastSecond second xs = partner second after

/-- Where an entry behind is the last of the second kind, nothing stands behind it: an entry
of the first kind there would have it as its partner. -/
theorem LastIsPartner.nothing_behind {front rest : List α} {d : α}
    (h : LastIsPartner second (front ++ d :: rest)) (hturns : TakeTurns second (front ++ d :: rest))
    (hnodup : (front ++ d :: rest).Nodup) (hd : second d = true)
    (hlast : lastSecond second (front ++ d :: rest) = some d) : rest = [] := by
  cases rest with
  | nil => rfl
  | cons r rest =>
    have hr : second r = false := by
      have hne := hturns.behind
      rw [hd] at hne
      simpa using hne.symm
    have hsplit : front ++ d :: r :: rest = (front ++ [d]) ++ r :: rest := by
      rw [List.append_assoc]
      rfl
    have hpartner := h _ r rest hsplit hr
    rw [hlast] at hpartner
    have hmem : d ∈ rest :=
      (List.takeWhile_sublist second).subset (List.mem_of_head? hpartner.symm)
    have hnot := (List.nodup_cons.mp (List.nodup_append.mp hnodup).2.1).1
    exact absurd (List.mem_cons_of_mem r hmem) hnot

/-- Where the entry right behind an entry of the first kind is the last of the second,
no other of the first kind stands before. -/
theorem LastIsPartner.before_second {before : List α} {a d : α}
    (h : LastIsPartner second (before ++ [a, d])) (hturns : TakeTurns second (before ++ [a, d]))
    (hnodup : (before ++ [a, d]).Nodup) (ha : second a = false)
    (hlast : lastSecond second (before ++ [a, d]) = some d) : ∀ x ∈ before, second x = true := by
  intro x hx
  by_contra hfirst
  rw [Bool.not_eq_true] at hfirst
  obtain ⟨front, back, rfl⟩ := List.append_of_mem hx
  rw [List.append_assoc, List.cons_append] at h hturns hlast hnodup
  have hpartner := h front x (back ++ [a, d]) rfl hfirst
  rw [hlast] at hpartner
  cases back with
  | nil => exact hturns.behind (by rw [hfirst, ha])
  | cons y back =>
    rw [List.cons_append, partner, List.takeWhile_cons] at hpartner
    split at hpartner
    · -- The partner stands right behind and is the last entry of all as well.
      rw [List.head?_cons] at hpartner
      cases hpartner
      have hinner := (List.nodup_append.mp hnodup).2.1
      rw [List.cons_append, List.nodup_cons, List.nodup_cons] at hinner
      exact hinner.2.1 (by simp)
    · cases hpartner

/-- Where the last of the second kind is everyone's partner, an entry of the first kind
is alone. -/
theorem LastIsPartner.alone {before after : List α} {a : α}
    (h : LastIsPartner second (before ++ a :: after))
    (hturns : TakeTurns second (before ++ a :: after))
    (hnodup : (before ++ a :: after).Nodup) (ha : second a = false) :
    Alone second before after := by
  have hlast := h before a after rfl ha
  rcases hturns.after_first ha with rfl | ⟨d, rest, rfl, hd⟩
  · have hnone := lastSecond_eq_none hlast
    rcases hturns.before_first ha with rfl | ⟨front, d, rfl, hd⟩
    · exact ⟨by simp, fun _ => rfl⟩
    · rw [hnone d (by simp)] at hd
      cases hd
  · rw [partner_cons rest hd] at hlast
    have hsplit : before ++ a :: d :: rest = (before ++ [a]) ++ d :: rest := by
      rw [List.append_assoc]
      rfl
    rw [hsplit] at h hturns hnodup hlast
    have hrest := h.nothing_behind hturns hnodup hd hlast
    subst hrest
    rw [List.append_assoc] at h hturns hnodup hlast
    have hbefore := h.before_second hturns hnodup ha hlast
    refine ⟨?_, fun hnil => by cases hnil⟩
    intro x hx
    rcases List.mem_append.mp hx with hx | hx
    · exact hbefore x hx
    · rw [List.mem_singleton.mp hx]
      exact hd

/-- Two entries of the second kind do not stand together. -/
theorem TakeTurns.length_le_one {xs : List α} (h : TakeTurns second xs)
    (hall : ∀ x ∈ xs, second x = true) : xs.length ≤ 1 := by
  match xs, h, hall with
  | [], _, _ => exact Nat.zero_le _
  | [_], _, _ => exact Nat.le_refl _
  | x :: y :: _, h, hall =>
    have hne := (List.isChain_cons_cons.mp h).1
    rw [hall x (by simp), hall y (by simp)] at hne
    exact absurd rfl hne

/-- The partner of an entry that is alone is the last of the second kind. -/
theorem Alone.lastSecond_eq {before after : List α} {a : α} (h : Alone second before after)
    (hturns : TakeTurns second (before ++ a :: after)) (ha : second a = false) :
    lastSecond second (before ++ a :: after) = partner second after := by
  rw [lastSecond_append, lastSecond_cons_first after ha]
  cases after with
  | nil =>
    rw [h.2 rfl]
    rfl
  | cons d rest =>
    have hd := h.1 d (by simp)
    have hlength := TakeTurns.length_le_one
      (List.isChain_cons.mp (List.isChain_append.mp hturns).2.1).2
      fun x hx => h.1 x (List.mem_append_right _ hx)
    have hrest : rest = [] := by
      rw [List.length_cons] at hlength
      exact List.eq_nil_of_length_eq_zero (by omega)
    rw [hrest, lastSecond_cons_second [] hd, partner_cons [] hd]
    rfl

theorem lastIsPartner_iff {xs : List α} (hturns : TakeTurns second xs) (hnodup : xs.Nodup) :
    LastIsPartner second xs ↔ ∀ before a after, xs = before ++ a :: after → second a = false →
      Alone second before after := by
  constructor
  · rintro h before a after rfl ha
    exact h.alone hturns hnodup ha
  · rintro h before a after rfl ha
    exact (h before a after rfl ha).lastSecond_eq hturns ha

end HpcProfiler.TakingTurns
