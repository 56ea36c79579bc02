import Mathlib.Algebra.BigOperators.Group.List.Basic
import Mathlib.Algebra.Order.BigOperators.Group.List
import Mathlib.Algebra.Ring.Nat

/-!
First-in first-out queues whose items have a cost and whose total cost is
bounded. The bound is part of the queue, so an overfull queue cannot be built.
An offer that would exceed the bound is refused; a poll takes the oldest item
only when the caller accepts it.
-/

namespace HpcProfiler.BoundedQueue

variable {α : Type*} {cost : α → ℕ} {limit : ℕ}

def load (cost : α → ℕ) (items : List α) : ℕ := (items.map cost).sum

@[simp] theorem load_nil : load cost [] = 0 := rfl

@[simp] theorem load_cons (a : α) (items : List α) :
    load cost (a :: items) = cost a + load cost items := by
  simp [load]

@[simp] theorem load_append (items items' : List α) :
    load cost (items ++ items') = load cost items + load cost items' := by
  simp [load]

structure Queue (cost : α → ℕ) (limit : ℕ) where
  items : List α
  bounded : load cost items ≤ limit

namespace Queue

@[ext] theorem ext {q q' : Queue cost limit} (h : q.items = q'.items) : q = q' := by
  cases q
  cases q'
  cases h
  rfl

def empty : Queue cost limit := ⟨[], Nat.zero_le limit⟩

def offer (q : Queue cost limit) (a : α) : Option (Queue cost limit) :=
  if h : cost a + load cost q.items ≤ limit then
    some ⟨q.items ++ [a], by simpa [Nat.add_comm] using h⟩
  else none

def poll (fits : α → Bool) (q : Queue cost limit) : Option (α × Queue cost limit) :=
  match q with
  | ⟨[], _⟩ => none
  | ⟨a :: items, h⟩ =>
    if fits a then some (a, ⟨items, (Nat.le_add_left _ _).trans (load_cons a items ▸ h)⟩)
    else none

theorem offer_of_le (q : Queue cost limit) (a : α) (h : cost a + load cost q.items ≤ limit) :
    ∃ q', q.offer a = some q' ∧ q'.items = q.items ++ [a] := by
  rw [offer, dif_pos h]
  exact ⟨_, rfl, rfl⟩

theorem offer_of_lt (q : Queue cost limit) (a : α) (h : limit < cost a + load cost q.items) :
    q.offer a = none := by
  rw [offer, dif_neg (by omega)]

theorem poll_of_nil (fits : α → Bool) (q : Queue cost limit) (h : q.items = []) :
    q.poll fits = none := by
  obtain ⟨items, hbound⟩ := q
  cases h
  rfl

theorem poll_of_fits (fits : α → Bool) (q : Queue cost limit) {a : α} {items : List α}
    (h : q.items = a :: items) (hfits : fits a = true) :
    ∃ q', q.poll fits = some (a, q') ∧ q'.items = items := by
  obtain ⟨its, hbound⟩ := q
  cases h
  rw [poll, if_pos hfits]
  exact ⟨_, rfl, rfl⟩

theorem poll_of_not_fits (fits : α → Bool) (q : Queue cost limit) {a : α} {items : List α}
    (h : q.items = a :: items) (hfits : fits a = false) : q.poll fits = none := by
  obtain ⟨its, hbound⟩ := q
  cases h
  rw [poll, if_neg (by simp [hfits])]

end Queue

end HpcProfiler.BoundedQueue
