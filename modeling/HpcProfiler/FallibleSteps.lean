import Mathlib.Tactic.Basic

/-!
Computations that may raise and keep the state they have reached. A step changes the
state or raises and leaves it; a sequence stops at the first step that raises. A
handler runs on the state at which its body has raised, unless what was raised passes by
it, and a final part runs in every case.
-/

namespace HpcProfiler.FallibleSteps

variable {σ ε α β : Type}

def Fallible (σ ε α : Type) : Type := σ → Except ε α × σ

def Fallible.bind (m : Fallible σ ε α) (f : α → Fallible σ ε β) : Fallible σ ε β := fun s =>
  match m s with
  | (.ok a, s') => f a s'
  | (.error e, s') => (.error e, s')

instance : Monad (Fallible σ ε) where
  pure a := fun s => (.ok a, s)
  bind := Fallible.bind

def raise (e : ε) : Fallible σ ε α := fun s => (.error e, s)

/-- A step that may fail with the given error before it takes effect. -/
def attempt (failure : Option ε) (effect : σ → σ) : Fallible σ ε Unit := fun s =>
  match failure with
  | some e => (.error e, s)
  | none => (.ok (), effect s)

/-- A value read from the state, by a step that may fail. -/
def attemptRead (failure : Option ε) (read : σ → α) : Fallible σ ε α := fun s =>
  match failure with
  | some e => (.error e, s)
  | none => (.ok (read s), s)

def ofExcept (x : Except ε α) : Fallible σ ε α := fun s => (x, s)

/-- An error that the handler does not catch passes by it. -/
def onException (caught : ε → Bool) (body : Fallible σ ε α) (handler : ε → Fallible σ ε α) :
    Fallible σ ε α := fun s =>
  match body s with
  | (.ok a, s') => (.ok a, s')
  | (.error e, s') => if caught e then handler e s' else (.error e, s')

/-- The outcome is the body's, unless the final part raises. -/
def andFinally (body : Fallible σ ε α) (final : Fallible σ ε Unit) : Fallible σ ε α := fun s =>
  match body s with
  | (outcome, s') =>
    match final s' with
    | (.ok _, s'') => (outcome, s'')
    | (.error e, s'') => (.error e, s'')

theorem pure_apply (a : α) (s : σ) : (pure a : Fallible σ ε α) s = (.ok a, s) := rfl

theorem ofExcept_apply (x : Except ε α) (s : σ) : ofExcept x s = (x, s) := rfl

theorem raise_apply (e : ε) (s : σ) : (raise e : Fallible σ ε α) s = (.error e, s) := rfl

theorem bind_ok {m : Fallible σ ε α} {f : α → Fallible σ ε β} {s s' : σ} {a : α}
    (h : m s = (.ok a, s')) : (m >>= f) s = f a s' := by
  show Fallible.bind m f s = f a s'
  rw [Fallible.bind, h]

theorem bind_error {m : Fallible σ ε α} {f : α → Fallible σ ε β} {s s' : σ} {e : ε}
    (h : m s = (.error e, s')) : (m >>= f) s = (.error e, s') := by
  show Fallible.bind m f s = (.error e, s')
  rw [Fallible.bind, h]

theorem bind_assoc {γ : Type} (m : Fallible σ ε α) (f : α → Fallible σ ε β)
    (g : β → Fallible σ ε γ) : (m >>= f) >>= g = m >>= fun a => f a >>= g := by
  funext s
  rcases hm : m s with ⟨outcome, s'⟩
  cases outcome with
  | ok a =>
    rw [bind_ok hm]
    show (match (m >>= f) s with
      | (.ok b, s') => g b s'
      | (.error e, s') => (.error e, s')) = _
    rw [bind_ok hm]
    rfl
  | error e =>
    rw [bind_error hm]
    exact bind_error (bind_error hm)

theorem attempt_none (effect : σ → σ) (s : σ) :
    attempt (none : Option ε) effect s = (.ok (), effect s) := rfl

theorem attempt_some (e : ε) (effect : σ → σ) (s : σ) :
    attempt (some e) effect s = (.error e, s) := rfl

section

variable {caught : ε → Bool} {body : Fallible σ ε α} {handler : ε → Fallible σ ε α} {s s' : σ}
  {e : ε}

theorem onException_ok {a : α} (h : body s = (.ok a, s')) :
    onException caught body handler s = (.ok a, s') := by
  rw [onException, h]

theorem onException_error (hcaught : caught e = true) (h : body s = (.error e, s')) :
    onException caught body handler s = handler e s' := by
  rw [onException, h]
  exact if_pos hcaught

theorem onException_passes (hpasses : caught e = false) (h : body s = (.error e, s')) :
    onException caught body handler s = (.error e, s') := by
  rw [onException, h]
  exact if_neg (by simp [hpasses])

/-- With a handler that raises in its turn, a body that raises does not come to an end. -/
theorem onException_raises (hhandler : ∀ e s, ∃ e', (handler e s).1 = .error e')
    (h : body s = (.error e, s')) : ∃ e', (onException caught body handler s).1 = .error e' := by
  cases hcaught : caught e with
  | true =>
    rw [onException_error hcaught h]
    exact hhandler e s'
  | false => exact ⟨e, by rw [onException_passes hcaught h]⟩

end

theorem andFinally_apply {body : Fallible σ ε α} {final : Fallible σ ε Unit} {s s' : σ}
    {outcome : Except ε α} (h : body s = (outcome, s')) : andFinally body final s =
      match final s' with
      | (.ok _, s'') => (outcome, s'')
      | (.error e, s'') => (.error e, s'') := by
  rw [andFinally, h]

theorem andFinally_ok {body : Fallible σ ε α} {final : Fallible σ ε Unit} {s s' s'' : σ}
    {outcome : Except ε α} (h : body s = (outcome, s')) (hfinal : final s' = (.ok (), s'')) :
    andFinally body final s = (outcome, s'') := by
  rw [andFinally_apply h, hfinal]

theorem andFinally_error {body : Fallible σ ε α} {final : Fallible σ ε Unit} {s s' s'' : σ}
    {outcome : Except ε α} {e : ε} (h : body s = (outcome, s'))
    (hfinal : final s' = (.error e, s'')) : andFinally body final s = (.error e, s'') := by
  rw [andFinally_apply h, hfinal]

/-- A sequence that does not raise has come through its first part. -/
theorem parts_of_bind {m : Fallible σ ε α} {f : α → Fallible σ ε β} {s s' : σ} {b : β}
    (h : (m >>= f) s = (.ok b, s')) : ∃ a mid, m s = (.ok a, mid) ∧ f a mid = (.ok b, s') := by
  rcases hm : m s with ⟨outcome, mid⟩
  cases outcome with
  | ok a => exact ⟨a, mid, rfl, (bind_ok hm).symm.trans h⟩
  | error e =>
    rw [bind_error hm] at h
    cases h

theorem bind_raises {m : Fallible σ ε α} {f : α → Fallible σ ε β}
    (hf : ∀ a s, ∃ e, (f a s).1 = .error e) (s : σ) : ∃ e, ((m >>= f) s).1 = .error e := by
  rcases hm : m s with ⟨outcome, s'⟩
  cases outcome with
  | ok a =>
    rw [bind_ok hm]
    exact hf a s'
  | error e => exact ⟨e, by rw [bind_error hm]⟩

theorem bind_raises_of_first {m : Fallible σ ε α} {f : α → Fallible σ ε β} {s : σ}
    (h : ∃ e, (m s).1 = .error e) : ∃ e, ((m >>= f) s).1 = .error e := by
  rcases hm : m s with ⟨outcome, s'⟩
  obtain ⟨e, he⟩ := h
  rw [hm] at he
  dsimp only at he
  subst he
  exact ⟨e, by rw [bind_error hm]⟩

theorem andFinally_raises {body : Fallible σ ε α} {final : Fallible σ ε Unit} {s s' : σ} {e : ε}
    (h : body s = (.error e, s')) : ∃ e', (andFinally body final s).1 = .error e' := by
  rw [andFinally_apply h]
  rcases final s' with ⟨outcome, s''⟩
  cases outcome with
  | ok u => exact ⟨e, rfl⟩
  | error e' => exact ⟨e', rfl⟩

/-! What a computation does not touch. -/

section

variable {γ : Type} {view : σ → γ}

/-- This view of the state is the same afterwards, whether it raises or not. -/
def Keeps (view : σ → γ) (m : Fallible σ ε α) : Prop := ∀ s, view (m s).2 = view s

theorem keeps_pure (a : α) : Keeps view (pure a : Fallible σ ε α) := fun _ => rfl

theorem keeps_raise (e : ε) : Keeps view (raise e : Fallible σ ε α) := fun _ => rfl

theorem keeps_ofExcept (x : Except ε α) : Keeps view (ofExcept x : Fallible σ ε α) := fun _ => rfl

theorem keeps_attempt {effect : σ → σ} (heffect : ∀ s, view (effect s) = view s)
    (failure : Option ε) : Keeps view (attempt failure effect) := by
  intro s
  cases failure with
  | some e => rfl
  | none => exact heffect s

theorem keeps_attemptRead (failure : Option ε) (read : σ → α) :
    Keeps view (attemptRead failure read) := by
  intro s
  cases failure <;> rfl

/-- What comes second keeps what the first has left. -/
theorem keeps_second {m : Fallible σ ε α} {f : α → Fallible σ ε β} (hf : ∀ a, Keeps view (f a))
    (s : σ) : view ((m >>= f) s).2 = view (m s).2 := by
  rcases hm : m s with ⟨outcome, s'⟩
  cases outcome with
  | ok a =>
    rw [bind_ok hm]
    exact hf a s'
  | error e => rw [bind_error hm]

theorem keeps_bind {m : Fallible σ ε α} {f : α → Fallible σ ε β} (hm : Keeps view m)
    (hf : ∀ a, Keeps view (f a)) : Keeps view (m >>= f) :=
  fun s => (keeps_second hf s).trans (hm s)

theorem keeps_ite {c : Prop} [Decidable c] {m m' : Fallible σ ε α} (hm : Keeps view m)
    (hm' : Keeps view m') : Keeps view (if c then m else m') := by
  split
  · exact hm
  · exact hm'

theorem keeps_handler {caught : ε → Bool} {body : Fallible σ ε α}
    {handler : ε → Fallible σ ε α} (hhandler : ∀ e, Keeps view (handler e)) (s : σ) :
    view (onException caught body handler s).2 = view (body s).2 := by
  rcases hbody : body s with ⟨outcome, s'⟩
  cases outcome with
  | ok a => rw [onException_ok hbody]
  | error e =>
    cases hcaught : caught e with
    | true =>
      rw [onException_error hcaught hbody]
      exact hhandler e s'
    | false => rw [onException_passes hcaught hbody]

theorem keeps_final {body : Fallible σ ε α} {final : Fallible σ ε Unit} (hfinal : Keeps view final)
    (s : σ) : view (andFinally body final s).2 = view (body s).2 := by
  rcases hbody : body s with ⟨outcome, s'⟩
  have hkept := hfinal s'
  rw [andFinally_apply hbody]
  rcases hf : final s' with ⟨outcome', s''⟩
  rw [hf] at hkept
  cases outcome' <;> exact hkept

end

end HpcProfiler.FallibleSteps
