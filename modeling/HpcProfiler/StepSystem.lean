import Mathlib.Data.Option.Basic
import Mathlib.Data.List.Basic

/-!
Systems that take labelled steps. A step function says which state an action
leads to, or none where the action is not enabled; a run takes a list of actions
one after another. An invariant is proved for one step and then holds after every
run; where it needs a condition on the steps, it holds after every run whose steps
all meet the condition, and what a step against the condition brings about may be
followed to the end of the run.
-/

namespace HpcProfiler.StepSystem

variable {σ τ α : Type*}

def run (step : σ → α → Option σ) (s : σ) : List α → Option σ
  | [] => some s
  | a :: as => (step s a).bind fun s' => run step s' as

theorem run_cons_eq_some {step : σ → α → Option σ} {s s' : σ} {a : α} {as : List α} :
    run step s (a :: as) = some s' ↔ ∃ mid, step s a = some mid ∧ run step mid as = some s' := by
  rw [run, Option.bind_eq_some_iff]

theorem run_append {step : σ → α → Option σ} {s s' : σ} {as bs : List α}
    (has : run step s as = some s') : run step s (as ++ bs) = run step s' bs := by
  induction as generalizing s with
  | nil =>
    cases has
    rfl
  | cons a as ih =>
    obtain ⟨mid, hmid, hrest⟩ := run_cons_eq_some.mp has
    rw [List.cons_append, run, hmid]
    exact ih hrest

theorem run_concat_eq_some {step : σ → α → Option σ} {s s' : σ} {a : α} {as : List α} :
    run step s (as ++ [a]) = some s' ↔ ∃ mid, run step s as = some mid ∧ step mid a = some s' := by
  induction as generalizing s with
  | nil =>
    rw [List.nil_append, run_cons_eq_some]
    constructor
    · rintro ⟨mid, hmid, hrun⟩
      cases hrun
      exact ⟨s, rfl, hmid⟩
    · rintro ⟨mid, hrun, hmid⟩
      cases hrun
      exact ⟨s', hmid, rfl⟩
  | cons b as ih =>
    rw [List.cons_append, run_cons_eq_some]
    simp only [ih, run_cons_eq_some]
    constructor
    · rintro ⟨first, hfirst, mid, hmid, hlast⟩
      exact ⟨mid, ⟨first, hfirst, hmid⟩, hlast⟩
    · rintro ⟨mid, ⟨first, hfirst, hmid⟩, hlast⟩
      exact ⟨first, hfirst, mid, hmid, hlast⟩

/-- Every step of the run meets the condition in the state it is taken from. -/
def Along (step : σ → α → Option σ) (Ok : σ → α → Prop) (s : σ) : List α → Prop
  | [] => True
  | a :: as => Ok s a ∧ ∀ s', step s a = some s' → Along step Ok s' as

instance decidableAlong (step : σ → α → Option σ) (Ok : σ → α → Prop)
    [hdec : ∀ s a, Decidable (Ok s a)] (s : σ) : (as : List α) → Decidable (Along step Ok s as)
  | [] => isTrue trivial
  | a :: as =>
    match hs : step s a with
    | none =>
      decidable_of_iff (Ok s a) ⟨fun h => ⟨h, fun s' hs' => by simp [hs] at hs'⟩, fun h => h.1⟩
    | some s' =>
      have := decidableAlong step Ok s' as
      decidable_of_iff (Ok s a ∧ Along step Ok s' as)
        ⟨fun h => ⟨h.1, fun t ht => by
          rw [hs] at ht
          cases ht
          exact h.2⟩,
        fun h => ⟨h.1, h.2 s' hs⟩⟩

/-- What every step that meets the condition keeps, every run of such steps keeps. -/
theorem run_along {step : σ → α → Option σ} {Ok : σ → α → Prop} {Inv : σ → Prop}
    (hstep : ∀ s a s', Inv s → Ok s a → step s a = some s' → Inv s')
    {as : List α} {s s' : σ} (hs : Inv s) (halong : Along step Ok s as)
    (hrun : run step s as = some s') : Inv s' := by
  induction as generalizing s with
  | nil =>
    cases hrun
    exact hs
  | cons a as ih =>
    obtain ⟨mid, hmid, hrest⟩ := run_cons_eq_some.mp hrun
    exact ih (hstep s a mid hs halong.1 hmid) (halong.2 mid hmid) hrest

theorem along_of_forall {step : σ → α → Option σ} {Allowed : α → Prop} {as : List α}
    (hallowed : ∀ a ∈ as, Allowed a) (s : σ) : Along step (fun _ a => Allowed a) s as := by
  induction as generalizing s with
  | nil => exact trivial
  | cons a as ih =>
    have hrest := ih fun b hb => hallowed b (List.mem_cons_of_mem _ hb)
    exact ⟨hallowed a (List.mem_cons_self ..), fun s' _ => hrest s'⟩

theorem Along.and {step : σ → α → Option σ} {Ok Ok' : σ → α → Prop} {s : σ} {as : List α}
    (h : Along step Ok s as) (h' : Along step Ok' s as) :
    Along step (fun s a => Ok s a ∧ Ok' s a) s as := by
  induction as generalizing s with
  | nil => exact trivial
  | cons a as ih => exact ⟨⟨h.1, h'.1⟩, fun s' hs' => ih (h.2 s' hs') (h'.2 s' hs')⟩

/-- What every allowed step keeps, every run of allowed actions keeps. -/
theorem run_invariant {step : σ → α → Option σ} {Allowed : α → Prop} {Inv : σ → Prop}
    (hstep : ∀ s a s', Inv s → Allowed a → step s a = some s' → Inv s')
    {as : List α} {s s' : σ} (hs : Inv s) (hallowed : ∀ a ∈ as, Allowed a)
    (hrun : run step s as = some s') : Inv s' :=
  run_along hstep hs (along_of_forall hallowed s) hrun

/-- What every step keeps, every run keeps. -/
theorem run_keeps {step : σ → α → Option σ} {Inv : σ → Prop}
    (hstep : ∀ s a s', Inv s → step s a = some s' → Inv s') {as : List α} {s s' : σ} (hs : Inv s)
    (hrun : run step s as = some s') : Inv s' := by
  have hallowed : ∀ a ∈ as, (fun _ : α => True) a := fun _ _ => trivial
  exact run_invariant (fun s a s' h _ => hstep s a s' h) hs hallowed hrun

/-- A run with a step against the condition ends with what such a step brings about,
if every later step keeps that. -/
theorem run_not_along {step : σ → α → Option σ} {Ok : σ → α → Prop} {Inv Broken : σ → Prop}
    (hstep : ∀ s a s', Inv s → Ok s a → step s a = some s' → Inv s')
    (hbreak : ∀ s a s', Inv s → ¬Ok s a → step s a = some s' → Broken s')
    (hkeep : ∀ s a s', Broken s → step s a = some s' → Broken s')
    {as : List α} {s s' : σ} (hs : Inv s) (hnot : ¬Along step Ok s as)
    (hrun : run step s as = some s') : Broken s' := by
  induction as generalizing s with
  | nil => exact absurd trivial hnot
  | cons a as ih =>
    obtain ⟨mid, hmid, hrest⟩ := run_cons_eq_some.mp hrun
    by_cases hok : Ok s a
    · refine ih (hstep s a mid hs hok hmid) ?_ hrest
      intro halong
      refine hnot ⟨hok, ?_⟩
      intro s'' hs''
      rw [hmid] at hs''
      cases hs''
      exact halong
    · have hbroken := hbreak s a mid hs hok hmid
      exact run_keeps hkeep hbroken hrest

/-- Every state that the run comes through is good. -/
def Always (step : σ → α → Option σ) (Good : σ → Prop) (s : σ) : List α → Prop
  | [] => Good s
  | a :: as => Good s ∧ ∀ s', step s a = some s' → Always step Good s' as

theorem Always.head {step : σ → α → Option σ} {Good : σ → Prop} {s : σ} {as : List α}
    (h : Always step Good s as) : Good s := by
  cases as with
  | nil => exact h
  | cons a as => exact h.1

theorem Always.last {step : σ → α → Option σ} {Good : σ → Prop} {s s' : σ} {as : List α}
    (h : Always step Good s as) (hrun : run step s as = some s') : Good s' := by
  induction as generalizing s with
  | nil =>
    cases hrun
    exact h
  | cons a as ih =>
    obtain ⟨mid, hmid, hrest⟩ := run_cons_eq_some.mp hrun
    exact ih (h.2 mid hmid) hrest

/-- Where a step leads to a good state exactly if it meets the condition, the states of
a run are all good exactly if all its steps meet it. -/
theorem always_iff_along {step : σ → α → Option σ} {Ok : σ → α → Prop} {Inv Good : σ → Prop}
    (hgood : ∀ s, Inv s → Good s)
    (hstep : ∀ s a s', Inv s → Ok s a → step s a = some s' → Inv s')
    (hbreak : ∀ s a s', Inv s → ¬Ok s a → step s a = some s' → ¬Good s')
    {as : List α} {s s' : σ} (hs : Inv s) (hrun : run step s as = some s') :
    Always step Good s as ↔ Along step Ok s as := by
  induction as generalizing s with
  | nil => exact ⟨fun _ => trivial, fun _ => hgood s hs⟩
  | cons a as ih =>
    obtain ⟨mid, hmid, hrest⟩ := run_cons_eq_some.mp hrun
    constructor
    · intro halways
      have hmid' := halways.2 mid hmid
      have hok : Ok s a := by
        by_contra hnot
        exact hbreak s a mid hs hnot hmid hmid'.head
      refine ⟨hok, fun s'' hs'' => ?_⟩
      rw [hmid] at hs''
      cases hs''
      exact (ih (hstep s a mid hs hok hmid) hrest).mp hmid'
    · intro halong
      refine ⟨hgood s hs, fun s'' hs'' => ?_⟩
      rw [hmid] at hs''
      cases hs''
      exact (ih (hstep s a mid hs halong.1 hmid) hrest).mpr (halong.2 mid hmid)

end HpcProfiler.StepSystem
