import Mathlib.Data.List.Basic
import Mathlib.Data.List.Nodup
import Mathlib.Data.Finset.Insert

/-!
Greedy passes over a list. Each element is offered once, in order; a choice function
looks at the state and either passes or picks something, which is then taken into
the state. A property is proved for one offer and follows for the pass. A chronicle
is a list that grows at its end, where each entry is justified by those before it.
Serving edges first come, first served, with each end served once, is the simplest
greedy pass.
-/

namespace HpcProfiler.GreedyChoice

variable {σ σ' β τ : Type*}

def step (choose : σ → β → Option τ) (take : σ → τ → σ) (s : σ) (b : β) : σ :=
  match choose s b with
  | none => s
  | some t => take s t

def pass (choose : σ → β → Option τ) (take : σ → τ → σ) (s : σ) (bs : List β) : σ :=
  bs.foldl (step choose take) s

variable {choose : σ → β → Option τ} {take : σ → τ → σ}

theorem step_of_none {s : σ} {b : β} (h : choose s b = none) : step choose take s b = s := by
  unfold step
  rw [h]

theorem step_of_some {s : σ} {b : β} {t : τ} (h : choose s b = some t) :
    step choose take s b = take s t := by
  unfold step
  rw [h]

theorem pass_append (s : σ) (bs cs : List β) :
    pass choose take s (bs ++ cs) = pass choose take (pass choose take s bs) cs :=
  List.foldl_append

theorem pass_cons (s : σ) (b : β) (bs : List β) :
    pass choose take s (b :: bs) = pass choose take (step choose take s b) bs := rfl

/-- A pass that chooses nothing leaves the state as it is. -/
theorem pass_of_none {s : σ} {bs : List β} (h : ∀ b ∈ bs, choose s b = none) :
    pass choose take s bs = s := by
  induction bs with
  | nil => rfl
  | cons b bs ih =>
    rw [pass_cons, step_of_none (h b (List.mem_cons_self ..))]
    exact ih fun c hc => h c (List.mem_cons_of_mem _ hc)

/-- A property of the state and the elements still to come that every offer keeps. -/
theorem pass_induction {Inv : List β → σ → Prop}
    (hnone : ∀ b bs s, Inv (b :: bs) s → choose s b = none → Inv bs s)
    (hsome : ∀ b bs s t, Inv (b :: bs) s → choose s b = some t → Inv bs (take s t))
    {bs : List β} {s : σ} (hs : Inv bs s) : Inv [] (pass choose take s bs) := by
  induction bs generalizing s with
  | nil => exact hs
  | cons b bs ih =>
    rw [pass_cons]
    apply ih
    cases hchoice : choose s b with
    | none =>
      rw [step_of_none hchoice]
      exact hnone b bs s hs hchoice
    | some t =>
      rw [step_of_some hchoice]
      exact hsome b bs s t hs hchoice

/-- What every taken choice keeps, the pass keeps. -/
theorem pass_invariant {Inv : σ → Prop} {bs : List β}
    (htake : ∀ s b t, b ∈ bs → Inv s → choose s b = some t → Inv (take s t)) {s : σ}
    (hs : Inv s) : Inv (pass choose take s bs) := by
  induction bs generalizing s with
  | nil => exact hs
  | cons b bs ih =>
    rw [pass_cons]
    apply ih
    · intro s c t hc
      exact htake s c t (List.mem_cons_of_mem _ hc)
    · cases hchoice : choose s b with
      | none =>
        rw [step_of_none hchoice]
        exact hs
      | some t =>
        rw [step_of_some hchoice]
        exact htake s b t (List.mem_cons_self ..) hs hchoice

/-- Two passes over the same elements keep a relation that every offer keeps. -/
theorem pass_related {choose' : σ' → β → Option τ} {take' : σ' → τ → σ'}
    {Rel : List β → σ → σ' → Prop}
    (hstep : ∀ b bs s s', Rel (b :: bs) s s' →
      Rel bs (step choose take s b) (step choose' take' s' b))
    {bs : List β} {s : σ} {s' : σ'} (hs : Rel bs s s') :
    Rel [] (pass choose take s bs) (pass choose' take' s' bs) := by
  induction bs generalizing s s' with
  | nil => exact hs
  | cons b bs ih =>
    rw [pass_cons, pass_cons]
    exact ih (hstep b bs s s' hs)

/-- Every element is offered to some state on the way, if taking only moves upwards. -/
theorem offered {Le : σ → σ → Prop} (hrefl : ∀ s, Le s s)
    (htrans : ∀ s s' s'', Le s s' → Le s' s'' → Le s s'') (htake : ∀ s t, Le s (take s t))
    {bs : List β} {b : β} (hb : b ∈ bs) (s : σ) :
    ∃ mid, Le s mid ∧ Le mid (pass choose take s bs) ∧
      ∀ t, choose mid b = some t → Le (take mid t) (pass choose take s bs) := by
  have hstep : ∀ s c, Le s (step choose take s c) := by
    intro s c
    cases hchoice : choose s c with
    | none =>
      rw [step_of_none hchoice]
      exact hrefl s
    | some t =>
      rw [step_of_some hchoice]
      exact htake s t
  have hpass : ∀ (cs : List β) s, Le s (pass choose take s cs) := by
    intro cs
    induction cs with
    | nil => exact hrefl
    | cons c cs ih =>
      intro s
      exact htrans _ _ _ (hstep s c) (ih _)
  obtain ⟨before, after, rfl⟩ := List.append_of_mem hb
  rw [pass_append, pass_cons]
  refine ⟨pass choose take s before, hpass before s, ?_, ?_⟩
  · exact htrans _ _ _ (hstep _ b) (hpass after _)
  · intro t ht
    rw [step_of_some ht]
    exact hpass after _

/-- What a pass takes, in order. -/
def taken (choose : σ → β → Option τ) (take : σ → τ → σ) : σ → List β → List τ
  | _, [] => []
  | s, b :: bs => (choose s b).toList ++ taken choose take (step choose take s b) bs

theorem exists_of_mem_taken {bs : List β} {s : σ} {t : τ} (ht : t ∈ taken choose take s bs) :
    ∃ s' b, choose s' b = some t := by
  induction bs generalizing s with
  | nil => cases ht
  | cons b bs ih =>
    rcases List.mem_append.mp ht with hfirst | hrest
    · exact ⟨s, b, Option.mem_toList.mp hfirst⟩
    · exact ih hrest

/-- What a pass takes is good exactly if every offer is, in the state to which another
pass has come that agrees wherever the offer is. -/
theorem taken_good_iff {choose' : σ → β → Option τ} {Ok : σ → β → Prop} {Good : τ → Prop}
    (hok : ∀ s b, Ok s b ↔ ∀ t ∈ choose s b, Good t)
    (hsame : ∀ s b, Ok s b → choose s b = choose' s b) {bs : List β} {s : σ} :
    (∀ t ∈ taken choose take s bs, Good t) ↔
      ∀ before b after, bs = before ++ b :: after → Ok (pass choose' take s before) b := by
  induction bs generalizing s with
  | nil => simp [taken]
  | cons b bs ih =>
    have hsplit : (∀ t ∈ taken choose take s (b :: bs), Good t) ↔
        Ok s b ∧ ∀ t ∈ taken choose take (step choose take s b) bs, Good t := by
      simp only [taken, List.mem_append, or_imp, forall_and, hok, Option.mem_toList,
        Option.mem_def]
    rw [hsplit]
    constructor
    · rintro ⟨hfirst, hrest⟩ before c after heq
      cases before with
      | nil =>
        cases heq
        exact hfirst
      | cons d before =>
        cases heq
        rw [ih] at hrest
        have hlater := hrest before c after rfl
        rw [step, hsame s b hfirst] at hlater
        exact hlater
    · intro hall
      have hfirst := hall [] b bs rfl
      refine ⟨hfirst, ?_⟩
      rw [ih]
      rintro before c after rfl
      have hlater := hall (b :: before) c after rfl
      rw [pass_cons, step, ← hsame s b hfirst] at hlater
      exact hlater

inductive Chronicle (Justified : List τ → τ → Prop) : List τ → Prop
  | nil : Chronicle Justified []
  | snoc {earlier : List τ} {t : τ} : Chronicle Justified earlier → Justified earlier t →
      Chronicle Justified (earlier ++ [t])

namespace Chronicle

variable {Justified : List τ → τ → Prop} {entries : List τ}

theorem justified (h : Chronicle Justified entries) {earlier later : List τ} {t : τ}
    (hsplit : entries = earlier ++ t :: later) : Justified earlier t := by
  induction h generalizing earlier later t with
  | nil => simp at hsplit
  | @snoc front last _ hlast ih =>
    rcases List.eq_nil_or_concat later with rfl | ⟨later', last', rfl⟩
    · obtain ⟨rfl, hlasteq⟩ := List.append_inj' hsplit rfl
      cases hlasteq
      exact hlast
    · rw [List.concat_eq_append, ← List.cons_append, ← List.append_assoc] at hsplit
      obtain ⟨hfront, -⟩ := List.append_inj' hsplit rfl
      exact ih hfront

theorem of_mem (h : Chronicle Justified entries) {t : τ} (ht : t ∈ entries) :
    ∃ earlier later, entries = earlier ++ t :: later ∧ Justified earlier t := by
  obtain ⟨earlier, later, hsplit⟩ := List.append_of_mem ht
  exact ⟨earlier, later, hsplit, h.justified hsplit⟩

/-- Entries whose keys are new at their place have distinct keys. -/
theorem nodup_keys {κ : Type*} (key : τ → κ) (counts : τ → Bool)
    (h : Chronicle Justified entries)
    (hnew : ∀ earlier t, Justified earlier t → counts t = true →
      ∀ e ∈ earlier, counts e = true → key e ≠ key t) :
    ((entries.filter counts).map key).Nodup := by
  induction h with
  | nil => exact List.nodup_nil
  | @snoc front last _ hlast ih =>
    rw [List.filter_append, List.map_append]
    by_cases hcounts : counts last = true
    · rw [List.filter_cons_of_pos hcounts, List.filter_nil, List.map_singleton,
        List.nodup_append]
      refine ⟨ih, List.nodup_singleton _, ?_⟩
      intro k hk k' hk' heq
      rw [List.mem_singleton] at hk'
      obtain ⟨e, he, rfl⟩ := List.mem_map.mp hk
      rw [List.mem_filter] at he
      exact hnew front last hlast hcounts e he.1 he.2 (heq.trans hk')
    · rw [List.filter_cons_of_neg hcounts, List.filter_nil, List.map_nil, List.append_nil]
      exact ih

end Chronicle

section

variable {ε κ : Type*} (left right : ε → κ)

/-- An edge is the first one of its left end in a longer list if it is the new edge, or
the new edge has another left end and it was the first one before. -/
theorem first_cons_iff {first e : ε} {es : List ε} :
    (∃ before after, first :: es = before ++ e :: after ∧
        ∀ earlier ∈ before, left earlier ≠ left e) ↔
      e = first ∨ left first ≠ left e ∧ ∃ before after, es = before ++ e :: after ∧
        ∀ earlier ∈ before, left earlier ≠ left e := by
  constructor
  · rintro ⟨before, after, hsplit, hfirst⟩
    cases before with
    | nil =>
      cases hsplit
      exact Or.inl rfl
    | cons head before =>
      cases hsplit
      exact Or.inr ⟨hfirst first (List.mem_cons_self ..), before, after, rfl,
        fun earlier he => hfirst earlier (List.mem_cons_of_mem _ he)⟩
  · rintro (rfl | ⟨hne, before, after, rfl, hfirst⟩)
    · exact ⟨[], es, rfl, by simp⟩
    · refine ⟨first :: before, after, rfl, ?_⟩
      intro earlier hearlier
      rcases List.mem_cons.mp hearlier with rfl | hmem
      · exact hne
      · exact hfirst earlier hmem

variable [DecidableEq κ]

/-- The edges that are served in list order, when each end is served at most once and
the ends in the two sets have been served before. -/
def firstServed : Finset κ → Finset κ → List ε → List ε
  | _, _, [] => []
  | usedLeft, usedRight, e :: es =>
    if left e ∈ usedLeft ∨ right e ∈ usedRight then firstServed usedLeft usedRight es
    else e :: firstServed (insert (left e) usedLeft) (insert (right e) usedRight) es

/-- With right ends that occur once, the edges served are the first ones of their left
ends. -/
theorem mem_firstServed {usedLeft usedRight : Finset κ} {es : List ε}
    (honce : (es.map right).Nodup) (hfresh : ∀ e ∈ es, right e ∉ usedRight) {e : ε} :
    e ∈ firstServed left right usedLeft usedRight es ↔
      left e ∉ usedLeft ∧ ∃ before after, es = before ++ e :: after ∧
        ∀ earlier ∈ before, left earlier ≠ left e := by
  induction es generalizing usedLeft usedRight with
  | nil => simp [firstServed]
  | cons first es ih =>
    rw [List.map_cons, List.nodup_cons] at honce
    obtain ⟨hnew, honce⟩ := honce
    have hrest : ∀ e ∈ es, right e ∉ usedRight :=
      fun e he => hfresh e (List.mem_cons_of_mem _ he)
    have hrest' : ∀ e ∈ es, right e ∉ insert (right first) usedRight := by
      intro e he hmem
      rcases Finset.mem_insert.mp hmem with heq | hold
      · exact hnew (List.mem_map.mpr ⟨e, he, heq⟩)
      · exact hrest e he hold
    rw [first_cons_iff]
    unfold firstServed
    by_cases hleft : left first ∈ usedLeft
    · rw [if_pos (Or.inl hleft), ih honce hrest]
      apply and_congr_right
      intro hfree
      have hne : left first ≠ left e := fun heq => hfree (heq ▸ hleft)
      have hother : e ≠ first := fun heq => hne (congrArg left heq.symm)
      simp only [hother, false_or, hne, ne_eq, not_false_eq_true, true_and]
    · have hserved : ¬ (left first ∈ usedLeft ∨ right first ∈ usedRight) := by
        rw [not_or]
        exact ⟨hleft, hfresh first (List.mem_cons_self ..)⟩
      rw [if_neg hserved, List.mem_cons, ih honce hrest', Finset.mem_insert, not_or]
      constructor
      · rintro (rfl | ⟨⟨hne, hfree⟩, hlater⟩)
        · exact ⟨hleft, Or.inl rfl⟩
        · exact ⟨hfree, Or.inr ⟨Ne.symm hne, hlater⟩⟩
      · rintro ⟨hfree, heq | ⟨hne, hlater⟩⟩
        · exact Or.inl heq
        · exact Or.inr ⟨⟨Ne.symm hne, hfree⟩, hlater⟩

end

end HpcProfiler.GreedyChoice
