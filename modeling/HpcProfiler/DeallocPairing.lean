import HpcProfiler.StableSort
import HpcProfiler.TakingTurns
import HpcProfiler.UiSession
import Mathlib.Logic.Function.Basic

/-!
The deallocation that the user interface shows for an allocation. One map holds the last
DEALLOC of every address of the whole session, so that it is the allocation's own only
where the address is used once.
-/

namespace HpcProfiler.DeallocPairing

open Events UiSession Correlation TakingTurns

/-- An event of the session and its place there, by which objects with the same fields
are told apart. -/
abbrev EventObject := CpuEvent × ℕ

def objects (session : Session) : List EventObject := session.cpuEvents.zipIdx

def allocs (session : Session) : List EventObject :=
  (objects session).filter fun e => !isDealloc e.1

def deallocs (session : Session) : List EventObject :=
  (objects session).filter fun e => isDealloc e.1

def addDealloc (map : ℤ → Option EventObject) (e : EventObject) : ℤ → Option EventObject :=
  Function.update map e.1.allocAddress (some e)

def deallocMap (session : Session) : ℤ → Option EventObject :=
  (deallocs session).foldl addDealloc fun _ => none

/-- The end of the bar in the timeline. -/
def barEnd (session : Session) (e : EventObject) : ℤ :=
  match deallocMap session e.1.allocAddress with
  | some d => d.1.base.timestampNs
  | none => session.endNs

/-- The lifetime in the inspector. -/
def lifetime (session : Session) (e : EventObject) : Option ℤ :=
  if e.1.lifetimeNs.getD 0 > 0 then e.1.lifetimeNs
  else
    (deallocMap session e.1.allocAddress).map fun d => d.1.base.timestampNs - e.1.base.timestampNs

/-- The events at an address, in the order of the session. -/
def history (session : Session) (addr : ℤ) : List EventObject :=
  (objects session).filter fun e => e.1.allocAddress = addr

/-- Events of an address take turns, and their timestamps do not decrease. -/
def Alternates (session : Session) : Prop :=
  ∀ addr, (history session addr).IsChain fun x y =>
    isDealloc x.1 ≠ isDealloc y.1 ∧ x.1.base.timestampNs ≤ y.1.base.timestampNs

/-- The first DEALLOC at the address behind the allocation and before the next ALLOC. -/
def ownDealloc (session : Session) (a : EventObject) : Option EventObject :=
  (((history session a.1.allocAddress).filter fun e => a.2 < e.2).takeWhile
    fun e => isDealloc e.1).head?

/-- The map gives the allocation's own DEALLOC, which decides the bar and the lifetime, and
the lifetime is not negative. -/
structure PairedRight (session : Session) (a : EventObject) : Prop where
  own : deallocMap session a.1.allocAddress = ownDealloc session a
  lifetime : ∀ ns ∈ lifetime session a, 0 ≤ ns

/-- No address is allocated twice, and a DEALLOC before the ALLOC of its address is followed
by one behind. -/
def UsedOnce (session : Session) : Prop :=
  ∀ a ∈ allocs session,
    (∀ b ∈ allocs session, b.1.allocAddress = a.1.allocAddress → b = a) ∧
    ((∃ d ∈ deallocs session, d.1.allocAddress = a.1.allocAddress ∧ d.2 < a.2) →
      ∃ d ∈ deallocs session, d.1.allocAddress = a.1.allocAddress ∧ a.2 < d.2)

section

variable {session : Session}

theorem mem_allocs {a : EventObject} :
    a ∈ allocs session ↔ a ∈ history session a.1.allocAddress ∧ isDealloc a.1 = false := by
  simp [allocs, history]

theorem mem_deallocs {d : EventObject} :
    d ∈ deallocs session ↔ d ∈ history session d.1.allocAddress ∧ isDealloc d.1 = true := by
  simp [deallocs, history]

theorem foldl_addDealloc (ds : List EventObject) (map : ℤ → Option EventObject) (addr : ℤ) :
    ds.foldl addDealloc map addr =
      ((ds.filter fun d => d.1.allocAddress = addr).getLast?).or (map addr) := by
  induction ds generalizing map with
  | nil => rfl
  | cons d ds ih =>
    rw [List.foldl_cons, ih]
    unfold addDealloc
    by_cases haddr : d.1.allocAddress = addr
    · rw [List.filter_cons_of_pos (by simpa using haddr), haddr, Function.update_self,
        List.getLast?_cons]
      cases (ds.filter fun d => d.1.allocAddress = addr).getLast? <;> rfl
    · rw [List.filter_cons_of_neg (by simpa using haddr),
        Function.update_of_ne (fun h => haddr h.symm)]

theorem deallocMap_eq (session : Session) (addr : ℤ) :
    deallocMap session addr =
      lastSecond (fun e : EventObject => isDealloc e.1) (history session addr) := by
  unfold deallocMap lastSecond history deallocs
  rw [foldl_addDealloc, Option.or_none, List.filter_comm]

/-- The places grow along a history. -/
theorem history_places (session : Session) (addr : ℤ) :
    (history session addr).Pairwise fun x y => x.2 < y.2 :=
  (StableSort.zipIdx_pairwise session.cpuEvents).sublist List.filter_sublist

theorem history_nodup (session : Session) (addr : ℤ) : (history session addr).Nodup :=
  (history_places session addr).imp fun hlt heq => by
    rw [heq] at hlt
    exact Nat.lt_irrefl _ hlt

theorem places_around {addr : ℤ} {before after : List EventObject} {a : EventObject}
    (hsplit : history session addr = before ++ a :: after) :
    (∀ x ∈ before, x.2 < a.2) ∧ ∀ x ∈ after, a.2 < x.2 := by
  have hplaces := history_places session addr
  rw [hsplit] at hplaces
  obtain ⟨-, hbehind, hacross⟩ := List.pairwise_append.mp hplaces
  exact ⟨fun x hx => hacross x hx a (List.mem_cons_self ..), (List.pairwise_cons.mp hbehind).1⟩

/-- The events behind an allocation are those with later places. -/
theorem filter_later {addr : ℤ} {before after : List EventObject} {a : EventObject}
    (hsplit : history session addr = before ++ a :: after) :
    ((history session addr).filter fun e => a.2 < e.2) = after := by
  obtain ⟨hbefore, hafter⟩ := places_around hsplit
  have hnone : (before.filter fun e => a.2 < e.2) = [] := by
    rw [List.filter_eq_nil_iff]
    intro e he hlt
    have hearlier := hbefore e he
    rw [decide_eq_true_eq] at hlt
    omega
  have hall : (after.filter fun e => a.2 < e.2) = after :=
    List.filter_eq_self.mpr fun e he => decide_eq_true (hafter e he)
  rw [hsplit, List.filter_append, hnone, List.filter_cons_of_neg (by simp), hall,
    List.nil_append]

theorem ownDealloc_eq {before after : List EventObject} {a : EventObject}
    (hsplit : history session a.1.allocAddress = before ++ a :: after) :
    ownDealloc session a = partner (fun e : EventObject => isDealloc e.1) after := by
  rw [ownDealloc, filter_later hsplit, partner]

theorem history_split {a : EventObject} (ha : a ∈ allocs session) :
    ∃ before after, history session a.1.allocAddress = before ++ a :: after :=
  List.append_of_mem (mem_allocs.mp ha).1

theorem address_of_mem {addr : ℤ} {e : EventObject} (h : e ∈ history session addr) :
    e.1.allocAddress = addr := by
  simpa using (List.mem_filter.mp h).2

/-- The other events at an address that is used once are deallocations, and the last
event is, if there are others. -/
theorem UsedOnce.alone (h : UsedOnce session) {before after : List EventObject} {a : EventObject}
    (ha : a ∈ allocs session)
    (hsplit : history session a.1.allocAddress = before ++ a :: after) :
    Alone (fun e : EventObject => isDealloc e.1) before after := by
  obtain ⟨honly, hagain⟩ := h a ha
  have hnodup := history_nodup session a.1.allocAddress
  rw [hsplit, List.nodup_middle, List.nodup_cons] at hnodup
  have hmem : ∀ x ∈ before ++ after, x ∈ history session x.1.allocAddress ∧
      x.1.allocAddress = a.1.allocAddress := by
    intro x hx
    have hxmem : x ∈ history session a.1.allocAddress := by
      rw [hsplit, List.mem_append, List.mem_cons]
      rcases List.mem_append.mp hx with hbefore | hafter
      · exact .inl hbefore
      · exact .inr (.inr hafter)
    have haddr := address_of_mem hxmem
    exact ⟨by rwa [haddr], haddr⟩
  have hothers : ∀ x ∈ before ++ after, isDealloc x.1 = true := by
    intro x hx
    by_contra hfirst
    obtain ⟨hxmem, haddr⟩ := hmem x hx
    have hxa := honly x (mem_allocs.mpr ⟨hxmem, by simpa using hfirst⟩) haddr
    rw [hxa] at hx
    exact hnodup.1 hx
  refine ⟨hothers, fun hnil => ?_⟩
  subst hnil
  rw [List.eq_nil_iff_forall_not_mem]
  intro x hx
  have hxother : x ∈ before ++ [] := List.mem_append_left _ hx
  obtain ⟨hxmem, haddr⟩ := hmem x hxother
  have hxdealloc := mem_deallocs.mpr ⟨hxmem, hothers x hxother⟩
  obtain ⟨d, hd, hdaddr, hlater⟩ := hagain ⟨x, hxdealloc, haddr, (places_around hsplit).1 x hx⟩
  have hdmem := (mem_deallocs.mp hd).1
  rw [hdaddr] at hdmem
  have hbehind : d ∈ (history session a.1.allocAddress).filter fun e => a.2 < e.2 :=
    List.mem_filter.mpr ⟨hdmem, decide_eq_true hlater⟩
  rw [filter_later hsplit] at hbehind
  cases hbehind

theorem usedOnce_of_alone
    (h : ∀ (a : EventObject) (before after : List EventObject), a ∈ allocs session →
      history session a.1.allocAddress = before ++ a :: after →
      Alone (fun e : EventObject => isDealloc e.1) before after) : UsedOnce session := by
  intro a ha
  obtain ⟨before, after, hsplit⟩ := history_split ha
  obtain ⟨hothers, hlast⟩ := h a before after ha hsplit
  refine ⟨?_, ?_⟩
  · intro b hb haddr
    obtain ⟨hbmem, hbfirst⟩ := mem_allocs.mp hb
    rw [haddr, hsplit, List.mem_append, List.mem_cons] at hbmem
    by_contra hne
    have hbother : b ∈ before ++ after := by
      rw [List.mem_append]
      rcases hbmem with hbefore | heq | hafter
      · exact .inl hbefore
      · exact absurd heq hne
      · exact .inr hafter
    have hbsecond := hothers b hbother
    dsimp only at hbsecond
    rw [hbfirst] at hbsecond
    cases hbsecond
  · rintro ⟨d, hd, hdaddr, hearlier⟩
    have hdmem := (mem_deallocs.mp hd).1
    rw [hdaddr, hsplit, List.mem_append, List.mem_cons] at hdmem
    cases after with
    | nil =>
      rw [hlast rfl] at hdmem
      rcases hdmem with hnil | rfl | hnil
      · cases hnil
      · exact absurd hearlier (Nat.lt_irrefl _)
      · cases hnil
    | cons e rest =>
      have hemem : e ∈ history session a.1.allocAddress := by
        rw [hsplit]
        simp
      have headdr := address_of_mem hemem
      rw [← headdr] at hemem
      exact ⟨e, mem_deallocs.mpr ⟨hemem, hothers e (by simp)⟩, headdr,
        (places_around hsplit).2 e (List.mem_cons_self ..)⟩

/-- The partner stands right behind the allocation, so it is not earlier. -/
theorem own_not_earlier {a d : EventObject} (h : Alternates session) (ha : a ∈ allocs session)
    (hd : ownDealloc session a = some d) : a.1.base.timestampNs ≤ d.1.base.timestampNs := by
  obtain ⟨before, after, hsplit⟩ := history_split ha
  rw [ownDealloc_eq hsplit] at hd
  cases after with
  | nil => cases hd
  | cons e rest =>
    rw [partner, List.takeWhile_cons] at hd
    split at hd
    · cases hd
      have hchain := h a.1.allocAddress
      rw [hsplit] at hchain
      have hnext := (List.isChain_cons_cons.mp (List.isChain_append.mp hchain).2.1).1
      exact hnext.2
    · cases hd

theorem lifetime_nonneg {a : EventObject} (h : Alternates session)
    (hown : deallocMap session a.1.allocAddress = ownDealloc session a)
    (ha : a ∈ allocs session) : ∀ ns ∈ lifetime session a, 0 ≤ ns := by
  intro ns hns
  unfold lifetime at hns
  split at hns
  · rename_i hpos
    rw [hns] at hpos
    exact Int.le_of_lt hpos
  · rw [hown] at hns
    obtain ⟨d, hd, rfl⟩ := Option.map_eq_some_iff.mp hns
    exact Int.sub_nonneg_of_le (own_not_earlier h ha hd)

/-- The bar of an allocation that is shown right and has been freed is not turned round. -/
theorem PairedRight.start_le_barEnd {a d : EventObject} (hright : PairedRight session a)
    (h : Alternates session) (ha : a ∈ allocs session) (hd : ownDealloc session a = some d) :
    a.1.base.timestampNs ≤ barEnd session a := by
  unfold barEnd
  rw [hright.own, hd]
  exact own_not_earlier h ha hd

/-- In a session whose events take turns at every address, every allocation is shown with
its own deallocation if and only if every address is used once. -/
theorem paired_iff_usedOnce (session : Session) (h : Alternates session) :
    (∀ a ∈ allocs session, PairedRight session a) ↔ UsedOnce session := by
  have hturns : ∀ addr, TakeTurns (fun e : EventObject => isDealloc e.1) (history session addr) :=
    fun addr => (h addr).imp fun _ _ hxy => hxy.1
  constructor
  · intro hpaired
    refine usedOnce_of_alone fun a before after ha hsplit => ?_
    have hlast : LastIsPartner (fun e : EventObject => isDealloc e.1)
        (history session a.1.allocAddress) := by
      intro before' b after' hsplit' hb
      have hmem : b ∈ history session a.1.allocAddress := by
        rw [hsplit']
        exact List.mem_append_right _ (List.mem_cons_self ..)
      have haddr := address_of_mem hmem
      rw [← haddr] at hmem hsplit' ⊢
      rw [← deallocMap_eq, (hpaired b (mem_allocs.mpr ⟨hmem, hb⟩)).own, ownDealloc_eq hsplit']
    exact (lastIsPartner_iff (hturns a.1.allocAddress) (history_nodup session _)).mp hlast
      before a after hsplit (mem_allocs.mp ha).2
  · intro honce a ha
    obtain ⟨before, after, hsplit⟩ := history_split ha
    have hpartner := hturns a.1.allocAddress
    rw [hsplit] at hpartner
    have hown : deallocMap session a.1.allocAddress = ownDealloc session a := by
      rw [deallocMap_eq, ownDealloc_eq hsplit, hsplit]
      exact (honce.alone ha hsplit).lastSecond_eq hpartner (mem_allocs.mp ha).2
    exact ⟨hown, lifetime_nonneg h hown ha⟩

end

/-- A session with nothing but its CPU events. -/
def ofEvents (events : List CpuEvent) : Session := ⟨events, none, none, some 0, some 100⟩

/-- Two objects at two addresses, one of them freed. -/
def onceUsed : Session := ofEvents [allocAt 1 10 100 8 0, allocAt 2 15 200 8 0, deallocAt 3 20 100]

theorem onceUsed_alternates : Alternates onceUsed := by
  have haddrs : (objects onceUsed).map (fun e => e.1.allocAddress) = [100, 200, 100] := rfl
  intro addr
  by_cases hfirst : addr = 100
  · subst hfirst
    decide
  · by_cases hsecond : addr = 200
    · subst hsecond
      decide
    · have hnone : history onceUsed addr = [] := by
        rw [history, List.filter_eq_nil_iff]
        intro e he haddr
        have hmem := List.mem_map_of_mem (f := fun e : EventObject => e.1.allocAddress) he
        rw [decide_eq_true_eq] at haddr
        rw [haddrs, haddr] at hmem
        simp [hfirst, hsecond] at hmem
      rw [hnone]
      exact .nil

theorem paired_iff_usedOnce_onceUsed :
    (∀ a ∈ allocs onceUsed, PairedRight onceUsed a) ↔ UsedOnce onceUsed :=
  paired_iff_usedOnce onceUsed onceUsed_alternates

/-- An object is freed and another one, still alive, is created at its address. -/
def reused : Session := ofEvents [allocAt 1 10 100 8 0, deallocAt 2 20 100, allocAt 3 30 100 8 0]

theorem reused_alternates : Alternates reused := by
  have haddrs : (objects reused).map (fun e => e.1.allocAddress) = [100, 100, 100] := rfl
  intro addr
  by_cases haddr : addr = 100
  · subst haddr
    decide
  · have hnone : history reused addr = [] := by
      rw [history, List.filter_eq_nil_iff]
      intro e he heq
      have hmem := List.mem_map_of_mem (f := fun e : EventObject => e.1.allocAddress) he
      rw [decide_eq_true_eq] at heq
      rw [haddrs, heq] at hmem
      simp [haddr] at hmem
    rw [hnone]
    exact .nil

/-- The living object is shown with a lifetime of minus ten nanoseconds. -/
theorem reused_negative :
    ¬ ∀ session : Session, Alternates session → ∀ a ∈ allocs session, PairedRight session a := by
  intro h
  have hpaired := h reused reused_alternates (allocAt 3 30 100 8 0, 2) (by decide)
  have hns := hpaired.lifetime (-10) (by decide)
  exact absurd hns (by decide)

end HpcProfiler.DeallocPairing
