import HpcProfiler.MemoryLayer
import Mathlib.Data.List.TakeWhile
import Mathlib.Logic.Relation

/-!
The three passes of a collect over one view of the heap. Pass A goes through the lists of
the garbage collector with quotas for the tracebacks that have grown by many objects, pass
B through the frames and pass C through the referents of what pass A has found.
-/

namespace HpcProfiler.DiscoveryPasses

open Discovery MemoryLayer

/-- What a collect can come upon, as it stands between two allocations: the lists of the
garbage collector, the locals of the frames and the referents of an object. An object that
is there is alone at its address. Asking for a traceback does not raise. -/
structure Scene where
  youngest : List PyObject
  older : ℕ → List PyObject
  frames : List (List PyObject)
  referents : PyObject → List PyObject
  noWeakrefType : PyObject → Option Bool
  bufferProbe : PyObject → Option Bool
  traceback : PyObject → Option Traceback
  alone : ∀ a ∈ youngest, ∀ b ∈ youngest, a.addr = b.addr → a = b

def Scene.generation (sc : Scene) : ℕ → List PyObject
  | 0 => sc.youngest
  | gen + 1 => sc.older (gen + 1)

def Scene.sight (sc : Scene) (objs : List PyObject) : List Sighting :=
  objs.map fun obj => ⟨obj, sc.noWeakrefType obj, sc.bufferProbe obj, some (sc.traceback obj)⟩

/-- A generation is scanned newest object first. -/
def scanGeneration (sc : Scene) (d : Found) (gen : ℕ) : Found :=
  if 0 < gen ∧ d.tbRemaining.keys = [] then d
  else scanGc gen d (sc.sight (sc.generation gen)).reverse

def passA (sc : Scene) (d : Found) : Found := [0, 1, 2].foldl (scanGeneration sc) d

def passB (sc : Scene) (d : Found) : Found :=
  sc.frames.foldl (fun d frame => scanBuffers d (sc.sight frame)) d

def passC (sc : Scene) (d : Found) : Found :=
  d.newGcObjects.foldl (fun d obj => scanBuffers d (sc.sight (sc.referents obj))) d

/-- What pass A finds, from the difference of two snapshots and the live map. -/
def foundByGc (sc : Scene) (current last : Snapshot) (live : AList fun _ : ℤ => Info) : Found :=
  passA sc (.start (statByTb (compareTo current last)) live.keys.toFinset)

def discover (sc : Scene) (current last : Snapshot) (live : AList fun _ : ℤ => Info) : Found :=
  passC sc (passB sc (foundByGc sc current last live))

/-! Each pass only adds candidates, at addresses that were not seen before. -/

section

variable {sc : Scene} {d : Found}

theorem grows_foldl {α : Type*} {visit : Found → α → Found} (xs : List α)
    (h : ∀ d, ∀ x ∈ xs, Grows (fun _ => True) d (visit d x)) (d : Found) :
    Grows (fun _ => True) d (xs.foldl visit d) := by
  induction xs generalizing d with
  | nil => exact .refl d
  | cons x xs ih =>
    have hfirst := h d x (List.mem_cons_self ..)
    have hrest := ih (fun d y hy => h d y (List.mem_cons_of_mem _ hy)) (visit d x)
    exact hfirst.trans hrest

theorem grows_scanGeneration (sc : Scene) (gens : List ℕ) (d : Found) :
    Grows (fun _ => True) d (gens.foldl (scanGeneration sc) d) := by
  apply grows_foldl
  intro d gen _
  unfold scanGeneration
  split
  · exact .refl d
  · exact grows_scanGc gen (fun _ _ => trivial) d

theorem grows_passB (sc : Scene) (d : Found) : Grows (fun _ => True) d (passB sc d) := by
  apply grows_foldl
  intro d frame _
  exact grows_scanBuffers (fun _ _ => trivial) d

theorem grows_passC (sc : Scene) (d : Found) : Grows (fun _ => True) d (passC sc d) := by
  apply grows_foldl
  intro d obj _
  exact grows_scanBuffers (fun _ _ => trivial) d

end

/-! The tracebacks of a difference. -/

theorem lookup_statByTb (stats : List StatDiff) (tb : Traceback) :
    (statByTb stats).lookup tb =
      (stats.filter fun stat => stat.traceback = tb ∧ 0 < stat.sizeDiff).getLast? := by
  unfold statByTb
  induction stats using List.reverseRecOn with
  | nil => rfl
  | append_singleton stats stat ih =>
    rw [List.foldl_append, List.foldl_cons, List.foldl_nil, List.filter_append]
    by_cases hpos : 0 < stat.sizeDiff
    · rw [if_pos hpos]
      by_cases heq : tb = stat.traceback
      · rw [heq, AList.lookup_insert, List.filter_cons_of_pos (by simpa using hpos),
          List.filter_nil, List.getLast?_concat]
      · rw [AList.lookup_insert_ne heq, ih, List.filter_cons_of_neg (by simp [Ne.symm heq]),
          List.filter_nil, List.append_nil]
    · rw [if_neg hpos, ih, List.filter_cons_of_neg (by simpa using fun _ => not_lt.mp hpos),
        List.filter_nil, List.append_nil]

theorem nodup_compareTo (current last : Snapshot) :
    ((compareTo current last).map StatDiff.traceback).Nodup := by
  have hcurrent : (current.entries.map Sigma.fst).Nodup := current.keys_nodup
  have hlast : (last.entries.map Sigma.fst).Nodup := last.keys_nodup
  rw [compareTo, List.map_append, List.map_map, List.map_map]
  apply List.Nodup.append
  · exact hcurrent
  · exact hlast.sublist (List.filter_sublist.map _)
  · intro tb hin hout
    obtain ⟨⟨tb', usage⟩, hentry, rfl⟩ := List.mem_map.mp hin
    obtain ⟨⟨tb'', old⟩, hold, heq⟩ := List.mem_map.mp hout
    have hgone := List.of_mem_filter hold
    have hsome : current.lookup tb' = some usage := AList.mem_lookup_iff.mpr hentry
    dsimp only [Function.comp_apply] at heq hgone
    rw [heq, hsome] at hgone
    cases hgone

/-- A traceback that has grown keeps its own statistics. -/
theorem lookup_compareTo {current last : Snapshot} {stat : StatDiff}
    (hmem : stat ∈ compareTo current last) (hpos : 0 < stat.sizeDiff) :
    (statByTb (compareTo current last)).lookup stat.traceback = some stat := by
  rw [lookup_statByTb]
  have hin : stat ∈ (compareTo current last).filter fun s =>
      s.traceback = stat.traceback ∧ 0 < s.sizeDiff :=
    List.mem_filter.mpr ⟨hmem, by simpa using hpos⟩
  cases hlast : ((compareTo current last).filter fun s =>
      s.traceback = stat.traceback ∧ 0 < s.sizeDiff).getLast? with
  | none =>
    rw [List.getLast?_eq_none_iff.mp hlast] at hin
    cases hin
  | some other =>
    obtain ⟨hother, hsame⟩ := List.mem_filter.mp (List.mem_of_getLast? hlast)
    rw [decide_eq_true_eq] at hsame
    rw [List.inj_on_of_nodup_map (nodup_compareTo current last) hother hmem hsame.1]

/-! A candidate knows the statistics of its traceback. -/

structure Known (stats : StatByTb) (d : Found) : Prop where
  same : d.stats = stats
  stat : ∀ c ∈ d.candidates, stats.lookup c.tb = some c.stat

section

variable {stats : StatByTb} {d : Found} {obj : PyObject} {tb : Traceback} {left gen : ℤ}

theorem known_start (stats : StatByTb) (live : Finset ℤ) : Known stats (.start stats live) :=
  ⟨rfl, fun c hc => by cases hc⟩

theorem Known.see (h : Known stats d) (obj : PyObject) : Known stats (d.see obj) :=
  ⟨h.same, h.stat⟩

theorem Known.addCandidate (h : Known stats d) : Known stats (d.addCandidate obj tb gen) := by
  unfold Found.addCandidate
  cases hstat : d.stats.lookup tb with
  | none => exact h
  | some stat =>
    refine ⟨h.same, fun c hc => ?_⟩
    rcases List.mem_append.mp hc with hold | hnew
    · exact h.stat c hold
    · rw [List.mem_singleton.mp hnew, ← h.same]
      exact hstat

theorem Known.addGcObject {gen : ℕ} (h : Known stats d) : Known stats (d.addGcObject obj tb gen) :=
  ⟨(h.addCandidate).same, (h.addCandidate).stat⟩

theorem Known.useQuota (h : Known stats d) : Known stats (d.useQuota tb left) := by
  unfold Found.useQuota
  split <;> exact ⟨h.same, h.stat⟩

theorem Known.visitGc {gen : ℕ} (h : Known stats d) (s : Sighting) :
    Known stats (d.visitGc gen s) := by
  unfold Found.visitGc
  split
  · split
    · exact h.addGcObject.useQuota
    · split
      · exact h.addGcObject
      · exact h
  · exact h

theorem Known.visitBuffer (h : Known stats d) (s : Sighting) : Known stats (d.visitBuffer s) := by
  unfold Found.visitBuffer
  split
  · split
    · exact h.addCandidate
    · exact h
  · exact h

theorem Known.scanGc (h : Known stats d) (gen : ℕ) (sightings : List Sighting) :
    Known stats (scanGc gen d sightings) := by
  apply scanGc_keeps h
  intro d s _ _ _ hd
  exact (hd.see s.obj).visitGc s

theorem Known.scanBuffers (h : Known stats d) (sightings : List Sighting) :
    Known stats (scanBuffers d sightings) := by
  apply scanBuffers_keeps h
  · intro d s _ _ hd
    exact hd.see s.obj
  · intro d s _ _ _ _ hd
    exact (hd.see s.obj).visitBuffer s

end

/-! The quotas of pass A. -/

/-- How many candidates of a traceback there are. -/
def taken (d : Found) (tb : Traceback) : ℕ := d.candidates.countP fun c => c.tb = tb

/-- What is taken of a traceback with a quota and what is left of it is the quota at most;
tracebacks without a quota have grown by few objects. -/
structure Budgeted (stats : StatByTb) (d : Found) : Prop where
  known : Known stats d
  low : ∀ tb ∈ d.tbLow, ∃ stat, stats.lookup tb = some stat ∧
    stat.countDiff ≤ HIGH_COUNT_THRESHOLD
  positive : ∀ tb left, d.tbRemaining.lookup tb = some left → 0 < left
  spent : ∀ tb stat, stats.lookup tb = some stat → HIGH_COUNT_THRESHOLD < stat.countDiff →
    (taken d tb : ℤ) + (d.tbRemaining.lookup tb).getD 0 ≤ stat.countDiff

theorem mem_tbLow_start {stats : StatByTb} {live : Finset ℤ} {tb : Traceback} :
    tb ∈ (Found.start stats live).tbLow ↔
      ∃ stat, stats.lookup tb = some stat ∧ stat.countDiff ≤ HIGH_COUNT_THRESHOLD := by
  simp only [Found.start, List.mem_toFinset, List.mem_map, List.mem_filter, decide_eq_true_eq]
  constructor
  · rintro ⟨⟨tb', stat⟩, ⟨hmem, hle⟩, rfl⟩
    exact ⟨stat, AList.mem_lookup_iff.mpr hmem, hle⟩
  · rintro ⟨stat, hlookup, hle⟩
    exact ⟨⟨tb, stat⟩, ⟨AList.mem_lookup_iff.mp hlookup, hle⟩, rfl⟩

/-- A quota is at first the number of objects by which the traceback has grown. -/
theorem lookup_tbRemaining_start {stats : StatByTb} {live : Finset ℤ} {tb : Traceback} {left : ℤ}
    (hlookup : (Found.start stats live).tbRemaining.lookup tb = some left) :
    ∃ stat, stats.lookup tb = some stat ∧ HIGH_COUNT_THRESHOLD < stat.countDiff ∧
      left = stat.countDiff := by
  have hentries : ∀ es : List (Sigma fun _ : Traceback => StatDiff),
      (es.foldl (fun (d : AList fun _ : Traceback => ℤ) (entry : Sigma fun _ => StatDiff) =>
        if HIGH_COUNT_THRESHOLD < entry.2.countDiff then d.insert entry.1 entry.2.countDiff
        else d) ∅).lookup tb = some left →
      ∃ stat, ⟨tb, stat⟩ ∈ es ∧ HIGH_COUNT_THRESHOLD < stat.countDiff ∧ left = stat.countDiff := by
    intro es
    induction es using List.reverseRecOn with
    | nil =>
      intro h
      cases h
    | append_singleton es entry ih =>
      intro h
      rw [List.foldl_append, List.foldl_cons, List.foldl_nil] at h
      have hold : ∀ stat, ⟨tb, stat⟩ ∈ es → ⟨tb, stat⟩ ∈ es ++ [entry] :=
        fun stat hmem => List.mem_append_left _ hmem
      split at h
      · rename_i hhigh
        by_cases heq : tb = entry.1
        · subst heq
          rw [AList.lookup_insert] at h
          cases h
          exact ⟨entry.2, by simp, hhigh, rfl⟩
        · rw [AList.lookup_insert_ne heq] at h
          obtain ⟨stat, hmem, hrest⟩ := ih h
          exact ⟨stat, hold stat hmem, hrest⟩
      · obtain ⟨stat, hmem, hrest⟩ := ih h
        exact ⟨stat, hold stat hmem, hrest⟩
  obtain ⟨stat, hmem, hrest⟩ := hentries stats.entries hlookup
  exact ⟨stat, AList.mem_lookup_iff.mpr hmem, hrest⟩

theorem budgeted_start (stats : StatByTb) (live : Finset ℤ) :
    Budgeted stats (.start stats live) := by
  refine ⟨known_start stats live, fun tb htb => mem_tbLow_start.mp htb, ?_, ?_⟩
  · intro tb left hlookup
    obtain ⟨stat, -, hhigh, rfl⟩ := lookup_tbRemaining_start hlookup
    unfold HIGH_COUNT_THRESHOLD at hhigh
    omega
  · intro tb stat hstat hhigh
    have hnone : taken (.start stats live) tb = 0 := rfl
    unfold HIGH_COUNT_THRESHOLD at hhigh
    rw [hnone]
    cases hlookup : (Found.start stats live).tbRemaining.lookup tb with
    | none =>
      rw [Option.getD_none]
      omega
    | some left =>
      obtain ⟨stat', hstat', -, rfl⟩ := lookup_tbRemaining_start hlookup
      rw [hstat] at hstat'
      cases hstat'
      rw [Option.getD_some]
      omega

section

variable {stats : StatByTb} {d : Found} {obj : PyObject} {tb tb' : Traceback} {left : ℤ} {gen : ℕ}

theorem addGcObject_candidates (d : Found) (obj : PyObject) (tb : Traceback) (gen : ℕ) :
    (d.addGcObject obj tb gen).candidates =
      d.candidates ++ ((d.stats.lookup tb).map fun stat => ⟨obj, tb, stat, gen⟩).toList := by
  unfold Found.addGcObject Found.addCandidate
  cases d.stats.lookup tb with
  | none => exact (List.append_nil _).symm
  | some stat => rfl

theorem addGcObject_quotas (d : Found) (obj : PyObject) (tb : Traceback) (gen : ℕ) :
    (d.addGcObject obj tb gen).tbLow = d.tbLow ∧
      (d.addGcObject obj tb gen).tbRemaining = d.tbRemaining := by
  unfold Found.addGcObject Found.addCandidate
  cases d.stats.lookup tb <;> exact ⟨rfl, rfl⟩

theorem useQuota_tbLow (d : Found) (tb : Traceback) (left : ℤ) :
    (d.useQuota tb left).tbLow = d.tbLow := by
  unfold Found.useQuota
  split <;> rfl

theorem taken_addGcObject :
    taken (d.addGcObject obj tb gen) tb' ≤ taken d tb' + if tb = tb' then 1 else 0 := by
  rw [taken, taken, addGcObject_candidates, List.countP_append]
  cases d.stats.lookup tb <;> simp [List.countP_singleton]

theorem lookup_useQuota : (d.useQuota tb left).tbRemaining.lookup tb' =
    if tb' = tb then if left - 1 ≤ 0 then none else some (left - 1)
    else d.tbRemaining.lookup tb' := by
  unfold Found.useQuota
  by_cases heq : tb' = tb
  · subst heq
    rw [if_pos rfl]
    split
    · exact AList.lookup_erase _ _
    · exact AList.lookup_insert _
  · rw [if_neg heq]
    split
    · exact AList.lookup_erase_ne heq
    · exact AList.lookup_insert_ne heq

/-- An object of a traceback with a quota uses it up by one. -/
theorem Budgeted.use (h : Budgeted stats d) (hleft : d.tbRemaining.lookup tb = some left) :
    Budgeted stats ((d.addGcObject obj tb gen).useQuota tb left) := by
  obtain ⟨hlow, hremaining⟩ := addGcObject_quotas d obj tb gen
  have hpos := h.positive tb left hleft
  refine ⟨h.known.addGcObject.useQuota, ?_, ?_, ?_⟩
  · rw [useQuota_tbLow, hlow]
    exact h.low
  · intro tb' left' hlookup
    rw [lookup_useQuota, hremaining] at hlookup
    split at hlookup
    · split at hlookup
      · cases hlookup
      · cases hlookup
        omega
    · exact h.positive tb' left' hlookup
  · intro tb' stat hstat hhigh
    have hspent := h.spent tb' stat hstat hhigh
    have htaken : taken (d.addGcObject obj tb gen) tb' ≤ taken d tb' + if tb = tb' then 1 else 0 :=
      taken_addGcObject
    have hsame : taken ((d.addGcObject obj tb gen).useQuota tb left) tb' =
        taken (d.addGcObject obj tb gen) tb' := by
      rw [taken, taken, useQuota_candidates]
    rw [hsame, lookup_useQuota, hremaining]
    by_cases heq : tb' = tb
    · subst heq
      rw [if_pos rfl] at htaken ⊢
      rw [hleft, Option.getD_some] at hspent
      split <;> simp only [Option.getD_none, Option.getD_some] <;> omega
    · rw [if_neg (Ne.symm heq)] at htaken
      rw [if_neg heq]
      omega

/-- An object of a traceback that has grown by few objects uses up no quota. -/
theorem Budgeted.addLow (h : Budgeted stats d) (htb : tb ∈ d.tbLow) :
    Budgeted stats (d.addGcObject obj tb gen) := by
  obtain ⟨hlow, hremaining⟩ := addGcObject_quotas d obj tb gen
  refine ⟨h.known.addGcObject, ?_, ?_, ?_⟩
  · rw [hlow]
    exact h.low
  · rw [hremaining]
    exact h.positive
  · intro tb' stat hstat hhigh
    have hspent := h.spent tb' stat hstat hhigh
    have htaken : taken (d.addGcObject obj tb gen) tb' ≤ taken d tb' + if tb = tb' then 1 else 0 :=
      taken_addGcObject
    have hne : tb ≠ tb' := by
      intro heq
      obtain ⟨stat', hstat', hfew⟩ := h.low tb htb
      rw [heq, hstat] at hstat'
      cases hstat'
      omega
    rw [if_neg hne] at htaken
    rw [hremaining]
    omega

theorem Budgeted.see (h : Budgeted stats d) (obj : PyObject) : Budgeted stats (d.see obj) :=
  ⟨h.known.see obj, h.low, h.positive, h.spent⟩

theorem Budgeted.visit (h : Budgeted stats d) (s : Sighting) :
    Budgeted stats (d.visitGc gen s) := by
  unfold Found.visitGc
  split
  · split
    · rename_i hleft
      exact h.use hleft
    · split
      · rename_i hlow
        exact h.addLow hlow
      · exact h
  · exact h

theorem Budgeted.scan (h : Budgeted stats d) (gen : ℕ) (sightings : List Sighting) :
    Budgeted stats (scanGc gen d sightings) := by
  apply scanGc_keeps h
  intro d s _ _ _ hd
  exact (hd.see s.obj).visit s

end

theorem budgeted_passA (sc : Scene) {stats : StatByTb} {d : Found} (h : Budgeted stats d) :
    Budgeted stats (passA sc d) := by
  unfold passA
  induction [0, 1, 2] generalizing d with
  | nil => exact h
  | cons gen gens ih =>
    rw [List.foldl_cons]
    apply ih
    unfold scanGeneration
    split
    · exact h
    · exact h.scan gen _

/-- A traceback that has grown by many objects gives at most as many candidates. -/
theorem taken_le_countDiff (sc : Scene) {current last : Snapshot} (live : AList fun _ : ℤ => Info)
    {stat : StatDiff} (hmem : stat ∈ compareTo current last)
    (hhigh : HIGH_COUNT_THRESHOLD < stat.countDiff) :
    (taken (foundByGc sc current last live) stat.traceback : ℤ) ≤ stat.countDiff := by
  have hbudgeted := budgeted_passA sc
    (budgeted_start (statByTb (compareTo current last)) live.keys.toFinset)
  by_cases hpos : 0 < stat.sizeDiff
  · have hspent := hbudgeted.spent stat.traceback stat (lookup_compareTo hmem hpos) hhigh
    have hleft : 0 ≤ ((foundByGc sc current last live).tbRemaining.lookup
        stat.traceback).getD 0 := by
      cases hlookup : (foundByGc sc current last live).tbRemaining.lookup stat.traceback with
      | none => exact le_rfl
      | some left => exact (hbudgeted.positive _ left hlookup).le
    unfold foundByGc at hleft ⊢
    omega
  · have hnone : taken (foundByGc sc current last live) stat.traceback = 0 := by
      refine List.countP_eq_zero.mpr fun c hc htb => hpos ?_
      have hknown := hbudgeted.known.stat c hc
      rw [of_decide_eq_true htb, lookup_statByTb] at hknown
      obtain ⟨hin, hgrown⟩ := List.mem_filter.mp (List.mem_of_getLast? hknown)
      rw [decide_eq_true_eq] at hgrown
      rw [← List.inj_on_of_nodup_map (nodup_compareTo current last) hin hmem hgrown.1]
      exact hgrown.2
    unfold HIGH_COUNT_THRESHOLD at hhigh
    omega

/-! Every object of the first generation that pass A comes to, with a traceback that has
grown by few objects, is taken. -/

/-- The object may be taken, and its traceback has grown by few objects. -/
def Scene.Low (sc : Scene) (current last : Snapshot) (live : AList fun _ : ℤ => Info)
    (obj : PyObject) : Prop :=
  sc.noWeakrefType obj = some false ∧ obj.addr ∉ live ∧
    ∃ stat ∈ compareTo current last, sc.traceback obj = some stat.traceback ∧
      0 < stat.sizeDiff ∧ stat.countDiff ≤ HIGH_COUNT_THRESHOLD

/-- The objects of the first generation that pass A comes to: the newest first, up to one of
which the test of the type raises. -/
def Scene.reached (sc : Scene) : List PyObject :=
  sc.youngest.reverse.takeWhile fun obj => (sc.noWeakrefType obj).isSome

theorem scanGc_takeWhile (gen : ℕ) (d : Found) (sightings : List Sighting) :
    scanGc gen d (sightings.takeWhile fun s => s.noWeakrefType.isSome) =
      scanGc gen d sightings := by
  induction sightings generalizing d with
  | nil => rfl
  | cons s rest ih =>
    cases htype : s.noWeakrefType with
    | none =>
      rw [List.takeWhile_cons_of_neg (by simp [htype])]
      unfold scanGc
      rw [htype]
      split <;> rfl
    | some excluded =>
      rw [List.takeWhile_cons_of_pos (by simp [htype])]
      unfold scanGc
      rw [htype]
      cases excluded <;> simp only [ih]

/-- The scan of the first generation is that of the objects it comes to. -/
theorem scanGeneration_youngest (sc : Scene) (d : Found) :
    scanGeneration sc d 0 = scanGc 0 d (sc.sight sc.reached) := by
  unfold scanGeneration
  rw [if_neg fun hbreak => Nat.lt_irrefl 0 hbreak.1, ← scanGc_takeWhile, Scene.sight,
    ← List.map_reverse, List.takeWhile_map]
  rfl

theorem mem_youngest_of_reached {sc : Scene} {obj : PyObject} (hobj : obj ∈ sc.reached) :
    obj ∈ sc.youngest := List.mem_reverse.mp (List.takeWhile_subset _ hobj)

/-- What has been seen of the first generation since the collect began is taken, if its
traceback is a low one. -/
def Covers (sc : Scene) (d : Found) : Prop :=
  ∀ obj ∈ sc.youngest, obj.addr ∈ d.seenAddrs → obj.addr ∉ d.liveSnapshot →
    ∀ tb ∈ d.tbLow, sc.traceback obj = some tb → ∃ c ∈ d.candidates, c.obj = obj

theorem covers_start (sc : Scene) (stats : StatByTb) (live : Finset ℤ) :
    Covers sc (.start stats live) :=
  fun _ _ hseen hlive => absurd hseen hlive

theorem Grows.mem_candidates {Met : PyObject → Prop} {d d' : Found} (h : Grows Met d d')
    {c : Candidate} (hc : c ∈ d.candidates) : c ∈ d'.candidates := by
  obtain ⟨new, hnew, -⟩ := h.candidates
  rw [hnew]
  exact List.mem_append_left _ hc

section

variable {sc : Scene} {stats : StatByTb} {d : Found} {obj : PyObject} {tb : Traceback} {gen : ℕ}

theorem visitGc_tbLow (d : Found) (gen : ℕ) (s : Sighting) : (d.visitGc gen s).tbLow = d.tbLow := by
  unfold Found.visitGc
  split
  · split
    · rw [useQuota_tbLow, (addGcObject_quotas _ _ _ _).1]
    · split
      · exact (addGcObject_quotas _ _ _ _).1
      · rfl
  · rfl

theorem visitGc_seenAddrs (d : Found) (gen : ℕ) (s : Sighting) :
    (d.visitGc gen s).seenAddrs = d.seenAddrs := by
  unfold Found.visitGc
  split
  · split
    · rw [useQuota_seenAddrs]
      exact addCandidate_seenAddrs ..
    · split
      · exact addCandidate_seenAddrs ..
      · rfl
  · rfl

theorem mem_candidates_addGcObject {stat : StatDiff} (hstat : d.stats.lookup tb = some stat) :
    ⟨obj, tb, stat, gen⟩ ∈ (d.addGcObject obj tb gen).candidates := by
  rw [addGcObject_candidates, hstat]
  simp

/-- An object with a low traceback is taken, whether or not a quota is left. -/
theorem visitGc_takes {s : Sighting} {stat : StatDiff} (htraceback : s.traceback = some (some tb))
    (hlow : tb ∈ d.tbLow) (hstat : d.stats.lookup tb = some stat) :
    ⟨s.obj, tb, stat, gen⟩ ∈ (d.visitGc gen s).candidates := by
  unfold Found.visitGc
  rw [htraceback]
  dsimp only
  split
  · rw [useQuota_candidates]
    exact mem_candidates_addGcObject hstat
  · rw [if_pos hlow]
    exact mem_candidates_addGcObject hstat

theorem Covers.visit (h : Covers sc d) (hbudgeted : Budgeted stats d) {s : Sighting}
    (hs : s ∈ sc.sight sc.reached) (hfresh : s.obj.addr ∉ d.seenAddrs) :
    Covers sc ((d.see s.obj).visitGc gen s) := by
  have hgrows : Grows (fun _ => True) d ((d.see s.obj).visitGc gen s) :=
    grows_visitGc trivial hfresh
  obtain ⟨met, hmet, rfl⟩ := List.mem_map.mp hs
  intro obj hobj hseen hlive tb htb htraceback
  rw [hgrows.liveSnapshot] at hlive
  rw [visitGc_tbLow] at htb
  by_cases haddr : obj.addr = met.addr
  · cases sc.alone obj hobj met (mem_youngest_of_reached hmet) haddr
    obtain ⟨stat, hstat, -⟩ := hbudgeted.low tb htb
    rw [← hbudgeted.known.same] at hstat
    exact ⟨_, visitGc_takes (congrArg some htraceback) htb hstat, rfl⟩
  · have hold : obj.addr ∈ d.seenAddrs := by
      rw [visitGc_seenAddrs] at hseen
      exact Finset.mem_of_mem_insert_of_ne hseen haddr
    obtain ⟨c, hc, hcobj⟩ := h obj hobj hold hlive tb htb htraceback
    exact ⟨c, Grows.mem_candidates hgrows hc, hcobj⟩

theorem Covers.scan (h : Covers sc d) (hbudgeted : Budgeted stats d) :
    Covers sc (scanGc 0 d (sc.sight sc.reached)) ∧
      (scanGc 0 d (sc.sight sc.reached)).tbLow = d.tbLow := by
  have hkept : Budgeted stats (scanGc 0 d (sc.sight sc.reached)) ∧
      Covers sc (scanGc 0 d (sc.sight sc.reached)) ∧
      (scanGc 0 d (sc.sight sc.reached)).tbLow = d.tbLow := by
    apply scanGc_keeps (P := fun d' => Budgeted stats d' ∧ Covers sc d' ∧ d'.tbLow = d.tbLow)
      ⟨hbudgeted, h, rfl⟩
    intro d' s hs _ hfresh ⟨hbudgeted', hcovers, hlow⟩
    exact ⟨(hbudgeted'.see s.obj).visit s, hcovers.visit hbudgeted' hs hfresh,
      (visitGc_tbLow _ _ _).trans hlow⟩
  exact hkept.2

/-- The scan of the first generation does not end before a test raises. -/
theorem seen_scanGc {sightings : List Sighting} {s : Sighting} (hs : s ∈ sightings)
    (htests : ∀ s' ∈ sightings, s'.noWeakrefType ≠ none) (htype : s.noWeakrefType = some false)
    (d : Found) : s.obj.addr ∈ (scanGc 0 d sightings).seenAddrs := by
  induction sightings generalizing d with
  | nil => cases hs
  | cons first rest ih =>
    have hgrows : ∀ d', Grows (fun _ => True) d' (scanGc 0 d' rest) :=
      fun d' => grows_scanGc 0 (fun _ _ => trivial) d'
    have hlater : ∀ d', s ∈ rest → s.obj.addr ∈ (scanGc 0 d' rest).seenAddrs :=
      fun d' hin => ih hin (fun s' hs' => htests s' (List.mem_cons_of_mem _ hs')) d'
    unfold scanGc
    rw [if_neg fun hbreak => Nat.lt_irrefl 0 hbreak.1]
    cases hfirst : first.noWeakrefType with
    | none => exact absurd hfirst (htests first (List.mem_cons_self ..))
    | some excluded =>
      rcases List.mem_cons.mp hs with heq | hin
      · subst heq
        rw [htype] at hfirst
        cases hfirst
        dsimp only
        split
        · rename_i hold
          exact (hgrows d).seen hold
        · apply (hgrows _).seen
          rw [visitGc_seenAddrs]
          exact Finset.mem_insert_self _ _
      · cases excluded with
        | true => exact hlater d hin
        | false =>
          dsimp only
          split
          · exact hlater d hin
          · exact hlater _ hin

end

/-- What pass A comes to in the first generation and takes is a candidate to the end. -/
theorem exists_candidate (sc : Scene) {current last : Snapshot} {live : AList fun _ : ℤ => Info}
    {obj : PyObject} (hreached : obj ∈ sc.reached) (hlow : sc.Low current last live obj) :
    ∃ c ∈ (discover sc current last live).candidates, c.obj = obj := by
  obtain ⟨htype, hlive, stat, hmem, htraceback, hgrown, hfew⟩ := hlow
  let start := Found.start (statByTb (compareTo current last)) live.keys.toFinset
  let first := scanGc 0 start (sc.sight sc.reached)
  have hyoungest : scanGeneration sc start 0 = first := scanGeneration_youngest sc start
  have hlater : Grows (fun _ => True) first (foundByGc sc current last live) := by
    rw [← hyoungest]
    exact grows_scanGeneration sc [1, 2] (scanGeneration sc start 0)
  have hbegun : Grows (fun _ => True) first (discover sc current last live) :=
    (hlater.trans (grows_passB sc _)).trans (grows_passC sc _)
  obtain ⟨hcovers, hlows⟩ := (covers_start sc (statByTb (compareTo current last))
    live.keys.toFinset).scan (budgeted_start _ _)
  have htb : stat.traceback ∈ first.tbLow := by
    rw [hlows]
    exact mem_tbLow_start.mpr ⟨stat, lookup_compareTo hmem hgrown, hfew⟩
  have htests : ∀ s ∈ sc.sight sc.reached, s.noWeakrefType ≠ none := by
    intro s hs
    obtain ⟨met, hmet, rfl⟩ := List.mem_map.mp hs
    have htest : (sc.noWeakrefType met).isSome = true :=
      List.mem_takeWhile_imp (p := fun obj => (sc.noWeakrefType obj).isSome) hmet
    exact Option.isSome_iff_ne_none.mp htest
  have haddr : obj.addr ∈ first.seenAddrs :=
    seen_scanGc (List.mem_map_of_mem hreached) htests htype start
  have hfirst : Grows (fun _ => True) start first := grows_scanGc 0 (fun _ _ => trivial) start
  have hnew : obj.addr ∉ first.liveSnapshot := by
    rw [hfirst.liveSnapshot]
    intro hold
    exact hlive (AList.mem_keys.mpr (List.mem_toFinset.mp hold))
  obtain ⟨c, hc, hcobj⟩ := hcovers obj (mem_youngest_of_reached hreached) haddr hnew
    stat.traceback htb htraceback
  exact ⟨c, Grows.mem_candidates hbegun hc, hcobj⟩

/-- Where no other list shows anything, the candidates are among what pass A comes to in the
first generation. -/
theorem reached_of_candidate (sc : Scene) (holder : ∀ gen, sc.older gen = [])
    (hframes : sc.frames = []) (hreferents : ∀ obj, sc.referents obj = [])
    {current last : Snapshot} {live : AList fun _ : ℤ => Info} {c : Candidate}
    (hc : c ∈ (discover sc current last live).candidates) : c.obj ∈ sc.reached := by
  let start := Found.start (statByTb (compareTo current last)) live.keys.toFinset
  have hmet : ∀ s ∈ sc.sight sc.reached, s.obj ∈ sc.reached := by
    intro s hs
    obtain ⟨met, hmet, rfl⟩ := List.mem_map.mp hs
    exact hmet
  have hempty : ∀ d gen, 0 < gen → scanGeneration sc d gen = d := by
    intro d gen hgen
    obtain ⟨gen', rfl⟩ := Nat.exists_eq_succ_of_ne_zero hgen.ne'
    unfold scanGeneration
    rw [Scene.generation, holder]
    split <;> rfl
  have hfirst : foundByGc sc current last live = scanGc 0 start (sc.sight sc.reached) := by
    rw [← scanGeneration_youngest]
    unfold foundByGc passA
    rw [List.foldl_cons, List.foldl_cons, List.foldl_cons, List.foldl_nil, hempty _ 1 (by omega),
      hempty _ 2 (by omega)]
  have hreferred : ∀ objs : List PyObject, ∀ d, objs.foldl (fun d obj =>
      scanBuffers d (sc.sight (sc.referents obj))) d = d := by
    intro objs
    induction objs with
    | nil => exact fun _ => rfl
    | cons obj objs ih =>
      intro d
      rw [List.foldl_cons, hreferents]
      exact ih d
  have hall : discover sc current last live = scanGc 0 start (sc.sight sc.reached) := by
    unfold discover passC passB
    rw [hreferred, hframes, List.foldl_nil, hfirst]
  rw [hall] at hc
  obtain ⟨new, hnew, -, hmem⟩ := (grows_scanGc 0 hmet start).candidates
  rw [hnew] at hc
  exact (hmem c hc).1

/-! A collect gathers these candidates step by step. -/

/-- A step of a collect that does not end it. -/
def GoesOn (ly : Layer) (c c' : Collect) : Prop := ∃ env, (collectStep env ly c).2 = .going c'

section

variable {sc : Scene} {ly : Layer} {c : Collect}

theorem scanGenerations_done {d : Found} (hdone : d.tbRemaining.keys = []) {gens : List ℕ}
    (hpos : ∀ gen ∈ gens, 0 < gen) : gens.foldl (scanGeneration sc) d = d := by
  induction gens with
  | nil => rfl
  | cons gen gens ih =>
    have hgen : scanGeneration sc d gen = d := if_pos ⟨hpos gen (List.mem_cons_self ..), hdone⟩
    rw [List.foldl_cons, hgen]
    exact ih fun gen hmem => hpos gen (List.mem_cons_of_mem _ hmem)

theorem goesOn_generation (sc : Scene) (ly : Layer) {gen : ℕ} (hpc : c.pc = .passA gen)
    (hquota : 0 < gen → c.found.tbRemaining.keys ≠ []) :
    GoesOn ly c { c with
      found := scanGeneration sc c.found gen
      pc := afterPassA gen (scanGeneration sc c.found gen) } := by
  unfold scanGeneration
  rw [if_neg fun hbreak => hquota hbreak.1 hbreak.2]
  refine ⟨{ sightings := sc.sight (sc.generation gen) }, ?_⟩
  unfold collectStep
  rw [hpc]

theorem goes_generations (sc : Scene) (ly : Layer) {gen : ℕ} (left : ℕ) (hgen : gen + left = 2)
    (hpc : c.pc = .passA gen) (hquota : 0 < gen → c.found.tbRemaining.keys ≠ []) :
    Relation.ReflTransGen (GoesOn ly) c
      { c with
        found := (List.range' gen (left + 1)).foldl (scanGeneration sc) c.found
        pc := .passB } := by
  have hfirst := goesOn_generation sc ly hpc hquota
  induction left generalizing c gen with
  | zero =>
    have hlast : afterPassA gen (scanGeneration sc c.found gen) = .passB :=
      if_neg fun hmore => by omega
    rw [hlast] at hfirst
    exact .single hfirst
  | succ left ih =>
    rw [List.range'_succ, List.foldl_cons]
    by_cases hdone : (scanGeneration sc c.found gen).tbRemaining.keys = []
    · have hlast : afterPassA gen (scanGeneration sc c.found gen) = .passB :=
        if_neg fun hmore => hmore.2 hdone
      rw [hlast] at hfirst
      rw [scanGenerations_done hdone]
      · exact .single hfirst
      · intro gen' hgen'
        have hlow := (List.mem_range'_1.mp hgen').1
        omega
    · have hnext : afterPassA gen (scanGeneration sc c.found gen) = .passA (gen + 1) :=
        if_pos ⟨by omega, hdone⟩
      rw [hnext] at hfirst
      refine .head hfirst (ih (by omega) rfl (fun _ => hdone) ?_)
      exact goesOn_generation sc ly rfl fun _ => hdone

theorem goes_passA (sc : Scene) (ly : Layer) (hpc : c.pc = .passA 0) :
    Relation.ReflTransGen (GoesOn ly) c { c with found := passA sc c.found, pc := .passB } :=
  goes_generations sc ly 2 rfl hpc fun h => absurd h (Nat.lt_irrefl 0)

theorem goes_passB (sc : Scene) (ly : Layer) (hpc : c.pc = .passB) :
    Relation.ReflTransGen (GoesOn ly) c
      { c with found := passB sc c.found, pc := .passC (passB sc c.found).newGcObjects } := by
  unfold passB
  induction sc.frames generalizing c with
  | nil =>
    apply Relation.ReflTransGen.single
    refine ⟨{}, ?_⟩
    unfold collectStep
    rw [hpc]
    rfl
  | cons frame frames ih =>
    let c' : Collect := { c with found := scanBuffers c.found (sc.sight frame), pc := .passB }
    have hfirst : GoesOn ly c c' := by
      refine ⟨{ sightings := sc.sight frame, moreFrames := true }, ?_⟩
      unfold collectStep
      rw [hpc]
      rfl
    exact .head hfirst (ih (c := c') rfl)

theorem goes_passC (sc : Scene) (ly : Layer) {objs : List PyObject} (hpc : c.pc = .passC objs) :
    Relation.ReflTransGen (GoesOn ly) c
      { c with
        found := objs.foldl (fun d obj => scanBuffers d (sc.sight (sc.referents obj))) c.found
        pc := .passC [] } := by
  induction objs generalizing c with
  | nil =>
    rw [← hpc]
    exact .refl
  | cons obj objs ih =>
    let c' : Collect := { c with
      found := scanBuffers c.found (sc.sight (sc.referents obj)), pc := .passC objs }
    have hfirst : GoesOn ly c c' := by
      refine ⟨{ sightings := sc.sight (sc.referents obj) }, ?_⟩
      unfold collectStep
      rw [hpc]
    exact .head hfirst (ih (c := c') rfl)

/-- From its snapshot on, a collect that meets the scene gathers the candidates above and
goes on to their events. -/
theorem collect_discovers (sc : Scene) {current last : Snapshot}
    (hlast : ly.lastSnapshot = some last)
    (hgrown : (statByTb (compareTo current last)).keys ≠ []) (hpc : c.pc = .snapshot) :
    ∃ c', Relation.ReflTransGen (GoesOn ly) c c' ∧
      c'.found = discover sc current last ly.live ∧ c'.pc = .build c'.found.candidates := by
  let stats := statByTb (compareTo current last)
  let c₁ : Collect := { c with found := { stats }, rssKb := 0, pc := .snapLive }
  let c₂ : Collect := { c₁ with found := .start stats ly.live.keys.toFinset, pc := .passA 0 }
  let c₃ : Collect := { c₂ with found := foundByGc sc current last ly.live, pc := .passB }
  let c₄ : Collect := { c₃ with
    found := passB sc c₃.found, pc := .passC (passB sc c₃.found).newGcObjects }
  let c₅ : Collect := { c₄ with found := discover sc current last ly.live, pc := .passC [] }
  have hsnapshot : GoesOn ly c c₁ := by
    refine ⟨{ snapshot := some current }, ?_⟩
    unfold collectStep
    rw [hpc, hlast]
    dsimp only
    rw [if_neg hgrown]
  have hlive : GoesOn ly c₁ c₂ := ⟨{}, rfl⟩
  have hbuild : GoesOn ly c₅ { c₅ with pc := .build c₅.found.candidates } := ⟨{}, rfl⟩
  refine ⟨{ c₅ with pc := .build c₅.found.candidates }, ?_, rfl, rfl⟩
  calc Relation.ReflTransGen (GoesOn ly) c c₁ := .single hsnapshot
    Relation.ReflTransGen (GoesOn ly) _ c₂ := .single hlive
    Relation.ReflTransGen (GoesOn ly) _ c₃ := goes_passA sc ly rfl
    Relation.ReflTransGen (GoesOn ly) _ c₄ := goes_passB sc ly rfl
    Relation.ReflTransGen (GoesOn ly) _ c₅ := goes_passC sc ly rfl
    Relation.ReflTransGen (GoesOn ly) _ _ := .single hbuild

end

/-- What a collect is to make of what it comes upon: its candidates have distinct addresses
that were not tracked; a traceback that has grown by many objects gives pass A at most that
many; and every object of the first generation with a traceback that has grown by few is
taken. -/
structure Discovers (sc : Scene) (current last : Snapshot) (live : AList fun _ : ℤ => Info) :
    Prop where
  distinct : ((discover sc current last live).candidates.map fun c => c.obj.addr).Nodup
  untracked : ∀ c ∈ (discover sc current last live).candidates, c.obj.addr ∉ live
  quota : ∀ stat ∈ compareTo current last, HIGH_COUNT_THRESHOLD < stat.countDiff →
    (taken (foundByGc sc current last live) stat.traceback : ℤ) ≤ stat.countDiff
  low : ∀ obj ∈ sc.youngest, sc.Low current last live obj →
    ∃ c ∈ (discover sc current last live).candidates, c.obj = obj

/-- Whatever a collect comes upon, it does so if pass A comes to every object that it is to
take. -/
theorem discovers_of_reached (sc : Scene) (current last : Snapshot)
    (live : AList fun _ : ℤ => Info)
    (hreached : ∀ obj ∈ sc.youngest, sc.Low current last live obj → obj ∈ sc.reached) :
    Discovers sc current last live := by
  have hgrows : Grows (fun _ => True) (.start (statByTb (compareTo current last))
      live.keys.toFinset) (discover sc current last live) :=
    ((grows_scanGeneration sc [0, 1, 2] _).trans (grows_passB sc _)).trans (grows_passC sc _)
  obtain ⟨new, hnew, hnodup, hfresh⟩ := hgrows.candidates
  have hcandidates : (discover sc current last live).candidates = new := hnew
  constructor
  · rw [hcandidates]
    exact hnodup
  · intro c hc hlive
    rw [hcandidates] at hc
    exact (hfresh c hc).2.1 (List.mem_toFinset.mpr (AList.mem_keys.mp hlive))
  · intro stat hmem hhigh
    exact taken_le_countDiff sc live hmem hhigh
  · intro obj hobj hlow
    exact exists_candidate sc (hreached obj hobj hlow) hlow

/-- A collect does so, whatever the older generations, the frames and the referents show it,
exactly if no test of a type raises at an object that is newer than one it is to take. -/
theorem discover_spec_iff (sc : Scene) (current last : Snapshot)
    (live : AList fun _ : ℤ => Info) :
    (∀ older frames referents, Discovers { sc with older, frames, referents } current last live) ↔
      ∀ obj ∈ sc.youngest, sc.Low current last live obj → obj ∈ sc.reached := by
  constructor
  · intro hdiscovers obj hobj hlow
    have halone := hdiscovers (fun _ => []) [] (fun _ => [])
    obtain ⟨c, hc, rfl⟩ := halone.low obj hobj hlow
    have hin := reached_of_candidate _ (fun _ => rfl) rfl (fun _ => rfl) hc
    exact hin
  · intro hreached older frames referents
    exact discovers_of_reached _ current last live hreached

def proxyScene : Scene where
  youngest := [⟨0, 4096, true⟩, ⟨1, 8192, false⟩]
  older _ := []
  frames := []
  referents _ := []
  noWeakrefType obj := if obj.serial = 1 then none else some false
  bufferProbe _ := some false
  traceback _ := some [("main.py", 3)]
  alone := by decide

/-- The payload of the program is older than a proxy whose object has died. -/
theorem payload_behind_proxy : ¬∀ sc current last live, Discovers sc current last live := by
  intro hdiscovers
  have hall := hdiscovers proxyScene (AList.insert [("main.py", 3)] ⟨64, 1⟩ ∅) ∅ ∅
  obtain ⟨c, hc, -⟩ := hall.low ⟨0, 4096, true⟩ (by decide) ⟨rfl, by decide,
    ⟨[("main.py", 3)], 64, 64, 1, 1⟩, by decide, rfl, by decide, by decide⟩
  have hnone : (discover proxyScene (AList.insert [("main.py", 3)] ⟨64, 1⟩ ∅) ∅ ∅).candidates =
      [] := by decide +kernel
  rw [hnone] at hc
  cases hc

end HpcProfiler.DiscoveryPasses
