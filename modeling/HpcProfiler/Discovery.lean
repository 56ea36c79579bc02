import Mathlib.Data.Finset.Basic
import Mathlib.Data.List.AList

/-!
How a collect of the memory layer finds the objects to report. The difference of two
tracemalloc snapshots says which tracebacks have grown; three passes over the garbage
collector's lists, the frames of all threads and the referents of what was found gather
the objects of these tracebacks. The passes share one set of addresses seen, which
starts as the addresses that are tracked already.
-/

namespace HpcProfiler.Discovery

/-- The frames of an allocation, as file name and line number, the most recent last. -/
abbrev Traceback := List (String × ℤ)

structure Usage where
  size : ℤ
  count : ℤ

abbrev Snapshot := AList (fun _ : Traceback => Usage)

structure StatDiff where
  traceback : Traceback
  size : ℤ
  sizeDiff : ℤ
  count : ℤ
  countDiff : ℤ
  deriving DecidableEq

/-- The statistics of Snapshot.compare_to, of the tracebacks in either snapshot. -/
def compareTo (current last : Snapshot) : List StatDiff :=
  current.entries.map (fun ⟨tb, usage⟩ =>
      let previous := (last.lookup tb).getD ⟨0, 0⟩
      ⟨tb, usage.size, usage.size - previous.size, usage.count, usage.count - previous.count⟩) ++
    (last.entries.filter fun ⟨tb, _⟩ => (current.lookup tb).isNone).map fun ⟨tb, usage⟩ =>
      ⟨tb, 0, -usage.size, 0, -usage.count⟩

abbrev StatByTb := AList (fun _ : Traceback => StatDiff)

def statByTb (stats : List StatDiff) : StatByTb :=
  stats.foldl (fun d stat => if 0 < stat.sizeDiff then d.insert stat.traceback stat else d) ∅

/-- An object is told from a later one at its address by its serial number. -/
structure PyObject where
  serial : ℕ
  addr : ℤ
  weakrefable : Bool
  deriving DecidableEq

/-- An object that a pass comes upon: whether its type is one of _NO_WEAKREF_TYPES, whether
it looks like a buffer and where it was allocated. Asking may raise: of a dead weakref.proxy
already the test of its type does. -/
structure Sighting where
  obj : PyObject
  noWeakrefType : Option Bool
  bufferProbe : Option Bool
  traceback : Option (Option Traceback)
  deriving DecidableEq

structure Candidate where
  obj : PyObject
  tb : Traceback
  stat : StatDiff
  gen : ℤ
  deriving DecidableEq

/-- The local variables of collect that the passes work on. -/
structure Found where
  stats : StatByTb := ∅
  liveSnapshot : Finset ℤ := ∅
  seenAddrs : Finset ℤ := ∅
  candidates : List Candidate := []
  tbRemaining : AList (fun _ : Traceback => ℤ) := ∅
  tbLow : Finset Traceback := ∅
  newGcObjects : List PyObject := []

def HIGH_COUNT_THRESHOLD : ℤ := 5

def Found.start (stats : StatByTb) (liveSnapshot : Finset ℤ) : Found where
  stats := stats
  liveSnapshot := liveSnapshot
  seenAddrs := liveSnapshot
  tbRemaining := stats.entries.foldl (fun d ⟨tb, stat⟩ =>
    if HIGH_COUNT_THRESHOLD < stat.countDiff then d.insert tb stat.countDiff else d) ∅
  tbLow := ((stats.entries.filter fun ⟨_, stat⟩ =>
    stat.countDiff ≤ HIGH_COUNT_THRESHOLD).map Sigma.fst).toFinset

def Found.see (d : Found) (obj : PyObject) : Found :=
  { d with seenAddrs := insert obj.addr d.seenAddrs }

def Found.addCandidate (d : Found) (obj : PyObject) (tb : Traceback) (gen : ℤ) : Found :=
  match d.stats.lookup tb with
  | some stat => { d with candidates := d.candidates ++ [⟨obj, tb, stat, gen⟩] }
  | none => d

/-- A quota of the traceback is used up by one, and given up at its end. -/
def Found.useQuota (d : Found) (tb : Traceback) (left : ℤ) : Found :=
  if left - 1 ≤ 0 then { d with tbRemaining := d.tbRemaining.erase tb }
  else { d with tbRemaining := d.tbRemaining.insert tb (left - 1) }

def Found.addGcObject (d : Found) (obj : PyObject) (tb : Traceback) (gen : ℕ) : Found :=
  let d := d.addCandidate obj tb gen
  { d with newGcObjects := d.newGcObjects ++ [obj] }

/-- What pass A does with an object that it has not seen before. -/
def Found.visitGc (d : Found) (gen : ℕ) (s : Sighting) : Found :=
  match s.traceback with
  | some (some tb) =>
    match d.tbRemaining.lookup tb with
    | some left => (d.addGcObject s.obj tb gen).useQuota tb left
    | none => if tb ∈ d.tbLow then d.addGcObject s.obj tb gen else d
  | _ => d

/-- Pass A over the list of one generation; a test of a type that raises ends the list. -/
def scanGc (gen : ℕ) (d : Found) : List Sighting → Found
  | [] => d
  | s :: rest =>
    if 0 < gen ∧ d.tbRemaining.keys = [] then d
    else
      match s.noWeakrefType with
      | none => d
      | some true => scanGc gen d rest
      | some false =>
        if s.obj.addr ∈ d.seenAddrs then scanGc gen d rest
        else scanGc gen ((d.see s.obj).visitGc gen s) rest

/-- What passes B and C do with a buffer that they have not seen before. -/
def Found.visitBuffer (d : Found) (s : Sighting) : Found :=
  match s.traceback with
  | some (some tb) => if tb ≠ [] then d.addCandidate s.obj tb (-1) else d
  | _ => d

/-- Passes B and C over the locals of one frame or the referents of one object; a test or a
probe that raises ends the list. -/
def scanBuffers (d : Found) : List Sighting → Found
  | [] => d
  | s :: rest =>
    if s.obj.addr ∈ d.seenAddrs then scanBuffers d rest
    else
      match s.noWeakrefType with
      | none => d
      | some true => scanBuffers (d.see s.obj) rest
      | some false =>
        match s.bufferProbe with
        | none => d
        | some false => scanBuffers (d.see s.obj) rest
        | some true => scanBuffers ((d.see s.obj).visitBuffer s) rest

/-! What a pass does with one object, a whole list does. -/

section

variable {P : Found → Prop} {d : Found} {sightings : List Sighting}

theorem scanGc_keeps {gen : ℕ} (h : P d)
    (hvisit : ∀ d, ∀ s ∈ sightings, s.noWeakrefType = some false → s.obj.addr ∉ d.seenAddrs →
      P d → P ((d.see s.obj).visitGc gen s)) : P (scanGc gen d sightings) := by
  induction sightings generalizing d with
  | nil => exact h
  | cons s rest ih =>
    have hrest := fun {d} (h : P d) => ih h fun d s' hs' => hvisit d s' (List.mem_cons_of_mem _ hs')
    unfold scanGc
    split
    · exact h
    · split
      · exact h
      · exact hrest h
      · rename_i htype
        split
        · exact hrest h
        · rename_i hfresh
          exact hrest (hvisit d s (List.mem_cons_self ..) htype hfresh h)

theorem scanBuffers_keeps (h : P d)
    (hsee : ∀ d, ∀ s ∈ sightings, s.obj.addr ∉ d.seenAddrs → P d → P (d.see s.obj))
    (hvisit : ∀ d, ∀ s ∈ sightings, s.noWeakrefType = some false → s.bufferProbe = some true →
      s.obj.addr ∉ d.seenAddrs → P d → P ((d.see s.obj).visitBuffer s)) :
    P (scanBuffers d sightings) := by
  induction sightings generalizing d with
  | nil => exact h
  | cons s rest ih =>
    have hs : s ∈ s :: rest := List.mem_cons_self ..
    have hrest := fun {d} (h : P d) => ih h
      (fun d s' hs' => hsee d s' (List.mem_cons_of_mem _ hs'))
      (fun d s' hs' => hvisit d s' (List.mem_cons_of_mem _ hs'))
    unfold scanBuffers
    split
    · exact hrest h
    · rename_i hfresh
      split
      · exact h
      · exact hrest (hsee d s hs hfresh h)
      · rename_i htype
        split
        · exact h
        · exact hrest (hsee d s hs hfresh h)
        · rename_i hprobe
          exact hrest (hvisit d s hs htype hprobe hfresh h)

end

/-- What a pass makes of the local variables: it adds candidates at addresses that it
sees for the first time, each of an object it has come upon. -/
structure Grows (Met : PyObject → Prop) (d d' : Found) : Prop where
  candidates : ∃ new, d'.candidates = d.candidates ++ new ∧
    (new.map fun candidate => candidate.obj.addr).Nodup ∧
    ∀ candidate ∈ new, Met candidate.obj ∧ candidate.obj.addr ∉ d.seenAddrs ∧
      candidate.obj.addr ∈ d'.seenAddrs
  seen : d.seenAddrs ⊆ d'.seenAddrs
  liveSnapshot : d'.liveSnapshot = d.liveSnapshot

section

variable {Met : PyObject → Prop} {d d' d'' : Found}

theorem Grows.refl (d : Found) : Grows Met d d := ⟨⟨[], by simp⟩, subset_rfl, rfl⟩

theorem Grows.trans (h : Grows Met d d') (h' : Grows Met d' d'') : Grows Met d d'' := by
  obtain ⟨new, hnew, hnodup, hmem⟩ := h.candidates
  obtain ⟨new', hnew', hnodup', hmem'⟩ := h'.candidates
  refine ⟨⟨new ++ new', ?_, ?_, ?_⟩, h.seen.trans h'.seen, h'.liveSnapshot.trans h.liveSnapshot⟩
  · rw [hnew', hnew, List.append_assoc]
  · rw [List.map_append]
    refine hnodup.append hnodup' ?_
    intro a ha ha'
    obtain ⟨candidate, hcandidate, rfl⟩ := List.mem_map.mp ha
    obtain ⟨candidate', hcandidate', heq⟩ := List.mem_map.mp ha'
    have hseen := (hmem candidate hcandidate).2.2
    rw [← heq] at hseen
    exact (hmem' candidate' hcandidate').2.1 hseen
  · intro candidate hcandidate
    rcases List.mem_append.mp hcandidate with hfirst | hsecond
    · obtain ⟨hmet, hfresh, hseen⟩ := hmem candidate hfirst
      exact ⟨hmet, hfresh, h'.seen hseen⟩
    · obtain ⟨hmet, hfresh, hseen⟩ := hmem' candidate hsecond
      exact ⟨hmet, fun hold => hfresh (h.seen hold), hseen⟩

/-- An object that is seen for the first time gives one candidate or none. -/
theorem Grows.visit {obj : PyObject} (hmet : Met obj) (hfresh : obj.addr ∉ d.seenAddrs)
    (hcandidates : d'.candidates = d.candidates ∨
      ∃ candidate, candidate.obj = obj ∧ d'.candidates = d.candidates ++ [candidate])
    (hseen : d'.seenAddrs = insert obj.addr d.seenAddrs)
    (hlive : d'.liveSnapshot = d.liveSnapshot) : Grows Met d d' := by
  refine ⟨?_, by rw [hseen]; exact Finset.subset_insert _ _, hlive⟩
  rcases hcandidates with hsame | ⟨candidate, rfl, hone⟩
  · exact ⟨[], by simp [hsame]⟩
  · refine ⟨[candidate], hone, by simp, ?_⟩
    intro other hother
    rw [List.mem_singleton.mp hother, hseen]
    exact ⟨hmet, hfresh, Finset.mem_insert_self _ _⟩

theorem addCandidate_candidates (d : Found) (obj : PyObject) (tb : Traceback) (gen : ℤ) :
    (d.addCandidate obj tb gen).candidates = d.candidates ∨
      ∃ candidate, candidate.obj = obj ∧
        (d.addCandidate obj tb gen).candidates = d.candidates ++ [candidate] := by
  unfold Found.addCandidate
  cases d.stats.lookup tb with
  | none => exact .inl rfl
  | some stat => exact .inr ⟨⟨obj, tb, stat, gen⟩, rfl, rfl⟩

@[simp] theorem addCandidate_seenAddrs (d : Found) (obj : PyObject) (tb : Traceback) (gen : ℤ) :
    (d.addCandidate obj tb gen).seenAddrs = d.seenAddrs := by
  unfold Found.addCandidate
  split <;> rfl

@[simp] theorem addCandidate_liveSnapshot (d : Found) (obj : PyObject) (tb : Traceback) (gen : ℤ) :
    (d.addCandidate obj tb gen).liveSnapshot = d.liveSnapshot := by
  unfold Found.addCandidate
  split <;> rfl

@[simp] theorem useQuota_candidates (d : Found) (tb : Traceback) (left : ℤ) :
    (d.useQuota tb left).candidates = d.candidates := by
  unfold Found.useQuota
  split <;> rfl

@[simp] theorem useQuota_seenAddrs (d : Found) (tb : Traceback) (left : ℤ) :
    (d.useQuota tb left).seenAddrs = d.seenAddrs := by
  unfold Found.useQuota
  split <;> rfl

@[simp] theorem useQuota_liveSnapshot (d : Found) (tb : Traceback) (left : ℤ) :
    (d.useQuota tb left).liveSnapshot = d.liveSnapshot := by
  unfold Found.useQuota
  split <;> rfl

theorem grows_see {obj : PyObject} (hmet : Met obj) (hfresh : obj.addr ∉ d.seenAddrs) :
    Grows Met d (d.see obj) := .visit hmet hfresh (.inl rfl) rfl rfl

theorem grows_visitGc {s : Sighting} {gen : ℕ} (hmet : Met s.obj)
    (hfresh : s.obj.addr ∉ d.seenAddrs) : Grows Met d ((d.see s.obj).visitGc gen s) := by
  have hsee := grows_see hmet hfresh
  have hadd := addCandidate_candidates (d.see s.obj) s.obj
  unfold Found.visitGc
  split
  · rename_i tb _
    split
    · exact .visit hmet hfresh (by rw [useQuota_candidates]; exact hadd tb gen)
        (by simp [Found.addGcObject, Found.see]) (by simp [Found.addGcObject, Found.see])
    · split
      · exact .visit hmet hfresh (hadd tb gen) (by simp [Found.addGcObject, Found.see])
          (by simp [Found.addGcObject, Found.see])
      · exact hsee
  · exact hsee

theorem grows_visitBuffer {s : Sighting} (hmet : Met s.obj) (hfresh : s.obj.addr ∉ d.seenAddrs) :
    Grows Met d ((d.see s.obj).visitBuffer s) := by
  have hsee := grows_see hmet hfresh
  unfold Found.visitBuffer
  split
  · split
    · exact .visit hmet hfresh (addCandidate_candidates _ _ _ _) (by simp [Found.see])
        (by simp [Found.see])
    · exact hsee
  · exact hsee

theorem grows_scanGc {sightings : List Sighting} (gen : ℕ) (hmet : ∀ s ∈ sightings, Met s.obj)
    (d : Found) : Grows Met d (scanGc gen d sightings) := by
  apply scanGc_keeps (Grows.refl d)
  intro d' s hs _ hfresh h
  exact h.trans (grows_visitGc (hmet s hs) hfresh)

theorem grows_scanBuffers {sightings : List Sighting} (hmet : ∀ s ∈ sightings, Met s.obj)
    (d : Found) : Grows Met d (scanBuffers d sightings) := by
  apply scanBuffers_keeps (Grows.refl d)
  · intro d' s hs hfresh h
    exact h.trans (grows_see (hmet s hs) hfresh)
  · intro d' s hs _ _ hfresh h
    exact h.trans (grows_visitBuffer (hmet s hs) hfresh)

end

end HpcProfiler.Discovery
