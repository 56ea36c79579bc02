import HpcProfiler.TraceAlignment
import Mathlib.Algebra.Order.Ring.Int
import Mathlib.Order.Lattice

/-!
The alignment does not depend on where the clocks start. Moving the times of all GPU
activities, or those of all callbacks, moves the offset of that clock the other way, so that
every aligned time and the order of the events stay.
-/

namespace HpcProfiler.AlignmentShift

open TraceEvents FieldFrames StableSort TraceAlignment

def shiftValue (k : ℤ) : Value → Value
  | .int n => .int (n + k)
  | value => value

/-- The integers in some fields are moved. -/
def shift (keys : List String) (k : ℤ) (e : Event) : Event :=
  fun key => if key ∈ keys then (e key).map (shiftValue k) else e key

def shiftGpu (k : ℤ) (e : Event) : Event := if isGpuAct e then shift gpuKeys k e else e

def shiftCallback (k : ℤ) (e : Event) : Event := if isCallback e then shift timeKeys k e else e

/-- The times among these fields are integers where they are present. -/
def integerAt (keys : List String) (e : Event) : Bool :=
  keys.all fun key => (e key).all Value.isInt

/-- The aligned times of an event. -/
def alignedTimes (e : Event) : List (Option Value) :=
  [e "aligned_t_ns", e "aligned_start_ns", e "aligned_end_ns"]

/-- The same events, moved, in the same order and with the same aligned times; or an error
both times. -/
def SameAlignment (move : Event → Event) :
    Option (List Event × ℤ × ℤ) → Option (List Event × ℤ × ℤ) → Prop
  | none, none => True
  | some (out, _), some (out', _) =>
    out' = out.map move ∧ out'.map alignedTimes = out.map alignedTimes
  | _, _ => False

/-- The callback and the activity have one correlation id and are of one kind, and both
have a time. -/
def Matches (g c : Event) : Prop :=
  isGpuAct g ∧ (getGpuStartEnd g).1.isSome ∧ isCallback c ∧ c.has "site" "enter" ∧
    (getTNs c).isSome ∧
    gpuKind g = cpuKindFromApi ((c "api").getD (.str "")).text ∧
    ∃ n, (g.given "corr").bind Value.toInt = some n ∧ (c.given "corr").bind Value.toInt = some n

section

variable {keys : List String} {k : ℤ}

theorem writesOnly_shift (keys : List String) (k : ℤ) : WritesOnly keys (shift keys k) :=
  fun _ _ hkey => if_neg hkey

theorem writesOnly_shiftGpu (k : ℤ) : WritesOnly gpuKeys (shiftGpu k) :=
  writesOnly_ite (writesOnly_shift gpuKeys k)

theorem writesOnly_shiftCallback (k : ℤ) : WritesOnly timeKeys (shiftCallback k) :=
  writesOnly_ite (writesOnly_shift timeKeys k)

theorem set_shift {key : String} (hkey : key ∉ keys) (e : Event) (value : Value) :
    (shift keys k e).set key value = shift keys k (e.set key value) := by
  funext other
  by_cases hother : other = key
  · subst hother
    rw [Event.set_same, shift, if_neg hkey, Event.set_same]
  · rw [Event.set_other _ _ hother, shift, shift, Event.set_other _ _ hother]

theorem integerAt_value {e : Event} {key : String} {value : Value}
    (h : integerAt keys e = true) (hkey : key ∈ keys) (hvalue : e key = some value) :
    ∃ n, value = .int n := by
  have hint := List.all_eq_true.mp h key hkey
  rw [hvalue] at hint
  cases value with
  | int n => exact ⟨n, rfl⟩
  | null => cases hint
  | bool => cases hint
  | float => cases hint
  | str => cases hint
  | compound => cases hint

theorem reads_integerAt (keys : List String) : Reads keys (integerAt keys) := by
  intro e e' h
  have hall : ∀ key ∈ keys, (e' key).all Value.isInt = (e key).all Value.isInt := by
    intro key hkey
    rw [h key hkey]
  rw [integerAt, integerAt, Bool.eq_iff_iff, List.all_eq_true, List.all_eq_true]
  exact forall₂_congr fun key hkey => by rw [hall key hkey]

theorem intAt_shift {e : Event} {key : String} (hkey : key ∈ keys) (h : integerAt keys e) :
    (shift keys k e).intAt key = (e.intAt key).map (· + k) := by
  unfold Event.intAt
  rw [shift, if_pos hkey]
  cases hvalue : e key with
  | none => rfl
  | some value =>
    obtain ⟨n, rfl⟩ := integerAt_value h hkey hvalue
    rfl

theorem firstInt_shift {e : Event} {some_keys : List String} (hsub : some_keys ⊆ keys)
    (h : integerAt keys e) :
    (shift keys k e).firstInt some_keys = (e.firstInt some_keys).map (· + k) := by
  unfold Event.firstInt
  induction some_keys with
  | nil => rfl
  | cons key rest ih =>
    obtain ⟨hkey, hrest⟩ := List.cons_subset.mp hsub
    rw [List.findSome?_cons, List.findSome?_cons, intAt_shift hkey h, ih hrest]
    cases e.intAt key <;> rfl

theorem getTNs_shift {e : Event} (h : integerAt timeKeys e) :
    getTNs (shift timeKeys k e) = (getTNs e).map (· + k) := by
  have hkey : "t_ns" ∈ timeKeys := by simp [timeKeys]
  have hsub : ["cpu_t_ns", "recorder_t_ns", "merged_t_ns"] ⊆ timeKeys := by simp [timeKeys]
  have hpresent : (shift timeKeys k e "t_ns").isSome = (e "t_ns").isSome := by
    rw [shift, if_pos hkey, Option.isSome_map]
  rw [getTNs, getTNs, hpresent, intAt_shift hkey h, firstInt_shift hsub h]
  split <;> rfl

theorem getGpuStartEnd_shift {e : Event} (h : integerAt gpuKeys e) :
    getGpuStartEnd (shift gpuKeys k e) =
      ((getGpuStartEnd e).1.map (· + k), (getGpuStartEnd e).2.map (· + k)) := by
  have hstart : ["start", "gpu_start"] ⊆ gpuKeys := by simp [gpuKeys]
  have hend : ["end", "gpu_end"] ⊆ gpuKeys := by simp [gpuKeys]
  rw [getGpuStartEnd, firstInt_shift hstart h, firstInt_shift hend h, getGpuStartEnd]

theorem alignTime_shift (hkey : "aligned_t_ns" ∉ keys) (t : Option ℤ) (e : Event) :
    alignTime t (shift keys k e) = shift keys k (alignTime t e) := by
  cases t with
  | none => rfl
  | some n => exact set_shift hkey e _

theorem alignEnd_shift (hkey : "aligned_end_ns" ∉ keys) (t : Option ℤ) (e : Event) :
    alignEnd t (shift keys k e) = shift keys k (alignEnd t e) := by
  cases t with
  | none => rfl
  | some n => exact set_shift hkey e _

theorem reclassify_shift (hkeys : apart ["type", "side", "source"] keys = true) (e : Event) :
    reclassify (shift keys k e) = shift keys k (reclassify e) := by
  have hsource : "source" ∉ keys := not_mem_of_apart hkeys (by simp)
  rw [reclassify, reads_classifySource.after (writesOnly_shift keys k) hkeys, set_shift hsource,
    reclassify]

theorem alignRest_shift (hkeys : apart ("aligned_t_ns" :: timeKeys) keys = true) (e : Event) :
    alignRest (shift keys k e) = shift keys k (alignRest e) := by
  have haligned : "aligned_t_ns" ∉ keys := not_mem_of_apart hkeys (by simp)
  have hpresent : isAligned (shift keys k e) = isAligned e := by
    rw [isAligned, writesOnly_shift keys k e _ haligned, isAligned]
  have htime : getTNs (shift keys k e) = getTNs e :=
    reads_getTNs e _ fun key hkey =>
      writesOnly_shift keys k e key (not_mem_of_apart hkeys (List.mem_cons_of_mem _ hkey))
  rw [alignRest, hpresent, htime, alignRest]
  split
  · rfl
  · exact alignTime_shift haligned _ _

/-! The activities. -/

theorem towardsHost_shift_gpu (a : ℤ) (e : Event) :
    towardsHost a (shift gpuKeys k e) = shift gpuKeys k (towardsHost a e) := by
  have hcallback : ∀ x, alignCallback a (shift gpuKeys k x) =
      shift gpuKeys k (alignCallback a x) := by
    intro x
    rw [alignCallback, reads_isCallback.after (writesOnly_shift gpuKeys k) rfl,
      reads_getTNs.after (writesOnly_shift gpuKeys k) rfl, alignCallback]
    split
    · exact alignTime_shift (by simp [gpuKeys]) _ _
    · rfl
  have hhost : ∀ x, alignHost (shift gpuKeys k x) = shift gpuKeys k (alignHost x) := by
    intro x
    rw [alignHost, reads_isHost.after (writesOnly_shift gpuKeys k) rfl,
      reads_getTNs.after (writesOnly_shift gpuKeys k) rfl, alignHost]
    split
    · exact alignTime_shift (by simp [gpuKeys]) _ _
    · rfl
  rw [towardsHost, reclassify_shift rfl, hcallback, hhost, towardsHost]

theorem alignGpu_shift {b : ℤ} {e : Event} (hact : isGpuAct e = true) (h : integerAt gpuKeys e) :
    alignGpu (b - k) (shift gpuKeys k e) = shift gpuKeys k (alignGpu b e) := by
  have hact' := (reads_isGpuAct.after (writesOnly_shift gpuKeys k) rfl e).trans hact
  rw [alignGpu, if_pos hact', alignGpu, if_pos hact, getGpuStartEnd_shift h]
  cases (getGpuStartEnd e).1 with
  | none => rfl
  | some s =>
    have hend : ((getGpuStartEnd e).2.map (· + k)).map (· + (b - k)) =
        (getGpuStartEnd e).2.map (· + b) := by
      rw [Option.map_map]
      congr 1
      funext t
      show t + k + (b - k) = t + b
      omega
    have hstart : s + k + (b - k) = s + b := by omega
    dsimp only [Option.map_some]
    rw [hend, hstart, set_shift (by simp [gpuKeys]), alignEnd_shift (by simp [gpuKeys]),
      set_shift (by simp [gpuKeys])]

theorem alignOne_shiftGpu {a b : ℤ} {e : Event} (h : integerAt gpuKeys e) :
    alignOne a (b - k) (shiftGpu k e) = shiftGpu k (alignOne a b e) := by
  have hsame : ∀ a b, isGpuAct (alignOne a b e) = isGpuAct e := fun a b =>
    reads_isGpuAct.after (writesOnly_alignOne a b) rfl e
  have hhosted : isGpuAct (towardsHost a e) = isGpuAct e :=
    reads_isGpuAct.after (writesOnly_towardsHost a) rfl e
  unfold shiftGpu
  rw [hsame]
  by_cases hact : isGpuAct e = true
  · rw [if_pos hact, if_pos hact, alignOne, towardsHost_shift_gpu,
      alignGpu_shift (hhosted.trans hact)
        (((reads_integerAt gpuKeys).after (writesOnly_towardsHost a) rfl e).trans h),
      alignRest_shift rfl, alignOne]
  · rw [if_neg hact, if_neg hact, alignOne, alignGpu, hhosted, if_neg hact, alignOne, alignGpu,
      hhosted, if_neg hact]

theorem gpuOffset_shiftGpu (idx : EnterIndex) {g : Event} (h : integerAt gpuKeys g) :
    gpuOffset idx (shiftGpu k g) = (gpuOffset idx g).map fun offset => offset.map (· + -k) := by
  have hact : isGpuAct (shiftGpu k g) = isGpuAct g :=
    reads_isGpuAct.after (writesOnly_shiftGpu k) rfl g
  by_cases hg : isGpuAct g = true
  · have hcorr : (shiftGpu k g).given "corr" = g.given "corr" := by
      rw [Event.given, writesOnly_shiftGpu k g "corr" (by simp [gpuKeys]), Event.given]
    have hkind : gpuKind (shiftGpu k g) = gpuKind g :=
      reads_gpuKind.after (writesOnly_shiftGpu k) rfl g
    have htimes : (getGpuStartEnd (shiftGpu k g)).1 = (getGpuStartEnd g).1.map (· + k) := by
      rw [shiftGpu, if_pos hg, getGpuStartEnd_shift h]
    rw [gpuOffset, gpuOffset, hact, hcorr, htimes, hkind]
    simp only [hg, not_true_eq_false, if_false]
    cases g.given "corr" with
    | none => rfl
    | some corr =>
      cases (getGpuStartEnd g).1 with
      | none => rfl
      | some s =>
        dsimp only [Option.map_some]
        cases corr.toInt with
        | none => rfl
        | some c =>
          have hsub : ∀ cpuEnter : ℤ, cpuEnter - (s + k) = cpuEnter - s + -k := fun _ => by omega
          simp [Function.comp_def, hsub]
  · rw [gpuOffset, hact, if_pos hg, gpuOffset, if_pos hg]
    rfl

theorem gpuOffsets_shiftGpu (idx : EnterIndex) {gs : List Event}
    (h : ∀ g ∈ gs, integerAt gpuKeys g) :
    gpuOffsets idx (gs.map (shiftGpu k)) =
      (gpuOffsets idx gs).map fun offsets => offsets.map (· + -k) := by
  induction gs with
  | nil => rfl
  | cons g gs ih =>
    have hrest := ih fun other hother => h other (List.mem_cons_of_mem _ hother)
    rw [List.map_cons, gpuOffsets, gpuOffsets, gpuOffset_shiftGpu idx (h g (List.mem_cons_self ..)),
      hrest]
    cases gpuOffset idx g with
    | none => rfl
    | some offset =>
      cases gpuOffsets idx gs with
      | none => rfl
      | some offsets => cases offset <;> rfl

/-! The callbacks. -/

theorem towardsHost_shiftCallback {a : ℤ} {e : Event} (h : integerAt timeKeys e) :
    towardsHost (a - k) (shiftCallback k e) = shiftCallback k (towardsHost a e) := by
  have hhosted : isCallback (towardsHost a e) = isCallback e :=
    reads_isCallback.after (writesOnly_towardsHost a) rfl e
  unfold shiftCallback
  rw [hhosted]
  by_cases hcallback : isCallback e = true
  · have hmoved : isCallback (shift timeKeys k e) = true :=
      (reads_isCallback.after (writesOnly_shift timeKeys k) rfl e).trans hcallback
    have htime : ((getTNs e).map (· + k)).map (· + (a - k)) = (getTNs e).map (· + a) := by
      rw [Option.map_map]
      congr 1
      funext t
      show t + k + (a - k) = t + a
      omega
    rw [if_pos hcallback, if_pos hcallback, towardsHost_of_callback hmoved,
      towardsHost_of_callback hcallback, getTNs_shift h, htime, reclassify_shift rfl,
      alignTime_shift (by simp [timeKeys])]
  · rw [if_neg hcallback, if_neg hcallback,
      towardsHost_of_not_callback (by simpa using hcallback),
      towardsHost_of_not_callback (by simpa using hcallback)]

theorem alignOne_shiftCallback {a b : ℤ} {e : Event} (h : integerAt timeKeys e) :
    alignOne (a - k) b (shiftCallback k e) = shiftCallback k (alignOne a b e) := by
  have hsame : ∀ a b, isCallback (alignOne a b e) = isCallback e := fun a b =>
    reads_isCallback.after (writesOnly_alignOne a b) rfl e
  by_cases hcallback : isCallback e = true
  · have hmoved : isCallback (shiftCallback k e) = true :=
      (reads_isCallback.after (writesOnly_shiftCallback k) rfl e).trans hcallback
    rw [alignOne_of_callback hmoved, alignOne_of_callback hcallback, towardsHost_shiftCallback h]
  · have hnot : isCallback e = false := by simpa using hcallback
    rw [shiftCallback, if_neg hcallback, shiftCallback, hsame, if_neg hcallback, alignOne,
      towardsHost_of_not_callback hnot, alignOne, towardsHost_of_not_callback hnot]

/-! The offsets. -/

theorem filter_map_other {move : Event → Event} {p : Event → Bool} (events : List Event)
    (hp : ∀ e, p (move e) = p e) (hother : ∀ e, p e = true → move e = e) :
    (events.map move).filter p = events.filter p := by
  have hcomp : p ∘ move = p := funext hp
  rw [List.filter_map, hcomp]
  conv_rhs => rw [← List.map_id (events.filter p)]
  exact List.map_congr_left fun e he => hother e (List.mem_filter.mp he).2

theorem filter_map_same {move : Event → Event} {p : Event → Bool} (events : List Event)
    (hp : ∀ e, p (move e) = p e) : (events.map move).filter p = (events.filter p).map move := by
  have hcomp : p ∘ move = p := funext hp
  rw [List.filter_map, hcomp]

theorem map_comm {f move : Event → Event} {f' : Event → Event} {events : List Event}
    (h : ∀ e ∈ events, f' (move e) = move (f e)) :
    (events.map move).map f' = (events.map f).map move := by
  rw [List.map_map, List.map_map]
  exact List.map_congr_left h

theorem shiftGpu_of_not_gpu {e : Event} (h : isGpuAct e = false) : shiftGpu k e = e := by
  rw [shiftGpu, h, if_neg Bool.false_ne_true]

theorem shiftCallback_of_not_callback {e : Event} (h : isCallback e = false) :
    shiftCallback k e = e := by
  rw [shiftCallback, h, if_neg Bool.false_ne_true]

theorem reclassify_shiftGpu (e : Event) :
    reclassify (shiftGpu k e) = shiftGpu k (reclassify e) := by
  have hsame : isGpuAct (reclassify e) = isGpuAct e :=
    reads_isGpuAct.after writesOnly_reclassify rfl e
  unfold shiftGpu
  rw [hsame]
  split
  · exact reclassify_shift rfl e
  · rfl

theorem reclassify_shiftCallback (e : Event) :
    reclassify (shiftCallback k e) = shiftCallback k (reclassify e) := by
  have hsame : isCallback (reclassify e) = isCallback e :=
    reads_isCallback.after writesOnly_reclassify rfl e
  unfold shiftCallback
  rw [hsame]
  split
  · exact reclassify_shift rfl e
  · rfl

theorem towardsHost_shiftGpu (a : ℤ) (e : Event) :
    towardsHost a (shiftGpu k e) = shiftGpu k (towardsHost a e) := by
  have hsame : isGpuAct (towardsHost a e) = isGpuAct e :=
    reads_isGpuAct.after (writesOnly_towardsHost a) rfl e
  unfold shiftGpu
  rw [hsame]
  split
  · exact towardsHost_shift_gpu a e
  · rfl

theorem filter_isCallback_shiftGpu (events : List Event) :
    (events.map (shiftGpu k)).filter isCallback = events.filter isCallback :=
  filter_map_other events (reads_isCallback.after (writesOnly_shiftGpu k) rfl) fun _ h =>
    shiftGpu_of_not_gpu (not_gpu_of_callback h)

theorem cbToHost_shiftGpu (events : List Event) :
    cbToHost (events.map (shiftGpu k)) = cbToHost events := by
  have hhosts : ((events.map reclassify).map (shiftGpu k)).filter isHost =
      (events.map reclassify).filter isHost := by
    refine filter_map_other _ (reads_isHost.after (writesOnly_shiftGpu k) rfl) fun e h => ?_
    refine shiftGpu_of_not_gpu ?_
    by_contra hact
    rw [not_host_of_gpu (by simpa using hact)] at h
    cases h
  rw [cbToHost, map_comm fun e _ => reclassify_shiftGpu e, filter_isCallback_shiftGpu, hhosts,
    cbToHost]

/-- A callback is entered with its aligned time. -/
theorem enterEntry_hosted {a : ℤ} {c : Event} (hcallback : isCallback c = true)
    (hsite : c.has "site" "enter" = true) {t n : ℤ} (ht : getTNs c = some t)
    (hcorr : (c.given "corr").bind Value.toInt = some n) :
    enterEntry (retimed (towardsHost a c)) =
      some (some ((n, cpuKindFromApi ((c "api").getD (.str "")).text), t + a)) := by
  have hkept : ∀ key, key ∉ ["t_ns", "source", "aligned_t_ns"] →
      retimed (towardsHost a c) key = c key := by
    intro key hkey
    simp only [List.mem_cons, List.not_mem_nil, or_false, not_or] at hkey
    rw [writesOnly_retimed _ key (by simp [hkey]),
      writesOnly_towardsHost a c key (by simp [hkey])]
  have haligned : towardsHost a c "aligned_t_ns" = some (.int (t + a)) := by
    rw [towardsHost_of_callback hcallback, ht]
    exact Event.set_same ..
  have htime : getTNs (retimed (towardsHost a c)) = some (t + a) := by
    rw [getTNs, retimed, Event.intAt, Event.set_same, haligned]
    rfl
  have hcallback' : isCallback (retimed (towardsHost a c)) = true := by
    rw [reads_isCallback.after writesOnly_retimed rfl,
      reads_isCallback.after (writesOnly_towardsHost a) rfl, hcallback]
  obtain ⟨corr, hgiven, hint⟩ := Option.bind_eq_some_iff.mp hcorr
  have hgiven' : (retimed (towardsHost a c)).given "corr" = some corr := by
    rw [Event.given, hkept "corr" (by simp), ← Event.given, hgiven]
  rw [enterEntry, hcallback', Event.has_congr (hkept "site" (by simp)), hsite, hgiven', htime,
    hkept "api" (by simp)]
  simp only [not_true_eq_false, if_false, hint, Option.map_some]

/-- The activity of a matching pair has an offset. -/
theorem offsets_ne_nil {events : List Event} {a : ℤ} {g c : Event} (hg : g ∈ events)
    (hc : c ∈ events) (hmatch : Matches g c) {idx : EnterIndex} {offsets : List ℤ}
    (hidx : buildCpuEnterIndex (fun _ => none) (tmpCallbacks (events.map (towardsHost a))) =
      some idx)
    (hoffsets : gpuOffsets idx ((events.map (towardsHost a)).filter isGpuAct) = some offsets) :
    offsets ≠ [] := by
  obtain ⟨hact, hstart, hcallback, hsite, htime, hkind, n, hcorrg, hcorrc⟩ := hmatch
  obtain ⟨s, hs⟩ := Option.isSome_iff_exists.mp hstart
  obtain ⟨t, ht⟩ := Option.isSome_iff_exists.mp htime
  have hentered := enterEntry_hosted (a := a) hcallback hsite ht hcorrc
  have hcallback' : isCallback (towardsHost a c) = true :=
    (reads_isCallback.after (writesOnly_towardsHost a) rfl c).trans hcallback
  have haligned : isAligned (towardsHost a c) = true := by
    rw [towardsHost_of_callback hcallback, ht]
    exact isAligned_set _ _
  have hmem : retimed (towardsHost a c) ∈ tmpCallbacks (events.map (towardsHost a)) :=
    List.mem_map_of_mem (List.mem_filter.mpr
      ⟨List.mem_filter.mpr ⟨List.mem_map_of_mem hc, hcallback'⟩, haligned⟩)
  have hfound := buildCpuEnterIndex_isSome hidx (.inr ⟨_, hmem, t + a, hentered⟩)
  obtain ⟨m, hm⟩ := Option.isSome_iff_exists.mp hfound
  obtain ⟨corr, hcorr, hint⟩ := Option.bind_eq_some_iff.mp hcorrg
  have hoffset : gpuOffset idx (towardsHost a g) = some (some (m - s)) := by
    rw [(reads_gpuOffset idx).after (writesOnly_towardsHost a) rfl, gpuOffset, hact, hcorr, hs,
      hkind]
    simp only [not_true_eq_false, if_false, hint, Option.map_some, hm]
  have hact' : isGpuAct (towardsHost a g) = true :=
    (reads_isGpuAct.after (writesOnly_towardsHost a) rfl g).trans hact
  have hlisted : m - s ∈ offsets := by
    rw [← (gpuOffsets_eq_some_iff.mp hoffsets).2, List.mem_filterMap]
    refine ⟨_, List.mem_filter.mpr ⟨List.mem_map_of_mem hg, hact'⟩, ?_⟩
    rw [hoffset, Option.join_some]
  exact List.ne_nil_of_mem hlisted

theorem gpuToCpu_shiftGpu {events : List Event} (htimes : ∀ e ∈ events, integerAt gpuKeys e)
    (hmatch : ∃ g ∈ events, ∃ c ∈ events, Matches g c) :
    gpuToCpu (events.map (shiftGpu k)) = (gpuToCpu events).map (· + -k) := by
  obtain ⟨g, hg, c, hc, hmatch⟩ := hmatch
  have hacts : (((events.map (towardsHost (cbToHost events))).map (shiftGpu k)).filter isGpuAct) =
      ((events.map (towardsHost (cbToHost events))).filter isGpuAct).map (shiftGpu k) :=
    filter_map_same _ (reads_isGpuAct.after (writesOnly_shiftGpu k) rfl)
  have hinteger : ∀ x ∈ (events.map (towardsHost (cbToHost events))).filter isGpuAct,
      integerAt gpuKeys x := by
    intro x hx
    obtain ⟨e, he, rfl⟩ := List.mem_map.mp (List.mem_filter.mp hx).1
    exact ((reads_integerAt gpuKeys).after (writesOnly_towardsHost _) rfl e).trans (htimes e he)
  unfold gpuToCpu estimateGpuToCpuOffsetNs
  rw [cbToHost_shiftGpu, map_comm fun e _ => towardsHost_shiftGpu _ e, tmpCallbacks,
    filter_isCallback_shiftGpu, ← tmpCallbacks, hacts]
  cases hidx : buildCpuEnterIndex (fun _ => none)
      (tmpCallbacks (events.map (towardsHost (cbToHost events)))) with
  | none => rfl
  | some idx =>
    rw [Option.bind_some, Option.bind_some, gpuOffsets_shiftGpu idx hinteger]
    cases hoffsets : gpuOffsets idx
        ((events.map (towardsHost (cbToHost events))).filter isGpuAct) with
    | none => rfl
    | some offsets =>
      have hne := offsets_ne_nil hg hc hmatch hidx hoffsets
      obtain ⟨m, hm⟩ := Option.isSome_iff_exists.mp (medianInt_isSome hne)
      simp only [Option.map_some, medianInt_map_add, hm, Option.getD_some]

theorem min_map_add {xs : List ℤ} {m : ℤ} (h : xs.min? = some m) (k : ℤ) :
    (xs.map (· + k)).min? = some (m + k) := by
  obtain ⟨hmem, hle⟩ := List.min?_eq_some_iff.mp h
  refine List.min?_eq_some_iff.mpr ⟨List.mem_map_of_mem hmem, ?_⟩
  intro b hb
  obtain ⟨x, hx, rfl⟩ := List.mem_map.mp hb
  exact Int.add_le_add_right (hle x hx) k

theorem min_isSome {es : List Event} (h : ∃ e ∈ es, (getTNs e).isSome) :
    ∃ m, (es.filterMap getTNs).min? = some m := by
  obtain ⟨e, he, htime⟩ := h
  obtain ⟨t, ht⟩ := Option.isSome_iff_exists.mp htime
  exact Option.isSome_iff_exists.mp
    (List.isSome_min?_of_mem (List.mem_filterMap.mpr ⟨e, he, ht⟩))

theorem filterMap_getTNs_shift {es : List Event} (hcallback : ∀ e ∈ es, isCallback e = true)
    (htimes : ∀ e ∈ es, integerAt timeKeys e) :
    (es.map (shiftCallback k)).filterMap getTNs = (es.filterMap getTNs).map (· + k) := by
  rw [List.filterMap_map, List.map_filterMap]
  refine List.filterMap_congr fun e he => ?_
  show getTNs (shiftCallback k e) = (getTNs e).map (· + k)
  rw [shiftCallback, if_pos (hcallback e he), getTNs_shift (htimes e he)]

theorem cbToHost_shiftCallback {events : List Event}
    (htimes : ∀ e ∈ events, integerAt timeKeys e)
    (hhost : ∃ e ∈ events, isHost (reclassify e) ∧ (getTNs e).isSome)
    (hcallback : ∃ e ∈ events, isCallback e ∧ (getTNs e).isSome) :
    cbToHost (events.map (shiftCallback k)) = cbToHost events - k := by
  have hhosts : ((events.map reclassify).map (shiftCallback k)).filter isHost =
      (events.map reclassify).filter isHost := by
    refine filter_map_other _ (reads_isHost.after (writesOnly_shiftCallback k) rfl) fun e h => ?_
    refine shiftCallback_of_not_callback ?_
    by_contra hnot
    rw [not_host_of_callback (by simpa using hnot)] at h
    cases h
  have hcallbacks : ((events.map reclassify).map (shiftCallback k)).filter isCallback =
      ((events.map reclassify).filter isCallback).map (shiftCallback k) :=
    filter_map_same _ (reads_isCallback.after (writesOnly_shiftCallback k) rfl)
  have hinteger : ∀ x ∈ (events.map reclassify).filter isCallback, integerAt timeKeys x := by
    intro x hx
    obtain ⟨e, he, rfl⟩ := List.mem_map.mp (List.mem_filter.mp hx).1
    exact ((reads_integerAt timeKeys).after writesOnly_reclassify rfl e).trans (htimes e he)
  have hreclassified : ∀ {p : Event → Bool} {e : Event}, e ∈ events → p (reclassify e) = true →
      (getTNs e).isSome = true → ∃ x ∈ (events.map reclassify).filter p, (getTNs x).isSome := by
    intro p e he hp htime
    refine ⟨_, List.mem_filter.mpr ⟨List.mem_map_of_mem he, hp⟩, ?_⟩
    rwa [reads_getTNs.after writesOnly_reclassify rfl]
  obtain ⟨h, hh, hhosted, hhtime⟩ := hhost
  obtain ⟨c, hc, hcalled, hctime⟩ := hcallback
  obtain ⟨host0, hhost0⟩ := min_isSome (hreclassified hh hhosted hhtime)
  obtain ⟨cb0, hcb0⟩ := min_isSome (hreclassified hc
    ((reads_isCallback.after writesOnly_reclassify rfl c).trans hcalled) hctime)
  rw [cbToHost, map_comm fun e _ => reclassify_shiftCallback e, hhosts, hcallbacks, cbToHost,
    estimateCbToHostOffsetNs,
    filterMap_getTNs_shift (fun e he => (List.mem_filter.mp he).2) hinteger, min_map_add hcb0,
      hhost0, estimateCbToHostOffsetNs, hcb0, hhost0]
  show host0 - (cb0 + k) = host0 - cb0 - k
  omega

/-- The index holds aligned times, which stay. -/
theorem enterEntry_retimed_shift (e : Event) :
    enterEntry (retimed (shiftCallback k e)) = enterEntry (retimed e) := by
  have haligned : shiftCallback k e "aligned_t_ns" = e "aligned_t_ns" :=
    writesOnly_shiftCallback k e _ (by simp [timeKeys])
  refine enterEntry_congr (fun key hkey => ?_) ?_
  · have hapartKeys : apart ["type", "side", "site", "corr", "api"] timeKeys = true := rfl
    have hapart : key ∉ timeKeys := not_mem_of_apart hapartKeys hkey
    have hne : key ∉ ["t_ns"] := by
      rintro hmem
      rw [List.mem_singleton.mp hmem] at hapart
      exact hapart (List.mem_cons_self ..)
    rw [writesOnly_retimed _ key hne, writesOnly_shiftCallback k e key hapart,
      writesOnly_retimed _ key hne]
  · rw [getTNs, getTNs, retimed, retimed, Event.intAt, Event.intAt, haligned, Event.set_same,
      Event.set_same]
    rfl

theorem gpuToCpu_shiftCallback {events : List Event}
    (htimes : ∀ e ∈ events, integerAt timeKeys e)
    (hcb : cbToHost (events.map (shiftCallback k)) = cbToHost events - k) :
    gpuToCpu (events.map (shiftCallback k)) = gpuToCpu events := by
  have hacts :
      ((events.map (towardsHost (cbToHost events))).map (shiftCallback k)).filter isGpuAct =
      (events.map (towardsHost (cbToHost events))).filter isGpuAct := by
    refine filter_map_other _ (reads_isGpuAct.after (writesOnly_shiftCallback k) rfl) fun e h => ?_
    refine shiftCallback_of_not_callback ?_
    by_contra hnot
    rw [not_gpu_of_callback (by simpa using hnot)] at h
    cases h
  have haligned : ∀ e, isAligned (shiftCallback k e) = isAligned e := by
    intro e
    rw [isAligned, writesOnly_shiftCallback k e _ (by simp [timeKeys]), isAligned]
  have hidx : ∀ es : List Event,
      buildCpuEnterIndex (fun _ => none) (tmpCallbacks (es.map (shiftCallback k))) =
        buildCpuEnterIndex (fun _ => none) (tmpCallbacks es) := by
    intro es
    rw [tmpCallbacks, filter_map_same es (reads_isCallback.after (writesOnly_shiftCallback k) rfl),
      filter_map_same _ haligned, List.map_map, tmpCallbacks]
    exact buildCpuEnterIndex_congr _ fun e _ => enterEntry_retimed_shift e
  have hhosted : (events.map (shiftCallback k)).map (towardsHost (cbToHost events - k)) =
      (events.map (towardsHost (cbToHost events))).map (shiftCallback k) :=
    map_comm fun e he => towardsHost_shiftCallback (htimes e he)
  rw [gpuToCpu, hcb, hhosted, hacts,
    estimateGpuToCpuOffsetNs, hidx, gpuToCpu, estimateGpuToCpuOffsetNs]

/-! The whole alignment. -/

theorem reads_alignedTimes :
    Reads ["aligned_t_ns", "aligned_start_ns", "aligned_end_ns"] alignedTimes := by
  intro e e' h
  rw [alignedTimes, h _ (by simp), h _ (by simp), h _ (by simp), alignedTimes]

/-- Moved times and moved offsets together leave the aligned times. -/
theorem sameAlignment_of_move {events : List Event} {move : Event → Event} {a b : ℤ}
    (hmove : WritesOnly keys move)
    (hkeys : apart ["aligned_t_ns", "aligned_start_ns", "aligned_end_ns"] keys = true)
    (hcb : cbToHost (events.map move) = cbToHost events - a)
    (hgpu : gpuToCpu (events.map move) = (gpuToCpu events).map (· - b))
    (hone : ∀ e ∈ events, ∀ n,
      alignOne (cbToHost events - a) (n - b) (move e) = move (alignOne (cbToHost events) n e)) :
    SameAlignment move (alignEvents events) (alignEvents (events.map move)) := by
  have htimes : ∀ e, alignedTimes (move e) = alignedTimes e := reads_alignedTimes.after hmove hkeys
  have haligned : ∀ e, move e "aligned_t_ns" = e "aligned_t_ns" := fun e =>
    hmove e _ (not_mem_of_apart hkeys (by simp))
  rw [alignEvents_eq, alignEvents_eq, hcb, hgpu]
  cases gpuToCpu events with
  | none => trivial
  | some n =>
    have hsorted : sortBy alignedTNs (((events.map move).map
          (alignOne (cbToHost events - a) (n - b))).filter isAligned) =
        (sortBy alignedTNs ((events.map (alignOne (cbToHost events) n)).filter isAligned)).map
          move := by
      rw [map_comm fun e he => hone e he n, filter_map_same _ fun e => by
        rw [isAligned, haligned, isAligned]]
      exact map_sortBy fun e _ => by rw [alignedTNs, Event.intAt, haligned, alignedTNs, Event.intAt]
    refine ⟨hsorted, ?_⟩
    rw [hsorted, List.map_map]
    exact List.map_congr_left fun e _ => htimes e

/-- Moving the clock of the activities moves no aligned time, if an activity and a callback
match; nor does moving the clock of the callbacks, if a callback and an event of the host
have times. -/
theorem alignment_forgets_origins (events : List Event) (k : ℤ)
    (htimes : ∀ e ∈ events, integerAt (timeKeys ++ gpuKeys) e) :
    ((∃ g ∈ events, ∃ c ∈ events, Matches g c) →
      SameAlignment (shiftGpu k) (alignEvents events) (alignEvents (events.map (shiftGpu k)))) ∧
    ((∃ e ∈ events, isHost (reclassify e) ∧ (getTNs e).isSome) →
      (∃ e ∈ events, isCallback e ∧ (getTNs e).isSome) →
      SameAlignment (shiftCallback k) (alignEvents events)
        (alignEvents (events.map (shiftCallback k)))) := by
  have hboth : ∀ e ∈ events, integerAt timeKeys e = true ∧ integerAt gpuKeys e = true := by
    intro e he
    have htime := htimes e he
    rwa [integerAt, List.all_append, Bool.and_eq_true] at htime
  have htime : ∀ e ∈ events, integerAt timeKeys e = true := fun e he => (hboth e he).1
  have hgpu : ∀ e ∈ events, integerAt gpuKeys e = true := fun e he => (hboth e he).2
  constructor
  · intro hmatch
    refine sameAlignment_of_move (a := 0) (b := k) (writesOnly_shiftGpu k) rfl ?_ ?_ ?_
    · rw [cbToHost_shiftGpu, Int.sub_zero]
    · exact gpuToCpu_shiftGpu hgpu hmatch
    · intro e he n
      rw [Int.sub_zero]
      exact alignOne_shiftGpu (hgpu e he)
  · intro hhost hcallback
    have hcb := cbToHost_shiftCallback (k := k) htime hhost hcallback
    refine sameAlignment_of_move (a := k) (b := 0) (writesOnly_shiftCallback k) rfl hcb ?_ ?_
    · rw [gpuToCpu_shiftCallback htime hcb]
      simp
    · intro e he n
      rw [Int.sub_zero]
      exact alignOne_shiftCallback (htime e he)

end

theorem shortTrace_integer : ∀ e ∈ shortTrace, integerAt (timeKeys ++ gpuKeys) e := by
  unfold shortTrace
  refine List.forall_mem_cons.mpr ⟨rfl, List.forall_mem_cons.mpr ⟨rfl, ?_⟩⟩
  exact List.forall_mem_singleton.mpr rfl

theorem alignment_forgets_origins_shortTrace :
    SameAlignment (shiftGpu 5) (alignEvents shortTrace)
        (alignEvents (shortTrace.map (shiftGpu 5))) ∧
      SameAlignment (shiftCallback 5) (alignEvents shortTrace)
        (alignEvents (shortTrace.map (shiftCallback 5))) := by
  have hhost : hostAt 1000 ∈ shortTrace := by simp [shortTrace]
  have hcallback : enterAt 7 40 ∈ shortTrace := by simp [shortTrace]
  have hact : copyAt 7 900 950 ∈ shortTrace := by simp [shortTrace]
  have hmatch : Matches (copyAt 7 900 950) (enterAt 7 40) :=
    ⟨rfl, rfl, rfl, rfl, rfl, rfl, 7, rfl, rfl⟩
  obtain ⟨hgpu, hcb⟩ := alignment_forgets_origins shortTrace 5 shortTrace_integer
  exact ⟨hgpu ⟨_, hact, _, hcallback, hmatch⟩,
    hcb ⟨_, hhost, rfl, rfl⟩ ⟨_, hcallback, rfl, rfl⟩⟩

end HpcProfiler.AlignmentShift
