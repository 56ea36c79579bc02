import HpcProfiler.CountedRows
import HpcProfiler.StableSort
import HpcProfiler.UiSession
import Mathlib.Data.Rat.Floor
import Mathlib.Tactic.FieldSimp

/-!
The pass over the allocations that fills the histograms of the user interface: allocations
in time, groups of a type with their own counts in time, sizes and generations. The buckets
in time are clamped at their upper end only, and the groups are looked up in an object that
inherits some names.
-/

namespace HpcProfiler.SessionHistograms

open Events UiSession CountedRows Correlation StableSort

/-- White space and line ends of the script language. -/
def isSpace (c : Char) : Bool :=
  c.toNat ∈ [0x09, 0x0A, 0x0B, 0x0C, 0x0D, 0x20, 0xA0, 0x1680, 0x2028, 0x2029, 0x202F, 0x205F,
    0x3000, 0xFEFF] || (0x2000 ≤ c.toNat && c.toNat ≤ 0x200A)

def trim (s : String) : String :=
  String.ofList (((s.toList.dropWhile isSpace).reverse.dropWhile isSpace).reverse)

/-- The default of a text that may be empty. -/
def orUnknown (s : String) : String := if s = "" then "unknown" else s

def typeName (e : CpuEvent) : String := orUnknown (trim (orUnknown e.objectType))

/-- The names that an object without fields of its own answers to. -/
def inheritedNames : List String :=
  ["constructor", "__defineGetter__", "__defineSetter__", "hasOwnProperty", "__lookupGetter__",
    "__lookupSetter__", "isPrototypeOf", "propertyIsEnumerable", "toString", "valueOf",
    "__proto__", "toLocaleString"]

structure TypeGroup where
  type : String
  count : ℕ
  totalBytes : ℤ
  bufBytes : ℤ
  sizes : List ℤ
  gcGens : List ℕ
  corrCount : ℕ
  events : List CpuEvent
  module : String
  spark : List ℕ

/-- The allocations of one place in the program. -/
structure Callsite where
  count : ℕ
  bytes : ℤ
  types : List String

structure Analysis where
  byType : List (String × TypeGroup)
  rateSeries : List ℕ
  sizeBuckets : List (String × ℕ)
  genCounts : List (String × ℕ)
  rssEvents : List CpuEvent
  maxRss : ℤ
  csCounts : List (String × Callsite)

def rateN : ℕ := 60

def sparkN : ℕ := 20

def emptyAnalysis : Analysis where
  byType := []
  rateSeries := List.replicate rateN 0
  sizeBuckets := [("<1KB", 0), ("1-4KB", 0), ("4-16KB", 0), ("16-64KB", 0), ("64KB+", 0)]
  genCounts := [("-1", 0), ("0", 0), ("1", 0), ("2", 0)]
  rssEvents := []
  maxRss := 0
  csCounts := []

/-- The group of a type before its first allocation, which gives it the module. -/
def newGroup (t : String) (e : CpuEvent) : TypeGroup where
  type := t
  count := 0
  totalBytes := 0
  bufBytes := 0
  sizes := []
  gcGens := [0, 0, 0, 0]
  corrCount := 0
  events := []
  module := e.moduleName.getD ""
  spark := List.replicate sparkN 0

/-- The bucket in time, of a number of buckets, in exact arithmetic. -/
def timeBucket (session : Session) (n : ℕ) (e : CpuEvent) : ℤ :=
  min ((n : ℤ) - 1)
    ⌊((e.base.timestampNs - session.startNs : ℤ) : ℚ) / (session.dur : ℚ) * (n : ℚ)⌋

def correlated (session : Session) (eventId : ℤ) : Bool :=
  (session.correlatedEvents.getD []).any fun c => c.cpuEventId = eventId

def bumpGen (gcGens : List ℕ) (gen : ℤ) : List ℕ :=
  if gen = -1 then bump gcGens 0
  else if 0 ≤ gen ∧ gen ≤ 2 then bump gcGens (gen + 1)
  else gcGens

def TypeGroup.add (session : Session) (e : CpuEvent) (g : TypeGroup) : TypeGroup :=
  { g with
    count := g.count + 1
    totalBytes := g.totalBytes + e.allocSizeBytes
    bufBytes := g.bufBytes + e.bufferNbytes.getD 0
    sizes := if g.sizes.length < 500 then g.sizes ++ [e.allocSizeBytes] else g.sizes
    gcGens := bumpGen g.gcGens e.gcGeneration
    corrCount := if correlated session e.base.eventId then g.corrCount + 1 else g.corrCount
    events := if g.events.length < 5 then g.events ++ [e] else g.events
    spark := bump g.spark (timeBucket session sparkN e) }

def sizeBucket (sz : ℤ) : String :=
  if sz < 1024 then "<1KB"
  else if sz < 4096 then "1-4KB"
  else if sz < 16384 then "4-16KB"
  else if sz < 65536 then "16-64KB"
  else "64KB+"

def genKey (gen : ℤ) : String := if 0 ≤ gen ∧ gen ≤ 2 then toString gen else "-1"

/-- The pass at one allocation. An inherited name is looked up as something that has no
sizes, which is an error. -/
def addAlloc (session : Session) (a : Analysis) (e : CpuEvent) : Option Analysis :=
  let t := typeName e
  if t ∈ inheritedNames then none
  else
    let rss := e.peakRssKb.getD 0
    some
      { a with
        byType := adjust t (TypeGroup.add session e) (ensure t (newGroup t e) a.byType)
        rateSeries := bump a.rateSeries (timeBucket session rateN e)
        sizeBuckets := adjust (sizeBucket e.allocSizeBytes) (· + 1) a.sizeBuckets
        genCounts := adjust (genKey e.gcGeneration) (· + 1) a.genCounts
        rssEvents := if rss > 0 then a.rssEvents ++ [e] else a.rssEvents
        maxRss := if rss > 0 ∧ rss > a.maxRss then rss else a.maxRss }

def addAllocs (session : Session) (a : Analysis) : List CpuEvent → Option Analysis
  | [] => some a
  | e :: es => (addAlloc session a e).bind fun a' => addAllocs session a' es

/-- A frame that is not in the library or the machinery of the profiler. -/
def isUserFrame (f : String) : Bool :=
  ["/lib/python", "tracemalloc", "importlib"].all fun part => ¬ part.toList <:+: f.toList

/-- The first frame of the user, else the first frame; an empty text is passed over. -/
def siteOf (e : CpuEvent) : Option String :=
  [(e.callstack.filter isUserFrame).headD "", e.callstack.headD ""].find? fun site => site ≠ ""

def Callsite.add (e : CpuEvent) (cs : Callsite) : Callsite where
  count := cs.count + 1
  bytes := cs.bytes + e.allocSizeBytes
  types := if e.objectType ∈ cs.types then cs.types else cs.types ++ [e.objectType]

/-- An inherited name is looked up as something that has no types, which is an error. -/
def addSite (csCounts : List (String × Callsite)) (e : CpuEvent) :
    Option (List (String × Callsite)) :=
  match siteOf e with
  | none => some csCounts
  | some site =>
    if site ∈ inheritedNames then none
    else some (adjust site (Callsite.add e) (ensure site ⟨0, 0, []⟩ csCounts))

def addSites (csCounts : List (String × Callsite)) :
    List CpuEvent → Option (List (String × Callsite))
  | [] => some csCounts
  | e :: es => (addSite csCounts e).bind fun next => addSites next es

/-- The pass over all allocations; the events with a memory reading are sorted behind it.
A second pass collects the places in the program. -/
def analyzeSession (session : Session) : Option Analysis :=
  (addAllocs session emptyAnalysis session.allocs).bind fun a =>
    (addSites [] session.allocs).map fun csCounts =>
      { a with
        rssEvents := sortBy (fun e => e.base.timestampNs) a.rssEvents
        csCounts }

/-- No name that the analysis looks up is inherited. -/
def PlainNames (e : CpuEvent) : Prop :=
  typeName e ∉ inheritedNames ∧ ∀ site ∈ siteOf e, site ∉ inheritedNames

/-- The allocation lies on the side of the session start on which the end lies. -/
def InTime (session : Session) (e : CpuEvent) : Prop :=
  0 ≤ (e.base.timestampNs - session.startNs) * session.dur

instance (session : Session) : DecidablePred (InTime session) :=
  fun _ => inferInstanceAs (Decidable (_ ≤ _))

/-- No allocation is lost in a histogram. -/
structure Conserves (allocs : List CpuEvent) (a : Analysis) : Prop where
  rateLength : a.rateSeries.length = rateN
  rate : a.rateSeries.sum = allocs.length
  sparkLength : ∀ row ∈ a.byType, row.2.spark.length = sparkN
  spark : ∀ row ∈ a.byType, row.2.spark.sum = row.2.count
  types : (a.byType.map fun row => row.2.count).sum = allocs.length
  sizes : (a.sizeBuckets.map fun bucket => bucket.2).sum = allocs.length
  gens : (a.genCounts.map fun bucket => bucket.2).sum = allocs.length

/-- What the histograms hold after some allocations: those that are in time, or all. -/
structure Filled (session : Session) (done : List CpuEvent) (a : Analysis) : Prop where
  rateLength : a.rateSeries.length = rateN
  rate : a.rateSeries.sum = done.countP (InTime session ·)
  typeKeys : (a.byType.map Prod.fst).Nodup
  sparkLength : ∀ row ∈ a.byType, row.2.spark.length = sparkN
  spark : ∀ row ∈ a.byType,
    row.2.spark.sum = done.countP fun e => typeName e = row.1 ∧ InTime session e
  count : ∀ row ∈ a.byType, row.2.count = done.countP fun e => typeName e = row.1
  covered : ∀ e ∈ done, typeName e ∈ a.byType.map Prod.fst
  types : (a.byType.map fun row => row.2.count).sum = done.length
  sizeKeys : a.sizeBuckets.map Prod.fst = emptyAnalysis.sizeBuckets.map Prod.fst
  sizes : (a.sizeBuckets.map fun bucket => bucket.2).sum = done.length
  genKeys : a.genCounts.map Prod.fst = emptyAnalysis.genCounts.map Prod.fst
  gens : (a.genCounts.map fun bucket => bucket.2).sum = done.length

section

variable {session : Session}

theorem timeBucket_lt (session : Session) (n : ℕ) (e : CpuEvent) :
    timeBucket session n e < n := by
  have hle : timeBucket session n e ≤ (n : ℤ) - 1 := min_le_left _ _
  omega

/-- The lower end is not clamped. -/
theorem timeBucket_nonneg_iff {n : ℕ} (hn : 0 < n) (e : CpuEvent) :
    0 ≤ timeBucket session n e ↔ InTime session e := by
  have hn' : (0 : ℚ) < n := Nat.cast_pos.mpr hn
  have hdur : (session.dur : ℚ) ≠ 0 := Int.cast_ne_zero.mpr session.dur_ne_zero
  have hlast : (0 : ℤ) ≤ (n : ℤ) - 1 := by omega
  rw [timeBucket, le_min_iff, Int.floor_nonneg, mul_nonneg_iff_of_pos_right hn',
    div_nonneg_iff, ← mul_nonneg_iff, ← Int.cast_mul, Int.cast_nonneg_iff]
  exact and_iff_right hlast

theorem sizeBucket_mem (sz : ℤ) : sizeBucket sz ∈ emptyAnalysis.sizeBuckets.map Prod.fst := by
  unfold sizeBucket
  split_ifs <;> decide

theorem genKey_mem (gen : ℤ) : genKey gen ∈ emptyAnalysis.genCounts.map Prod.fst := by
  unfold genKey
  split
  · rename_i h
    obtain ⟨hlow, hhigh⟩ := h
    have hgen : gen = 0 ∨ gen = 1 ∨ gen = 2 := by omega
    rcases hgen with rfl | rfl | rfl <;> decide
  · decide

theorem sum_bump_time {counts : List ℕ} {n : ℕ} (hn : 0 < n) (hlength : counts.length = n)
    (e : CpuEvent) : (bump counts (timeBucket session n e)).sum =
      counts.sum + if InTime session e then 1 else 0 := by
  have hlt : timeBucket session n e < counts.length := hlength ▸ timeBucket_lt session n e
  rw [sum_bump hlt]
  congr 1
  exact if_congr (timeBucket_nonneg_iff hn e) rfl rfl

theorem countP_snoc (p : CpuEvent → Bool) (done : List CpuEvent) (e : CpuEvent) :
    (done ++ [e]).countP p = done.countP p + if p e then 1 else 0 := by
  rw [List.countP_append, List.countP_singleton]

theorem filled_empty (session : Session) : Filled session [] emptyAnalysis where
  rateLength := List.length_replicate
  rate := rfl
  typeKeys := List.nodup_nil
  sparkLength row hrow := by cases hrow
  spark row hrow := by cases hrow
  count row hrow := by cases hrow
  covered e he := by cases he
  types := rfl
  sizeKeys := rfl
  sizes := rfl
  genKeys := rfl
  gens := rfl

/-- What the groups hold after some allocations of a type. -/
structure GroupFilled (session : Session) (done : List CpuEvent) (t : String) (g : TypeGroup) :
    Prop where
  sparkLength : g.spark.length = sparkN
  spark : g.spark.sum = done.countP fun e => typeName e = t ∧ InTime session e
  count : g.count = done.countP fun e => typeName e = t

theorem Filled.group {done : List CpuEvent} {a : Analysis} (h : Filled session done a)
    {t : String} {g : TypeGroup} (hmem : (t, g) ∈ a.byType) : GroupFilled session done t g :=
  ⟨h.sparkLength _ hmem, h.spark _ hmem, h.count _ hmem⟩

/-- A type without a group has not been seen. -/
theorem Filled.fresh {done : List CpuEvent} {a : Analysis} (h : Filled session done a)
    {t : String} (ht : t ∉ a.byType.map Prod.fst) (e : CpuEvent) :
    GroupFilled session done t (newGroup t e) := by
  have hne : ∀ x ∈ done, typeName x ≠ t := by
    rintro x hx rfl
    exact ht (h.covered x hx)
  refine ⟨List.length_replicate, ?_, ?_⟩
  · rw [List.countP_eq_zero.mpr fun x hx => by simp [hne x hx]]
    rfl
  · rw [List.countP_eq_zero.mpr fun x hx => by simp [hne x hx]]
    rfl

theorem GroupFilled.add {done : List CpuEvent} {e : CpuEvent} {g : TypeGroup}
    (h : GroupFilled session done (typeName e) g) :
    GroupFilled session (done ++ [e]) (typeName e) (g.add session e) := by
  refine ⟨(length_bump ..).trans h.sparkLength, ?_, ?_⟩
  · rw [countP_snoc, ← h.spark, TypeGroup.add, sum_bump_time (by decide) h.sparkLength]
    simp
  · rw [countP_snoc, ← h.count, TypeGroup.add]
    simp

theorem GroupFilled.other {done : List CpuEvent} {e : CpuEvent} {t : String} {g : TypeGroup}
    (h : GroupFilled session done t g) (hne : t ≠ typeName e) :
    GroupFilled session (done ++ [e]) t g := by
  refine ⟨h.sparkLength, ?_, ?_⟩
  · rw [countP_snoc, ← h.spark]
    simp [hne.symm]
  · rw [countP_snoc, ← h.count]
    simp [hne.symm]

theorem addAlloc_eq_some {a a' : Analysis} {e : CpuEvent} (h : addAlloc session a e = some a') :
    typeName e ∉ inheritedNames ∧
      a'.byType = adjust (typeName e) (TypeGroup.add session e)
        (ensure (typeName e) (newGroup (typeName e) e) a.byType) ∧
      a'.rateSeries = bump a.rateSeries (timeBucket session rateN e) ∧
      a'.sizeBuckets = adjust (sizeBucket e.allocSizeBytes) (· + 1) a.sizeBuckets ∧
      a'.genCounts = adjust (genKey e.gcGeneration) (· + 1) a.genCounts := by
  unfold addAlloc at h
  dsimp only at h
  split at h
  · cases h
  · rename_i hname
    cases h
    exact ⟨hname, rfl, rfl, rfl, rfl⟩

/-- Named counters gain one in all. -/
theorem sum_adjust_named {buckets : List (String × ℕ)} {names : List String} {key : String}
    (hnames : buckets.map Prod.fst = names) (hnodup : names.Nodup) (hkey : key ∈ names) :
    ((adjust key (· + 1) buckets).map fun bucket => bucket.2).sum =
      (buckets.map fun bucket => bucket.2).sum + 1 :=
  sum_adjust id (hnames ▸ hnodup) (hnames ▸ hkey) fun _ => rfl

/-- One allocation more. -/
theorem Filled.snoc {done : List CpuEvent} {a a' : Analysis} {e : CpuEvent}
    (h : Filled session done a) (hstep : addAlloc session a e = some a') :
    Filled session (done ++ [e]) a' := by
  obtain ⟨-, hbyType, hrate, hsizes, hgens⟩ := addAlloc_eq_some hstep
  have hgroups : ∀ row ∈ a'.byType, GroupFilled session (done ++ [e]) row.1 row.2 := by
    rw [hbyType]
    intro row hrow
    rcases mem_adjust_ensure hrow with ⟨old, rfl, hold⟩ | ⟨hmem, hne⟩
    · have hfilled : GroupFilled session done (typeName e) old := by
        rcases hold with hmem | ⟨rfl, hnew⟩
        · exact h.group hmem
        · exact h.fresh hnew e
      dsimp only
      exact hfilled.add
    · exact (h.group hmem).other hne
  have hkeys : ((ensure (typeName e) (newGroup (typeName e) e) a.byType).map
      Prod.fst).Nodup := keys_ensure_nodup h.typeKeys
  refine
    { rateLength := ?_, rate := ?_, typeKeys := ?_, sparkLength := ?_, spark := ?_, count := ?_,
      covered := ?_, types := ?_, sizeKeys := ?_, sizes := ?_, genKeys := ?_, gens := ?_ }
  · rw [hrate, length_bump, h.rateLength]
  · rw [hrate, sum_bump_time (by decide) h.rateLength, h.rate, countP_snoc]
    simp
  · rw [hbyType, keys_adjust]
    exact hkeys
  · exact fun row hrow => (hgroups row hrow).sparkLength
  · exact fun row hrow => (hgroups row hrow).spark
  · exact fun row hrow => (hgroups row hrow).count
  · intro x hx
    rw [hbyType, keys_adjust]
    rcases List.mem_append.mp hx with hold | hnew
    · exact keys_subset_ensure (h.covered x hold)
    · rw [List.mem_singleton.mp hnew]
      exact mem_keys_ensure ..
  · rw [hbyType, sum_adjust TypeGroup.count hkeys (mem_keys_ensure ..) fun _ => rfl,
      sum_ensure a.byType rfl, h.types, List.length_append, List.length_singleton]
  · rw [hsizes, keys_adjust, h.sizeKeys]
  · rw [hsizes, sum_adjust_named h.sizeKeys (by decide) (sizeBucket_mem _), h.sizes,
      List.length_append, List.length_singleton]
  · rw [hgens, keys_adjust, h.genKeys]
  · rw [hgens, sum_adjust_named h.genKeys (by decide) (genKey_mem _), h.gens,
      List.length_append, List.length_singleton]

theorem Filled.run {done es : List CpuEvent} {a a' : Analysis}
    (h : Filled session done a) (hrun : addAllocs session a es = some a') :
    Filled session (done ++ es) a' := by
  induction es generalizing done a with
  | nil =>
    cases hrun
    rwa [List.append_nil]
  | cons e es ih =>
    obtain ⟨next, hstep, hrest⟩ := Option.bind_eq_some_iff.mp hrun
    have hdone := ih (h.snoc hstep) hrest
    rwa [List.append_assoc, List.singleton_append] at hdone

/-- The pass ends without an error if no type has an inherited name. -/
theorem addAllocs_isSome_iff {a : Analysis} {es : List CpuEvent} :
    (addAllocs session a es).isSome ↔ ∀ e ∈ es, typeName e ∉ inheritedNames := by
  induction es generalizing a with
  | nil => simp [addAllocs]
  | cons e es ih =>
    rw [List.forall_mem_cons, addAllocs]
    cases hstep : addAlloc session a e with
    | none =>
      have hname : typeName e ∈ inheritedNames := by
        by_contra hname
        rw [addAlloc, if_neg hname] at hstep
        cases hstep
      simp [hname]
    | some next =>
      rw [Option.bind_some, ih]
      exact (and_iff_right (addAlloc_eq_some hstep).1).symm

/-- So does the second pass if no place has one. -/
theorem addSites_isSome_iff {csCounts : List (String × Callsite)} {es : List CpuEvent} :
    (addSites csCounts es).isSome ↔ ∀ e ∈ es, ∀ site ∈ siteOf e, site ∉ inheritedNames := by
  induction es generalizing csCounts with
  | nil => simp [addSites]
  | cons e es ih =>
    rw [List.forall_mem_cons, addSites, addSite]
    cases hsite : siteOf e with
    | none => simp [ih]
    | some site =>
      by_cases hname : site ∈ inheritedNames
      · simp [hname]
      · simp [hname, ih]

theorem analyzeSession_isSome_iff :
    (analyzeSession session).isSome ↔ ∀ e ∈ session.allocs, PlainNames e := by
  have hallocs : (addAllocs session emptyAnalysis session.allocs).isSome ↔
      ∀ e ∈ session.allocs, typeName e ∉ inheritedNames := addAllocs_isSome_iff
  have hsites : (addSites [] session.allocs).isSome ↔
      ∀ e ∈ session.allocs, ∀ site ∈ siteOf e, site ∉ inheritedNames := addSites_isSome_iff
  unfold analyzeSession PlainNames
  rw [forall₂_and, ← hallocs, ← hsites]
  cases addAllocs session emptyAnalysis session.allocs with
  | none => simp
  | some a => simp

theorem analyzeSession_filled {a : Analysis} (h : analyzeSession session = some a) :
    Filled session session.allocs a := by
  obtain ⟨filled, hrun, hsites⟩ := Option.bind_eq_some_iff.mp h
  obtain ⟨csCounts, -, rfl⟩ := Option.map_eq_some_iff.mp hsites
  have hfilled := (filled_empty session).run hrun
  rw [List.nil_append] at hfilled
  exact { hfilled with }

/-- The histograms lose what is not in time, and nothing else. -/
theorem Filled.conserves_iff {allocs : List CpuEvent} {a : Analysis}
    (h : Filled session allocs a) : Conserves allocs a ↔ ∀ e ∈ allocs, InTime session e := by
  constructor
  · intro hconserves
    have hall := h.rate.symm.trans hconserves.rate
    rw [List.countP_eq_length] at hall
    exact fun e he => of_decide_eq_true (hall e he)
  · intro hall
    have hrate : allocs.countP (InTime session ·) = allocs.length :=
      List.countP_eq_length.mpr fun e he => decide_eq_true (hall e he)
    have hspark : ∀ row ∈ a.byType, row.2.spark.sum = row.2.count := by
      intro row hrow
      rw [h.spark row hrow, h.count row hrow]
      refine List.countP_congr fun e he => ?_
      simp [hall e he]
    exact ⟨h.rateLength, h.rate.trans hrate, h.sparkLength, hspark, h.types, h.sizes, h.gens⟩

/-- The analysis loses no allocation if and only if every allocation lies on the side of
the session start on which the end lies and no name that is looked up is inherited. -/
theorem analysis_conserves_iff (session : Session) :
    (∃ a, analyzeSession session = some a ∧ Conserves session.allocs a) ↔
      ∀ e ∈ session.allocs, InTime session e ∧ PlainNames e := by
  constructor
  · rintro ⟨a, ha, hconserves⟩ e he
    have hsome : (analyzeSession session).isSome := by
      rw [ha]
      rfl
    exact ⟨(analyzeSession_filled ha).conserves_iff.mp hconserves e he,
      analyzeSession_isSome_iff.mp hsome e he⟩
  · intro hall
    obtain ⟨a, ha⟩ := Option.isSome_iff_exists.mp
      (analyzeSession_isSome_iff.mpr fun e he => (hall e he).2)
    exact ⟨a, ha, (analyzeSession_filled ha).conserves_iff.mpr fun e he => (hall e he).1⟩

end

/-- A session that starts by the wall clock, with an allocation by the monotonic one. -/
def twoClocks : Session :=
  ⟨[allocAt 1 50 100 8 0], none, none, some 1000000, some 2000000⟩

/-- The allocation is in no bucket. -/
theorem twoClocks_lost : ¬ ∀ session : Session,
    ∃ a, analyzeSession session = some a ∧ Conserves session.allocs a := by
  intro h
  obtain ⟨a, ha, hconserves⟩ := h twoClocks
  have hall := (analyzeSession_filled ha).conserves_iff.mp hconserves
  have hin := hall (allocAt 1 50 100 8 0) (List.mem_singleton_self _)
  exact absurd hin (by decide)

end HpcProfiler.SessionHistograms
