import HpcProfiler.GraphHistory
import HpcProfiler.GraphTotals
import Mathlib.Data.Finset.Max

/-!
The summary of an object graph. Its parts are counted one by one over the node table
and the edges. After any calls of ingest they agree with each other: the dead nodes are
those that remember a death, no edge has lost an end, and the average lifetime lies
among the lifetimes it is taken from.
-/

namespace HpcProfiler.GraphSummary

open Events ObjectGraph GraphHistory GraphTotals

def lifetimeNs (node : GraphNode) : Option ℤ :=
  node.lastSeenNs.map fun lastSeen => lastSeen - node.firstSeenNs

/-- The loop that counts the elements of a list by a key of theirs. -/
def tally {α κ : Type*} [DecidableEq κ] (key : α → κ) (xs : List α) : AList fun _ : κ => ℕ :=
  xs.foldl (fun counts x => counts.insert (key x) ((counts.lookup (key x)).getD 0 + 1)) ∅

structure Summary where
  totalNodes : ℕ
  aliveNodes : ℕ
  deadNodes : ℕ
  totalEdges : ℕ
  totalSizeBytes : ℤ
  aliveSizeBytes : ℤ
  typeCounts : AList fun _ : String => ℕ
  avgLifetimeNs : Option ℤ

def nodesOf (g : Graph) : List GraphNode := g.nodes.entries.map fun n => n.2

def deadOf (g : Graph) : List GraphNode := (nodesOf g).filter fun n => !n.alive

def lifetimes (g : Graph) : List ℤ := (deadOf g).filterMap lifetimeNs

def summary (g : Graph) : Summary where
  totalNodes := (nodesOf g).length
  aliveNodes := ((nodesOf g).filter fun n => n.alive).length
  deadNodes := (deadOf g).length
  totalEdges := g.edges.length
  totalSizeBytes := totalSizeBytes g
  aliveSizeBytes := aliveSizeBytes g
  typeCounts := tally GraphNode.objectType (nodesOf g)
  avgLifetimeNs :=
    if lifetimes g = [] then none else some ((lifetimes g).sum / (lifetimes g).length)

/-! Counting by a key. -/

section

variable {κ : Type*} [DecidableEq κ]

/-- The sum of all counts. -/
def counted (counts : AList fun _ : κ => ℕ) : ℕ := (counts.entries.map fun c => c.2).sum

/-- One more for a key is one more altogether. -/
theorem counted_insert (counts : AList fun _ : κ => ℕ) (k : κ) :
    counted (counts.insert k ((counts.lookup k).getD 0 + 1)) = counted counts + 1 := by
  unfold counted
  rw [AList.entries_insert, List.map_cons, List.sum_cons]
  cases hlookup : counts.lookup k with
  | none =>
    have hnot : k ∉ counts.entries.keys := AList.lookup_eq_none.mp hlookup
    rw [List.kerase_of_notMem_keys hnot, Option.getD_none]
    change 0 + 1 + _ = _
    omega
  | some n =>
    have hmem : k ∈ counts.entries.keys :=
      AList.mem_keys.mp (AList.lookup_isSome.mp (Option.isSome_of_mem hlookup))
    obtain ⟨m, before, after, -, hsplit, herase⟩ := List.exists_of_kerase hmem
    have hsame : m = n := by
      have hmem' : m ∈ counts.lookup k := by
        rw [AList.mem_lookup_iff, hsplit]
        simp
      rw [hlookup] at hmem'
      exact (Option.some.inj hmem').symm
    rw [herase, hsplit, hsame, Option.getD_some]
    simp only [List.map_append, List.map_cons, List.sum_append, List.sum_cons]
    change n + 1 + _ = _
    omega

variable {α : Type*} (key : α → κ)

theorem foldl_tally (xs : List α) (counts : AList fun _ : κ => ℕ) :
    counted (xs.foldl (fun counts x =>
        counts.insert (key x) ((counts.lookup (key x)).getD 0 + 1)) counts) =
      counted counts + xs.length ∧
    ∀ k, ((xs.foldl (fun counts x =>
        counts.insert (key x) ((counts.lookup (key x)).getD 0 + 1)) counts).lookup k).getD 0 =
      (counts.lookup k).getD 0 + xs.countP fun x => key x = k := by
  induction xs generalizing counts with
  | nil => exact ⟨rfl, fun _ => rfl⟩
  | cons x xs ih =>
    obtain ⟨hsum, hkey⟩ := ih (counts.insert (key x) ((counts.lookup (key x)).getD 0 + 1))
    rw [List.foldl_cons]
    refine ⟨?_, fun k => ?_⟩
    · rw [hsum, counted_insert, List.length_cons]
      omega
    · rw [hkey k, List.countP_cons]
      by_cases hk : key x = k
      · subst hk
        rw [AList.lookup_insert, Option.getD_some, if_pos (by simp)]
        omega
      · rw [AList.lookup_insert_ne (fun h => hk h.symm), if_neg (by simpa using hk)]
        omega

/-- The counts add up to the length of the list. -/
theorem counted_tally (xs : List α) : counted (tally key xs) = xs.length := by
  have hsum := (foldl_tally key xs ∅).1
  have hempty : counted (∅ : AList fun _ : κ => ℕ) = 0 := rfl
  unfold tally
  rw [hsum, hempty, Nat.zero_add]

theorem lookup_tally (xs : List α) (k : κ) :
    ((tally key xs).lookup k).getD 0 = xs.countP fun x => key x = k := by
  have hkey := (foldl_tally key xs ∅).2 k
  have hempty : ((∅ : AList fun _ : κ => ℕ).lookup k).getD 0 = 0 := rfl
  unfold tally
  rw [hkey, hempty, Nat.zero_add]

end

/-- The least and the greatest element of a list have its average between them. -/
theorem exists_average_between {xs : List ℤ} (h : xs ≠ []) :
    ∃ low ∈ xs, ∃ high ∈ xs, (∀ x ∈ xs, low ≤ x ∧ x ≤ high) ∧
      low ≤ xs.sum / xs.length ∧ xs.sum / xs.length ≤ high := by
  have hne : xs.toFinset.Nonempty := List.toFinset_nonempty_iff xs |>.mpr h
  obtain ⟨low, hlow, hleast⟩ := xs.toFinset.exists_min_image id hne
  obtain ⟨high, hhigh, hgreatest⟩ := xs.toFinset.exists_max_image id hne
  simp only [List.mem_toFinset, id] at hlow hleast hhigh hgreatest
  have hpos : (0 : ℤ) < xs.length := by exact_mod_cast List.length_pos_iff.mpr h
  have hlowSum : low * xs.length ≤ xs.sum := by
    have hsum := xs.card_nsmul_le_sum low hleast
    rwa [nsmul_eq_mul, mul_comm] at hsum
  have hhighSum : xs.sum ≤ high * xs.length := by
    have hsum := xs.sum_le_card_nsmul high hgreatest
    rwa [nsmul_eq_mul, mul_comm] at hsum
  exact ⟨low, hlow, high, hhigh, fun x hx => ⟨hleast x hx, hgreatest x hx⟩,
    Int.le_ediv_of_mul_le hpos hlowSum, Int.ediv_le_of_le_mul hpos hhighSum⟩

/-! What every event keeps. -/

/-- The dead nodes are the ones that remember a death, and every edge joins two
different nodes. -/
structure Sound (g : Graph) : Prop where
  lastSeen : ∀ n ∈ g.nodes.entries, n.2.lastSeenNs.isSome = true ↔ n.2.alive = false
  edges : ∀ edge ∈ g.edges,
    edge.srcId ≠ edge.dstId ∧ edge.srcId ∈ g.nodes ∧ edge.dstId ∈ g.nodes

theorem sound_empty : Sound {} where
  lastSeen := fun n hn => by cases hn
  edges := fun edge hedge => by cases hedge

/-- A node that comes to an address keeps the table's dead nodes apart, and all edges. -/
theorem Sound.insert {g : Graph} (h : Sound g) {addr : ℤ} {node : GraphNode}
    (hnode : node.lastSeenNs.isSome = true ↔ node.alive = false) :
    Sound { g with nodes := g.nodes.insert addr node } := by
  constructor
  · intro n hn
    rw [AList.entries_insert] at hn
    rcases List.mem_cons.mp hn with rfl | hold
    · exact hnode
    · exact h.lastSeen n ((List.kerase_sublist _ _).subset hold)
  · intro edge hedge
    obtain ⟨hne, hsrc, hdst⟩ := h.edges edge hedge
    exact ⟨hne, (AList.mem_insert _).mpr (Or.inr hsrc), (AList.mem_insert _).mpr (Or.inr hdst)⟩

theorem Sound.buildEdges {g : Graph} (h : Sound g) {srcId : ℤ} (hsrc : srcId ∈ g.nodes)
    (referents : List Referent) (ts : ℤ) : Sound (buildEdges g srcId referents ts) := by
  refine ⟨h.lastSeen, ?_⟩
  intro edge hedge
  rcases List.mem_append.mp hedge with hold | hnew
  · exact h.edges edge hold
  · obtain ⟨ref, href, rfl⟩ := List.mem_map.mp hnew
    have htest := List.of_mem_filter href
    rw [decide_eq_true_eq] at htest
    obtain ⟨-, hne, hdst⟩ := htest
    exact ⟨fun heq => hne heq.symm, hsrc, hdst⟩

theorem nodeOf_lastSeen (event : CpuEvent) :
    (nodeOf event).lastSeenNs.isSome = true ↔ (nodeOf event).alive = false := by
  simp [nodeOf]

theorem Sound.ingestAlloc {g : Graph} (h : Sound g) (a : Arrival) : Sound (ingestAlloc g a) := by
  have hinsert : Sound { g with nodes := g.nodes.insert a.event.allocAddress (nodeOf a.event) } :=
    h.insert (nodeOf_lastSeen a.event)
  unfold ObjectGraph.ingestAlloc
  cases a.referents with
  | none => exact hinsert
  | some referents => exact hinsert.buildEdges ((AList.mem_insert _).mpr (Or.inl rfl)) _ _

theorem Sound.ingestDealloc {g : Graph} (h : Sound g) (event : CpuEvent) :
    Sound (ingestDealloc g event) := by
  unfold ObjectGraph.ingestDealloc
  cases g.nodes.lookup event.allocAddress with
  | none => exact h
  | some node => exact h.insert ⟨fun _ => rfl, fun _ => rfl⟩

theorem Sound.ingest {arrivals : List Arrival} {g : Graph} (h : Sound g) :
    Sound (ingest g arrivals) :=
  ingest_keeps h (fun _ a _ _ hg => hg.ingestAlloc a) fun _ a _ _ hg => hg.ingestDealloc a.event

theorem sound_graphAfter (calls : List IngestCall) : Sound (graphAfter calls) := by
  unfold graphAfter
  rw [foldl_ingestCall]
  exact sound_empty.ingest

theorem nonneg_graphAfter {calls : List IngestCall}
    (h : ∀ e ∈ history calls, allocates e = true → 0 ≤ e.allocSizeBytes) :
    Nonneg (graphAfter calls) := by
  have hempty : Nonneg {} := fun n hn => by cases hn
  unfold graphAfter
  rw [foldl_ingestCall]
  refine (total_ingest hempty ?_).1
  rwa [map_event_flatMap]

section

variable {g : Graph}

theorem alive_add_dead (g : Graph) :
    (nodesOf g).length = ((nodesOf g).filter fun n => n.alive).length + (deadOf g).length := by
  have hsplit := (nodesOf g).length_eq_length_filter_add fun n => n.alive
  exact hsplit

theorem mem_deadOf {n : GraphNode} (hn : n ∈ deadOf g) :
    ∃ entry ∈ g.nodes.entries, entry.2 = n ∧ n.alive = false := by
  obtain ⟨hmem, hdead⟩ := List.mem_filter.mp hn
  obtain ⟨entry, hentry, rfl⟩ := List.mem_map.mp hmem
  exact ⟨entry, hentry, rfl, by simpa using hdead⟩

/-- Every dead node has a lifetime. -/
theorem lifetimes_length (h : Sound g) : (lifetimes g).length = (deadOf g).length := by
  unfold lifetimes
  rw [List.filterMap_length_eq_length]
  intro n hn
  obtain ⟨entry, hentry, rfl, hdead⟩ := mem_deadOf hn
  have hseen := (h.lastSeen entry hentry).mpr hdead
  unfold lifetimeNs
  rwa [Option.isSome_map]

end

theorem lifetimes_eq_nil_iff (h : Sound g) :
    lifetimes g = [] ↔ ∀ n ∈ nodesOf g, n.alive = true := by
  rw [← List.length_eq_zero_iff, lifetimes_length h, List.length_eq_zero_iff, deadOf,
    List.filter_eq_nil_iff]
  simp only [Bool.not_eq_true', Bool.not_eq_false]

/-- The parts of a summary agree with the graph and with each other: each count and each
total is that of the nodes or edges it speaks of, and the average lies among the lifetimes of
the dead nodes. -/
structure Consistent (g : Graph) (s : Summary) : Prop where
  nodes : s.totalNodes = s.aliveNodes + s.deadNodes
  total : s.totalNodes = (nodesOf g).length
  alive : s.aliveNodes = (nodesOf g).countP fun n => n.alive = true
  dead : s.deadNodes = (nodesOf g).countP fun n => n.alive = false
  edgeCount : s.totalEdges = g.edges.length
  size : s.totalSizeBytes = ((nodesOf g).map GraphNode.sizeBytes).sum
  aliveSize : s.aliveSizeBytes =
    (((nodesOf g).filter fun n => n.alive = true).map GraphNode.sizeBytes).sum
  types : counted s.typeCounts = s.totalNodes
  eachType : ∀ type, (s.typeCounts.lookup type).getD 0 =
    (nodesOf g).countP fun n => n.objectType = type
  lastSeen : ∀ addr, ∀ n ∈ g.nodes.lookup addr, n.lastSeenNs.isSome = true ↔ n.alive = false
  edges : ∀ edge ∈ g.edges,
    edge.srcId ≠ edge.dstId ∧ edge.srcId ∈ g.nodes ∧ edge.dstId ∈ g.nodes
  eachDead : (lifetimes g).length = (nodesOf g).countP fun n => n.alive = false
  average : s.avgLifetimeNs = none ↔ ∀ n ∈ nodesOf g, n.alive = true
  between : ∀ avg ∈ s.avgLifetimeNs, ∃ low ∈ lifetimes g, ∃ high ∈ lifetimes g,
    (∀ lifetime ∈ lifetimes g, low ≤ lifetime ∧ lifetime ≤ high) ∧ low ≤ avg ∧ avg ≤ high

theorem deadOf_length (g : Graph) :
    (deadOf g).length = (nodesOf g).countP fun n => n.alive = false := by
  rw [deadOf, ← List.countP_eq_length_filter]
  exact List.countP_congr fun n _ => by simp

theorem aliveSize_eq (g : Graph) : aliveSizeBytes g =
    (((nodesOf g).filter fun n => n.alive = true).map GraphNode.sizeBytes).sum := by
  unfold aliveSizeBytes nodesOf
  rw [List.filter_map, List.map_map]
  congr 2
  exact List.filter_congr fun n _ => by simp

theorem Sound.consistent {g : Graph} (h : Sound g) : Consistent g (summary g) where
  nodes := alive_add_dead g
  total := rfl
  alive := by
    unfold summary
    rw [← List.countP_eq_length_filter]
    exact List.countP_congr fun n _ => by simp
  dead := deadOf_length g
  edgeCount := rfl
  size := by
    unfold summary GraphTotals.totalSizeBytes nodesOf
    rw [List.map_map]
    rfl
  aliveSize := aliveSize_eq g
  types := counted_tally _ _
  eachType := lookup_tally _ _
  lastSeen := fun _ n hn => h.lastSeen _ (AList.mem_lookup_iff.mp hn)
  edges := h.edges
  eachDead := (lifetimes_length h).trans (deadOf_length g)
  average := by
    rw [← lifetimes_eq_nil_iff h]
    unfold summary
    by_cases hnil : lifetimes g = []
    · simp [hnil]
    · simp [hnil]
  between := by
    intro avg havg
    unfold summary at havg
    dsimp only at havg
    by_cases hnil : lifetimes g = []
    · rw [if_pos hnil] at havg
      cases havg
    · rw [if_neg hnil] at havg
      cases havg
      exact exists_average_between hnil

/-- After any calls of ingest the summary is consistent with the nodes and the edges, and
where no allocation has a negative size the alive nodes have at most all bytes. -/
theorem summary_consistent (calls : List IngestCall) :
    Consistent (graphAfter calls) (summary (graphAfter calls)) ∧
      ((∀ e ∈ history calls, allocates e = true → 0 ≤ e.allocSizeBytes) →
        (summary (graphAfter calls)).aliveSizeBytes ≤
          (summary (graphAfter calls)).totalSizeBytes) :=
  ⟨(sound_graphAfter calls).consistent, fun h => alive_le_total (nonneg_graphAfter h)⟩

/-- Two calls: an address that is used twice, with a death in between and two at the end. -/
def reuseCalls : List IngestCall :=
  [⟨[{ event := Correlation.allocAt 1 10 100 8 0 }, { event := Correlation.deallocAt 2 15 100 }],
      false⟩,
    ⟨[{ event := Correlation.allocAt 3 20 100 16 0 }, { event := Correlation.deallocAt 4 25 100 },
      { event := Correlation.deallocAt 5 40 100 }], true⟩]

example : (summary (graphAfter reuseCalls)).avgLifetimeNs = some 20 := by decide

theorem summary_consistent_reuseCalls :
    Consistent (graphAfter reuseCalls) (summary (graphAfter reuseCalls)) ∧
      (summary (graphAfter reuseCalls)).aliveSizeBytes ≤
        (summary (graphAfter reuseCalls)).totalSizeBytes :=
  ⟨(summary_consistent reuseCalls).1, (summary_consistent reuseCalls).2 (by decide)⟩

end HpcProfiler.GraphSummary
