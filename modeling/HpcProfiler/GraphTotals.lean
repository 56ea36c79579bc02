import HpcProfiler.ObjectGraph
import Mathlib.Algebra.Order.BigOperators.Group.List
import Mathlib.Algebra.Order.Ring.Int

/-!
The totals of an object graph. A node is counted with the size of the event that made it,
so the nodes together have at most the bytes of the allocations that were ingested.
-/

namespace HpcProfiler.GraphTotals

open Events ObjectGraph

/-- Total bytes across all tracked nodes, alive and dead. -/
def totalSizeBytes (g : Graph) : ℤ := (g.nodes.entries.map fun n => n.2.sizeBytes).sum

/-- Total bytes across alive nodes only. -/
def aliveSizeBytes (g : Graph) : ℤ :=
  ((g.nodes.entries.filter fun n => n.2.alive).map fun n => n.2.sizeBytes).sum

def allocates (e : CpuEvent) : Bool := e.isDealloc = some false

/-- The bytes of the allocations among the events. -/
def allocatedBytes (events : List CpuEvent) : ℤ :=
  ((events.filter allocates).map CpuEvent.allocSizeBytes).sum

/-- No node has a negative size. -/
def Nonneg (g : Graph) : Prop := ∀ n ∈ g.nodes.entries, 0 ≤ n.2.sizeBytes

section

variable {g : Graph} {addr : ℤ} {node : GraphNode}

theorem alive_le_total (h : Nonneg g) : aliveSizeBytes g ≤ totalSizeBytes g := by
  refine List.Sublist.sum_le_sum (List.filter_sublist.map _) fun size hsize => ?_
  obtain ⟨n, hn, rfl⟩ := List.mem_map.mp hsize
  exact h n hn

theorem sum_insert (nodes : AList fun _ : ℤ => GraphNode) (addr : ℤ) (node : GraphNode) :
    ((nodes.insert addr node).entries.map fun n => n.2.sizeBytes).sum =
      node.sizeBytes + ((nodes.entries.kerase addr).map fun n => n.2.sizeBytes).sum := by
  rw [AList.entries_insert, List.map_cons, List.sum_cons]

theorem nonneg_insert {nodes : AList fun _ : ℤ => GraphNode}
    (h : ∀ n ∈ nodes.entries, 0 ≤ n.2.sizeBytes) (hnode : 0 ≤ node.sizeBytes) :
    ∀ n ∈ (nodes.insert addr node).entries, 0 ≤ n.2.sizeBytes := by
  intro n hn
  rw [AList.entries_insert] at hn
  rcases List.mem_cons.mp hn with heq | hold
  · rw [heq]
    exact hnode
  · exact h n ((List.kerase_sublist _ _).subset hold)

/-- A new node adds its size, or less where it takes the place of another. -/
theorem total_ingestAlloc (h : Nonneg g) (a : Arrival) :
    totalSizeBytes (ingestAlloc g a) ≤ a.event.allocSizeBytes + totalSizeBytes g := by
  rw [totalSizeBytes, ingestAlloc_nodes, sum_insert]
  apply Int.add_le_add_left
  refine List.Sublist.sum_le_sum ((List.kerase_sublist _ _).map _) fun size hsize => ?_
  obtain ⟨n, hn, rfl⟩ := List.mem_map.mp hsize
  exact h n hn

/-- A death changes no size. -/
theorem total_ingestDealloc (g : Graph) (event : CpuEvent) :
    totalSizeBytes (ingestDealloc g event) = totalSizeBytes g := by
  unfold ingestDealloc
  cases hnode : g.nodes.lookup event.allocAddress with
  | none => rfl
  | some node =>
    rw [totalSizeBytes, sum_insert]
    have hmem : event.allocAddress ∈ g.nodes.entries.keys :=
      AList.mem_keys.mp (AList.lookup_isSome.mp (Option.isSome_of_mem hnode))
    obtain ⟨node', before, after, hbefore, hsplit, herase⟩ := List.exists_of_kerase hmem
    have hsame : node' = node := by
      have hmem' : node' ∈ g.nodes.lookup event.allocAddress := by
        rw [AList.mem_lookup_iff, hsplit]
        simp
      rw [hnode] at hmem'
      exact (Option.some.inj hmem').symm
    rw [herase, totalSizeBytes, hsplit, hsame]
    simp only [List.map_append, List.map_cons, List.sum_append, List.sum_cons]
    show node.sizeBytes + _ = _
    omega

end

theorem allocatedBytes_cons (e : CpuEvent) (events : List CpuEvent) :
    allocatedBytes (e :: events) =
      (if allocates e = true then e.allocSizeBytes else 0) + allocatedBytes events := by
  unfold allocatedBytes
  by_cases he : allocates e = true
  · rw [List.filter_cons_of_pos he, if_pos he, List.map_cons, List.sum_cons]
  · rw [List.filter_cons_of_neg he, if_neg he, zero_add]

theorem allocatedBytes_nonneg {events : List CpuEvent}
    (h : ∀ e ∈ events, allocates e = true → 0 ≤ e.allocSizeBytes) : 0 ≤ allocatedBytes events := by
  apply List.sum_nonneg
  intro size hsize
  obtain ⟨e, he, rfl⟩ := List.mem_map.mp hsize
  exact h e (List.mem_of_mem_filter he) (List.of_mem_filter he)

theorem nonneg_ingestDealloc {g : Graph} (h : Nonneg g) (event : CpuEvent) :
    Nonneg (ingestDealloc g event) := by
  unfold ingestDealloc
  cases hnode : g.nodes.lookup event.allocAddress with
  | none => exact h
  | some node => exact nonneg_insert h (h _ (AList.mem_lookup_iff.mp hnode))

/-- The nodes of the ingested events have at most the bytes of the allocations. -/
theorem total_ingest {arrivals : List Arrival} {g : Graph} (h : Nonneg g)
    (hsizes : ∀ e ∈ arrivals.map Arrival.event, allocates e = true → 0 ≤ e.allocSizeBytes) :
    Nonneg (ingest g arrivals) ∧ totalSizeBytes (ingest g arrivals) ≤
      allocatedBytes (arrivals.map Arrival.event) + totalSizeBytes g := by
  induction arrivals generalizing g with
  | nil => exact ⟨h, (zero_add _).ge⟩
  | cons a arrivals ih =>
    have hsize := hsizes a.event (List.mem_cons_self ..)
    have hrest : ∀ e ∈ arrivals.map Arrival.event, allocates e = true → 0 ≤ e.allocSizeBytes :=
      fun e he => hsizes e (List.mem_cons_of_mem _ he)
    have hnonneg := allocatedBytes_nonneg hrest
    rw [List.map_cons, allocatedBytes_cons, ingest]
    cases hdead : a.event.isDealloc with
    | none =>
      have hno : ¬allocates a.event = true := by simp [allocates, hdead]
      rw [if_neg hno]
      exact ⟨h, by dsimp only; omega⟩
    | some dead =>
      cases dead with
      | false =>
        have hyes : allocates a.event = true := by simp [allocates, hdead]
        have hone : Nonneg (ingestAlloc g a) := by
          unfold Nonneg
          rw [ingestAlloc_nodes]
          exact nonneg_insert h (hsize hyes)
        have htotal := total_ingestAlloc h a
        obtain ⟨hall, hle⟩ := ih hone hrest
        rw [if_pos hyes]
        dsimp only
        split
        · exact ⟨hone, by omega⟩
        · exact ⟨hall, by omega⟩
      | true =>
        have hno : ¬allocates a.event = true := by simp [allocates, hdead]
        obtain ⟨hall, hle⟩ := ih (nonneg_ingestDealloc h a.event) hrest
        rw [total_ingestDealloc] at hle
        rw [if_neg hno]
        exact ⟨hall, by dsimp only; omega⟩

/-- The graph of a batch counts the bytes of its allocations at most. -/
theorem totals_of_batch {arrivals : List Arrival}
    (hsizes : ∀ e ∈ arrivals.map Arrival.event, allocates e = true → 0 ≤ e.allocSizeBytes) :
    totalSizeBytes (ingest {} arrivals) ≤ allocatedBytes (arrivals.map Arrival.event) ∧
      aliveSizeBytes (ingest {} arrivals) ≤ allocatedBytes (arrivals.map Arrival.event) := by
  have hempty : Nonneg {} := fun n hn => by cases hn
  obtain ⟨hall, htotal⟩ := total_ingest hempty hsizes
  have hbytes : totalSizeBytes (ingest {} arrivals) ≤
      allocatedBytes (arrivals.map Arrival.event) := htotal.trans (add_zero _).le
  exact ⟨hbytes, (alive_le_total hall).trans hbytes⟩

end HpcProfiler.GraphTotals
