import HpcProfiler.GraphMerge
import HpcProfiler.GraphSummary

/-!
The queries of an object graph and its export. After any calls of ingest and of the merge,
in any order, the export stands by itself: the ids tell the nodes apart, every edge leads
from one exported node to another, and every annotation comes from a correlated event that
a merge was given together with the GPU event it names.
-/

namespace HpcProfiler.GraphExport

open Correlation Events GraphHistory GraphMerge GraphSummary ObjectGraph

def apply (g : Graph) : GraphCall → Graph
  | .ingest call => ingestCall g call
  | .merge call => mergeGpuCorrelations g call

def graphOf (calls : List GraphCall) : Graph := calls.foldl apply {}

/-! The queries. -/

def getNode (g : Graph) (address : ℤ) : Option GraphNode := g.nodes.lookup address

def aliveNodes (g : Graph) : List GraphNode := (nodesOf g).filter fun n => n.alive

def gpuCorrelatedNodes (g : Graph) : List GraphNode :=
  (nodesOf g).filter fun n => !n.gpuCorrelations.isEmpty

def edgesFrom (g : Graph) (srcId : ℤ) : List GraphEdge :=
  g.edges.filter fun e => e.srcId = srcId

def edgesTo (g : Graph) (dstId : ℤ) : List GraphEdge :=
  g.edges.filter fun e => e.dstId = dstId

/-! The export; an edge keeps its three fields. -/

structure NodeDict extends GraphNode where
  lifetimeNs : Option ℤ

structure GraphDict where
  nodes : List NodeDict
  edges : List GraphEdge
  summary : Summary

def nodeToDict (n : GraphNode) : NodeDict := { n with lifetimeNs := lifetimeNs n }

def toDict (g : Graph) : GraphDict := ⟨(nodesOf g).map nodeToDict, g.edges, summary g⟩

/-! What every call keeps. -/

/-- The annotation comes from one of the merges. -/
def Named (calls : List GraphCall) (ann : GpuCorrelation) : Prop :=
  ∃ call, GraphCall.merge call ∈ calls ∧ ∃ corr ∈ call.correlatedEvents,
    ∃ gpu ∈ call.gpuEvents, gpu.base.eventId = corr.gpuEventId ∧ ann = annotation corr gpu

/-- A node that is known by its own id, with annotations from the merges. -/
structure Placed (calls : List GraphCall) (addr : ℤ) (node : GraphNode) : Prop where
  nodeId : node.nodeId = addr
  named : ∀ ann ∈ node.gpuCorrelations, Named calls ann

structure Exportable (calls : List GraphCall) (g : Graph) : Prop where
  sound : Sound g
  placed : ∀ addr, ∀ node ∈ g.nodes.lookup addr, Placed calls addr node

section

variable {calls : List GraphCall} {g : Graph}

theorem Named.mono {calls' : List GraphCall} {ann : GpuCorrelation} (h : Named calls ann)
    (hsub : ∀ call ∈ calls, call ∈ calls') : Named calls' ann := by
  obtain ⟨call, hcall, hrest⟩ := h
  exact ⟨call, hsub _ hcall, hrest⟩

theorem Exportable.mono {calls' : List GraphCall} (h : Exportable calls g)
    (hsub : ∀ call ∈ calls, call ∈ calls') : Exportable calls' g := by
  refine ⟨h.sound, ?_⟩
  intro addr node hnode
  have hplaced := h.placed addr node hnode
  exact ⟨hplaced.nodeId, fun ann hann => (hplaced.named ann hann).mono hsub⟩

theorem Exportable.insert (h : Exportable calls g) {addr : ℤ} {node : GraphNode}
    (hseen : node.lastSeenNs.isSome = true ↔ node.alive = false)
    (hplaced : Placed calls addr node) :
    Exportable calls { g with nodes := g.nodes.insert addr node } := by
  refine ⟨h.sound.insert hseen, ?_⟩
  intro a n hn
  by_cases ha : a = addr
  · rw [ha, AList.lookup_insert] at hn
    rw [ha, ← Option.some.inj hn]
    exact hplaced
  · rw [AList.lookup_insert_ne ha] at hn
    exact h.placed a n hn

theorem Exportable.ingestAlloc (h : Exportable calls g) (a : Arrival) :
    Exportable calls (ingestAlloc g a) := by
  have hplaced : Placed calls a.event.allocAddress (nodeOf a.event) :=
    ⟨rfl, fun ann hann => by cases hann⟩
  have hinsert := h.insert (nodeOf_lastSeen a.event) hplaced
  refine ⟨h.sound.ingestAlloc a, ?_⟩
  intro addr node hnode
  rw [ingestAlloc_nodes] at hnode
  exact hinsert.placed addr node hnode

theorem Exportable.ingestDealloc (h : Exportable calls g) (event : CpuEvent) :
    Exportable calls (ingestDealloc g event) := by
  unfold ObjectGraph.ingestDealloc
  cases hnode : g.nodes.lookup event.allocAddress with
  | none => exact h
  | some node =>
    have hplaced := h.placed _ node hnode
    apply h.insert
    · exact ⟨fun _ => rfl, fun _ => rfl⟩
    · exact ⟨hplaced.nodeId, hplaced.named⟩

theorem Exportable.ingest {arrivals : List Arrival} (h : Exportable calls g) :
    Exportable calls (ingest g arrivals) :=
  ingest_keeps h (fun _ a _ _ hg => hg.ingestAlloc a) fun _ a _ _ hg => hg.ingestDealloc a.event

theorem gpuById_mem {call : MergeCall} {gpuEid : ℤ} {gpu : GpuEvent}
    (h : call.gpuById gpuEid = some gpu) : gpu ∈ call.gpuEvents ∧ gpu.base.eventId = gpuEid := by
  have hindex := foldl_update (fun e : GpuEvent => e.base.eventId) id call.gpuEvents gpuEid
  simp only [id_eq, Option.map_id] at hindex
  unfold MergeCall.gpuById at h
  rw [hindex] at h
  have hmem := List.mem_filter.mp (List.mem_of_getLast? h)
  exact ⟨hmem.1, of_decide_eq_true hmem.2⟩

theorem Exportable.mergeOne {call : MergeCall} (h : Exportable calls g)
    (hcall : GraphCall.merge call ∈ calls) {corr : CorrelatedEvent}
    (hcorr : corr ∈ call.correlatedEvents) : Exportable calls (mergeOne call g corr) := by
  unfold GraphMerge.mergeOne
  cases call.nodeKey g corr.cpuEventId with
  | none => exact h
  | some addr =>
    dsimp only
    cases hnode : g.nodes.lookup addr with
    | none => exact h
    | some node =>
      cases hgpu : call.gpuById corr.gpuEventId with
      | none => exact h
      | some gpu =>
        have hplaced := h.placed addr node hnode
        obtain ⟨hmem, hid⟩ := gpuById_mem hgpu
        apply h.insert
        · exact h.sound.lastSeen ⟨addr, node⟩ (AList.mem_lookup_iff.mp hnode)
        · refine ⟨hplaced.nodeId, ?_⟩
          intro ann hann
          rcases List.mem_append.mp hann with hold | hnew
          · exact hplaced.named ann hold
          · rw [List.mem_singleton.mp hnew]
            exact ⟨call, hcall, corr, hcorr, gpu, hmem, hid, rfl⟩

theorem Exportable.merge {call : MergeCall} (h : Exportable calls g)
    (hcall : GraphCall.merge call ∈ calls) : Exportable calls (mergeGpuCorrelations g call) := by
  have hrun : ∀ corrs : List CorrelatedEvent, (∀ corr ∈ corrs, corr ∈ call.correlatedEvents) →
      ∀ g, Exportable calls g → Exportable calls (corrs.foldl (GraphMerge.mergeOne call) g) := by
    intro corrs
    induction corrs with
    | nil => exact fun _ g hg => hg
    | cons corr corrs ih =>
      intro hsub g hg
      apply ih fun c hc => hsub c (List.mem_cons_of_mem _ hc)
      exact hg.mergeOne hcall (hsub corr (List.mem_cons_self ..))
  exact hrun call.correlatedEvents (fun _ hcorr => hcorr) g h

end

theorem exportable_graphOf (calls : List GraphCall) : Exportable calls (graphOf calls) := by
  induction calls using List.reverseRecOn with
  | nil =>
    refine ⟨sound_empty, ?_⟩
    intro addr node hnode
    cases hnode
  | append_singleton calls call ih =>
    have hmono : Exportable (calls ++ [call]) (graphOf calls) :=
      ih.mono fun c hc => List.mem_append_left _ hc
    rw [graphOf, List.foldl_append]
    cases call with
    | ingest call => exact hmono.ingest
    | merge call => exact hmono.merge (List.mem_append_right _ (List.mem_singleton_self _))

/-- A well-formed export, with the queries that go with it. -/
structure WellFormed (calls : List GraphCall) (g : Graph) (d : GraphDict) : Prop where
  ids : (d.nodes.map fun n => n.nodeId).Nodup
  edges : ∀ e ∈ d.edges, e.srcId ≠ e.dstId ∧
    (∃ n ∈ d.nodes, n.nodeId = e.srcId) ∧ ∃ n ∈ d.nodes, n.nodeId = e.dstId
  lifetimes : ∀ n ∈ d.nodes, (n.lifetimeNs = none ↔ n.alive = true) ∧
    ∀ t ∈ n.lifetimeNs, n.lastSeenNs = some (n.firstSeenNs + t)
  annotations : ∀ n ∈ d.nodes, ∀ ann ∈ n.gpuCorrelations, Named calls ann
  summary : Consistent g d.summary
  totals : d.summary.totalNodes = d.nodes.length ∧ d.summary.totalEdges = d.edges.length ∧
    d.summary.totalSizeBytes = (d.nodes.map fun n => n.sizeBytes).sum
  living : d.summary.aliveNodes = (d.nodes.countP fun n => n.alive = true) ∧
    d.summary.aliveSizeBytes = ((d.nodes.filter fun n => n.alive = true).map fun n =>
      n.sizeBytes).sum
  dead : d.summary.deadNodes = d.nodes.countP fun n => n.alive = false
  average : d.summary.avgLifetimeNs = none ↔ ∀ n ∈ d.nodes, n.alive = true
  between : ∀ avg ∈ d.summary.avgLifetimeNs, ∃ low high,
    (∃ n ∈ d.nodes, n.lifetimeNs = some low) ∧ (∃ n ∈ d.nodes, n.lifetimeNs = some high) ∧
    (∀ n ∈ d.nodes, ∀ t ∈ n.lifetimeNs, low ≤ t ∧ t ≤ high) ∧ low ≤ avg ∧ avg ≤ high
  found : ∀ address node, getNode g address = some node ↔
    node ∈ nodesOf g ∧ node.nodeId = address
  split : (aliveNodes g ++ deadOf g).Perm (nodesOf g)
  correlated : ∀ node ∈ gpuCorrelatedNodes g, ∃ ann ∈ node.gpuCorrelations, Named calls ann
  leaving : (d.nodes.flatMap fun n => edgesFrom g n.nodeId).Perm d.edges
  arriving : (d.nodes.flatMap fun n => edgesTo g n.nodeId).Perm d.edges

/-! What the export says. -/

/-- A list, sorted into drawers by a key, is all there. -/
theorem flatMap_filter_perm {α : Type*} (key : α → ℤ) {keys : List ℤ} (hnodup : keys.Nodup)
    (xs : List α) : (keys.flatMap fun k => xs.filter fun x => key x = k).Perm
      (xs.filter fun x => key x ∈ keys) := by
  induction keys with
  | nil => simp
  | cons k keys ih =>
    obtain ⟨hk, hrest⟩ := List.nodup_cons.mp hnodup
    have hsplit := List.filter_append_perm (fun x => decide (key x = k))
      (xs.filter fun x => key x ∈ k :: keys)
    rw [List.filter_filter, List.filter_filter] at hsplit
    have hfirst : (xs.filter fun x => decide (key x = k) && decide (key x ∈ k :: keys)) =
        xs.filter fun x => key x = k := by
      apply List.filter_congr
      intro x _
      by_cases hx : key x = k <;> simp [hx]
    have hothers : (xs.filter fun x => !decide (key x = k) && decide (key x ∈ k :: keys)) =
        xs.filter fun x => key x ∈ keys := by
      apply List.filter_congr
      intro x _
      by_cases hx : key x = k <;> simp [hx, hk]
    rw [hfirst, hothers] at hsplit
    rw [List.flatMap_cons]
    exact ((ih hrest).append_left _).trans hsplit

theorem ids_eq_keys {calls : List GraphCall} {g : Graph} (h : Exportable calls g) :
    (toDict g).nodes.map (fun n => n.nodeId) = g.nodes.keys := by
  unfold toDict nodesOf AList.keys List.keys
  rw [List.map_map, List.map_map]
  apply List.map_congr_left
  intro n hn
  exact (h.placed n.1 n.2 (AList.mem_lookup_iff.mpr hn)).nodeId

theorem edges_perm {g : Graph} (key : GraphEdge → ℤ) (h : ∀ e ∈ g.edges, key e ∈ g.nodes) :
    (g.nodes.keys.flatMap fun k => g.edges.filter fun e => key e = k).Perm g.edges := by
  have hperm := flatMap_filter_perm key g.nodes.nodupKeys g.edges
  rw [List.filter_eq_self.mpr] at hperm
  · exact hperm
  · intro e he
    exact decide_eq_true (AList.mem_keys.mp (h e he))

section

variable {calls : List GraphCall} {g : Graph}

theorem placed_of_mem (h : Exportable calls g) {node : GraphNode} (hnode : node ∈ nodesOf g) :
    ∃ addr, g.nodes.lookup addr = some node ∧ Placed calls addr node := by
  obtain ⟨entry, hentry, rfl⟩ := List.mem_map.mp hnode
  have hlookup := AList.mem_lookup_iff.mpr hentry
  exact ⟨entry.1, hlookup, h.placed _ _ hlookup⟩

theorem Exportable.exists_node (h : Exportable calls g) {addr : ℤ} (haddr : addr ∈ g.nodes) :
    ∃ n ∈ (toDict g).nodes, n.nodeId = addr := by
  obtain ⟨node, hnode⟩ := Option.isSome_iff_exists.mp (AList.lookup_isSome.mpr haddr)
  refine ⟨nodeToDict node, ?_, (h.placed addr node hnode).nodeId⟩
  apply List.mem_map_of_mem
  exact List.mem_map.mpr ⟨⟨addr, node⟩, AList.mem_lookup_iff.mp hnode, rfl⟩

theorem Exportable.lifetimes (h : Exportable calls g) {n : NodeDict}
    (hn : n ∈ (toDict g).nodes) : (n.lifetimeNs = none ↔ n.alive = true) ∧
      ∀ t ∈ n.lifetimeNs, n.lastSeenNs = some (n.firstSeenNs + t) := by
  obtain ⟨node, hnode, rfl⟩ := List.mem_map.mp hn
  obtain ⟨addr, hlookup, -⟩ := placed_of_mem h hnode
  have hseen := h.sound.lastSeen ⟨addr, node⟩ (AList.mem_lookup_iff.mp hlookup)
  change (lifetimeNs node = none ↔ node.alive = true) ∧
    ∀ t ∈ lifetimeNs node, node.lastSeenNs = some (node.firstSeenNs + t)
  unfold lifetimeNs
  cases hlast : node.lastSeenNs with
  | none =>
    rw [hlast] at hseen
    simpa using hseen
  | some last =>
    rw [hlast] at hseen
    have hdead : node.alive = false := hseen.mp rfl
    constructor
    · simp [hdead]
    · intro t ht
      have ht' : last - node.firstSeenNs = t := Option.some.inj ht
      congr 1
      omega

theorem Exportable.getNode_iff (h : Exportable calls g) (address : ℤ) (node : GraphNode) :
    getNode g address = some node ↔ node ∈ nodesOf g ∧ node.nodeId = address := by
  constructor
  · intro hnode
    refine ⟨?_, (h.placed address node hnode).nodeId⟩
    exact List.mem_map.mpr ⟨⟨address, node⟩, AList.mem_lookup_iff.mp hnode, rfl⟩
  · intro ⟨hmem, hid⟩
    obtain ⟨addr, hlookup, hplaced⟩ := placed_of_mem h hmem
    rw [← hid, hplaced.nodeId]
    exact hlookup

theorem Exportable.edges_by (h : Exportable calls g) (key : GraphEdge → ℤ)
    (hkey : ∀ e ∈ g.edges, key e ∈ g.nodes) :
    ((toDict g).nodes.flatMap fun n => g.edges.filter fun e => key e = n.nodeId).Perm g.edges := by
  have hperm := edges_perm key hkey
  rw [← ids_eq_keys h, List.flatMap_map] at hperm
  exact hperm

/-- The lifetimes that are averaged are those that the dictionary shows. -/
theorem Exportable.mem_lifetimes_iff (h : Exportable calls g) (t : ℤ) :
    t ∈ GraphSummary.lifetimes g ↔ ∃ n ∈ (toDict g).nodes, n.lifetimeNs = some t := by
  unfold GraphSummary.lifetimes
  constructor
  · intro ht
    obtain ⟨node, hnode, hlife⟩ := List.mem_filterMap.mp ht
    exact ⟨nodeToDict node, List.mem_map_of_mem (List.mem_of_mem_filter hnode), hlife⟩
  · intro ⟨n, hn, hlife⟩
    have hdead : ¬n.alive = true := by
      intro halive
      rw [(h.lifetimes hn).1.mpr halive] at hlife
      cases hlife
    obtain ⟨node, hnode, rfl⟩ := List.mem_map.mp hn
    have hdead' : (!node.alive) = true := Bool.not_eq_true' _ ▸ Bool.eq_false_iff.mpr hdead
    exact List.mem_filterMap.mpr ⟨node, List.mem_filter.mpr ⟨hnode, hdead'⟩, hlife⟩

theorem Exportable.wellFormed (h : Exportable calls g) : WellFormed calls g (toDict g) where
  ids := by
    rw [ids_eq_keys h]
    exact g.nodes.nodupKeys
  edges := by
    intro e he
    obtain ⟨hne, hsrc, hdst⟩ := h.sound.edges e he
    exact ⟨hne, h.exists_node hsrc, h.exists_node hdst⟩
  lifetimes := fun _ hn => h.lifetimes hn
  annotations := by
    intro n hn ann hann
    obtain ⟨node, hnode, rfl⟩ := List.mem_map.mp hn
    obtain ⟨addr, -, hplaced⟩ := placed_of_mem h hnode
    exact hplaced.named ann hann
  summary := h.sound.consistent
  totals := by
    refine ⟨(List.length_map _).symm, rfl, ?_⟩
    unfold toDict nodesOf
    rw [List.map_map, List.map_map]
    rfl
  living := by
    have hconsistent := h.sound.consistent
    constructor
    · rw [toDict, List.countP_map]
      exact hconsistent.alive
    · rw [toDict, List.filter_map, List.map_map]
      exact hconsistent.aliveSize
  dead := by
    rw [toDict, List.countP_map]
    exact h.sound.consistent.dead
  average := by
    rw [toDict, List.forall_mem_map]
    exact h.sound.consistent.average
  between := by
    intro avg havg
    obtain ⟨low, hlow, high, hhigh, hall, hle⟩ := h.sound.consistent.between avg havg
    refine ⟨low, high, (h.mem_lifetimes_iff low).mp hlow, (h.mem_lifetimes_iff high).mp hhigh,
      ?_, hle⟩
    intro n hn t ht
    exact hall t ((h.mem_lifetimes_iff t).mpr ⟨n, hn, ht⟩)
  found := h.getNode_iff
  split := List.filter_append_perm (fun n : GraphNode => n.alive) (nodesOf g)
  correlated := by
    intro node hnode
    obtain ⟨hmem, hne⟩ := List.mem_filter.mp hnode
    obtain ⟨addr, -, hplaced⟩ := placed_of_mem h hmem
    obtain ⟨ann, hann⟩ := List.exists_mem_of_ne_nil node.gpuCorrelations (by simpa using hne)
    exact ⟨ann, hann, hplaced.named ann hann⟩
  leaving := h.edges_by GraphEdge.srcId fun e he => (h.sound.edges e he).2.1
  arriving := h.edges_by GraphEdge.dstId fun e he => (h.sound.edges e he).2.2

end

/-- The export of a graph is well formed after any calls of ingest and of the merge. -/
theorem export_well_formed (calls : List GraphCall) :
    WellFormed calls (graphOf calls) (toDict (graphOf calls)) :=
  (exportable_graphOf calls).wellFormed

end HpcProfiler.GraphExport
