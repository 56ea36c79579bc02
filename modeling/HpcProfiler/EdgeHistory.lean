import HpcProfiler.GraphHistory
import HpcProfiler.StepSystem

/-!
The edges of an object graph against the objects at their ends. The edges stand in a list
of their own, while an allocation puts a new object in the place of the one that was at
its address. Beside each stored edge stand the numbers of the objects that were at its
ends when it was captured.
-/

namespace HpcProfiler.EdgeHistory

open Correlation Events GraphHistory ObjectGraph StepSystem

/-- How many objects have been at the address; the last of them is there now. -/
def occupant (h : List CpuEvent) (addr : ℤ) : ℕ := h.countP (allocatesAt addr)

/-- A stored edge, with the objects at its ends when it was captured. -/
structure Capture where
  edge : GraphEdge
  src : ℕ
  dst : ℕ

def captureOf (h : List CpuEvent) (edge : GraphEdge) : Capture :=
  ⟨edge, occupant h edge.srcId, occupant h edge.dstId⟩

/-- A graph with the events ingested so far and the captures of its edges, in their order.
No step reads these two. -/
structure Linked where
  graph : Graph := {}
  history : List CpuEvent := []
  captures : List Capture := []

def link (s : Linked) (a : Arrival) : Linked :=
  let graph := ingest s.graph [a]
  let history := s.history ++ [a.event]
  let new := graph.edges.drop s.graph.edges.length
  { graph, history, captures := s.captures ++ new.map (captureOf history) }

def step (s : Linked) (a : Arrival) : Option Linked := some (link s a)

/-- The events that the calls ingest, with the referents they are given. -/
def stream (calls : List IngestCall) : List Arrival :=
  calls.flatMap fun call => takenIn call.given

def linkedAfter (calls : List IngestCall) : Linked := (stream calls).foldl link {}

/-- An edge joins two nodes and was captured when both of their objects were there. -/
structure Joins (g : Graph) (edge : GraphEdge) : Prop where
  src : edge.srcId ∈ g.nodes
  dst : edge.dstId ∈ g.nodes
  distinct : edge.srcId ≠ edge.dstId
  srcSeen : ∀ node ∈ g.nodes.lookup edge.srcId, node.firstSeenNs ≤ edge.capturedAtNs
  dstSeen : ∀ node ∈ g.nodes.lookup edge.dstId, node.firstSeenNs ≤ edge.capturedAtNs

/-- Every stored edge belongs to the objects that the graph shows now. -/
structure Current (s : Linked) : Prop where
  joins : ∀ edge ∈ s.graph.edges, Joins s.graph edge
  occupants : ∀ c ∈ s.captures,
    c.src = occupant s.history c.edge.srcId ∧ c.dst = occupant s.history c.edge.dstId

/-- The condition on an event: no object comes to an address that a stored edge has as
an end. -/
def FreeOfEdges (s : Linked) (a : Arrival) : Prop :=
  a.event.isDealloc = some false →
    ∀ edge ∈ s.graph.edges, edge.srcId ≠ a.event.allocAddress ∧ edge.dstId ≠ a.event.allocAddress

instance (s : Linked) (a : Arrival) : Decidable (FreeOfEdges s a) := by
  unfold FreeOfEdges
  infer_instance

theorem foldl_link_graph (s : Linked) {arrivals : List Arrival} (h : Complete arrivals) :
    (arrivals.foldl link s).graph = ingest s.graph arrivals := by
  induction arrivals generalizing s with
  | nil => rfl
  | cons a arrivals ih =>
    obtain ⟨ha, hrest⟩ := complete_cons h
    have hone : Complete [a] := by
      intro b hb
      rw [List.mem_singleton.mp hb]
      exact ha
    rw [List.foldl_cons, ih _ hrest, ← List.singleton_append, ingest_append _ hone]
    rfl

theorem linkedAfter_graph (calls : List IngestCall) :
    (linkedAfter calls).graph = graphAfter calls := by
  rw [linkedAfter, stream, foldl_link_graph _ (complete_flatMap calls), graphAfter,
    foldl_ingestCall]

theorem foldl_link_history (s : Linked) (arrivals : List Arrival) :
    (arrivals.foldl link s).history = s.history ++ arrivals.map Arrival.event := by
  induction arrivals generalizing s with
  | nil => simp
  | cons a arrivals ih =>
    rw [List.foldl_cons, ih, List.map_cons, link, List.append_assoc, List.singleton_append]

theorem linkedAfter_history (calls : List IngestCall) :
    (linkedAfter calls).history = history calls := by
  rw [linkedAfter, foldl_link_history, stream, map_event_flatMap]
  rfl

theorem run_step (s : Linked) (arrivals : List Arrival) :
    run step s arrivals = some (arrivals.foldl link s) := by
  induction arrivals generalizing s with
  | nil => rfl
  | cons a arrivals ih => exact ih (link s a)

/-- What an event does to the graph: an allocation makes a node and edges from it, any
other event leaves the edges and the times of the nodes alone. -/
inductive Ingested (g : Graph) (a : Arrival) (g' : Graph) : Prop
  | alloc (new : List GraphEdge) (hdead : a.event.isDealloc = some false)
    (hnodes : g'.nodes = g.nodes.insert a.event.allocAddress (nodeOf a.event))
    (hedges : g'.edges = g.edges ++ new)
    (hnew : ∀ edge ∈ new, edge.srcId = a.event.allocAddress ∧
      edge.dstId ≠ a.event.allocAddress ∧ edge.dstId ∈ g'.nodes ∧
      edge.capturedAtNs = a.event.base.timestampNs)
  | other (hdead : a.event.isDealloc ≠ some false) (hedges : g'.edges = g.edges)
    (hnodes : ∀ addr, (g'.nodes.lookup addr).map GraphNode.firstSeenNs =
      (g.nodes.lookup addr).map GraphNode.firstSeenNs)

theorem ingestAlloc_edges (g : Graph) (a : Arrival) :
    ∃ new, (ingestAlloc g a).edges = g.edges ++ new ∧
      ∀ edge ∈ new, edge.srcId = a.event.allocAddress ∧ edge.dstId ≠ a.event.allocAddress ∧
        edge.dstId ∈ (ingestAlloc g a).nodes ∧ edge.capturedAtNs = a.event.base.timestampNs := by
  rw [ingestAlloc_nodes, ingestAlloc]
  cases a.referents with
  | none => exact ⟨[], (List.append_nil _).symm, by simp⟩
  | some referents =>
    refine ⟨_, rfl, ?_⟩
    intro edge hedge
    obtain ⟨ref, href, rfl⟩ := List.mem_map.mp hedge
    have hallowed := List.of_mem_filter href
    rw [decide_eq_true_eq] at hallowed
    exact ⟨rfl, hallowed.2.1, hallowed.2.2, rfl⟩

theorem ingested_one (g : Graph) (a : Arrival) : Ingested g a (ingest g [a]) := by
  cases hdead : a.event.isDealloc with
  | none =>
    have hone : ingest g [a] = g := by rw [ingest, hdead]
    rw [hone]
    exact .other (by simp [hdead]) rfl fun _ => rfl
  | some dead =>
    cases dead with
    | false =>
      have hone : ingest g [a] = ingestAlloc g a := by
        rw [ingest, hdead]
        exact ite_self _
      obtain ⟨new, hedges, hnew⟩ := ingestAlloc_edges g a
      rw [hone]
      exact .alloc new hdead (ingestAlloc_nodes g a) hedges hnew
    | true =>
      have hone : ingest g [a] = ingestDealloc g a.event := by
        rw [ingest, hdead]
        rfl
      rw [hone]
      refine .other (by simp [hdead]) ?_ fun addr => ?_
      · unfold ingestDealloc
        split <;> rfl
      · rw [lookup_ingestDealloc g a.event hdead]
        split
        · rw [nodeAfter, if_pos hdead, Option.map_map]
          rfl
        · rfl

theorem occupant_concat (h : List CpuEvent) (e : CpuEvent) (addr : ℤ) :
    occupant (h ++ [e]) addr = occupant h addr + if allocatesAt addr e then 1 else 0 := by
  rw [occupant, List.countP_append, List.countP_singleton]
  rfl

theorem allocatesAt_of_dead {e : CpuEvent} (hdead : e.isDealloc ≠ some false) (addr : ℤ) :
    allocatesAt addr e = false := by
  rw [allocatesAt, decide_eq_false hdead, Bool.false_and]

theorem allocatesAt_of_alloc {e : CpuEvent} (hdead : e.isDealloc = some false) (addr : ℤ) :
    allocatesAt addr e = true ↔ e.allocAddress = addr := by
  rw [allocatesAt, hdead, decide_eq_true rfl, Bool.true_and, decide_eq_true_eq]

/-- The captures are those of the stored edges, and the objects that were at their ends
are still there. -/
structure Kept (s : Linked) : Prop where
  stored : s.captures.map Capture.edge = s.graph.edges
  occupants : ∀ c ∈ s.captures,
    c.src = occupant s.history c.edge.srcId ∧ c.dst = occupant s.history c.edge.dstId

theorem kept_init : Kept {} := ⟨rfl, fun c hc => by cases hc⟩

/-- The captures after an event that adds edges. -/
theorem link_captures (s : Linked) (a : Arrival) {new : List GraphEdge}
    (hedges : (ingest s.graph [a]).edges = s.graph.edges ++ new) :
    (link s a).captures = s.captures ++ new.map (captureOf (s.history ++ [a.event])) := by
  rw [link, hedges, List.drop_left]

theorem Kept.link {s : Linked} (hs : Kept s) {a : Arrival} {new : List GraphEdge}
    (hedges : (ingest s.graph [a]).edges = s.graph.edges ++ new)
    (hsame : ∀ edge ∈ s.graph.edges,
      allocatesAt edge.srcId a.event = false ∧ allocatesAt edge.dstId a.event = false) :
    Kept (link s a) := by
  have hcaptures := link_captures s a hedges
  constructor
  · have hnew : (new.map (captureOf (s.history ++ [a.event]))).map Capture.edge = new := by
      rw [List.map_map]
      exact List.map_id new
    rw [hcaptures, List.map_append, hs.stored, hnew]
    exact hedges.symm
  · intro c hc
    rw [hcaptures] at hc
    rcases List.mem_append.mp hc with hold | hadded
    · have hedge : c.edge ∈ s.graph.edges := by
        rw [← hs.stored]
        exact List.mem_map_of_mem hold
      obtain ⟨hsrc, hdst⟩ := hsame c.edge hedge
      have hocc := hs.occupants c hold
      simp only [EdgeHistory.link, occupant_concat, hsrc, hdst, Bool.false_eq_true, if_false]
      exact hocc
    · obtain ⟨edge, -, rfl⟩ := List.mem_map.mp hadded
      exact ⟨rfl, rfl⟩

theorem kept_step (s : Linked) (a : Arrival) (s' : Linked) (hs : Kept s)
    (hfree : FreeOfEdges s a) (hstep : step s a = some s') : Kept s' := by
  cases hstep
  cases ingested_one s.graph a with
  | alloc new hdead hnodes hedges hnew =>
    apply hs.link hedges
    intro edge hedge
    obtain ⟨hsrc, hdst⟩ := hfree hdead edge hedge
    constructor
    · exact Bool.eq_false_iff.mpr fun h => hsrc ((allocatesAt_of_alloc hdead _).mp h).symm
    · exact Bool.eq_false_iff.mpr fun h => hdst ((allocatesAt_of_alloc hdead _).mp h).symm
  | other hdead hedges hnodes =>
    have hnone : (ingest s.graph [a]).edges = s.graph.edges ++ [] := by
      rw [hedges, List.append_nil]
    apply hs.link hnone
    intro edge _
    exact ⟨allocatesAt_of_dead hdead _, allocatesAt_of_dead hdead _⟩

/-- Some stored edge is one of an object that has left. -/
def Stale (s : Linked) : Prop :=
  ∃ c ∈ s.captures, c.src < occupant s.history c.edge.srcId ∨
    c.dst < occupant s.history c.edge.dstId

theorem occupant_le_concat (h : List CpuEvent) (e : CpuEvent) (addr : ℤ) :
    occupant h addr ≤ occupant (h ++ [e]) addr := by
  rw [occupant_concat]
  omega

theorem stale_step (s : Linked) (a : Arrival) (s' : Linked) (hs : Stale s)
    (hstep : step s a = some s') : Stale s' := by
  cases hstep
  obtain ⟨c, hc, hless⟩ := hs
  have hsrc := occupant_le_concat s.history a.event c.edge.srcId
  have hdst := occupant_le_concat s.history a.event c.edge.dstId
  refine ⟨c, List.mem_append_left _ hc, ?_⟩
  dsimp only [link]
  omega

/-- An object that comes to the end of a stored edge leaves it behind. -/
theorem stale_of_not_free (s : Linked) (a : Arrival) (s' : Linked) (hs : Kept s)
    (hnot : ¬FreeOfEdges s a) (hstep : step s a = some s') : Stale s' := by
  cases hstep
  unfold FreeOfEdges at hnot
  push Not at hnot
  obtain ⟨hdead, edge, hedge, hends⟩ := hnot
  rw [← hs.stored] at hedge
  obtain ⟨c, hc, rfl⟩ := List.mem_map.mp hedge
  obtain ⟨hsrc, hdst⟩ := hs.occupants c hc
  refine ⟨c, List.mem_append_left _ hc, ?_⟩
  dsimp only [link]
  rw [occupant_concat, occupant_concat]
  by_cases hat : c.edge.srcId = a.event.allocAddress
  · left
    rw [if_pos ((allocatesAt_of_alloc hdead _).mpr hat.symm)]
    omega
  · right
    rw [if_pos ((allocatesAt_of_alloc hdead _).mpr (hends hat).symm)]
    omega

theorem not_current_of_stale {s : Linked} (hs : Stale s) : ¬Current s := by
  intro hcurrent
  obtain ⟨c, hc, hless⟩ := hs
  obtain ⟨hsrc, hdst⟩ := hcurrent.occupants c hc
  omega

/-- When the object at an address was first seen. -/
def seenAt (g : Graph) (addr : ℤ) : Option ℤ := (g.nodes.lookup addr).map GraphNode.firstSeenNs

theorem mem_nodes_iff_seenAt (g : Graph) (addr : ℤ) :
    addr ∈ g.nodes ↔ (seenAt g addr).isSome = true := by
  rw [← AList.lookup_isSome, seenAt, Option.isSome_map]

theorem seenAt_le_iff (g : Graph) (addr bound : ℤ) :
    (∀ node ∈ g.nodes.lookup addr, node.firstSeenNs ≤ bound) ↔ ∀ t ∈ seenAt g addr, t ≤ bound := by
  unfold seenAt
  cases g.nodes.lookup addr <;> simp

/-- An edge depends on the times of the nodes at its ends alone. -/
theorem Joins.congr {g g' : Graph} {edge : GraphEdge} (h : Joins g edge)
    (hsrc : seenAt g' edge.srcId = seenAt g edge.srcId)
    (hdst : seenAt g' edge.dstId = seenAt g edge.dstId) : Joins g' edge := by
  refine ⟨?_, ?_, h.distinct, ?_, ?_⟩
  · rw [mem_nodes_iff_seenAt, hsrc, ← mem_nodes_iff_seenAt]
    exact h.src
  · rw [mem_nodes_iff_seenAt, hdst, ← mem_nodes_iff_seenAt]
    exact h.dst
  · rw [seenAt_le_iff, hsrc, ← seenAt_le_iff]
    exact h.srcSeen
  · rw [seenAt_le_iff, hdst, ← seenAt_le_iff]
    exact h.dstSeen

/-- The event does not come before those already ingested. -/
def InOrder (s : Linked) (a : Arrival) : Prop :=
  ∀ e ∈ s.history, e.base.timestampNs ≤ a.event.base.timestampNs

/-- Every edge joins objects that were there, and the time of each node is that of an
event. -/
structure Joined (s : Linked) : Prop where
  joins : ∀ edge ∈ s.graph.edges, Joins s.graph edge
  seen : ∀ addr, ∀ t ∈ seenAt s.graph addr, ∃ e ∈ s.history, e.base.timestampNs = t

theorem joined_init : Joined {} := by
  constructor
  · intro edge hedge
    cases hedge
  · intro addr t ht
    cases ht

theorem seenAt_insert {g g' : Graph} {event : CpuEvent}
    (hnodes : g'.nodes = g.nodes.insert event.allocAddress (nodeOf event)) (addr : ℤ) :
    seenAt g' addr =
      if addr = event.allocAddress then some event.base.timestampNs else seenAt g addr := by
  rw [seenAt, hnodes]
  split
  · rename_i heq
    rw [heq, AList.lookup_insert]
    rfl
  · rename_i hne
    rw [AList.lookup_insert_ne hne]
    rfl

theorem joined_step (s : Linked) (a : Arrival) (s' : Linked) (hs : Joined s)
    (hok : FreeOfEdges s a ∧ InOrder s a) (hstep : step s a = some s') : Joined s' := by
  cases hstep
  obtain ⟨hfree, horder⟩ := hok
  have hold : ∀ t, (∃ e ∈ s.history, e.base.timestampNs = t) →
      ∃ e ∈ s.history ++ [a.event], e.base.timestampNs = t := by
    rintro t ⟨e, he, ht⟩
    exact ⟨e, List.mem_append_left _ he, ht⟩
  cases ingested_one s.graph a with
  | alloc new hdead hnodes hedges hnew =>
    have hseen := seenAt_insert hnodes
    constructor
    · intro edge hedge
      dsimp only [link] at hedge ⊢
      rw [hedges] at hedge
      rcases List.mem_append.mp hedge with hstored | hadded
      · obtain ⟨hsrc, hdst⟩ := hfree hdead edge hstored
        apply (hs.joins edge hstored).congr
        · rw [hseen, if_neg hsrc]
        · rw [hseen, if_neg hdst]
      · obtain ⟨hsrc, hdst, hmem, htime⟩ := hnew edge hadded
        refine ⟨?_, hmem, ?_, ?_, ?_⟩
        · rw [hnodes, hsrc, AList.mem_insert]
          exact .inl rfl
        · rw [hsrc]
          exact hdst.symm
        · rw [seenAt_le_iff, hseen, if_pos hsrc, htime]
          intro t ht
          cases ht
          exact le_rfl
        · rw [seenAt_le_iff, hseen, if_neg hdst, htime]
          intro t ht
          obtain ⟨e, he, rfl⟩ := hs.seen _ t ht
          exact horder e he
    · intro addr t ht
      dsimp only [link] at ht ⊢
      rw [hseen] at ht
      split at ht
      · cases ht
        exact ⟨a.event, List.mem_append_right _ (List.mem_singleton_self _), rfl⟩
      · exact hold t (hs.seen addr t ht)
  | other hdead hedges hnodes =>
    constructor
    · intro edge hedge
      dsimp only [link] at hedge ⊢
      rw [hedges] at hedge
      exact (hs.joins edge hedge).congr (hnodes _) (hnodes _)
    · intro addr t ht
      apply hold t
      apply hs.seen addr t
      rw [seenAt, ← hnodes]
      exact ht

/-- Events in order of their times come one after another in this order. -/
theorem along_inOrder {arrivals : List Arrival} (s : Linked)
    (hordered : (arrivals.map fun a => a.event.base.timestampNs).Pairwise (· ≤ ·))
    (hbefore : ∀ e ∈ s.history, ∀ a ∈ arrivals, e.base.timestampNs ≤ a.event.base.timestampNs) :
    Along step InOrder s arrivals := by
  induction arrivals generalizing s with
  | nil => exact trivial
  | cons a arrivals ih =>
    rw [List.map_cons, List.pairwise_cons] at hordered
    obtain ⟨hfirst, hrest⟩ := hordered
    refine ⟨fun e he => hbefore e he a (List.mem_cons_self ..), fun s' hs' => ?_⟩
    cases hs'
    apply ih _ hrest
    intro e he b hb
    rcases List.mem_append.mp he with hold | hnew
    · exact hbefore e hold b (List.mem_cons_of_mem _ hb)
    · rw [List.mem_singleton.mp hnew]
      exact hfirst _ (List.mem_map_of_mem hb)

/-- With events in the order of their times, every stored edge belongs to the objects the
graph shows exactly if no object comes to an address that an edge has as an end. -/
theorem current_iff_free_of_edges (calls : List IngestCall)
    (hordered : ((history calls).map fun e => e.base.timestampNs).Pairwise (· ≤ ·)) :
    Current (linkedAfter calls) ↔ Along step FreeOfEdges {} (stream calls) := by
  have hrun : run step {} (stream calls) = some (linkedAfter calls) := run_step {} (stream calls)
  constructor
  · intro hcurrent
    by_contra hnot
    have hstale := run_not_along kept_step stale_of_not_free stale_step kept_init hnot hrun
    exact not_current_of_stale hstale hcurrent
  · intro hfree
    have hinOrder : Along step InOrder {} (stream calls) := by
      apply along_inOrder
      · rw [← map_event_flatMap, List.map_map] at hordered
        exact hordered
      · intro e he
        cases he
    have hjoined := run_along joined_step joined_init (hfree.and hinOrder) hrun
    have hkept := run_along kept_step kept_init hfree hrun
    exact ⟨hjoined.joins, hkept.occupants⟩

/-- A list that refers to another object; the event of the list is ingested with edges. -/
def listOfObject : List Arrival :=
  [{ event := allocAt 1 10 100 8 0 },
    { event := allocAt 2 20 200 56 0, referents := some [⟨100, some false⟩] }]

theorem current_listOfObject : Current (linkedAfter [⟨listOfObject, true⟩]) :=
  (current_iff_free_of_edges [⟨listOfObject, true⟩] (by decide)).mpr (by decide)

/-- The object dies, and another one comes to its address. -/
def reusedEnd : List Arrival :=
  listOfObject ++ [{ event := deallocAt 3 25 100 }, { event := allocAt 4 30 100 8 0 }]

theorem reused_end_keeps_edge :
    ¬∀ calls : List IngestCall, (∀ call ∈ calls, call.includeEdges = true) →
      ((history calls).map fun e => e.base.timestampNs).Pairwise (· ≤ ·) →
      Current (linkedAfter calls) := by
  intro hall
  have hcurrent := hall [⟨reusedEnd, true⟩] (by decide) (by decide)
  have hseen := (hcurrent.joins ⟨200, 100, 20⟩ (by decide)).dstSeen _ rfl
  exact absurd hseen (by decide)

end HpcProfiler.EdgeHistory
