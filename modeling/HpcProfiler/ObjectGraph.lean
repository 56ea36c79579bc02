import HpcProfiler.Correlation
import HpcProfiler.Events
import Mathlib.Data.List.AList

/-!
The object graph that is built from the events of the memory layer. A node is created
by the event of an allocation, in the place of an earlier one at its address, and marked
dead by the event of a death.
-/

namespace HpcProfiler.ObjectGraph

open Correlation Events

/-- What a correlated GPU event adds to a node. -/
structure GpuCorrelation where
  confidence : Confidence
  matchReason : MatchReason
  latencyNs : ℤ
  gpuEventId : ℤ
  gpuEventType : String
  gpuTimestampNs : ℤ
  transferSizeBytes : ℤ
  transferKind : String
  kernelName : String
  kernelDurationNs : ℤ
  streamId : ℤ
  deviceId : ℤ
  umBytesHtod : ℤ
  umBytesDtoh : ℤ
  grid : Dim3
  block : Dim3
  registersPerThread : ℤ
  sharedMemBytes : ℤ
  correlationId : ℤ
  deriving DecidableEq

structure GraphNode where
  nodeId : ℤ
  objectType : String
  sizeBytes : ℤ
  refCount : ℤ
  gcGeneration : ℤ
  firstSeenNs : ℤ
  callstack : List String
  alive : Bool := true
  lastSeenNs : Option ℤ := none
  gpuCorrelations : List GpuCorrelation := []
  deriving DecidableEq

def GraphNode.markDead (node : GraphNode) (timestampNs : ℤ) : GraphNode :=
  { node with alive := false, lastSeenNs := some timestampNs }

structure GraphEdge where
  srcId : ℤ
  dstId : ℤ
  capturedAtNs : ℤ
  deriving DecidableEq

structure Graph where
  nodes : AList (fun _ : ℤ => GraphNode) := ∅
  edges : List GraphEdge := []

/-- An object that another refers to, and whether its type is left out of the edges. To ask
for the type raises where the object is a proxy whose own object is gone. -/
structure Referent where
  id : ℤ
  skipType : Option Bool
  deriving DecidableEq

/-- The referents of the object that an event reports, as get_referents gives them when
the event is processed. There are none to give where edges are not asked for, where the
object is not among the live ones, and where the call raises. -/
structure Arrival where
  event : CpuEvent
  referents : Option (List Referent) := none

/-- A test of a type raises on the way through the referents. -/
def Arrival.testRaises (a : Arrival) : Bool :=
  (a.referents.getD []).any fun ref => ref.skipType.isNone

def nodeOf (event : CpuEvent) : GraphNode where
  nodeId := event.allocAddress
  objectType := event.objectType
  sizeBytes := event.allocSizeBytes
  refCount := event.refCount
  gcGeneration := event.gcGeneration
  firstSeenNs := event.base.timestampNs
  callstack := event.callstack

/-- The referents that are looked at. -/
def tested (referents : List Referent) : List Referent :=
  referents.takeWhile fun ref => ref.skipType.isSome

def buildEdges (g : Graph) (srcId : ℤ) (referents : List Referent) (ts : ℤ) : Graph :=
  { g with edges := g.edges ++
    ((tested referents).filter fun ref =>
      ref.skipType = some false ∧ ref.id ≠ srcId ∧ ref.id ∈ g.nodes).map fun ref =>
        ⟨srcId, ref.id, ts⟩ }

def ingestAlloc (g : Graph) (a : Arrival) : Graph :=
  let addr := a.event.allocAddress
  let g := { g with nodes := g.nodes.insert addr (nodeOf a.event) }
  match a.referents with
  | some referents => buildEdges g addr referents a.event.base.timestampNs
  | none => g

def ingestDealloc (g : Graph) (event : CpuEvent) : Graph :=
  match g.nodes.lookup event.allocAddress with
  | some node =>
    { g with nodes := g.nodes.insert event.allocAddress (node.markDead event.base.timestampNs) }
  | none => g

/-- The graph after the events. An event without is_dealloc raises, and so does the test of
the type of a referent, behind the node and the edges up to there. -/
def ingest (g : Graph) : List Arrival → Graph
  | [] => g
  | a :: arrivals =>
    match a.event.isDealloc with
    | none => g
    | some false =>
      if a.testRaises then ingestAlloc g a else ingest (ingestAlloc g a) arrivals
    | some true => ingest (ingestDealloc g a.event) arrivals

/-- What an event makes of the node at its address. -/
def nodeAfter (node : Option GraphNode) (event : CpuEvent) : Option GraphNode :=
  if event.isDealloc = some true then node.map fun n => n.markDead event.base.timestampNs
  else some (nodeOf event)

/-- The event is of an allocation or of a death, and its referents can be tested. -/
inductive Arrival.Passes (a : Arrival) : Prop
  | alloc (hdead : a.event.isDealloc = some false) (htests : a.testRaises = false)
  | death (hdead : a.event.isDealloc = some true)

/-- No event raises. -/
def Complete (arrivals : List Arrival) : Prop := ∀ a ∈ arrivals, a.Passes

theorem complete_cons {a : Arrival} {arrivals : List Arrival} (h : Complete (a :: arrivals)) :
    a.Passes ∧ Complete arrivals :=
  ⟨h a (List.mem_cons_self ..), fun b hb => h b (List.mem_cons_of_mem _ hb)⟩

theorem ingest_alloc {a : Arrival} (hdead : a.event.isDealloc = some false)
    (htests : a.testRaises = false) (g : Graph) (arrivals : List Arrival) :
    ingest g (a :: arrivals) = ingest (ingestAlloc g a) arrivals := by
  rw [ingest, hdead]
  simp [htests]

theorem ingest_death {a : Arrival} (hdead : a.event.isDealloc = some true) (g : Graph)
    (arrivals : List Arrival) :
    ingest g (a :: arrivals) = ingest (ingestDealloc g a.event) arrivals := by
  rw [ingest, hdead]

@[simp] theorem buildEdges_nodes (g : Graph) (srcId : ℤ) (referents : List Referent) (ts : ℤ) :
    (buildEdges g srcId referents ts).nodes = g.nodes := rfl

theorem ingestAlloc_nodes (g : Graph) (a : Arrival) :
    (ingestAlloc g a).nodes = g.nodes.insert a.event.allocAddress (nodeOf a.event) := by
  unfold ingestAlloc
  cases a.referents <;> rfl

theorem lookup_ingestAlloc (g : Graph) (a : Arrival) (h : a.event.isDealloc = some false)
    (addr : ℤ) : (ingestAlloc g a).nodes.lookup addr =
      if a.event.allocAddress = addr then nodeAfter (g.nodes.lookup addr) a.event
      else g.nodes.lookup addr := by
  rw [ingestAlloc_nodes]
  split
  · rename_i heq
    rw [heq, AList.lookup_insert, nodeAfter, h, if_neg (by simp)]
  · rename_i hne
    exact AList.lookup_insert_ne fun heq => hne heq.symm

theorem lookup_ingestDealloc (g : Graph) (event : CpuEvent) (h : event.isDealloc = some true)
    (addr : ℤ) : (ingestDealloc g event).nodes.lookup addr =
      if event.allocAddress = addr then nodeAfter (g.nodes.lookup addr) event
      else g.nodes.lookup addr := by
  unfold ingestDealloc
  by_cases heq : event.allocAddress = addr
  · subst heq
    rw [if_pos rfl, nodeAfter, if_pos h]
    cases hnode : g.nodes.lookup event.allocAddress with
    | none => exact hnode
    | some node => exact AList.lookup_insert _
  · rw [if_neg heq]
    cases g.nodes.lookup event.allocAddress with
    | none => rfl
    | some node => exact AList.lookup_insert_ne fun h => heq h.symm

/-- The node at an address depends on the events of this address alone. -/
theorem lookup_ingest {arrivals : List Arrival} (g : Graph) (h : Complete arrivals) (addr : ℤ) :
    (ingest g arrivals).nodes.lookup addr =
      ((arrivals.map Arrival.event).filter fun e => e.allocAddress = addr).foldl nodeAfter
        (g.nodes.lookup addr) := by
  induction arrivals generalizing g with
  | nil => rfl
  | cons a arrivals ih =>
    obtain ⟨hpasses, hrest⟩ := complete_cons h
    have hstep : ∀ g' : Graph, ingest g (a :: arrivals) = ingest g' arrivals →
        g'.nodes.lookup addr = (if a.event.allocAddress = addr then
          nodeAfter (g.nodes.lookup addr) a.event else g.nodes.lookup addr) →
        (ingest g (a :: arrivals)).nodes.lookup addr =
          (((a :: arrivals).map Arrival.event).filter fun e => e.allocAddress = addr).foldl
            nodeAfter (g.nodes.lookup addr) := by
      intro g' hg' hlookup
      rw [hg', ih g' hrest, hlookup, List.map_cons, List.filter_cons]
      by_cases heq : a.event.allocAddress = addr
      · rw [if_pos heq, if_pos (by simpa using heq), List.foldl_cons]
      · rw [if_neg heq, if_neg (by simpa using heq)]
    cases hpasses with
    | alloc hdead htests =>
      exact hstep _ (ingest_alloc hdead htests g arrivals) (lookup_ingestAlloc g a hdead addr)
    | death hdead =>
      exact hstep _ (ingest_death hdead g arrivals) (lookup_ingestDealloc g a.event hdead addr)

theorem ingest_append {arrivals arrivals' : List Arrival} (g : Graph) (h : Complete arrivals) :
    ingest g (arrivals ++ arrivals') = ingest (ingest g arrivals) arrivals' := by
  induction arrivals generalizing g with
  | nil => rfl
  | cons a arrivals ih =>
    obtain ⟨hpasses, hrest⟩ := complete_cons h
    rw [List.cons_append]
    cases hpasses with
    | alloc hdead htests =>
      rw [ingest_alloc hdead htests, ingest_alloc hdead htests]
      exact ih _ hrest
    | death hdead =>
      rw [ingest_death hdead, ingest_death hdead]
      exact ih _ hrest

/-- What holds of a graph is kept by a list of events if it is kept by each. -/
theorem ingest_keeps {P : Graph → Prop} {arrivals : List Arrival} {g : Graph} (h : P g)
    (halloc : ∀ g, ∀ a ∈ arrivals, a.event.isDealloc = some false → P g → P (ingestAlloc g a))
    (hdealloc : ∀ g, ∀ a ∈ arrivals, a.event.isDealloc = some true → P g →
      P (ingestDealloc g a.event)) : P (ingest g arrivals) := by
  induction arrivals generalizing g with
  | nil => exact h
  | cons a arrivals ih =>
    have ha : a ∈ a :: arrivals := List.mem_cons_self ..
    have hrest := fun {g} (h : P g) => ih h
      (fun g b hb => halloc g b (List.mem_cons_of_mem _ hb))
      (fun g b hb => hdealloc g b (List.mem_cons_of_mem _ hb))
    unfold ingest
    cases hdead : a.event.isDealloc with
    | none => exact h
    | some dead =>
      cases dead with
      | false =>
        dsimp only
        split
        · exact halloc g a ha hdead h
        · exact hrest (halloc g a ha hdead h)
      | true => exact hrest (hdealloc g a ha hdead h)

end HpcProfiler.ObjectGraph
