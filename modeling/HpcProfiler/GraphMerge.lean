import HpcProfiler.GraphHistory
import HpcProfiler.StepSystem
import Mathlib.Data.List.Forall2
import Mathlib.Logic.Function.Basic

/-!
The annotation of graph nodes with correlated GPU events. A correlated event names the
event of an allocation by its id; the merge goes from this id to an address, and from the
address to the node that is there now. Beside the graph stand the events it was built
from and the correlated events behind the annotations of each node.
-/

namespace HpcProfiler.GraphMerge

open Correlation Events GraphHistory ObjectGraph StepSystem

structure MergeCall where
  correlatedEvents : List CorrelatedEvent
  gpuEvents : List GpuEvent
  cpuEvents : Option (List CpuEvent) := none

/-- The GPU event of every id; of events with one id the last one is kept. -/
def MergeCall.gpuById (call : MergeCall) : ℤ → Option GpuEvent :=
  call.gpuEvents.foldl (fun d e => Function.update d e.base.eventId (some e)) fun _ => none

def MergeCall.cpuAddrByEventId (call : MergeCall) : ℤ → Option ℤ :=
  (call.cpuEvents.getD []).foldl
    (fun d e => Function.update d e.base.eventId (some e.allocAddress)) fun _ => none

/-- The address of the node for a CPU event id: the one the events give for it, or else
the id itself. -/
def MergeCall.nodeKey (call : MergeCall) (g : Graph) (cpuEid : ℤ) : Option ℤ :=
  ((call.cpuAddrByEventId cpuEid).filter fun addr => addr ∈ g.nodes).or
    (if cpuEid ∈ g.nodes then some cpuEid else none)

def annotation (corr : CorrelatedEvent) (gpu : GpuEvent) : GpuCorrelation where
  confidence := corr.confidence
  matchReason := corr.matchReason
  latencyNs := corr.latencyNs
  gpuEventId := corr.gpuEventId
  gpuEventType := gpu.base.eventType
  gpuTimestampNs := gpu.base.timestampNs
  transferSizeBytes := gpu.transferSizeBytes.getD 0
  transferKind := gpu.transferKind
  kernelName := gpu.kernelName
  kernelDurationNs := gpu.kernelDurationNs
  streamId := gpu.streamId
  deviceId := gpu.deviceId
  umBytesHtod := gpu.umBytesHtod
  umBytesDtoh := gpu.umBytesDtoh
  grid := gpu.grid
  block := gpu.block
  registersPerThread := gpu.registersPerThread
  sharedMemBytes := gpu.sharedMemBytes
  correlationId := gpu.correlationId

def annotate (node : GraphNode) (more : List GpuCorrelation) : GraphNode :=
  { node with gpuCorrelations := node.gpuCorrelations ++ more }

/-- One round of the loop over the correlated events. -/
def mergeOne (call : MergeCall) (g : Graph) (corr : CorrelatedEvent) : Graph :=
  match call.nodeKey g corr.cpuEventId with
  | none => g
  | some addr =>
    match g.nodes.lookup addr, call.gpuById corr.gpuEventId with
    | some node, some gpu =>
      { g with nodes := g.nodes.insert addr (annotate node [ annotation corr gpu]) }
    | _, _ => g

def mergeGpuCorrelations (g : Graph) (call : MergeCall) : Graph :=
  call.correlatedEvents.foldl (mergeOne call) g

/-- What a correlated event adds to the node at an address. -/
def added (call : MergeCall) (g : Graph) (addr : ℤ) (corr : CorrelatedEvent) :
    Option GpuCorrelation :=
  if call.nodeKey g corr.cpuEventId = some addr then
    (call.gpuById corr.gpuEventId).map ( annotation corr)
  else none

inductive GraphCall
  | ingest (call : IngestCall)
  | merge (call : MergeCall)

/-- A graph with the events ingested so far and, for each address, the correlated events
behind the annotations of its node in their order. No call reads these two. -/
structure Annotated where
  graph : Graph := {}
  history : List CpuEvent := []
  origins : ℤ → List CorrelatedEvent := fun _ => []

def step (s : Annotated) : GraphCall → Option Annotated
  | .ingest call => some {
      graph := ingestCall s.graph call
      history := s.history ++ call.ingested
      origins := fun addr =>
        if call.ingested.any (allocatesAt addr) then [] else s.origins addr }
  | .merge call => some {
      graph := mergeGpuCorrelations s.graph call
      history := s.history
      origins := fun addr =>
        s.origins addr ++ call.correlatedEvents.filter fun corr =>
          (added call s.graph addr corr).isSome }

/-- The annotations of a node come, one by one, from correlated events that name the
event of the allocation that made the node. -/
def Attributed (s : Annotated) : Prop :=
  ∀ addr, ∀ node ∈ s.graph.nodes.lookup addr, ∃ e, creator s.history addr = some e ∧
    List.Forall₂ (fun ann corr => (∃ gpu, ann = annotation corr gpu) ∧
      corr.cpuEventId = e.base.eventId) node.gpuCorrelations (s.origins addr)

/-- The last event that cpu_events lists with the id. -/
def listedEvent (call : MergeCall) (cpuEid : ℤ) : Option CpuEvent :=
  ((call.cpuEvents.getD []).filter fun e => e.base.eventId = cpuEid).getLast?

/-- No allocation but the named one was the last at the listed address of the event;
and where no allocation was at this address or none is listed, none with another id was
the last at the address that the id happens to be. -/
structure Nameable (h : List CpuEvent) (call : MergeCall) (cpuEid : ℤ) : Prop where
  listed : ∀ e ∈ listedEvent call cpuEid, ∀ last ∈ creator h e.allocAddress,
    last.base.eventId = cpuEid
  unlisted : (∀ e ∈ listedEvent call cpuEid, creator h e.allocAddress = none) →
    ∀ last ∈ creator h cpuEid, last.base.eventId = cpuEid

/-- The condition on a call: a merge finds the named object still the last one at its
address, for every correlated event whose GPU event is listed. -/
def NoStranger (s : Annotated) : GraphCall → Prop
  | .ingest _ => True
  | .merge call => ∀ corr ∈ call.correlatedEvents,
    (∃ gpu ∈ call.gpuEvents, gpu.base.eventId = corr.gpuEventId) →
      Nameable s.history call corr.cpuEventId

/-- An index that is filled in list order keeps the last entry of each key. -/
theorem foldl_update {α β : Type*} (key : α → ℤ) (value : α → β) (xs : List α) (k : ℤ) :
    xs.foldl (fun d x => Function.update d (key x) (some (value x))) (fun _ => none) k =
      (xs.filter fun x => key x = k).getLast?.map value := by
  induction xs using List.reverseRecOn with
  | nil => rfl
  | append_singleton xs x ih =>
    rw [List.foldl_append, List.foldl_cons, List.foldl_nil, List.filter_append]
    by_cases heq : k = key x
    · rw [heq, Function.update_self, List.filter_cons_of_pos (by simp), List.filter_nil,
        List.getLast?_concat, Option.map_some]
    · rw [Function.update_of_ne heq, ih, List.filter_cons_of_neg (by simpa using Ne.symm heq),
        List.filter_nil, List.append_nil]

theorem cpuAddrByEventId_eq (call : MergeCall) (cpuEid : ℤ) :
    call.cpuAddrByEventId cpuEid = (listedEvent call cpuEid).map CpuEvent.allocAddress :=
  foldl_update (fun e : CpuEvent => e.base.eventId) CpuEvent.allocAddress _ cpuEid

theorem gpuById_isSome (call : MergeCall) (gpuEid : ℤ) :
    (call.gpuById gpuEid).isSome = true ↔ ∃ gpu ∈ call.gpuEvents, gpu.base.eventId = gpuEid := by
  have hindex := foldl_update (fun e : GpuEvent => e.base.eventId) id call.gpuEvents gpuEid
  rw [Option.map_id] at hindex
  unfold MergeCall.gpuById
  simp only [id_eq] at hindex
  rw [hindex, List.getLast?_isSome, ne_eq, List.filter_eq_nil_iff]
  simp only [decide_eq_true_eq, not_forall, not_not, exists_prop]

theorem nodeKey_mem {call : MergeCall} {g : Graph} {cpuEid addr : ℤ}
    (hkey : call.nodeKey g cpuEid = some addr) : addr ∈ g.nodes := by
  rcases Option.or_eq_some_iff.mp hkey with hlisted | ⟨-, hself⟩
  · simpa using (Option.filter_eq_some_iff.mp hlisted).2
  · split at hself
    · rename_i hmem
      exact Option.some.inj hself ▸ hmem
    · cases hself

/-- Which node is annotated depends on the addresses of the nodes alone. -/
theorem nodeKey_congr {call : MergeCall} {g g' : Graph} (h : ∀ a, a ∈ g'.nodes ↔ a ∈ g.nodes)
    (cpuEid : ℤ) : call.nodeKey g' cpuEid = call.nodeKey g cpuEid := by
  unfold MergeCall.nodeKey
  simp only [h]

theorem added_congr {call : MergeCall} {g g' : Graph} (h : ∀ a, a ∈ g'.nodes ↔ a ∈ g.nodes)
    (addr : ℤ) : added call g' addr = added call g addr := by
  funext corr
  rw [added, added, nodeKey_congr h]

theorem annotate_nil (node : GraphNode) : annotate node [] = node := by
  rw [annotate, List.append_nil]

theorem annotate_annotate (node : GraphNode) (xs ys : List GpuCorrelation) :
    annotate (annotate node xs) ys = annotate node (xs ++ ys) := by
  rw [annotate, annotate, annotate, List.append_assoc]

theorem lookup_mergeOne (call : MergeCall) (g : Graph) (corr : CorrelatedEvent) (addr : ℤ) :
    (mergeOne call g corr).nodes.lookup addr =
      (g.nodes.lookup addr).map fun node => annotate node (added call g addr corr).toList := by
  have hsame : added call g addr corr = none → g.nodes.lookup addr =
      (g.nodes.lookup addr).map fun node => annotate node (added call g addr corr).toList := by
    intro hnone
    simp [hnone, annotate_nil]
  unfold mergeOne
  cases hkey : call.nodeKey g corr.cpuEventId with
  | none => exact hsame (by simp [added, hkey])
  | some key =>
    obtain ⟨node, hnode⟩ := Option.isSome_iff_exists.mp (AList.lookup_isSome.mpr (nodeKey_mem hkey))
    dsimp only
    rw [hnode]
    cases hgpu : call.gpuById corr.gpuEventId with
    | none => exact hsame (by simp [added, hgpu])
    | some gpu =>
      by_cases heq : addr = key
      · rw [heq, AList.lookup_insert, hnode]
        simp [added, hkey, hgpu]
      · rw [AList.lookup_insert_ne heq]
        exact hsame (by simp [added, hkey, Ne.symm heq])

theorem mem_mergeOne (call : MergeCall) (g : Graph) (corr : CorrelatedEvent) (a : ℤ) :
    a ∈ (mergeOne call g corr).nodes ↔ a ∈ g.nodes := by
  rw [← AList.lookup_isSome, ← AList.lookup_isSome, lookup_mergeOne, Option.isSome_map]

/-- A merge adds annotations to the nodes and does nothing else. -/
theorem lookup_merge (call : MergeCall) (g : Graph) (addr : ℤ) :
    (mergeGpuCorrelations g call).nodes.lookup addr = (g.nodes.lookup addr).map fun node =>
      annotate node (call.correlatedEvents.filterMap (added call g addr)) := by
  unfold mergeGpuCorrelations
  induction call.correlatedEvents generalizing g with
  | nil =>
    simp [annotate_nil]
  | cons corr corrs ih =>
    rw [List.foldl_cons, ih, added_congr (mem_mergeOne call g corr), lookup_mergeOne,
      Option.map_map]
    congr 1
    funext node
    rw [Function.comp_apply, annotate_annotate, List.filterMap_cons]
    cases added call g addr corr <;> rfl

/-- There is a node wherever there was an allocation. -/
structure Merged (s : Annotated) : Prop where
  present : ∀ addr, addr ∈ s.graph.nodes ↔ (creator s.history addr).isSome = true
  attributed : Attributed s

theorem merged_init : Merged {} := by
  refine ⟨fun addr => ?_, fun addr node hnode => ?_⟩
  · simp [creator]
  · cases hnode

theorem creator_append (h h' : List CpuEvent) (addr : ℤ) :
    creator (h ++ h') addr = (creator h' addr).or (creator h addr) := by
  rw [creator, List.filter_append, List.getLast?_append]
  rfl

theorem creator_eq_none {h : List CpuEvent} {addr : ℤ}
    (hnone : ∀ e ∈ h, allocatesAt addr e = false) : creator h addr = none := by
  rw [creator, List.getLast?_eq_none_iff, List.filter_eq_nil_iff]
  intro e he
  rw [hnone e he]
  exact Bool.false_ne_true

theorem gpuCorrelations_nodeAfterDeaths (node : GraphNode) (deaths : List CpuEvent) :
    (nodeAfterDeaths node deaths).gpuCorrelations = node.gpuCorrelations := by
  unfold nodeAfterDeaths
  cases deaths.getLast? <;> rfl

/-- A call of ingest without an allocation at the address keeps the object that is there,
and one with such an allocation puts an object without annotations there. -/
theorem lookup_ingest_cases (g : Graph) (h : List CpuEvent) (call : IngestCall) (addr : ℤ) :
    (call.ingested.any (allocatesAt addr) = false ∧
        creator (h ++ call.ingested) addr = creator h addr ∧
        (ingestCall g call).nodes.lookup addr = (g.nodes.lookup addr).map fun node =>
          nodeAfterDeaths node (call.ingested.filter (freesAt addr))) ∨
      ∃ e node, call.ingested.any (allocatesAt addr) = true ∧
        creator (h ++ call.ingested) addr = some e ∧
        (ingestCall g call).nodes.lookup addr = some node ∧ node.gpuCorrelations = [] := by
  rw [lookup_ingestCall, creator_append]
  cases hany : call.ingested.any (allocatesAt addr) with
  | false =>
    have hnone : ∀ e ∈ call.ingested, allocatesAt addr e = false := by
      simpa only [List.any_eq_false, Bool.not_eq_true] using hany
    left
    rw [foldl_of_no_alloc (known_ingested call) hnone, creator_eq_none hnone, Option.none_or]
    exact ⟨rfl, rfl, rfl⟩
  | true =>
    obtain ⟨e, after, hlast⟩ := exists_lastOf (List.any_eq_true.mp hany)
    right
    rw [foldl_of_lastOf (known_ingested call) hlast, creator, hlast.getLast?, Option.some_or]
    refine ⟨e, _, rfl, rfl, rfl, ?_⟩
    rw [gpuCorrelations_nodeAfterDeaths]
    rfl

theorem merged_ingest {s : Annotated} (hs : Merged s) (call : IngestCall) :
    ∀ s', step s (.ingest call) = some s' → Merged s' := by
  intro s' hstep
  cases hstep
  refine ⟨fun addr => ?_, fun addr node hnode => ?_⟩
  · have hold := hs.present addr
    rw [← AList.lookup_isSome] at hold ⊢
    rcases lookup_ingest_cases s.graph s.history call addr with
      ⟨-, hcreator, hlookup⟩ | ⟨e, n, -, hcreator, hlookup, -⟩
    · rw [hlookup, hcreator, Option.isSome_map]
      exact hold
    · rw [hlookup, hcreator]
      exact iff_of_true rfl rfl
  · rcases lookup_ingest_cases s.graph s.history call addr with
      ⟨hany, hcreator, hlookup⟩ | ⟨e, n, hany, hcreator, hlookup, hbare⟩
    · rw [hlookup] at hnode
      obtain ⟨n, hn, rfl⟩ := Option.map_eq_some_iff.mp hnode
      obtain ⟨e, he, hall⟩ := hs.attributed addr n hn
      refine ⟨e, hcreator.trans he, ?_⟩
      dsimp only
      rw [gpuCorrelations_nodeAfterDeaths, hany]
      exact hall
    · rw [hlookup] at hnode
      cases hnode
      refine ⟨e, hcreator, ?_⟩
      dsimp only
      rw [hbare, hany]
      exact .nil

/-- The id of a node that is annotated is the one of its creator, under the condition. -/
theorem creator_of_nodeKey {s : Annotated} (hs : Merged s) {call : MergeCall} {cpuEid addr : ℤ}
    (hnameable : Nameable s.history call cpuEid)
    (hkey : call.nodeKey s.graph cpuEid = some addr) :
    ∀ last ∈ creator s.history addr, last.base.eventId = cpuEid := by
  unfold MergeCall.nodeKey at hkey
  rw [cpuAddrByEventId_eq] at hkey
  rcases Option.or_eq_some_iff.mp hkey with hlisted | ⟨hunlisted, hself⟩
  · obtain ⟨haddr, -⟩ := Option.filter_eq_some_iff.mp hlisted
    obtain ⟨e, he, rfl⟩ := Option.map_eq_some_iff.mp haddr
    exact hnameable.listed e he
  · split at hself
    · cases hself
      apply hnameable.unlisted
      intro e he
      rw [Option.filter_eq_none_iff] at hunlisted
      have habsent := hunlisted e.allocAddress (by rw [he]; rfl)
      rw [decide_eq_true_eq, hs.present, Bool.not_eq_true, Option.isSome_eq_false_iff] at habsent
      exact Option.isNone_iff_eq_none.mp habsent
    · cases hself

/-- Against the condition, some node has a creator with another id and is annotated. -/
theorem nodeKey_of_not_nameable {s : Annotated} (hs : Merged s) {call : MergeCall} {cpuEid : ℤ}
    (hnot : ¬Nameable s.history call cpuEid) :
    ∃ addr, call.nodeKey s.graph cpuEid = some addr ∧
      ∃ last ∈ creator s.history addr, last.base.eventId ≠ cpuEid := by
  by_contra hnone
  have hid : ∀ addr, call.nodeKey s.graph cpuEid = some addr →
      ∀ last ∈ creator s.history addr, last.base.eventId = cpuEid := by
    intro addr hkey last hlast
    by_contra hne
    exact hnone ⟨addr, hkey, last, hlast, hne⟩
  apply hnot
  constructor
  · intro e he last hlast
    refine hid e.allocAddress ?_ last hlast
    have hmem := (hs.present e.allocAddress).mpr (Option.isSome_of_mem hlast)
    rw [MergeCall.nodeKey, cpuAddrByEventId_eq, Option.mem_def.mp he]
    simp [hmem]
  · intro hfree last hlast
    refine hid cpuEid ?_ last hlast
    have hmem := (hs.present cpuEid).mpr (Option.isSome_of_mem hlast)
    rw [MergeCall.nodeKey, cpuAddrByEventId_eq, if_pos hmem]
    cases hlisted : listedEvent call cpuEid with
    | none => rfl
    | some e =>
      have hout : e.allocAddress ∉ s.graph.nodes := by
        rw [hs.present, hfree e hlisted]
        exact Bool.false_ne_true
      rw [Option.map_some, Option.filter_some_neg (by simpa using hout), Option.none_or]

theorem forall₂_filterMap {α β : Type*} {R : β → α → Prop} {f : α → Option β} {xs : List α}
    (h : ∀ a ∈ xs, ∀ b ∈ f a, R b a) :
    List.Forall₂ R (xs.filterMap f) (xs.filter fun a => (f a).isSome) := by
  induction xs with
  | nil => exact .nil
  | cons a xs ih =>
    have hrest := ih fun a' ha' => h a' (List.mem_cons_of_mem _ ha')
    have ha := h a (List.mem_cons_self ..)
    cases hf : f a with
    | none =>
      rw [List.filterMap_cons_none hf, List.filter_cons_of_neg (by simp [hf])]
      exact hrest
    | some b =>
      rw [List.filterMap_cons_some hf, List.filter_cons_of_pos (by simp [hf])]
      exact .cons (ha b hf) hrest

theorem exists_of_forall₂ {α β : Type*} {R : β → α → Prop} {bs : List β} {xs : List α}
    (h : List.Forall₂ R bs xs) {a : α} (ha : a ∈ xs) : ∃ b ∈ bs, R b a := by
  induction h with
  | nil => cases ha
  | cons hfirst hrest ih =>
    rcases List.mem_cons.mp ha with rfl | ha
    · exact ⟨_, List.mem_cons_self .., hfirst⟩
    · obtain ⟨b, hb, hR⟩ := ih ha
      exact ⟨b, List.mem_cons_of_mem _ hb, hR⟩

theorem added_eq_some {call : MergeCall} {g : Graph} {addr : ℤ} {corr : CorrelatedEvent}
    {ann : GpuCorrelation} (hadded : added call g addr corr = some ann) :
    call.nodeKey g corr.cpuEventId = some addr ∧
      ∃ gpu, call.gpuById corr.gpuEventId = some gpu ∧ annotation corr gpu = ann := by
  unfold added at hadded
  split at hadded
  · rename_i hkey
    exact ⟨hkey, Option.map_eq_some_iff.mp hadded⟩
  · cases hadded

theorem merged_merge {s : Annotated} (hs : Merged s) {call : MergeCall}
    (hok : NoStranger s (.merge call)) : ∀ s', step s (.merge call) = some s' → Merged s' := by
  intro s' hstep
  cases hstep
  refine ⟨fun addr => ?_, fun addr node hnode => ?_⟩
  · have hold := hs.present addr
    rw [← AList.lookup_isSome] at hold ⊢
    rw [lookup_merge, Option.isSome_map]
    exact hold
  · rw [lookup_merge] at hnode
    obtain ⟨n, hn, rfl⟩ := Option.map_eq_some_iff.mp hnode
    obtain ⟨e, he, hall⟩ := hs.attributed addr n hn
    refine ⟨e, he, List.rel_append hall (forall₂_filterMap ?_)⟩
    intro corr hcorr ann hann
    obtain ⟨hkey, gpu, hgpu, rfl⟩ := added_eq_some hann
    refine ⟨⟨gpu, rfl⟩, ?_⟩
    have hlisted := (gpuById_isSome call corr.gpuEventId).mp (Option.isSome_of_mem hgpu)
    exact (creator_of_nodeKey hs (hok corr hcorr hlisted) hkey e he).symm

theorem merged_step (s : Annotated) (call : GraphCall) (s' : Annotated) (hs : Merged s)
    (hok : NoStranger s call) (hstep : step s call = some s') : Merged s' := by
  cases call with
  | ingest call => exact merged_ingest hs call s' hstep
  | merge call => exact merged_merge hs hok s' hstep

/-- A merge against the condition annotates a node with what belongs to another object. -/
theorem stranger_step (s : Annotated) (call : GraphCall) (s' : Annotated) (hs : Merged s)
    (hnot : ¬NoStranger s call) (hstep : step s call = some s') : ¬Attributed s' := by
  intro hattributed
  cases call with
  | ingest call => exact hnot trivial
  | merge call =>
    cases hstep
    unfold NoStranger at hnot
    push Not at hnot
    obtain ⟨corr, hcorr, hlisted, hstranger⟩ := hnot
    obtain ⟨addr, hkey, last, hlast, hne⟩ := nodeKey_of_not_nameable hs hstranger
    obtain ⟨node, hnode⟩ := Option.isSome_iff_exists.mp (AList.lookup_isSome.mpr (nodeKey_mem hkey))
    have hnode' := lookup_merge call s.graph addr
    rw [hnode] at hnode'
    obtain ⟨e, he, hall⟩ := hattributed addr _ hnode'
    have hnew : (added call s.graph addr corr).isSome = true := by
      rw [added, if_pos hkey, Option.isSome_map]
      exact (gpuById_isSome call corr.gpuEventId).mpr hlisted
    have hmem : corr ∈ s.origins addr ++ call.correlatedEvents.filter fun corr =>
        (added call s.graph addr corr).isSome :=
      List.mem_append_right _ (List.mem_filter.mpr ⟨hcorr, hnew⟩)
    obtain ⟨ann, -, -, hid⟩ := exists_of_forall₂ hall hmem
    rw [Option.mem_def.mp hlast] at he
    cases he
    exact hne hid.symm

theorem run_step (s : Annotated) (calls : List GraphCall) : ∃ s', run step s calls = some s' := by
  induction calls generalizing s with
  | nil => exact ⟨s, rfl⟩
  | cons call calls ih => cases call <;> exact ih _

/-- In every state that a sequence of calls comes through, every annotation is at the
node of the object it is about, exactly if no merge meets a stranger at the address. -/
theorem attributed_iff_noStranger (calls : List GraphCall) :
    Always step Attributed {} calls ↔ Along step NoStranger {} calls := by
  obtain ⟨s', hrun⟩ := run_step {} calls
  exact always_iff_along (fun _ h => h.attributed) merged_step stranger_step merged_init hrun

def GraphCall.ingested : GraphCall → List CpuEvent
  | .ingest call => call.ingested
  | .merge _ => []

/-- Every CPU event that is ingested has its own id, every GPU event of a merge too, and
cpu_events lists events that are ingested. -/
structure DistinctIds (calls : List GraphCall) : Prop where
  cpu : ((calls.flatMap GraphCall.ingested).map fun e => e.base.eventId).Nodup
  gpu : ∀ call, .merge call ∈ calls → (call.gpuEvents.map fun e => e.base.eventId).Nodup
  listed : ∀ call, .merge call ∈ calls →
    ∀ e ∈ call.cpuEvents.getD [], e ∈ calls.flatMap GraphCall.ingested

/-- Two arrays of which the second lies where the first one was. -/
def reusedEvents : List CpuEvent :=
  [allocAt 1 10 100 64 0, deallocAt 2 20 100, allocAt 3 30 100 8 0]

/-- A transfer of the first array, merged when the second one is there. -/
def reusedMerge : MergeCall where
  correlatedEvents := [makeCorrelated 1 7 .hard .addressMatch 5]
  gpuEvents := [transferAt 7 15 100 0 64]
  cpuEvents := some reusedEvents

def reusedAddress : List GraphCall :=
  [.ingest { arrivals := reusedEvents.map fun event => { event } }, .merge reusedMerge]

theorem distinctIds_reusedAddress : DistinctIds reusedAddress := by
  refine ⟨by decide, ?_, ?_⟩
  · intro call hcall
    have heq : call = reusedMerge := by simpa [reusedAddress] using hcall
    rw [heq]
    decide
  · intro call hcall
    have heq : call = reusedMerge := by simpa [reusedAddress] using hcall
    rw [heq]
    decide

theorem reused_address_annotated :
    ¬∀ calls, DistinctIds calls → Always step Attributed {} calls := by
  intro hall
  have halways := hall reusedAddress distinctIds_reusedAddress
  have hattributed := ((halways.2 _ rfl).2 _ rfl) 100 _ rfl
  obtain ⟨e, he, hforall⟩ := hattributed
  cases he
  cases hforall with
  | cons hfirst _ => exact absurd hfirst.2 (by decide)

end HpcProfiler.GraphMerge
