import HpcProfiler.DecimalText
import HpcProfiler.TraceGraph

/-!
The nodes of the graph of a trace. The id of an event ends with its place in the input,
and it has one colon more than the id of a hub, so that no node of an event is dropped for
its id: they stand in the graph in the order in which the events are processed.
-/

namespace HpcProfiler.GraphNodes

open TraceEvents TraceGraph DecimalText ListWalks StableSort

/-- The form of the ids of hubs. -/
def IsHubId (id : String) : Prop := ∃ text : String, ':' ∉ text.toList ∧ id = "corr:" ++ text

def isHub (n : Node) : Bool := n.group = "corr"

/-- Behind some events, the nodes that are not hubs are theirs. -/
structure EventsKept (done : List Entry) (nodes : List Node) : Prop where
  eventNodes : (nodes.filter fun n => !isHub n).map some =
    done.map fun x => (shortLabel x.1).map (eventNode x)
  hubs : ∀ n ∈ nodes, isHub n = true → IsHubId n.id

theorem eventKey_front (x : Entry) : ∃ front : String, ':' ∈ front.toList ∧
    eventKey x = front ++ ":" ++ toString (x.2 : ℤ) := by
  unfold eventKey
  split
  · rename_i t _
    exact ⟨textOf x.1 "type" "evt" ++ ":" ++ toString t, by simp, rfl⟩
  · exact ⟨textOf x.1 "type" "evt" ++ ":" ++ "idx", by simp, rfl⟩

/-- Events at different places have different ids. -/
theorem place_of_eventKey {x y : Entry} (h : eventKey x = eventKey y) : x.2 = y.2 := by
  obtain ⟨front, -, hx⟩ := eventKey_front x
  obtain ⟨front', -, hy⟩ := eventKey_front y
  rw [hx, hy] at h
  exact Int.ofNat_inj.mp (name_colon_numeral h).2

theorem eventKey_not_hub (x : Entry) : ¬IsHubId (eventKey x) := by
  rintro ⟨text, htext, heq⟩
  obtain ⟨front, hfront, hx⟩ := eventKey_front x
  rw [hx] at heq
  have hlist := congrArg String.toList heq
  have hhub : "corr:".toList = "corr".toList ++ [':'] := rfl
  simp only [String.toList_append, List.append_assoc, hhub] at hlist
  obtain ⟨hcorr, -⟩ := split_at_last (colon_not_mem_numeral x.2) htext hlist
  rw [hcorr] at hfront
  revert hfront
  decide

theorem isHubId_of_corr {e : Event} {key : ℤ} {corr : Value} (h : corrOf e = some (key, corr)) :
    IsHubId ("corr:" ++ corr.text) := by
  refine ⟨corr.text, ?_, rfl⟩
  unfold corrOf at h
  split at h
  · cases h
    exact colon_not_mem_numeral _
  · rename_i b _
    cases h
    cases b <;> decide
  · cases h

theorem isHub_eventNode (x : Entry) (label : Value) : isHub (eventNode x label) = false := by
  have hgroup : nodeGroup x.1 ≠ "corr" := by
    unfold nodeGroup
    split_ifs <;> decide
  exact decide_eq_false hgroup

theorem addNode_of_not_mem {n : Node} {nodes : List Node} (h : n.id ∉ nodes.map Node.id) :
    addNode n nodes = nodes ++ [n] :=
  if_neg h

theorem mem_addNode {n m : Node} {nodes : List Node} (h : n ∈ addNode m nodes) :
    n ∈ nodes ∨ n = m := by
  unfold addNode at h
  split at h
  · exact .inl h
  · exact (List.mem_append.mp h).imp_right List.mem_singleton.mp

theorem filter_addNode {p : Node → Bool} {n : Node} (nodes : List Node) (h : p n = false) :
    (addNode n nodes).filter p = nodes.filter p := by
  unfold addNode
  split
  · rfl
  · rw [List.filter_append, List.filter_cons_of_neg (by simp [h]), List.filter_nil,
      List.append_nil]

theorem nodup_addNode {n : Node} {nodes : List Node} (h : (nodes.map Node.id).Nodup) :
    ((addNode n nodes).map Node.id).Nodup := by
  unfold addNode
  split
  · exact h
  · rename_i hid
    rw [List.map_append, List.map_singleton, ← List.concat_eq_append]
    exact List.Nodup.concat hid h

section

variable {done : List Entry} {nodes : List Node} {x : Entry}

theorem EventsKept.mem_ids (h : EventsKept done nodes) {id : String}
    (hid : id ∈ nodes.map Node.id) : IsHubId id ∨ ∃ y ∈ done, id = eventKey y := by
  obtain ⟨n, hn, rfl⟩ := List.mem_map.mp hid
  by_cases hhub : isHub n = true
  · exact .inl (h.hubs n hn hhub)
  · right
    have hmem : some n ∈ (nodes.filter fun n => !isHub n).map some :=
      List.mem_map_of_mem (List.mem_filter.mpr ⟨hn, by simpa using hhub⟩)
    rw [h.eventNodes] at hmem
    obtain ⟨y, hy, heq⟩ := List.mem_map.mp hmem
    obtain ⟨label, -, rfl⟩ := Option.map_eq_some_iff.mp heq
    exact ⟨y, hy, rfl⟩

/-- An event at a new place has a new id. -/
theorem EventsKept.fresh (h : EventsKept done nodes) (hx : x.2 ∉ done.map Prod.snd) :
    eventKey x ∉ nodes.map Node.id := by
  intro hid
  rcases h.mem_ids hid with hhub | ⟨y, hy, heq⟩
  · exact eventKey_not_hub x hhub
  · rw [place_of_eventKey heq] at hx
    exact hx (List.mem_map_of_mem hy)

theorem EventsKept.addEventNode (h : EventsKept done nodes) (hx : x.2 ∉ done.map Prod.snd)
    {label : Value} (hlabel : shortLabel x.1 = some label) :
    EventsKept (done ++ [x]) (addNode (eventNode x label) nodes) := by
  rw [addNode_of_not_mem (h.fresh hx)]
  refine ⟨?_, ?_⟩
  · rw [List.filter_append, List.filter_cons_of_pos (by simp [isHub_eventNode]), List.map_append,
      List.map_append, h.eventNodes, List.map_singleton, hlabel]
    rfl
  · intro n hn hhub
    rcases List.mem_append.mp hn with hold | hnew
    · exact h.hubs n hold hhub
    · rw [List.mem_singleton.mp hnew, isHub_eventNode] at hhub
      cases hhub

theorem EventsKept.addHub (h : EventsKept done nodes) {key : ℤ} {corr : Value}
    (hcorr : corrOf x.1 = some (key, corr)) (t : Option ℤ) :
    EventsKept done (addNode (hubNode corr t) nodes) := by
  refine ⟨?_, ?_⟩
  · rw [filter_addNode nodes rfl, h.eventNodes]
  · intro n hn hhub
    rcases mem_addNode hn with hold | rfl
    · exact h.hubs n hold hhub
    · exact isHubId_of_corr hcorr

theorem EventsKept.addCorr {s : Builder} (h : EventsKept done s.nodes) (x : Entry) :
    EventsKept done (addCorr x s).nodes := by
  unfold TraceGraph.addCorr
  split
  · exact h
  · rename_i key corr hcorr
    split
    · exact h
    · exact h.addHub hcorr _

@[simp] theorem addMem_nodes (x : Entry) (s : Builder) : (addMem x s).nodes = s.nodes := by
  unfold addMem
  split
  · rfl
  · split <;> rfl

/-- One round adds the node of its event. -/
theorem EventsKept.addEvent {s s' : Builder} (h : EventsKept done s.nodes)
    (hx : x.2 ∉ done.map Prod.snd) (hstep : addEvent s x = some s') :
    EventsKept (done ++ [x]) s'.nodes := by
  obtain ⟨label, hlabel, rfl⟩ := Option.map_eq_some_iff.mp hstep
  rw [addMem_nodes]
  exact EventsKept.addCorr (h.addEventNode hx hlabel) x

theorem eventsKept_empty : EventsKept [] emptyBuilder.nodes :=
  ⟨rfl, fun n hn => by cases hn⟩

/-- What one round keeps, a run keeps. -/
theorem addEvents_keeps {I : List Entry → Builder → Prop} {done xs : List Entry}
    {s s' : Builder} (hinit : I done s) (hplaces : ((done ++ xs).map Prod.snd).Nodup)
    (hstep : ∀ done x s s', I done s → x ∈ xs → x.2 ∉ done.map Prod.snd →
      TraceGraph.addEvent s x = some s' → I (done ++ [x]) s')
    (hrun : addEvents s xs = some s') : I (done ++ xs) s' := by
  induction xs generalizing done s with
  | nil =>
    cases hrun
    rwa [List.append_nil]
  | cons x xs ih =>
    obtain ⟨next, hnext, hrest⟩ := Option.bind_eq_some_iff.mp hrun
    have hx : x.2 ∉ done.map Prod.snd := by
      rw [List.map_append, List.map_cons, List.nodup_middle, List.nodup_cons] at hplaces
      exact fun hmem => hplaces.1 (List.mem_append_left _ hmem)
    have hdone := hstep done x s next hinit (List.mem_cons_self ..) hx hnext
    rw [List.append_cons] at hplaces ⊢
    exact ih hdone hplaces (fun done y s s' hI hy => hstep done y s s' hI
      (List.mem_cons_of_mem _ hy)) hrest

theorem addEvents_isSome_iff {s : Builder} {xs : List Entry} :
    (addEvents s xs).isSome ↔ ∀ x ∈ xs, (shortLabel x.1).isSome := by
  induction xs generalizing s with
  | nil => simp [addEvents]
  | cons x xs ih =>
    rw [List.forall_mem_cons, addEvents, TraceGraph.addEvent]
    cases shortLabel x.1 with
    | none => simp
    | some label =>
      rw [Option.map_some, Option.bind_some, ih]
      exact (and_iff_right rfl).symm

end

theorem eventsSorted_perm (events : List Event) : (eventsSorted events).Perm events.zipIdx :=
  sortBy_perm _ _

/-- The sorted events are the events. -/
theorem eventsSorted_fst (events : List Event) :
    ((eventsSorted events).map Prod.fst).Perm events :=
  ((eventsSorted_perm events).map Prod.fst).trans (.of_eq (List.zipIdx_map_fst ..))

theorem eventsSorted_places (events : List Event) :
    ((eventsSorted events).map Prod.snd).Nodup := by
  have hplaces : (events.zipIdx.map Prod.snd).Nodup := by
    rw [List.zipIdx_map_snd]
    exact List.nodup_range'
  exact ((eventsSorted_perm events).map Prod.snd).nodup_iff.mpr hplaces

theorem keptEvents_sublist {events : List Event} {limit : ℤ} {kept : List Entry}
    (h : keptEvents events limit = some kept) : kept.Sublist (eventsSorted events) := by
  obtain ⟨keep, -, rfl⟩ := Option.map_eq_some_iff.mp h
  exact List.filter_sublist

theorem keptEvents_places {events : List Event} {limit : ℤ} {kept : List Entry}
    (h : keptEvents events limit = some kept) : (kept.map Prod.snd).Nodup :=
  (eventsSorted_places events).sublist ((keptEvents_sublist h).map Prod.snd)

/-- The graph of a trace has the nodes of the events that are kept. -/
theorem buildGraph_eventsKept {events : List Event} {limit : ℤ} {kept : List Entry} {g : Graph}
    (hkept : keptEvents events limit = some kept) (h : buildGraph events limit = some g) :
    EventsKept kept g.nodes := by
  rw [buildGraph, hkept, Option.bind_some] at h
  obtain ⟨s, hrun, rfl⟩ := Option.map_eq_some_iff.mp h
  have hplaces := keptEvents_places hkept
  rw [← List.nil_append kept] at hplaces ⊢
  exact addEvents_keeps (I := fun done s => EventsKept done s.nodes) eventsKept_empty hplaces
    (fun done x s s' hI _ hx hstep => hI.addEvent hx hstep) hrun

end HpcProfiler.GraphNodes
