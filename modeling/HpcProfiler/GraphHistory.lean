import HpcProfiler.ObjectGraph
import Mathlib.Data.List.TakeWhile

/-!
The node table of an object graph as the history of all ingested events gives it. The
batches in which the events come make no difference. The last allocation at an address
decides its node, and the last death at the address is the one the node remembers. The
edges asked for make a difference only where the test of the type of a referent raises: the
call then leaves the rest of its events out.
-/

namespace HpcProfiler.GraphHistory

open Correlation Events ObjectGraph

/-- A call of ingest, with what get_referents gives for each event if it is asked. -/
structure IngestCall where
  arrivals : List Arrival
  includeEdges : Bool := false

/-- Without edges no referents are asked for. -/
def IngestCall.given (call : IngestCall) : List Arrival :=
  if call.includeEdges then call.arrivals else call.arrivals.map fun a => { event := a.event }

/-- The arrival up to a referent of which the test of the type raises. -/
def cut (a : Arrival) : Arrival := { a with referents := a.referents.map tested }

/-- What is ingested before an event raises; an allocation is, with the edges up to there. -/
def takenIn : List Arrival → List Arrival
  | [] => []
  | a :: arrivals =>
    match a.event.isDealloc with
    | none => []
    | some false => if a.testRaises then [cut a] else a :: takenIn arrivals
    | some true => a :: takenIn arrivals

/-- The events of a call that are ingested. -/
def IngestCall.ingested (call : IngestCall) : List CpuEvent :=
  (takenIn call.given).map Arrival.event

def ingestCall (g : Graph) (call : IngestCall) : Graph := ingest g call.given

def graphAfter (calls : List IngestCall) : Graph := calls.foldl ingestCall {}

/-- All ingested events, in their order. -/
def history (calls : List IngestCall) : List CpuEvent := calls.flatMap IngestCall.ingested

def allocatesAt (addr : ℤ) (e : CpuEvent) : Bool :=
  e.isDealloc = some false && e.allocAddress = addr

def freesAt (addr : ℤ) (e : CpuEvent) : Bool :=
  e.isDealloc = some true && e.allocAddress = addr

/-- The last event that passes the test, with the events behind it. -/
def LastOf (test : CpuEvent → Bool) (h : List CpuEvent) (e : CpuEvent)
    (after : List CpuEvent) : Prop :=
  ∃ before, h = before ++ e :: after ∧ test e = true ∧ ∀ later ∈ after, test later = false

/-- The event of the allocation that made the node at the address. -/
def creator (h : List CpuEvent) (addr : ℤ) : Option CpuEvent :=
  (h.filter (allocatesAt addr)).getLast?

/-- The node has the fields of the event of the allocation. -/
structure Shows (node : GraphNode) (e : CpuEvent) : Prop where
  nodeId : node.nodeId = e.allocAddress
  objectType : node.objectType = e.objectType
  size : node.sizeBytes = e.allocSizeBytes
  refCount : node.refCount = e.refCount
  gcGeneration : node.gcGeneration = e.gcGeneration
  callstack : node.callstack = e.callstack
  firstSeen : node.firstSeenNs = e.base.timestampNs

/-- The node after deaths: the last of them is remembered. -/
def nodeAfterDeaths (node : GraphNode) (deaths : List CpuEvent) : GraphNode :=
  match deaths.getLast? with
  | none => node
  | some d => node.markDead d.base.timestampNs

theorem tested_tested (referents : List Referent) :
    tested (tested referents) = tested referents := List.takeWhile_idem

theorem ingestAlloc_cut (g : Graph) (a : Arrival) : ingestAlloc g (cut a) = ingestAlloc g a := by
  unfold ingestAlloc cut
  cases a.referents with
  | none => rfl
  | some referents =>
    dsimp only [Option.map_some]
    unfold buildEdges
    rw [tested_tested]

theorem cut_testRaises (a : Arrival) : (cut a).testRaises = false := by
  unfold Arrival.testRaises cut
  cases a.referents with
  | none => rfl
  | some referents =>
    refine List.any_eq_false.mpr fun ref href => ?_
    have htest := List.mem_takeWhile_imp (p := fun ref : Referent => ref.skipType.isSome) href
    simpa [Option.isSome_iff_ne_none] using htest

theorem complete_takenIn (arrivals : List Arrival) : Complete (takenIn arrivals) := by
  induction arrivals with
  | nil =>
    intro a ha
    cases ha
  | cons a arrivals ih =>
    unfold takenIn
    cases hdead : a.event.isDealloc with
    | none =>
      intro b hb
      cases hb
    | some dead =>
      cases dead with
      | false =>
        dsimp only
        split
        · intro b hb
          rw [List.mem_singleton.mp hb]
          exact .alloc hdead (cut_testRaises a)
        · rename_i htests
          exact List.forall_mem_cons.mpr ⟨.alloc hdead (Bool.eq_false_iff.mpr htests), ih⟩
      | true => exact List.forall_mem_cons.mpr ⟨.death hdead, ih⟩

theorem ingest_takenIn (g : Graph) (arrivals : List Arrival) :
    ingest g (takenIn arrivals) = ingest g arrivals := by
  induction arrivals generalizing g with
  | nil => rfl
  | cons a arrivals ih =>
    rw [takenIn, ingest]
    cases hdead : a.event.isDealloc with
    | none => rfl
    | some dead =>
      cases dead with
      | false =>
        dsimp only
        split
        · rw [ingest_alloc (a := cut a) hdead (cut_testRaises a), ingestAlloc_cut]
          rfl
        · rename_i htests
          rw [ingest_alloc hdead (Bool.eq_false_iff.mpr htests)]
          exact ih _
      | true =>
        dsimp only
        rw [ingest_death hdead]
        exact ih _

/-- The calls ingest one list of events after another. -/
theorem foldl_ingestCall (g : Graph) (calls : List IngestCall) :
    calls.foldl ingestCall g = ingest g (calls.flatMap fun call => takenIn call.given) := by
  induction calls generalizing g with
  | nil => rfl
  | cons call calls ih =>
    rw [List.foldl_cons, ih, List.flatMap_cons, ingest_append g (complete_takenIn _),
      ingest_takenIn, ingestCall]

theorem complete_flatMap (calls : List IngestCall) :
    Complete (calls.flatMap fun call => takenIn call.given) := by
  intro a ha
  obtain ⟨call, -, ha⟩ := List.mem_flatMap.mp ha
  exact complete_takenIn _ a ha

theorem map_event_flatMap (calls : List IngestCall) :
    (calls.flatMap fun call => takenIn call.given).map Arrival.event = history calls :=
  List.map_flatMap

/-- The referents of the events make no difference to the nodes where none raises. -/
theorem ingest_nodes_congr {arrivals arrivals' : List Arrival} {g g' : Graph}
    (hcomplete : Complete arrivals) (hcomplete' : Complete arrivals') (hnodes : g.nodes = g'.nodes)
    (hevents : arrivals.map Arrival.event = arrivals'.map Arrival.event) :
    (ingest g arrivals).nodes = (ingest g' arrivals').nodes := by
  induction arrivals generalizing arrivals' g g' with
  | nil =>
    rw [List.map_eq_nil_iff.mp hevents.symm]
    exact hnodes
  | cons a arrivals ih =>
    cases arrivals' with
    | nil => cases hevents
    | cons a' arrivals' =>
      obtain ⟨hevent, hrest⟩ := List.cons.inj hevents
      obtain ⟨hpasses, hcomplete⟩ := complete_cons hcomplete
      obtain ⟨hpasses', hcomplete'⟩ := complete_cons hcomplete'
      cases hpasses with
      | alloc hdead htests =>
        cases hpasses' with
        | death hdead' =>
          rw [← hevent, hdead] at hdead'
          cases hdead'
        | alloc hdead' htests' =>
          rw [ingest_alloc hdead htests, ingest_alloc hdead' htests']
          refine ih hcomplete hcomplete' ?_ hrest
          rw [ingestAlloc_nodes, ingestAlloc_nodes, hnodes, hevent]
      | death hdead =>
        have hdead' : a'.event.isDealloc = some true := by rw [← hevent, hdead]
        rw [ingest_death hdead, ingest_death hdead']
        refine ih hcomplete hcomplete' ?_ hrest
        unfold ingestDealloc
        rw [hnodes, hevent]
        split <;> simp [hnodes]

/-- The node at an address as the events of a call leave it. -/
theorem lookup_ingestCall (g : Graph) (call : IngestCall) (addr : ℤ) :
    (ingestCall g call).nodes.lookup addr =
      (call.ingested.filter fun e => e.allocAddress = addr).foldl nodeAfter
        (g.nodes.lookup addr) := by
  rw [ingestCall, ← ingest_takenIn, lookup_ingest g (complete_takenIn _), IngestCall.ingested]

/-- The node at an address as its events make it. -/
theorem lookup_graphAfter (calls : List IngestCall) (addr : ℤ) :
    (graphAfter calls).nodes.lookup addr =
      ((history calls).filter fun e => e.allocAddress = addr).foldl nodeAfter none := by
  rw [graphAfter, foldl_ingestCall, lookup_ingest {} (complete_flatMap calls),
    map_event_flatMap]
  rfl

/-- Every event says whether it reports a death. -/
def Known (events : List CpuEvent) : Prop :=
  ∀ e ∈ events, e.isDealloc = some true ∨ e.isDealloc = some false

theorem known_ingested (call : IngestCall) : Known call.ingested := by
  intro e he
  obtain ⟨a, ha, rfl⟩ := List.mem_map.mp he
  cases complete_takenIn call.given a ha with
  | alloc hdead => exact .inr hdead
  | death hdead => exact .inl hdead

theorem known_history (calls : List IngestCall) : Known (history calls) := by
  intro e he
  obtain ⟨call, -, hcall⟩ := List.mem_flatMap.mp he
  exact known_ingested call e hcall

theorem exists_lastOf {test : CpuEvent → Bool} {h : List CpuEvent}
    (hexists : ∃ e ∈ h, test e = true) : ∃ e after, LastOf test h e after := by
  induction h with
  | nil =>
    obtain ⟨e, he, -⟩ := hexists
    cases he
  | cons first h ih =>
    by_cases hlater : ∃ e ∈ h, test e = true
    · obtain ⟨e, after, before, hsplit, hlast⟩ := ih hlater
      exact ⟨e, after, first :: before, by rw [hsplit, List.cons_append], hlast⟩
    · obtain ⟨e, he, hpass⟩ := hexists
      rcases List.mem_cons.mp he with rfl | he
      · refine ⟨e, h, [], rfl, hpass, ?_⟩
        intro later hmem
        exact Bool.eq_false_iff.mpr fun htest => hlater ⟨later, hmem, htest⟩
      · exact absurd ⟨e, he, hpass⟩ hlater

theorem foldl_deaths (node : Option GraphNode) {deaths : List CpuEvent}
    (hdeaths : ∀ d ∈ deaths, d.isDealloc = some true) :
    deaths.foldl nodeAfter node = node.map fun n => nodeAfterDeaths n deaths := by
  induction deaths using List.reverseRecOn with
  | nil => simp [nodeAfterDeaths]
  | append_singleton deaths d ih =>
    have hd := hdeaths d (List.mem_append_right _ (List.mem_singleton_self d))
    rw [List.foldl_append, ih fun d' hd' => hdeaths d' (List.mem_append_left _ hd'),
      List.foldl_cons, List.foldl_nil, nodeAfter, if_pos hd, Option.map_map]
    congr 1
    funext n
    rw [Function.comp_apply, nodeAfterDeaths, nodeAfterDeaths, List.getLast?_concat]
    cases deaths.getLast? <;> rfl

section

variable {h : List CpuEvent} {addr : ℤ}

/-- Without an allocation among them, the events at an address are deaths. -/
theorem filter_eq_frees (hknown : Known h) (hnone : ∀ e ∈ h, allocatesAt addr e = false) :
    (h.filter fun e => e.allocAddress = addr) = h.filter (freesAt addr) := by
  apply List.filter_congr
  intro e he
  have hno := hnone e he
  by_cases haddr : e.allocAddress = addr
  · rcases hknown e he with hdead | halloc
    · simp [freesAt, haddr, hdead]
    · simp [allocatesAt, halloc, haddr] at hno
  · simp [freesAt, haddr]

theorem isDealloc_of_frees : ∀ d ∈ h.filter (freesAt addr), d.isDealloc = some true := by
  intro d hd
  have hfrees := List.of_mem_filter hd
  simp only [freesAt, Bool.and_eq_true, decide_eq_true_eq] at hfrees
  exact hfrees.1

theorem foldl_of_no_alloc (hknown : Known h) (hnone : ∀ e ∈ h, allocatesAt addr e = false)
    (node : Option GraphNode) :
    (h.filter fun e => e.allocAddress = addr).foldl nodeAfter node =
      node.map fun n => nodeAfterDeaths n (h.filter (freesAt addr)) := by
  rw [filter_eq_frees hknown hnone]
  exact foldl_deaths node isDealloc_of_frees

/-- The node at an address is made by the last allocation there and marked by the deaths
there since. -/
theorem foldl_of_lastOf (hknown : Known h) {e : CpuEvent} {after : List CpuEvent}
    (hlast : LastOf (allocatesAt addr) h e after) (node : Option GraphNode) :
    (h.filter fun e => e.allocAddress = addr).foldl nodeAfter node =
      some (nodeAfterDeaths (nodeOf e) (after.filter (freesAt addr))) := by
  obtain ⟨before, rfl, halloc, hafter⟩ := hlast
  simp only [allocatesAt, Bool.and_eq_true, decide_eq_true_eq] at halloc
  obtain ⟨hdead, haddr⟩ := halloc
  have hrest : Known after :=
    fun d hd => hknown d (List.mem_append_right _ (List.mem_cons_of_mem _ hd))
  have hmade : ∀ node, nodeAfter node e = some (nodeOf e) := by
    intro node
    rw [nodeAfter, hdead, if_neg (by simp)]
  rw [List.filter_append, List.filter_cons_of_pos (by simpa using haddr), List.foldl_append,
    List.foldl_cons, hmade, foldl_of_no_alloc hrest hafter, Option.map_some]

end

theorem mem_nodes_iff {calls : List IngestCall} {addr : ℤ} :
    addr ∈ (graphAfter calls).nodes ↔ ∃ e ∈ history calls, allocatesAt addr e = true := by
  rw [← AList.lookup_isSome, lookup_graphAfter]
  constructor
  · intro hsome
    by_contra hnone
    rw [foldl_of_no_alloc (known_history calls)
      fun e he => Bool.eq_false_iff.mpr fun h => hnone ⟨e, he, h⟩] at hsome
    cases hsome
  · intro hexists
    obtain ⟨e, after, hlast⟩ := exists_lastOf hexists
    rw [foldl_of_lastOf (known_history calls) hlast]
    rfl

theorem shows_nodeAfterDeaths (e : CpuEvent) (deaths : List CpuEvent) :
    Shows (nodeAfterDeaths (nodeOf e) deaths) e := by
  unfold nodeAfterDeaths
  cases deaths.getLast? <;> exact ⟨rfl, rfl, rfl, rfl, rfl, rfl, rfl⟩

theorem alive_nodeAfterDeaths (e : CpuEvent) (deaths : List CpuEvent) :
    (nodeAfterDeaths (nodeOf e) deaths).alive = true ↔ deaths = [] := by
  unfold nodeAfterDeaths
  cases hlast : deaths.getLast? with
  | none => exact ⟨fun _ => List.getLast?_eq_none_iff.mp hlast, fun _ => rfl⟩
  | some d =>
    refine ⟨fun h => ?_, fun h => ?_⟩
    · cases h
    · rw [h] at hlast
      cases hlast

theorem LastOf.getLast? {test : CpuEvent → Bool} {h after : List CpuEvent} {e : CpuEvent}
    (hlast : LastOf test h e after) : (h.filter test).getLast? = some e := by
  obtain ⟨before, rfl, hpass, hafter⟩ := hlast
  have hnone : after.filter test = [] := by
    rw [List.filter_eq_nil_iff]
    intro later hlater
    rw [hafter later hlater]
    exact Bool.false_ne_true
  rw [List.filter_append, List.filter_cons_of_pos hpass, hnone, List.getLast?_concat]

theorem lastOf_of_getLast? {test : CpuEvent → Bool} {h : List CpuEvent} {e : CpuEvent}
    (hlast : (h.filter test).getLast? = some e) : ∃ after, LastOf test h e after := by
  have hmem := List.mem_of_getLast? hlast
  obtain ⟨e', after, hlast'⟩ :=
    exists_lastOf ⟨e, List.mem_of_mem_filter hmem, List.of_mem_filter hmem⟩
  rw [hlast'.getLast?] at hlast
  exact ⟨after, Option.some.inj hlast ▸ hlast'⟩

theorem LastOf.append_left {test : CpuEvent → Bool} {h after : List CpuEvent} {e : CpuEvent}
    (hlast : LastOf test h e after) (earlier : List CpuEvent) :
    LastOf test (earlier ++ h) e after := by
  obtain ⟨before, rfl, hpass, hafter⟩ := hlast
  exact ⟨earlier ++ before, by rw [List.append_assoc], hpass, hafter⟩

/-- What the history says about the node at an address. -/
structure FromHistory (h : List CpuEvent) (addr : ℤ) (node : Option GraphNode) : Prop where
  present : node.isSome = true ↔ ∃ e ∈ h, allocatesAt addr e = true
  shows : ∀ e after, LastOf (allocatesAt addr) h e after → ∀ n ∈ node, Shows n e
  alive : ∀ e after, LastOf (allocatesAt addr) h e after → ∀ n ∈ node,
    (n.alive = true ↔ ∀ d ∈ after, freesAt addr d = false)
  lastSeen : ∀ n ∈ node, n.alive = false → ∃ d later, LastOf (freesAt addr) h d later ∧
    n.lastSeenNs = some d.base.timestampNs

theorem fromHistory_graphAfter (calls : List IngestCall) (addr : ℤ) :
    FromHistory (history calls) addr ((graphAfter calls).nodes.lookup addr) := by
  have hlookup : ∀ e after, LastOf (allocatesAt addr) (history calls) e after →
      ∀ n ∈ (graphAfter calls).nodes.lookup addr,
        n = nodeAfterDeaths (nodeOf e) (after.filter (freesAt addr)) := by
    intro e after hlast n hn
    rw [lookup_graphAfter, foldl_of_lastOf (known_history calls) hlast] at hn
    exact (Option.some.inj hn).symm
  refine ⟨?_, ?_, ?_, ?_⟩
  · rw [AList.lookup_isSome]
    exact mem_nodes_iff
  · intro e after hlast n hn
    rw [hlookup e after hlast n hn]
    exact shows_nodeAfterDeaths e _
  · intro e after hlast n hn
    rw [hlookup e after hlast n hn, alive_nodeAfterDeaths, List.filter_eq_nil_iff]
    simp only [Bool.not_eq_true]
  · intro n hn hdead
    have hsome : ((graphAfter calls).nodes.lookup addr).isSome = true :=
      Option.isSome_of_mem hn
    rw [AList.lookup_isSome] at hsome
    obtain ⟨e, after, hlast⟩ := exists_lastOf (mem_nodes_iff.mp hsome)
    have hnode := hlookup e after hlast n hn
    cases hdeath : (after.filter (freesAt addr)).getLast? with
    | none =>
      rw [hnode, nodeAfterDeaths, hdeath] at hdead
      cases hdead
    | some d =>
      obtain ⟨later, hlater⟩ := lastOf_of_getLast? hdeath
      obtain ⟨before, hsplit, -⟩ := hlast
      refine ⟨d, later, ?_, ?_⟩
      · rw [hsplit, ← List.singleton_append, ← List.append_assoc]
        exact hlater.append_left _
      · rw [hnode, nodeAfterDeaths, hdeath]
        rfl

/-! What a call is handed and what it ingests. -/

/-- The arrivals up to one without is_dealloc. -/
def whole (arrivals : List Arrival) : List Arrival :=
  arrivals.takeWhile fun a => a.event.isDealloc.isSome

/-- The events that a call is handed, up to one without is_dealloc. -/
def IngestCall.handed (call : IngestCall) : List CpuEvent :=
  (call.arrivals.map Arrival.event).takeWhile fun e => e.isDealloc.isSome

/-- All events handed to the calls, in their order. -/
def handedIn (calls : List IngestCall) : List CpuEvent := calls.flatMap IngestCall.handed

/-- No test of a type raises at a referent of an allocation that other events follow in the
call. -/
def IngestCall.Passes (call : IngestCall) : Prop :=
  ∀ a ∈ (whole call.given).dropLast, a.event.isDealloc = some false → a.testRaises = false

theorem map_event_whole (call : IngestCall) :
    (whole call.given).map Arrival.event = call.handed := by
  have hevents : call.given.map Arrival.event = call.arrivals.map Arrival.event := by
    unfold IngestCall.given
    split
    · rfl
    · rw [List.map_map]
      rfl
  rw [IngestCall.handed, ← hevents, List.takeWhile_map]
  rfl

/-- The test of a type that raises is at the last event, or there is none. -/
theorem takenIn_eq_whole_iff (arrivals : List Arrival) :
    (takenIn arrivals).map Arrival.event = (whole arrivals).map Arrival.event ↔
      ∀ a ∈ (whole arrivals).dropLast, a.event.isDealloc = some false → a.testRaises = false := by
  induction arrivals with
  | nil => simp [takenIn, whole]
  | cons a arrivals ih =>
    have hmore : ∀ dead, a.event.isDealloc = some dead →
        whole (a :: arrivals) = a :: whole arrivals := by
      intro dead hdead
      exact List.takeWhile_cons_of_pos (by simp [hdead])
    have hon : takenIn (a :: arrivals) = a :: takenIn arrivals →
        whole (a :: arrivals) = a :: whole arrivals →
        (a.event.isDealloc = some false → a.testRaises = false) →
        ((takenIn (a :: arrivals)).map Arrival.event = (whole (a :: arrivals)).map Arrival.event ↔
          ∀ b ∈ (whole (a :: arrivals)).dropLast, b.event.isDealloc = some false →
            b.testRaises = false) := by
      intro htaken hwhole hpasses
      rw [htaken, hwhole, List.map_cons, List.map_cons, List.cons_inj_right, ih]
      cases whole arrivals with
      | nil => simp
      | cons b rest =>
        rw [List.dropLast_cons_cons, List.forall_mem_cons]
        exact (and_iff_right hpasses).symm
    cases hdead : a.event.isDealloc with
    | none =>
      have htaken : takenIn (a :: arrivals) = [] := by rw [takenIn, hdead]
      have hwhole : whole (a :: arrivals) = [] := List.takeWhile_cons_of_neg (by simp [hdead])
      simp [htaken, hwhole]
    | some dead =>
      have hwhole := hmore dead hdead
      cases dead with
      | true => exact hon (by rw [takenIn, hdead]) hwhole (by simp [hdead])
      | false =>
        cases htests : a.testRaises with
        | false => exact hon (by rw [takenIn, hdead]; simp [htests]) hwhole fun _ => htests
        | true =>
          have htaken : takenIn (a :: arrivals) = [cut a] := by
            rw [takenIn, hdead]
            simp [htests]
          rw [htaken, hwhole]
          cases whole arrivals with
          | nil => simp [cut]
          | cons b rest => simp [hdead, htests]

/-- A call ingests all that it is handed exactly if it passes. -/
theorem ingested_eq_handed_iff (call : IngestCall) : call.ingested = call.handed ↔ call.Passes := by
  rw [← map_event_whole]
  exact takenIn_eq_whole_iff call.given

theorem history_eq_handedIn {calls : List IngestCall} (h : ∀ call ∈ calls, call.Passes) :
    history calls = handedIn calls := by
  unfold history handedIn
  rw [List.flatMap_congr fun call hcall => (ingested_eq_handed_iff call).mpr (h call hcall)]

/-- After any calls that pass the node table is a function of the history of all events
handed to them, and each node is as this history describes it. -/
theorem node_table_of_history (calls : List IngestCall) (hpasses : ∀ call ∈ calls, call.Passes) :
    (∀ calls', (∀ call ∈ calls', call.Passes) → handedIn calls' = handedIn calls →
      (graphAfter calls').nodes = (graphAfter calls).nodes) ∧
    ∀ addr, FromHistory (handedIn calls) addr ((graphAfter calls).nodes.lookup addr) := by
  constructor
  · intro calls' hpasses' hsame
    rw [graphAfter, graphAfter, foldl_ingestCall, foldl_ingestCall]
    apply ingest_nodes_congr (complete_flatMap calls') (complete_flatMap calls) rfl
    rw [map_event_flatMap, map_event_flatMap, history_eq_handedIn hpasses',
      history_eq_handedIn hpasses, hsame]
  · rw [← history_eq_handedIn hpasses]
    exact fromHistory_graphAfter calls

instance (call : IngestCall) : Decidable call.Passes := by
  unfold IngestCall.Passes
  infer_instance

/-- An object, a list that refers to it, to a number and to a proxy whose object is gone, and
the death of the list and of the object. -/
def referringCalls : List IngestCall :=
  [⟨[{ event := allocAt 1 10 100 8 0 },
      { event := allocAt 2 20 200 56 0,
        referents := some [⟨300, some true⟩, ⟨100, some false⟩, ⟨400, none⟩] }], true⟩,
    ⟨[{ event := deallocAt 3 30 200 }, { event := deallocAt 4 40 100 }], false⟩]

theorem node_table_of_referringCalls :
    (graphAfter referringCalls).edges = [⟨200, 100, 20⟩] ∧
      FromHistory (handedIn referringCalls) 200
        ((graphAfter referringCalls).nodes.lookup 200) :=
  ⟨by decide, (node_table_of_history referringCalls (by decide)).2 200⟩

/-- The list comes first, and the event behind it is lost. -/
def proxyCalls : List IngestCall :=
  [⟨[{ event := allocAt 1 10 200 56 0, referents := some [⟨400, none⟩] },
      { event := allocAt 2 20 100 8 0 }], true⟩]

theorem event_behind_proxy_is_lost : ¬∀ calls addr,
    FromHistory (handedIn calls) addr ((graphAfter calls).nodes.lookup addr) := by
  intro hall
  have hpresent := (hall proxyCalls 100).present
  revert hpresent
  decide

end HpcProfiler.GraphHistory
