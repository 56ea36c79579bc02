import HpcProfiler.HostSampling

/-!
The graph of a trace is well formed. Its edges are a path through all events that are kept,
one edge from the hub of each correlation id to each of its events, and one path through the
samples of the memory on either side; each round of the loop extends the paths at their ends.
-/

namespace HpcProfiler.GraphPaths

open TraceEvents TraceGraph GraphNodes HostSampling DecimalText ListWalks StableSort

/-- A correlation id, where it is an integer. -/
def corrNumber (e : Event) : Option ℤ :=
  match e "corr" with
  | some (.int n) => some n
  | _ => none

def numbers (done : List Entry) : List ℤ := done.filterMap fun x => corrNumber x.1

def hubId (n : ℤ) : String := "corr:" ++ toString n

/-- The ends of the edge from the hub of an event. -/
def corrEnds (x : Entry) : Option (String × String) :=
  (corrNumber x.1).map fun n => (hubId n, eventKey x)

def ids (done : List Entry) : List String := done.map eventKey

def ends (edge : Edge) : String × String := (edge.source, edge.target)

/-- The kind of an edge, and its side of the memory. -/
def track (edge : Edge) : String × Option Value := (edge.kind, edge.data "side")

def nextTrack : String × Option Value := ("next", none)

def corrTrack : String × Option Value := ("corr", none)

def hostTrack : String × Option Value := ("mem_next", some (.str "host"))

def deviceTrack : String × Option Value := ("mem_next", some (.str "device"))

/-- The edges of a track, in order. -/
def along (t : String × Option Value) (edges : List Edge) : List (String × String) :=
  (edges.filter fun edge => track edge = t).map ends

/-- An event with a time comes after events with times that are not later. -/
def TimeOrder (x y : Entry) : Prop :=
  ∀ t' ∈ getTimeNs y.1, ∃ t ∈ getTimeNs x.1, t ≤ t'

/-- The events that are kept are those of the input in the order of time, all that are no
samples of the host's memory and, of the samples, one in each stride. -/
structure Keeps (events : List Event) (limit : ℤ) (kept : List Entry) : Prop where
  input : (eventsSorted events).Perm events.zipIdx
  sorted : (eventsSorted events).Pairwise fun x y => sortKey x ≤ sortKey y
  sublist : kept.Sublist (eventsSorted events)
  others : (kept.filter fun x => !isHostStats x) =
    (eventsSorted events).filter fun x => !isHostStats x
  samples : kept.filter isHostStats =
    stride (sampleStep events limit) ((eventsSorted events).filter isHostStats)

/-- The graph of some events, of which these are kept. -/
structure WellFormed (events : List Event) (limit : ℤ) (kept : List Entry) (g : Graph) :
    Prop where
  keeps : Keeps events limit kept
  nodeIds : (g.nodes.map Node.id).Nodup
  eventNodes : (g.nodes.filter fun n => !isHub n).map some =
    kept.map fun x => (shortLabel x.1).map (eventNode x)
  hubNodes : (g.nodes.filter isHub).map Node.id = (numbers kept).eraseDups.map hubId
  edgeIds : (g.edges.map Edge.id).Nodup
  edgeEnds : ∀ edge ∈ g.edges,
    edge.source ∈ g.nodes.map Node.id ∧ edge.target ∈ g.nodes.map Node.id
  tracks : ∀ edge ∈ g.edges, track edge ∈ [nextTrack, corrTrack, hostTrack, deviceTrack]
  next : along nextTrack g.edges = neighbours (ids kept)
  timeOrder : kept.Pairwise TimeOrder
  corr : along corrTrack g.edges = kept.filterMap corrEnds
  host : along hostTrack g.edges = neighbours (ids (kept.filter isHostStats))
  device : along deviceTrack g.edges = neighbours (ids (kept.filter isDeviceMem))

/-- The nodes behind some events. -/
structure Noded (done : List Entry) (s : Builder) : Prop where
  kept : EventsKept done s.nodes
  nodeIds : (s.nodes.map Node.id).Nodup
  hubNodes : (s.nodes.filter isHub).map Node.id = (numbers done).eraseDups.map hubId
  hubs : ∀ n hub, s.corrHubId n = some hub ↔ n ∈ numbers done ∧ hub = hubId n

def Tracked (edges : List Edge) : Prop :=
  ∀ edge ∈ edges, track edge ∈ [nextTrack, corrTrack, hostTrack, deviceTrack]

/-- Each edge has its number in its id. -/
def Numbered (edges : List Edge) : Prop :=
  edges.map Edge.id = edges.zipIdx.map fun p => edgeKey p.1.kind p.1.source p.1.target p.2

/-- The edges behind some events, and the ends of the paths. -/
structure Linked (done : List Entry) (s : Builder) : Prop where
  numbered : Numbered s.edges
  tracked : Tracked s.edges
  next : along nextTrack s.edges = neighbours (ids done)
  corr : along corrTrack s.edges = done.filterMap corrEnds
  host : along hostTrack s.edges = neighbours (ids (done.filter isHostStats))
  device : along deviceTrack s.edges = neighbours (ids (done.filter isDeviceMem))
  prevEvent : s.prevEventNode = (ids done).getLast?
  prevHost : s.prevMemNodeHost = (ids (done.filter isHostStats)).getLast?
  prevDevice : s.prevMemNodeDev = (ids (done.filter isDeviceMem)).getLast?

section

variable {done : List Entry} {s s' : Builder} {x : Entry}

theorem hubId_injective : Function.Injective hubId := by
  intro m n h
  have hlist := congrArg String.toList h
  simp only [hubId, String.toList_append] at hlist
  exact numeral_injective (List.append_cancel_left hlist)

theorem corrOf_eq (h : ∀ b, x.1 "corr" ≠ some (.bool b)) :
    corrOf x.1 = (corrNumber x.1).map fun n => (n, .int n) := by
  unfold corrOf corrNumber
  cases hvalue : x.1 "corr" with
  | none => rfl
  | some value =>
    cases value with
    | int n => rfl
    | bool b => exact absurd hvalue (h b)
    | null => rfl
    | float => rfl
    | str => rfl
    | compound => rfl

theorem hub_fresh {done' : List Entry} {nodes : List Node} (hkept : EventsKept done' nodes)
    (hhubs : (nodes.filter isHub).map Node.id = (numbers done).eraseDups.map hubId) {n : ℤ}
    (hn : n ∉ numbers done) : hubId n ∉ nodes.map Node.id := by
  intro hid
  obtain ⟨node, hnode, heq⟩ := List.mem_map.mp hid
  by_cases hhub : isHub node = true
  · have hmem : hubId n ∈ (nodes.filter isHub).map Node.id :=
      heq ▸ List.mem_map_of_mem (List.mem_filter.mpr ⟨hnode, hhub⟩)
    rw [hhubs, List.mem_map_of_injective hubId_injective, List.mem_eraseDups] at hmem
    exact hn hmem
  · have hmem : some node ∈ (nodes.filter fun n => !isHub n).map some :=
      List.mem_map_of_mem (List.mem_filter.mpr ⟨hnode, by simpa using hhub⟩)
    rw [hkept.eventNodes] at hmem
    obtain ⟨y, -, hy⟩ := List.mem_map.mp hmem
    obtain ⟨label, -, rfl⟩ := Option.map_eq_some_iff.mp hy
    refine eventKey_not_hub y ⟨toString n, colon_not_mem_numeral n, ?_⟩
    exact heq

theorem numbers_snoc (done : List Entry) (x : Entry) :
    numbers (done ++ [x]) = numbers done ++ (corrNumber x.1).toList := by
  unfold numbers
  rw [List.filterMap_append]
  cases hnumber : corrNumber x.1 <;> simp [hnumber]

theorem eraseDups_snoc_old {ns : List ℤ} {n : ℤ} (h : n ∈ ns) :
    (ns ++ [n]).eraseDups = ns.eraseDups := by
  have hnone : [n].removeAll ns = [] := by simp [List.removeAll, h]
  rw [List.eraseDups_append, hnone, List.eraseDups_nil, List.append_nil]

theorem eraseDups_snoc_new {ns : List ℤ} {n : ℤ} (h : n ∉ ns) :
    (ns ++ [n]).eraseDups = ns.eraseDups ++ [n] := by
  have hone : [n].removeAll ns = [n] := by simp [List.removeAll, h]
  rw [List.eraseDups_append, hone]
  rfl

/-- What the correlation id of an event adds. -/
theorem addCorr_spec (hcorr : ∀ b, x.1 "corr" ≠ some (.bool b)) {done' : List Entry}
    (hkept : EventsKept done' s.nodes)
    (hhubs : (s.nodes.filter isHub).map Node.id = (numbers done).eraseDups.map hubId)
    (htable : ∀ n hub, s.corrHubId n = some hub ↔ n ∈ numbers done ∧ hub = hubId n) :
    (addCorr x s).edges = (match corrNumber x.1 with
      | some n => addEdge (hubId n) (eventKey x) "corr" noData s.edges
      | none => s.edges) ∧
    ((addCorr x s).nodes.filter isHub).map Node.id =
      (numbers (done ++ [x])).eraseDups.map hubId ∧
    ∀ n hub, (addCorr x s).corrHubId n = some hub ↔
      n ∈ numbers (done ++ [x]) ∧ hub = hubId n := by
  rw [numbers_snoc]
  unfold addCorr
  rw [corrOf_eq hcorr]
  cases hnumber : corrNumber x.1 with
  | none =>
    rw [Option.toList_none, List.append_nil]
    exact ⟨rfl, hhubs, htable⟩
  | some n =>
    rw [Option.toList_some]
    dsimp only [Option.map_some]
    cases hfound : s.corrHubId n with
    | some hub =>
      obtain ⟨hn, rfl⟩ := (htable n hub).mp hfound
      rw [eraseDups_snoc_old hn]
      refine ⟨rfl, hhubs, fun m hub => (htable m hub).trans ?_⟩
      refine and_congr_left' ?_
      rw [List.mem_append, List.mem_singleton]
      exact ⟨.inl, fun hm => hm.elim id fun heq => heq ▸ hn⟩
    | none =>
      have hn : n ∉ numbers done := by
        intro hmem
        rw [(htable n _).mpr ⟨hmem, rfl⟩] at hfound
        cases hfound
      have hid : (hubNode (.int n) (getTimeNs x.1)).id ∉ s.nodes.map Node.id :=
        hub_fresh hkept hhubs hn
      rw [eraseDups_snoc_new hn]
      refine ⟨rfl, ?_, fun m hub => ?_⟩
      · dsimp only
        rw [addNode_of_not_mem hid, List.filter_append, List.map_append, hhubs, List.map_append]
        rfl
      · dsimp only
        rw [List.mem_append, List.mem_singleton]
        by_cases hm : m = n
        · subst hm
          rw [Function.update_self, Option.some_inj, eq_comm]
          exact (and_iff_right (.inr rfl)).symm
        · rw [Function.update_of_ne hm, htable m hub, or_iff_left hm]

/-! The edges. -/

theorem along_addEdge (t : String × Option Value) (source target kind : String) (data : Event)
    (edges : List Edge) : along t (addEdge source target kind data edges) =
      along t edges ++ if (kind, data "side") = t then [(source, target)] else [] := by
  unfold along addEdge
  rw [List.filter_append, List.map_append, List.filter_singleton]
  congr 1
  by_cases ht : (kind, data "side") = t
  · simp [track, ends, ht]
  · simp [track, ht]

theorem along_addNext (t : String × Option Value) (prev : Option String) (target kind : String)
    (data : Event) (edges : List Edge) : along t (addNext prev target kind data edges) =
      along t edges ++
        if (kind, data "side") = t then (prev.map fun source => (source, target)).toList
        else [] := by
  cases prev with
  | none => simp [addNext]
  | some source => exact along_addEdge ..

theorem Numbered.addEdge {edges : List Edge} (h : Numbered edges) (source target kind : String)
    (data : Event) : Numbered (addEdge source target kind data edges) := by
  unfold Numbered TraceGraph.addEdge
  rw [List.map_append, List.zipIdx_append, List.map_append, h]
  simp

theorem Numbered.addNext {edges : List Edge} (h : Numbered edges) (prev : Option String)
    (target kind : String) (data : Event) : Numbered (addNext prev target kind data edges) := by
  cases prev with
  | none => exact h
  | some source => exact h.addEdge source target kind data

/-- Numbered edges have different ids. -/
theorem Numbered.nodup {edges : List Edge} (h : Numbered edges) : (edges.map Edge.id).Nodup := by
  rw [h, List.Nodup, List.pairwise_map]
  refine (zipIdx_pairwise edges).imp fun hlt heq => ?_
  have hnumber := Int.ofNat_inj.mp (name_colon_numeral heq).2
  rw [hnumber] at hlt
  exact Nat.lt_irrefl _ hlt

theorem Tracked.addEdge {edges : List Edge} (h : Tracked edges) {kind : String} {data : Event}
    (hnew : (kind, data "side") ∈ [nextTrack, corrTrack, hostTrack, deviceTrack])
    (source target : String) : Tracked (addEdge source target kind data edges) := by
  intro edge hedge
  rcases List.mem_append.mp hedge with hold | hlast
  · exact h edge hold
  · rw [List.mem_singleton.mp hlast]
    exact hnew

theorem Tracked.addNext {edges : List Edge} (h : Tracked edges) {kind : String} {data : Event}
    (hnew : (kind, data "side") ∈ [nextTrack, corrTrack, hostTrack, deviceTrack])
    (prev : Option String) (target : String) : Tracked (addNext prev target kind data edges) := by
  cases prev with
  | none => exact h
  | some source => exact h.addEdge hnew source target

theorem not_device_of_host (h : isHostStats x = true) : isDeviceMem x = false := by
  unfold isDeviceMem
  have hother : Event.has x.1 "type" "meminfo" = false := Event.has_other h (by decide)
  rw [hother, Bool.false_and]

/-- The edges that one event adds: to the event before, to its hub, and to the sample of
memory before. -/
def edgesAfter (x : Entry) (s : Builder) : List Edge :=
  let sequence := addNext s.prevEventNode (eventKey x) "next" noData s.edges
  let hub := match corrNumber x.1 with
    | some n => addEdge (hubId n) (eventKey x) "corr" noData sequence
    | none => sequence
  if isHostStats x then
    addNext s.prevMemNodeHost (eventKey x) "mem_next" (sideData "host") hub
  else if isDeviceMem x then
    addNext s.prevMemNodeDev (eventKey x) "mem_next" (sideData "device") hub
  else hub

/-- The first two of these. -/
def hubEdges (x : Entry) (s : Builder) : List Edge :=
  match corrNumber x.1 with
  | some n => addEdge (hubId n) (eventKey x) "corr" noData
      (addNext s.prevEventNode (eventKey x) "next" noData s.edges)
  | none => addNext s.prevEventNode (eventKey x) "next" noData s.edges

theorem edgesAfter_eq (x : Entry) (s : Builder) : edgesAfter x s =
    if isHostStats x then
      addNext s.prevMemNodeHost (eventKey x) "mem_next" (sideData "host") (hubEdges x s)
    else if isDeviceMem x then
      addNext s.prevMemNodeDev (eventKey x) "mem_next" (sideData "device") (hubEdges x s)
    else hubEdges x s := rfl

theorem along_hubEdges (t : String × Option Value) : along t (hubEdges x s) =
    along t s.edges ++
      (if nextTrack = t then (s.prevEventNode.map fun y => (y, eventKey x)).toList else []) ++
      (if corrTrack = t then (corrEnds x).toList else []) := by
  unfold hubEdges corrEnds
  cases corrNumber x.1 with
  | none =>
    dsimp only [Option.map_none, Option.toList_none]
    rw [along_addNext, ite_self, List.append_nil]
    rfl
  | some n =>
    dsimp only
    rw [along_addEdge, along_addNext]
    rfl

theorem along_edgesAfter (t : String × Option Value) : along t (edgesAfter x s) =
    along t s.edges ++
      (if nextTrack = t then (s.prevEventNode.map fun y => (y, eventKey x)).toList else []) ++
      (if corrTrack = t then (corrEnds x).toList else []) ++
      (if isHostStats x = true ∧ hostTrack = t then
        (s.prevMemNodeHost.map fun y => (y, eventKey x)).toList else []) ++
      (if isDeviceMem x = true ∧ deviceTrack = t then
        (s.prevMemNodeDev.map fun y => (y, eventKey x)).toList else []) := by
  rw [edgesAfter_eq]
  by_cases hhost : isHostStats x = true
  · have hdevice := not_device_of_host hhost
    rw [if_pos hhost, along_addNext, along_hubEdges, hdevice]
    simp only [hhost, true_and, Bool.false_eq_true, false_and, if_false, List.append_nil]
    rfl
  · rw [if_neg hhost]
    by_cases hdevice : isDeviceMem x = true
    · rw [if_pos hdevice, along_addNext, along_hubEdges]
      simp only [hhost, hdevice, true_and, Bool.false_eq_true, false_and, if_false,
        List.append_nil]
      rfl
    · rw [if_neg hdevice, along_hubEdges]
      simp [hhost, hdevice]

theorem numbered_edgesAfter (h : Numbered s.edges) : Numbered (edgesAfter x s) := by
  have hsequence := h.addNext s.prevEventNode (eventKey x) "next" noData
  have hhub : Numbered (hubEdges x s) := by
    unfold hubEdges
    cases corrNumber x.1 with
    | none => exact hsequence
    | some n => exact hsequence.addEdge ..
  rw [edgesAfter_eq]
  split
  · exact hhub.addNext ..
  · split
    · exact hhub.addNext ..
    · exact hhub

theorem tracked_edgesAfter (h : Tracked s.edges) : Tracked (edgesAfter x s) := by
  have hnext : ("next", noData "side") ∈ [nextTrack, corrTrack, hostTrack, deviceTrack] :=
    List.mem_cons_self ..
  have hcorr : ("corr", noData "side") ∈ [nextTrack, corrTrack, hostTrack, deviceTrack] :=
    List.mem_cons_of_mem _ (List.mem_cons_self ..)
  have hhost : ("mem_next", sideData "host" "side") ∈
      [nextTrack, corrTrack, hostTrack, deviceTrack] :=
    List.mem_cons_of_mem _ (List.mem_cons_of_mem _ (List.mem_cons_self ..))
  have hdevice : ("mem_next", sideData "device" "side") ∈
      [nextTrack, corrTrack, hostTrack, deviceTrack] :=
    List.mem_cons_of_mem _ (List.mem_cons_of_mem _
      (List.mem_cons_of_mem _ (List.mem_cons_self ..)))
  have hsequence := h.addNext hnext s.prevEventNode (eventKey x)
  have hhub : Tracked (hubEdges x s) := by
    unfold hubEdges
    cases corrNumber x.1 with
    | none => exact hsequence
    | some n => exact hsequence.addEdge hcorr _ _
  rw [edgesAfter_eq]
  split
  · exact hhub.addNext hhost _ _
  · split
    · exact hhub.addNext hdevice _ _
    · exact hhub

/-! One round of the loop. -/

theorem addCorr_paths (x : Entry) (s : Builder) :
    (addCorr x s).prevEventNode = s.prevEventNode ∧
      (addCorr x s).prevMemNodeHost = s.prevMemNodeHost ∧
      (addCorr x s).prevMemNodeDev = s.prevMemNodeDev := by
  unfold addCorr
  split
  · exact ⟨rfl, rfl, rfl⟩
  · split <;> exact ⟨rfl, rfl, rfl⟩

theorem addMem_fields (x : Entry) (s : Builder) :
    (addMem x s).corrHubId = s.corrHubId ∧ (addMem x s).prevEventNode = s.prevEventNode ∧
      (addMem x s).prevMemNodeHost =
        (if isHostStats x then some (eventKey x) else s.prevMemNodeHost) ∧
      (addMem x s).prevMemNodeDev =
        (if isDeviceMem x then some (eventKey x) else s.prevMemNodeDev) := by
  unfold addMem
  by_cases hhost : isHostStats x = true
  · have hdevice := not_device_of_host hhost
    rw [if_pos hhost, if_pos hhost, hdevice]
    exact ⟨rfl, rfl, rfl, rfl⟩
  · rw [if_neg hhost, if_neg hhost]
    split <;> exact ⟨rfl, rfl, rfl, rfl⟩

/-- What a round does to the nodes, the table of hubs and the edges. -/
theorem addEvent_spec (hcorr : ∀ b, x.1 "corr" ≠ some (.bool b)) (h : Noded done s)
    (hx : x.2 ∉ done.map Prod.snd) (hstep : addEvent s x = some s') :
    Noded (done ++ [x]) s' ∧ s'.edges = edgesAfter x s ∧
      s'.prevEventNode = some (eventKey x) ∧
      s'.prevMemNodeHost = (if isHostStats x then some (eventKey x) else s.prevMemNodeHost) ∧
      s'.prevMemNodeDev = (if isDeviceMem x then some (eventKey x) else s.prevMemNodeDev) := by
  have hkept := h.kept.addEvent hx hstep
  obtain ⟨label, hlabel, rfl⟩ := Option.map_eq_some_iff.mp hstep
  have hsequence : EventsKept (done ++ [x]) (addSequence x label s).nodes :=
    h.kept.addEventNode hx hlabel
  have hhubs : ((addSequence x label s).nodes.filter isHub).map Node.id =
      (numbers done).eraseDups.map hubId := by
    show ((addNode (eventNode x label) s.nodes).filter isHub).map Node.id = _
    rw [filter_addNode s.nodes (isHub_eventNode x label), h.hubNodes]
  obtain ⟨hedges, hhubs', htable⟩ := addCorr_spec hcorr hsequence hhubs h.hubs
  obtain ⟨hevent, hhost, hdevice⟩ := addCorr_paths x (addSequence x label s)
  obtain ⟨htable', hevent', hhost', hdevice'⟩ := addMem_fields x (addCorr x (addSequence x label s))
  refine ⟨⟨hkept, ?_, ?_, ?_⟩, ?_, ?_, ?_, ?_⟩
  · rw [addMem_nodes]
    have hfirst : ((addSequence x label s).nodes.map Node.id).Nodup := nodup_addNode h.nodeIds
    unfold addCorr
    split
    · exact hfirst
    · split
      · exact hfirst
      · exact nodup_addNode hfirst
  · rw [addMem_nodes, hhubs']
  · rw [htable']
    exact htable
  · unfold addMem edgesAfter
    rw [hhost, hdevice, hedges]
    split
    · rfl
    · split
      · rfl
      · exact hedges
  · rw [hevent', hevent]
    rfl
  · rw [hhost', hhost]
    rfl
  · rw [hdevice', hdevice]
    rfl

theorem ids_snoc (done : List Entry) (x : Entry) :
    ids (done ++ [x]) = ids done ++ [eventKey x] := by
  rw [ids, List.map_append, List.map_singleton, ids]

theorem filter_snoc (p : Entry → Bool) (done : List Entry) (x : Entry) :
    (done ++ [x]).filter p = done.filter p ++ if p x then [x] else [] := by
  rw [List.filter_append]
  congr 1
  by_cases hp : p x = true
  · rw [if_pos hp, List.filter_cons_of_pos hp, List.filter_nil]
  · rw [if_neg hp, List.filter_cons_of_neg hp, List.filter_nil]

/-- A path is extended at its end. -/
theorem path_extended {p : Entry → Bool} {t : String × Option Value} {edges edges' : List Edge}
    {prev : Option String} (hpath : along t edges = neighbours (ids (done.filter p)))
    (hprev : prev = (ids (done.filter p)).getLast?)
    (hedges : along t edges' =
      along t edges ++ if p x then (prev.map fun y => (y, eventKey x)).toList else []) :
    along t edges' = neighbours (ids ((done ++ [x]).filter p)) ∧
      (if p x then some (eventKey x) else prev) = (ids ((done ++ [x]).filter p)).getLast? := by
  rw [filter_snoc, hedges, hpath]
  by_cases hp : p x = true
  · rw [if_pos hp, if_pos hp, if_pos hp, ids_snoc, neighbours_snoc, hprev,
      List.getLast?_append_cons, List.getLast?_singleton]
    exact ⟨rfl, rfl⟩
  · rw [if_neg hp, if_neg hp, if_neg hp, List.append_nil, List.append_nil]
    exact ⟨rfl, hprev⟩

/-- One round extends the paths. -/
theorem Linked.addEvent (h : Linked done s) (hedges : s'.edges = edgesAfter x s)
    (hevent : s'.prevEventNode = some (eventKey x))
    (hhost : s'.prevMemNodeHost = if isHostStats x then some (eventKey x) else s.prevMemNodeHost)
    (hdevice : s'.prevMemNodeDev =
      if isDeviceMem x then some (eventKey x) else s.prevMemNodeDev) : Linked (done ++ [x]) s' := by
  have hcn : corrTrack ≠ nextTrack := by decide
  have hhn : hostTrack ≠ nextTrack := by decide
  have hdn : deviceTrack ≠ nextTrack := by decide
  have hhc : hostTrack ≠ corrTrack := by decide
  have hdc : deviceTrack ≠ corrTrack := by decide
  have hdh : deviceTrack ≠ hostTrack := by decide
  have hnextAlong : along nextTrack s'.edges = along nextTrack s.edges ++
      (s.prevEventNode.map fun y => (y, eventKey x)).toList := by
    rw [hedges, along_edgesAfter]
    simp [hcn, hhn, hdn]
  have hcorrAlong : along corrTrack s'.edges = along corrTrack s.edges ++ (corrEnds x).toList := by
    rw [hedges, along_edgesAfter]
    simp [hcn.symm, hhc, hdc]
  have hhostAlong : along hostTrack s'.edges = along hostTrack s.edges ++
      if isHostStats x then (s.prevMemNodeHost.map fun y => (y, eventKey x)).toList else [] := by
    rw [hedges, along_edgesAfter]
    simp [hhn.symm, hhc.symm, hdh]
  have hdeviceAlong : along deviceTrack s'.edges = along deviceTrack s.edges ++
      if isDeviceMem x then (s.prevMemNodeDev.map fun y => (y, eventKey x)).toList else [] := by
    rw [hedges, along_edgesAfter]
    simp [hdn.symm, hdc.symm, hdh.symm]
  obtain ⟨hhostPath, hhostEnd⟩ := path_extended h.host h.prevHost hhostAlong
  obtain ⟨hdevicePath, hdeviceEnd⟩ := path_extended h.device h.prevDevice hdeviceAlong
  refine
    { numbered := ?_, tracked := ?_, next := ?_, corr := ?_, host := hhostPath
      device := hdevicePath, prevEvent := ?_, prevHost := hhost.trans hhostEnd
      prevDevice := hdevice.trans hdeviceEnd }
  · rw [hedges]
    exact numbered_edgesAfter h.numbered
  · rw [hedges]
    exact tracked_edgesAfter h.tracked
  · rw [hnextAlong, h.next, ids_snoc, neighbours_snoc, h.prevEvent]
  · rw [hcorrAlong, h.corr, List.filterMap_append]
    cases hends : corrEnds x <;> simp [hends]
  · rw [hevent, ids_snoc, List.getLast?_append_cons, List.getLast?_singleton]

theorem noded_empty : Noded [] emptyBuilder where
  kept := eventsKept_empty
  nodeIds := List.nodup_nil
  hubNodes := rfl
  hubs n hub := by simp [emptyBuilder, numbers]

theorem linked_empty : Linked [] emptyBuilder where
  numbered := rfl
  tracked edge hedge := by cases hedge
  next := rfl
  corr := rfl
  host := rfl
  device := rfl
  prevEvent := rfl
  prevHost := rfl
  prevDevice := rfl

/-- The samples apart, events in order of their keys are in order of time. -/
theorem timeOrder_of_le {x y : Entry} (h : sortKey x ≤ sortKey y) : TimeOrder x y := by
  intro t' ht'
  rw [sortKey, sortKey, Prod.Lex.toLex_le_toLex, Prod.Lex.toLex_le_toLex,
    Option.mem_def.mp ht'] at h
  cases ht : getTimeNs x.1 with
  | none =>
    rw [ht] at h
    rcases h with hlt | ⟨heq, -⟩
    · exact absurd hlt (by decide : ¬(true : Bool) < false)
    · cases heq
  | some t =>
    rw [ht] at h
    refine ⟨t, rfl, ?_⟩
    rcases h with hlt | ⟨-, hlt | ⟨heq, -⟩⟩
    · exact absurd hlt (by decide : ¬(false : Bool) < false)
    · exact Int.le_of_lt hlt
    · exact Int.le_of_eq heq

theorem keptEvents_timeOrder {events : List Event} {limit : ℤ} {kept : List Entry}
    (h : keptEvents events limit = some kept) : kept.Pairwise TimeOrder := by
  have hsorted : (eventsSorted events).Pairwise TimeOrder :=
    (sortBy_pairwise sortKey _).imp timeOrder_of_le
  exact hsorted.sublist (keptEvents_sublist h)

theorem keeps_keptEvents {events : List Event} {limit : ℤ} {kept : List Entry}
    (hlimit : 1 ≤ limit) (h : keptEvents events limit = some kept) : Keeps events limit kept := by
  have hpositive : 0 ≤ limit := by omega
  have hsampled : sampled (samples events) limit =
      some (stride (sampleStep events limit) (samples events)) :=
    (sampled_eq hpositive).trans (if_pos (.inr (by omega)))
  have hkept := Option.some.inj (h.symm.trans (keptEvents_eq hsampled))
  refine ⟨eventsSorted_perm events, sortBy_pairwise sortKey _, keptEvents_sublist h, ?_, ?_⟩
  · rw [hkept, List.filter_filter]
    refine List.filter_congr fun x _ => ?_
    cases isHostStats x <;> simp
  · rw [hkept, filter_kept (stride_sublist _ _)]
    rfl

theorem shortLabel_isSome {e : Event} (hbytes : (e.given "bytes").all Value.isInt = true)
    (hrss : (e.given "rss_bytes").all Value.isInt = true) : (shortLabel e).isSome := by
  have hactivity : (activityLabel e).isSome := by
    unfold activityLabel
    split
    · split
      · rename_i b hb
        rw [hb] at hbytes
        cases b with
        | int n => rfl
        | null => cases hbytes
        | bool => cases hbytes
        | float => cases hbytes
        | str => cases hbytes
        | compound => cases hbytes
      · rfl
    · split <;> rfl
  have hhost : (hostLabel e).isSome := by
    unfold hostLabel
    split
    · rename_i rss hgiven
      rw [hgiven] at hrss
      cases rss with
      | int n => rfl
      | null => cases hrss
      | bool => cases hrss
      | float => cases hrss
      | str => cases hrss
      | compound => cases hrss
    · rfl
  unfold shortLabel
  split_ifs
  · rfl
  · rw [Option.isSome_map]
    exact hactivity
  · rw [Option.isSome_map]
    exact hhost
  · rfl
  · rfl
  · rfl

/-- Every event that is kept has its node. -/
theorem Noded.event_mem {kept : List Entry} (h : Noded kept s)
    (hlabels : ∀ x ∈ kept, (shortLabel x.1).isSome) {id : String} (hid : id ∈ ids kept) :
    id ∈ s.nodes.map Node.id := by
  obtain ⟨x, hx, rfl⟩ := List.mem_map.mp hid
  obtain ⟨label, hlabel⟩ := Option.isSome_iff_exists.mp (hlabels x hx)
  have hmem : some (eventNode x label) ∈
      kept.map fun x => (shortLabel x.1).map (eventNode x) :=
    List.mem_map.mpr ⟨x, hx, by rw [hlabel]; rfl⟩
  rw [← h.kept.eventNodes] at hmem
  obtain ⟨n, hn, heq⟩ := List.mem_map.mp hmem
  cases heq
  exact List.mem_map_of_mem (List.mem_filter.mp hn).1

/-- So has the hub of every correlation id. -/
theorem Noded.hub_mem {kept : List Entry} (h : Noded kept s) {n : ℤ} (hn : n ∈ numbers kept) :
    hubId n ∈ s.nodes.map Node.id := by
  have hhub : hubId n ∈ (s.nodes.filter isHub).map Node.id := by
    rw [h.hubNodes]
    exact List.mem_map_of_mem (List.mem_eraseDups.mpr hn)
  exact (List.filter_sublist.map Node.id).subset hhub

theorem ends_mem_along {edges : List Edge} {edge : Edge} (hedge : edge ∈ edges) :
    ends edge ∈ along (track edge) edges :=
  List.mem_map_of_mem (List.mem_filter.mpr ⟨hedge, decide_eq_true rfl⟩)

/-- The ends of the edges are nodes. -/
theorem edgeEnds_of_paths {kept : List Entry} {s : Builder} (hnodes : Noded kept s)
    (hlinks : Linked kept s) (hlabels : ∀ x ∈ kept, (shortLabel x.1).isSome) :
    ∀ edge ∈ s.edges,
      edge.source ∈ s.nodes.map Node.id ∧ edge.target ∈ s.nodes.map Node.id := by
  intro edge hedge
  have hends := ends_mem_along hedge
  have hpath : ∀ p : Entry → Bool, ends edge ∈ neighbours (ids (kept.filter p)) →
      edge.source ∈ s.nodes.map Node.id ∧ edge.target ∈ s.nodes.map Node.id := by
    intro p hmem
    have hsub := (List.filter_sublist (p := p) (l := kept)).map eventKey
    obtain ⟨hsource, htarget⟩ := mem_of_mem_neighbours hmem
    exact ⟨hnodes.event_mem hlabels (hsub.subset hsource),
      hnodes.event_mem hlabels (hsub.subset htarget)⟩
  have htrack := hlinks.tracked edge hedge
  simp only [List.mem_cons, List.not_mem_nil, or_false] at htrack
  rcases htrack with hnext | hcorr | hhost | hdevice
  · rw [hnext, hlinks.next] at hends
    obtain ⟨hsource, htarget⟩ := mem_of_mem_neighbours hends
    exact ⟨hnodes.event_mem hlabels hsource, hnodes.event_mem hlabels htarget⟩
  · rw [hcorr, hlinks.corr] at hends
    obtain ⟨x, hx, hx'⟩ := List.mem_filterMap.mp hends
    obtain ⟨n, hn, heq⟩ := Option.map_eq_some_iff.mp hx'
    obtain ⟨hsource, htarget⟩ := Prod.mk.inj heq
    rw [← hsource, ← htarget]
    exact ⟨hnodes.hub_mem (List.mem_filterMap.mpr ⟨x, hx, hn⟩),
      hnodes.event_mem hlabels (List.mem_map_of_mem hx)⟩
  · rw [hhost, hlinks.host] at hends
    exact hpath isHostStats hends
  · rw [hdevice, hlinks.device] at hends
    exact hpath isDeviceMem hends

end

/-- The graph of a trace is built, and it is well formed. -/
theorem buildGraph_wellFormed (events : List Event) (limit : ℤ) (hlimit : 1 ≤ limit)
    (hcorr : ∀ e ∈ events, ∀ b, e "corr" ≠ some (.bool b))
    (hbytes : ∀ e ∈ events, (e.given "bytes").all Value.isInt = true)
    (hrss : ∀ e ∈ events, (e.given "rss_bytes").all Value.isInt = true) :
    ∃ kept g, keptEvents events limit = some kept ∧ buildGraph events limit = some g ∧
      WellFormed events limit kept g := by
  obtain ⟨kept, hkept⟩ : ∃ kept, keptEvents events limit = some kept := by
    have hzero : limit ≠ 0 := by omega
    unfold keptEvents sampled
    rw [if_neg hzero]
    split <;> exact ⟨_, rfl⟩
  have hevents : ∀ x ∈ kept, x.1 ∈ events := by
    intro x hx
    have hmem := (keptEvents_sublist hkept).subset hx
    exact (eventsSorted_fst events).mem_iff.mp (List.mem_map_of_mem hmem)
  have hlabels : ∀ x ∈ kept, (shortLabel x.1).isSome := fun x hx =>
    shortLabel_isSome (hbytes _ (hevents x hx)) (hrss _ (hevents x hx))
  obtain ⟨s, hrun⟩ := Option.isSome_iff_exists.mp
    (addEvents_isSome_iff (s := emptyBuilder).mpr hlabels)
  have hplaces := keptEvents_places hkept
  rw [← List.nil_append kept] at hplaces
  obtain ⟨hnodes, hlinks⟩ : Noded kept s ∧ Linked kept s := by
    rw [← List.nil_append kept]
    refine addEvents_keeps (I := fun done s => Noded done s ∧ Linked done s)
      ⟨noded_empty, linked_empty⟩ hplaces ?_ hrun
    rintro done x s s' ⟨hnodes, hlinks⟩ hx hplace hstep
    obtain ⟨hnodes', hedges, hevent, hhost, hdevice⟩ :=
      addEvent_spec (hcorr _ (hevents x hx)) hnodes hplace hstep
    exact ⟨hnodes', hlinks.addEvent hedges hevent hhost hdevice⟩
  refine ⟨kept, ⟨events.length, s.nodes.length, s.edges.length, s.nodes, s.edges⟩, hkept, ?_, ?_⟩
  · rw [buildGraph, hkept, Option.bind_some, hrun]
    rfl
  · exact
      { keeps := keeps_keptEvents hlimit hkept, nodeIds := hnodes.nodeIds,
        eventNodes := hnodes.kept.eventNodes, hubNodes := hnodes.hubNodes
        edgeIds := hlinks.numbered.nodup
        edgeEnds := edgeEnds_of_paths hnodes hlinks hlabels, tracks := hlinks.tracked
        next := hlinks.next, timeOrder := keptEvents_timeOrder hkept, corr := hlinks.corr
        host := hlinks.host, device := hlinks.device }

/-- A copy with its correlation id and its size, and two samples of the host's memory, the
later of which is not kept. -/
def copyAndSamples : List Event :=
  [ofFields [("type", .str "activity"), ("kind", .str "memcpy"), ("corr", .int 7),
      ("bytes", .int 4096), ("t_ns", .int 20)],
    ofFields [("type", .str "host_stats"), ("rss_bytes", .int 2097152), ("t_ns", .int 30)],
    ofFields [("type", .str "host_stats"), ("rss_bytes", .int 1048576), ("t_ns", .int 10)]]

theorem buildGraph_wellFormed_copyAndSamples :
    ∃ kept g, keptEvents copyAndSamples 1 = some kept ∧ buildGraph copyAndSamples 1 = some g ∧
      WellFormed copyAndSamples 1 kept g := by
  refine buildGraph_wellFormed copyAndSamples 1 (le_refl 1) ?_ ?_ ?_
  · refine List.forall_mem_cons.mpr ⟨fun b h => (by cases h), ?_⟩
    refine List.forall_mem_cons.mpr ⟨fun b h => (by cases h), ?_⟩
    exact List.forall_mem_singleton.mpr fun b h => by cases h
  · exact List.forall_mem_cons.mpr ⟨rfl, List.forall_mem_cons.mpr ⟨rfl,
      List.forall_mem_singleton.mpr rfl⟩⟩
  · exact List.forall_mem_cons.mpr ⟨rfl, List.forall_mem_cons.mpr ⟨rfl,
      List.forall_mem_singleton.mpr rfl⟩⟩

end HpcProfiler.GraphPaths
