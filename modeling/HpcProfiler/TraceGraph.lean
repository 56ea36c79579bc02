import HpcProfiler.ListWalks
import HpcProfiler.StableSort
import HpcProfiler.TraceEvents
import Mathlib.Data.Prod.Lex
import Mathlib.Order.BoundedOrder.Lattice

/-!
The graph of a trace. The events are sorted by their times, samples of the host's memory are
thinned out, and a loop adds a node for each event that is kept and edges to it: from the
event before, from the hub of its correlation id, and from the sample of memory before.
-/

namespace HpcProfiler.TraceGraph

open TraceEvents StableSort ListWalks

/-- An event and its place in the input. -/
abbrev Entry := Event × ℕ

def getTimeNs (e : Event) : Option ℤ :=
  e.firstInt ["aligned_t_ns", "merged_t_ns", "t_ns", "cpu_t_ns", "recorder_t_ns"]

/-- A field as it appears in a text, or a default. -/
def textOf (e : Event) (key default : String) : String := ((e key).getD (.str default)).text

def eventKey (x : Entry) : String :=
  match getTimeNs x.1 with
  | some t => textOf x.1 "type" "evt" ++ ":" ++ toString t ++ ":" ++ toString (x.2 : ℤ)
  | none => textOf x.1 "type" "evt" ++ ":" ++ "idx" ++ ":" ++ toString (x.2 : ℤ)

def correlationLabel (e : Event) : String := " (corr " ++ textOf e "corr" "" ++ ")"

def activityLabel (e : Event) : Option String :=
  if e.has "kind" "memcpy" then
    match e.given "bytes" with
    | some b => b.toInt.map fun n =>
      "GPU memcpy " ++ textOf e "op" "memcpy" ++ " " ++ toString (n / 1024) ++ "KB" ++
        correlationLabel e
    | none => some ("GPU memcpy " ++ textOf e "op" "memcpy" ++ correlationLabel e)
  else if e.has "kind" "kernel" then
    some ("GPU kernel " ++ textOf e "name" "kernel" ++ correlationLabel e)
  else some ("GPU " ++ textOf e "kind" "act" ++ correlationLabel e)

/-- The text of a value divided by a mebibyte, unless it is not a number. -/
def mebibytes : Value → Option String
  | .bool _ => some "0"
  | .int n => some (toString (n / (1024 * 1024)))
  | .float _ _ quotient => some quotient
  | _ => none

def hostLabel (e : Event) : Option String :=
  match e.given "rss_bytes" with
  | some rss => (mebibytes rss).map fun text => "Host RSS " ++ text ++ "MB"
  | none => some "Host stats"

def memLabel (e : Event) : String :=
  match e.given "used_mb" with
  | some used => textOf e "side" "device" ++ " used " ++ used.text ++ "MB"
  | none => textOf e "side" "device" ++ " meminfo"

/-- No label is an error: bytes that are not a number. The type of another event is its
label as it stands. -/
def shortLabel (e : Event) : Option Value :=
  if e.has "type" "callback" then
    some (.str ("CPU " ++ textOf e "api" "api" ++ " " ++ textOf e "site" "" ++ correlationLabel e))
  else if e.has "type" "activity" then (activityLabel e).map .str
  else if e.has "type" "host_stats" then (hostLabel e).map .str
  else if e.has "type" "meminfo" then some (.str (memLabel e))
  else if e.has "type" "marker" then some (.str ("Marker: " ++ textOf e "msg" ""))
  else some ((e "type").getD (.str "event"))

def nodeGroup (e : Event) : String :=
  if e.has "type" "callback" then "cpu_api"
  else if e.has "type" "activity" then "gpu_activity"
  else if e.has "type" "host_stats" then "host_mem"
  else if e.has "type" "meminfo" then "device_mem"
  else if e.has "type" "marker" then "marker"
  else "other"

structure Node where
  id : String
  label : Value
  group : String
  tNs : Option ℤ
  data : Event

structure Edge where
  id : String
  source : String
  target : String
  kind : String
  data : Event

structure Graph where
  numEventsIn : ℕ
  numNodes : ℕ
  numEdges : ℕ
  nodes : List Node
  edges : List Edge

/-- The variables of the loop. -/
structure Builder where
  nodes : List Node
  edges : List Edge
  corrHubId : ℤ → Option String
  prevEventNode : Option String
  prevMemNodeHost : Option String
  prevMemNodeDev : Option String

def emptyBuilder : Builder := ⟨[], [], fun _ => none, none, none, none⟩

/-- A node whose id is there already is dropped. -/
def addNode (n : Node) (nodes : List Node) : List Node :=
  if n.id ∈ nodes.map Node.id then nodes else nodes ++ [n]

def edgeKey (kind source target : String) (number : ℕ) : String :=
  "e:" ++ kind ++ ":" ++ source ++ "->" ++ target ++ ":" ++ toString (number : ℤ)

def addEdge (source target kind : String) (data : Event) (edges : List Edge) : List Edge :=
  edges ++ [⟨edgeKey kind source target edges.length, source, target, kind, data⟩]

/-- An edge from the node before, if there is one. -/
def addNext (prev : Option String) (target kind : String) (data : Event) (edges : List Edge) :
    List Edge :=
  match prev with
  | some source => addEdge source target kind data edges
  | none => edges

def noData : Event := ofFields []

def sideData (side : String) : Event := ofFields [("side", .str side)]

/-- The key and the value of a correlation id that is an integer; true counts as one. -/
def corrOf (e : Event) : Option (ℤ × Value) :=
  match e "corr" with
  | some (.int n) => some (n, .int n)
  | some (.bool b) => some (if b then 1 else 0, .bool b)
  | _ => none

def hubNode (corr : Value) (t : Option ℤ) : Node where
  id := "corr:" ++ corr.text
  label := .str ("corr " ++ corr.text)
  group := "corr"
  tNs := t
  data := ofFields [("corr", corr)]

def addCorr (x : Entry) (s : Builder) : Builder :=
  match corrOf x.1 with
  | none => s
  | some (key, corr) =>
    match s.corrHubId key with
    | some hub => { s with edges := addEdge hub (eventKey x) "corr" noData s.edges }
    | none =>
      let hub := hubNode corr (getTimeNs x.1)
      { s with
        nodes := addNode hub s.nodes
        corrHubId := Function.update s.corrHubId key (some hub.id)
        edges := addEdge hub.id (eventKey x) "corr" noData s.edges }

def isHostStats (x : Entry) : Bool := x.1.has "type" "host_stats"

/-- Information on the memory of the device, which is the default side. -/
def isDeviceMem (x : Entry) : Bool :=
  x.1.has "type" "meminfo" &&
    ((x.1 "side").getD (.str "device") = .str "device" ||
      (x.1 "side").getD (.str "device") = .str "gpu")

def addMem (x : Entry) (s : Builder) : Builder :=
  if isHostStats x then
    { s with
      edges := addNext s.prevMemNodeHost (eventKey x) "mem_next" (sideData "host") s.edges
      prevMemNodeHost := some (eventKey x) }
  else if isDeviceMem x then
    { s with
      edges := addNext s.prevMemNodeDev (eventKey x) "mem_next" (sideData "device") s.edges
      prevMemNodeDev := some (eventKey x) }
  else s

def eventNode (x : Entry) (label : Value) : Node :=
  ⟨eventKey x, label, nodeGroup x.1, getTimeNs x.1, x.1⟩

def addSequence (x : Entry) (label : Value) (s : Builder) : Builder :=
  { s with
    nodes := addNode (eventNode x label) s.nodes
    edges := addNext s.prevEventNode (eventKey x) "next" noData s.edges
    prevEventNode := some (eventKey x) }

/-- One round of the loop. -/
def addEvent (s : Builder) (x : Entry) : Option Builder :=
  (shortLabel x.1).map fun label => addMem x (addCorr x (addSequence x label s))

def addEvents (s : Builder) : List Entry → Option Builder
  | [] => some s
  | x :: xs => (addEvent s x).bind fun s' => addEvents s' xs

/-- Events without a time come last; equal times are in the order of the input. -/
def sortKey (x : Entry) : Bool ×ₗ ℤ ×ₗ ℕ :=
  toLex ((getTimeNs x.1).isNone, toLex ((getTimeNs x.1).getD 0, x.2))

def eventsSorted (events : List Event) : List Entry := sortBy sortKey events.zipIdx

/-- The samples that are kept. A limit of zero is an error where there are samples. -/
def sampled (hostStats : List Entry) (maxHostSamples : ℤ) : Option (List Entry) :=
  if (hostStats.length : ℤ) > maxHostSamples then
    if maxHostSamples = 0 then none
    else
      some (stride (max 1 (Int.fdiv hostStats.length maxHostSamples)).toNat hostStats)
  else some hostStats

/-- The events that the loop does not skip. -/
def keptEvents (events : List Event) (maxHostSamples : ℤ) : Option (List Entry) :=
  (sampled ((eventsSorted events).filter isHostStats) maxHostSamples).map fun keep =>
    (eventsSorted events).filter fun x => !isHostStats x || x.2 ∈ keep.map Prod.snd

def buildGraph (events : List Event) (maxHostSamples : ℤ) : Option Graph :=
  (keptEvents events maxHostSamples).bind fun kept =>
    (addEvents emptyBuilder kept).map fun s =>
      ⟨events.length, s.nodes.length, s.edges.length, s.nodes, s.edges⟩

end HpcProfiler.TraceGraph
