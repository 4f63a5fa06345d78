import Mathlib.Data.Finset.Basic
import Mathlib.Data.Rat.Defs
import Trademetrix.Dict
import Trademetrix.Text

/-!
# Strategy graphs

Nodes, edges and blocks of the strategy builder, and what its compiler hands back.
-/

namespace Trademetrix.Builder

/-- What a parameter or an output of a block holds. A number is an `int` or a `float`, an object
anything that only its truth is read of. -/
inductive Value
  | none
  | bool (b : Bool)
  | num (x : ℚ)
  | str (s : String)
  | list (xs : List Value)
  | dict (entries : List (String × Value))
  | object

inductive BlockCategory
  | input | indicator | pattern | math | logic | smc | ict | greek | oi | signal | order
  | portfolio | risk | time | variable_ | function | group
  deriving DecidableEq

def BlockCategory.value : BlockCategory → String
  | input => "input"
  | indicator => "indicator"
  | pattern => "pattern"
  | math => "math"
  | logic => "logic"
  | smc => "smc"
  | ict => "ict"
  | greek => "greek"
  | oi => "oi"
  | signal => "signal"
  | order => "order"
  | portfolio => "portfolio"
  | risk => "risk"
  | time => "time"
  | variable_ => "variable"
  | function => "function"
  | group => "group"

structure PortDef where
  name : String
  label : String := ""
  required : Bool := true
  default : Value := .none

structure ParamDef where
  name : String
  label : String := ""
  default : Value := .none
  required : Bool := true

structure BlockDef where
  name : String
  category : BlockCategory
  inputs : List PortDef := []
  outputs : List PortDef := []
  params : List ParamDef := []

structure GraphNode where
  id : String
  blockType : String
  params : Dict String Value := []

structure GraphEdge where
  sourceNode : String
  sourcePort : String
  targetNode : String
  targetPort : String
  deriving DecidableEq

structure StrategyDSL where
  nodes : List GraphNode := []
  edges : List GraphEdge := []

structure ExecutionNode where
  id : String
  blockType : String
  category : String
  order : ℕ
  inputs : List String := []
  outputPort : String := "result"
  params : Dict String Value := []
  compute : String := ""
  estimatedLatencyUs : ℕ := 0

structure ExecutionGraph where
  nodes : List ExecutionNode := []
  entryPoints : List String := []
  exitPoints : List String := []
  totalEstimatedLatencyUs : ℕ := 0
  maxDepth : ℕ := 0

inductive Severity
  | error | warning
  deriving DecidableEq

inductive IssueCode
  | none | emptyGraph | unknownBlock | missingInput | missingParam | invalidEdgeSource
  | invalidEdgeTarget | cycleDetected | noOutput | noInput
  deriving DecidableEq

structure ValidationIssue where
  severity : Severity := .error
  nodeId : String := ""
  message : String := ""
  code : IssueCode := .none

structure MissingInput where
  node : String
  block : String
  port : String

structure ValidationResult where
  valid : Bool := true
  issues : List ValidationIssue := []
  cycles : List (List String) := []
  missingInputs : List MissingInput := []

end Trademetrix.Builder

/-!
# The compiler of strategy graphs

`_topological_sort`, `validate` and `compile_dsl`. The blocks are a parameter, and so is the
order in which Python walks through a set. The two traversals are given as many steps as they
may take and are `none` when these run out.
-/

namespace Trademetrix.Builder

/-- An order of the elements of `set(ids)`, as the iteration over the set takes them. -/
structure SetOrder where
  order : List String → List String
  nodup (ids : List String) : (order ids).Nodup
  mem (ids : List String) (x : String) : x ∈ order ids ↔ x ∈ ids

def latencyLookup : Dict String ℕ :=
  [("source", 1), ("indicator", 50), ("pattern", 20), ("math", 5), ("logic", 2), ("smc", 100),
    ("ict", 80), ("greek", 200), ("oi", 30), ("signal", 10), ("order", 5), ("portfolio", 50),
    ("risk", 20), ("time", 2), ("variable", 5), ("function", 10), ("group", 50)]

def getInputNodes (nodeId : String) (edges : List GraphEdge) : List String :=
  (edges.filter fun e => e.targetNode = nodeId).map GraphEdge.sourceNode

section TopologicalSort

abbrev Adjacency := Dict String (List String)

def Adjacency.neighbors (adj : Adjacency) (nid : String) : List String := (adj.get nid).getD []

/-- The state of `_find_cycle`. -/
structure Marks where
  tempMark : Finset String := ∅
  permMark : Finset String := ∅
  path : List String := []
  cycles : List (List String) := []

/-- `_find_cycle`, with at most so many calls inside one another. -/
def findCycle (adj : Adjacency) : ℕ → String → Marks → Option Marks
  | 0, _, _ => none
  | fuel + 1, nid, m =>
    if nid ∈ m.permMark then some m
    else if nid ∈ m.tempMark then
      some { m with cycles := m.cycles ++ [m.path.drop (m.path.idxOf nid) ++ [nid]] }
    else do
      let m := { m with tempMark := insert nid m.tempMark, path := m.path ++ [nid] }
      let m ← (adj.neighbors nid).foldlM (fun m neighbor => findCycle adj fuel neighbor m) m
      return { m with
        path := m.path.dropLast
        tempMark := m.tempMark.erase nid
        permMark := insert nid m.permMark }

def findCycles (adj : Adjacency) (fuel : ℕ) (ids : List String) : Option Marks :=
  ids.foldlM (fun m nid =>
    if nid ∉ m.tempMark ∧ nid ∉ m.permMark then findCycle adj fuel nid m else some m) {}

structure Sorting where
  inDegree : Dict String ℤ
  queue : List String
  sortedNodes : List String := []

def Sorting.release (s : Sorting) (neighbor : String) : Sorting :=
  let degree := (s.inDegree.get neighbor).getD 0 - 1
  { s with
    inDegree := s.inDegree.set neighbor degree
    queue := if degree = 0 then s.queue ++ [neighbor] else s.queue }

def Sorting.drain (adj : Adjacency) : ℕ → Sorting → Option (List String)
  | fuel, s =>
    match fuel, s.queue with
    | _, [] => some s.sortedNodes
    | 0, _ => none
    | fuel + 1, nid :: queue =>
      Sorting.drain adj fuel ((adj.neighbors nid).foldl Sorting.release
        { s with queue := queue, sortedNodes := s.sortedNodes ++ [nid] })

def addEdge (nodeIds : List String) (st : Adjacency × Dict String ℤ) (e : GraphEdge) :
    Adjacency × Dict String ℤ :=
  if e.sourceNode ∈ nodeIds ∧ e.targetNode ∈ nodeIds then
    (st.1.set e.sourceNode (st.1.neighbors e.sourceNode ++ [e.targetNode]),
      st.2.set e.targetNode ((st.2.get e.targetNode).getD 0 + 1))
  else st

def edgeTables (nodeIds : List String) (edges : List GraphEdge) : Adjacency × Dict String ℤ :=
  edges.foldl (addEdge nodeIds) ([], Dict.update [] (nodeIds.map fun id => (id, 0)))

def topologicalSort (o : SetOrder) (nodes : List GraphNode) (edges : List GraphEdge) :
    Option (List String × List (List String)) := do
  let ids := nodes.map GraphNode.id
  let (adj, inDegree) := edgeTables ids edges
  let queue := (inDegree.filter fun p => p.2 = 0).map Prod.fst
  let marks ← findCycles adj (ids.length + 1) (o.order ids)
  let sortedNodes ← Sorting.drain adj (ids.length + 1) { inDegree, queue }
  return (sortedNodes, marks.cycles)

end TopologicalSort

section Validate

variable (getBlock : String → Option BlockDef) (o : SetOrder) (dsl : StrategyDSL)

def missingPorts (node : GraphNode) (block : BlockDef) : List PortDef :=
  let connectedInputs :=
    (dsl.edges.filter fun e => e.targetNode = node.id).map GraphEdge.targetPort
  block.inputs.filter fun inp =>
    inp.required && inp.name ∉ connectedInputs && (node.params.get inp.name).isNone &&
      (inp.default matches .none) && !Text.startsWith inp.name "_"

def missingParams (node : GraphNode) (block : BlockDef) : List ParamDef :=
  block.params.filter fun param =>
    param.required && (node.params.get param.name).isNone && (param.default matches .none)

def nodeIssues (node : GraphNode) : List ValidationIssue :=
  match getBlock node.blockType with
  | none => [{
      nodeId := node.id
      message := "Unknown block type: " ++ node.blockType
      code := .unknownBlock }]
  | some block =>
    ((missingPorts dsl node block).map fun inp => {
      nodeId := node.id
      message := "Required input '" ++ (if inp.label = "" then inp.name else inp.label) ++
        "' not connected on " ++ block.name
      code := .missingInput }) ++
    (missingParams node block).map fun param => {
      nodeId := node.id
      message := "Required parameter '" ++ param.label ++ "' not set on " ++ block.name
      code := .missingParam }

def edgeIssues (e : GraphEdge) : List ValidationIssue :=
  let ids := dsl.nodes.map GraphNode.id
  (if e.sourceNode ∈ ids then [] else [{
    message := "Edge references unknown source node: " ++ e.sourceNode
    code := .invalidEdgeSource }]) ++
  if e.targetNode ∈ ids then [] else [{
    message := "Edge references unknown target node: " ++ e.targetNode
    code := .invalidEdgeTarget }]

def cycleIssue (cycle : List String) : ValidationIssue where
  message := "Cycle detected: " ++ " → ".intercalate cycle
  code := .cycleDetected

def hasCategory (category : BlockCategory) : Bool :=
  dsl.nodes.any fun n => (getBlock n.blockType).any fun block => block.category = category

/-- What `validate` makes of a strategy that has blocks and these cycles. -/
def validationResult (cycles : List (List String)) : ValidationResult :=
  let issues := dsl.nodes.flatMap (nodeIssues getBlock dsl) ++ dsl.edges.flatMap (edgeIssues dsl) ++
    cycles.map cycleIssue ++
    (if hasCategory getBlock dsl .order then [] else [{
      severity := .warning
      message := "Strategy has no order/signal output block. It will analyze but not trade."
      code := .noOutput }]) ++
    if hasCategory getBlock dsl .input then [] else [{
      message := "Strategy has no input blocks (candle, tick, or source). Add a data source."
      code := .noInput }]
  { valid := !issues.any fun i => i.severity = .error
    issues := issues
    cycles := cycles
    missingInputs := dsl.nodes.flatMap fun node =>
      match getBlock node.blockType with
      | none => []
      | some block => (missingPorts dsl node block).map fun inp => ⟨node.id, block.name, inp.name⟩ }

def validate : Option ValidationResult :=
  if dsl.nodes.isEmpty then
    some { valid := false, issues := [{ message := "Strategy has no blocks", code := .emptyGraph }] }
  else do
    let (_, cycles) ← topologicalSort o dsl.nodes dsl.edges
    return validationResult getBlock dsl cycles

end Validate

section CompileDsl

variable (getBlock : String → Option BlockDef) (o : SetOrder) (dsl : StrategyDSL)

/-- What the loop of `compile_dsl` collects. -/
structure Pass where
  execNodes : List ExecutionNode := []
  entryPoints : List String := []
  totalLatency : ℕ := 0
  depthMap : Dict String ℕ := []

def nodeMap : Dict String GraphNode := Dict.update [] (dsl.nodes.map fun n => (n.id, n))

def latencyOf (block : Option BlockDef) : ℕ :=
  (latencyLookup.get (block.elim "math" fun b => b.category.value)).getD 10

def execNode (order : ℕ) (nid : String) (node : GraphNode) : ExecutionNode :=
  let block := getBlock node.blockType
  { id := nid
    blockType := node.blockType
    category := block.elim "unknown" fun b => b.category.value
    order := order
    inputs := getInputNodes nid dsl.edges
    outputPort := ((block.bind fun b => b.outputs.head?).map PortDef.name).getD "result"
    params := node.params
    compute := node.blockType
    estimatedLatencyUs := latencyOf block }

def Pass.visit (p : Pass) (order : ℕ) (nid : String) : Pass :=
  match (nodeMap dsl).get nid with
  | none => p
  | some node =>
    let inputNodeIds := getInputNodes nid dsl.edges
    let depth := inputNodeIds.foldl (fun depth inpId => max depth ((p.depthMap.get inpId).getD 0 + 1)) 0
    { execNodes := p.execNodes ++ [execNode getBlock dsl order nid node]
      entryPoints := if inputNodeIds.isEmpty then p.entryPoints ++ [nid] else p.entryPoints
      totalLatency := p.totalLatency + latencyOf (getBlock node.blockType)
      depthMap := p.depthMap.set nid depth }

def outDegree : Dict String ℕ :=
  dsl.edges.foldl (fun d e => d.set e.sourceNode ((d.get e.sourceNode).getD 0 + 1)) []

def visitAll (sortedIds : List String) : Pass :=
  sortedIds.zipIdx.foldl (fun p nid => Pass.visit getBlock dsl p nid.2 nid.1) {}

def executionGraph (sortedIds : List String) : ExecutionGraph :=
  let pass := visitAll getBlock dsl sortedIds
  { nodes := pass.execNodes
    entryPoints := pass.entryPoints
    exitPoints := sortedIds.filter fun nid => ((outDegree dsl).get nid).getD 0 = 0
    totalEstimatedLatencyUs := pass.totalLatency
    maxDepth := pass.depthMap.values.foldl max 0 }

def compileDsl : Option (Option ExecutionGraph × ValidationResult) := do
  let validation ← validate getBlock o dsl
  if !validation.valid && validation.issues.any fun i => i.severity = .error then
    return (none, validation)
  let (sortedIds, _) ← topologicalSort o dsl.nodes dsl.edges
  if sortedIds.isEmpty then
    return (none, { valid := false, issues := [{ message := "No executable nodes found" }] })
  return (some (executionGraph getBlock dsl sortedIds), validation)

end CompileDsl

end Trademetrix.Builder
