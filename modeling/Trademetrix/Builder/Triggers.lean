import Trademetrix.Builder.CompiledGraphs
import Trademetrix.Builder.Strategy

/-!
# What the nodes of a graph hold

After a candle every node that was evaluated holds what its block computes from the results
of the others as they stand in the end, since the order of execution puts them before it.
What a block is handed under a name is the value of the last edge into the port of that
name, or else the output of that name of the last block upstream that has one.
-/

namespace Trademetrix.Builder

open StrategyRuntime.Evaluations (Candle PositionMemory)
open StrategyRuntime (Workers.Order)

section Handed

variable (dsl : StrategyDSL) (results : Results)

def edgeValue (e : GraphEdge) : Value := portValue (results.get e.sourceNode) e.sourcePort

def portEdges (id port : String) : List GraphEdge :=
  dsl.edges.filter fun e => e.targetNode = id ∧ e.targetPort = port

/-- The output of a block under a name; one that is no dict is its `value`. -/
def output (key : String) : Value → Option Value
  | .none => none
  | .dict entries => (Dict.update [] entries).get key
  | v => if key = "value" then some v else none

def handed (id key : String) : Option Value :=
  ((portEdges dsl id key).getLast?.map (edgeValue results)).or
    ((getInputNodes id dsl.edges).reverse.findSome? fun u => (results.get u).bind (output key))

end Handed

section Inputs

variable {results : Results}

theorem get_mergeResult (inputs : Dict String Value) (u key : String) :
    (mergeResult results inputs u).get key =
      ((results.get u).bind (output key)).or (inputs.get key) := by
  unfold mergeResult
  cases results.get u with
  | none => rfl
  | some v =>
    cases v with
    | none => rfl
    | dict entries =>
      simp only [output, Option.bind_some]
      rw [Dict.get_update]
      split_ifs with hkey
      · obtain ⟨w, hw⟩ : ∃ w, (Dict.update [] entries).get key = some w := by
          rw [← Option.ne_none_iff_exists', Ne, Dict.get_eq_none, not_not, Dict.mem_keys_update]
          exact .inr hkey
        rw [hw]
        rfl
      · have hnone : (Dict.update [] entries).get key = none := by
          rw [Dict.get_eq_none, Dict.mem_keys_update]
          simpa using hkey
        rw [hnone]
        rfl
    | _ =>
      simp only [output, Option.bind_some]
      rw [Dict.get_set]
      split_ifs <;> rfl

theorem get_mergeResults (us : List String) (key : String) :
    (us.foldl (mergeResult results) []).get key =
      us.reverse.findSome? fun u => (results.get u).bind (output key) := by
  induction us using List.reverseRecOn with
  | nil => rfl
  | append_singleton us u ih =>
    rw [List.foldl_append, List.foldl_cons, List.foldl_nil, get_mergeResult, ih,
      List.reverse_append, List.reverse_singleton, List.singleton_append, List.findSome?_cons]
    cases (results.get u).bind (output key) <;> rfl

theorem get_portValues (inputs : Dict String Value) (edges : List GraphEdge) (key : String) :
    (edges.foldl (fun inputs e =>
        inputs.set e.targetPort (portValue (results.get e.sourceNode) e.sourcePort)) inputs).get key =
      ((edges.filter fun e => e.targetPort = key).getLast?.map (edgeValue results)).or
        (inputs.get key) := by
  induction edges using List.reverseRecOn with
  | nil => rfl
  | append_singleton edges e ih =>
    rw [List.foldl_append, List.foldl_cons, List.foldl_nil, Dict.get_set, ih, List.filter_append]
    by_cases hkey : e.targetPort = key
    · simp [hkey, edgeValue]
    · simp [hkey, Ne.symm hkey]

theorem get_nodeInputs {p : GraphProgram} {node : ExecutionNode}
    (hinputs : node.inputs = getInputNodes node.id p.dsl.edges) (key : String) :
    (nodeInputs p node results).get key = handed p.dsl results node.id key := by
  rw [nodeInputs, get_portValues, get_mergeResults, hinputs, handed, portEdges,
    List.filter_filter]
  simp only [Bool.decide_and, Bool.and_comm]

end Inputs

section Evaluated

variable (blocks : Blocks) (p : GraphProgram) (s : GraphState) (candle : Candle)

theorem evaluateNode_congr {node : ExecutionNode} {results results' : Results}
    (hinputs : node.inputs = getInputNodes node.id p.dsl.edges)
    (h : ∀ u ∈ getInputNodes node.id p.dsl.edges, results.get u = results'.get u) :
    evaluateNode blocks p node s candle results = evaluateNode blocks p node s candle results' := by
  have hmerge : node.inputs.foldl (mergeResult results) [] =
      node.inputs.foldl (mergeResult results') [] := by
    rw [hinputs]
    refine List.foldl_ext _ _ _ fun inputs u hu => ?_
    rw [mergeResult, mergeResult, h u hu]
  have hedges : nodeInputs p node results = nodeInputs p node results' := by
    unfold nodeInputs
    rw [hmerge]
    refine List.foldl_ext _ _ _ fun inputs e he => ?_
    rw [h e.sourceNode (List.mem_map_of_mem he)]
  unfold evaluateNode nodeCtx
  rw [hedges]

theorem evaluateNodes_cons (node : ExecutionNode) (nodes : List ExecutionNode) (results : Results)
    (signal : Option (List Workers.Order)) :
    (evaluateNode blocks p node s candle results = none ∧
      (evaluateNodes blocks p s candle (node :: nodes) results signal).1 = results) ∨
    ∃ result, evaluateNode blocks p node s candle results = some result ∧
      ((evaluateNodes blocks p s candle (node :: nodes) results signal).1 =
          results.set node.id result ∨
        ∃ signal', (evaluateNodes blocks p s candle (node :: nodes) results signal).1 =
          (evaluateNodes blocks p s candle nodes (results.set node.id result) signal').1) := by
  rw [evaluateNodes]
  cases hnode : evaluateNode blocks p node s candle results with
  | none => exact .inl ⟨rfl, rfl⟩
  | some result =>
    refine .inr ⟨result, rfl, ?_⟩
    dsimp only
    split_ifs
    · cases parseSignal p node.blockType result with
      | none => exact .inl rfl
      | some orders =>
        cases orders with
        | none => exact .inr ⟨signal, rfl⟩
        | some orders => exact .inr ⟨some orders, rfl⟩
    · exact .inr ⟨signal, rfl⟩

theorem evaluateNodes_frame {nodes : List ExecutionNode} {results : Results}
    {signal : Option (List Workers.Order)} {u : String} (hu : u ∉ nodes.map ExecutionNode.id) :
    (evaluateNodes blocks p s candle nodes results signal).1.get u = results.get u := by
  induction nodes generalizing results signal with
  | nil => rfl
  | cons node nodes ih =>
    rw [List.map_cons, List.mem_cons, not_or] at hu
    have hset : ∀ result, (results.set node.id result).get u = results.get u := fun result => by
      rw [Dict.get_set, if_neg hu.1]
    obtain ⟨-, hout⟩ | ⟨result, -, hout | ⟨signal', hout⟩⟩ :=
      evaluateNodes_cons blocks p s candle node nodes results signal
    · rw [hout]
    · rw [hout, hset]
    · rw [hout, ih hu.2, hset]

theorem evaluateNodes_holds {nodes : List ExecutionNode} {results : Results}
    {signal : Option (List Workers.Order)} (hnodup : (nodes.map ExecutionNode.id).Nodup)
    (hnew : ∀ node ∈ nodes, results.get node.id = none)
    (hinputs : ∀ node ∈ nodes, node.inputs = getInputNodes node.id p.dsl.edges)
    (hbefore : ∀ before node after, nodes = before ++ node :: after →
      ∀ u ∈ getInputNodes node.id p.dsl.edges, u ∉ (node :: after).map ExecutionNode.id) :
    ∀ node ∈ nodes, ∀ v,
      (evaluateNodes blocks p s candle nodes results signal).1.get node.id = some v →
      evaluateNode blocks p node s candle
        (evaluateNodes blocks p s candle nodes results signal).1 = some v := by
  induction nodes generalizing results signal with
  | nil => exact nofun
  | cons first nodes ih =>
    obtain ⟨hfirst, hnodup⟩ := List.nodup_cons.mp hnodup
    obtain ⟨hfirstNew, hnew⟩ := List.forall_mem_cons.mp hnew
    obtain ⟨hfirstInputs, hinputs⟩ := List.forall_mem_cons.mp hinputs
    have hupstream : ∀ u ∈ getInputNodes first.id p.dsl.edges,
        u ≠ first.id ∧ u ∉ nodes.map ExecutionNode.id := fun u hu => by
      simpa using hbefore [] first nodes rfl u hu
    obtain ⟨-, hout⟩ | ⟨result, hresult, hout⟩ :=
      evaluateNodes_cons blocks p s candle first nodes results signal
    · intro node hnode v hv
      obtain rfl | hnode := List.mem_cons.mp hnode
      · rw [hout, hfirstNew] at hv
        cases hv
      · rw [hout, hnew node hnode] at hv
        cases hv
    have hset : ∀ u, u ≠ first.id → (results.set first.id result).get u = results.get u :=
      fun u hu => by rw [Dict.get_set, if_neg hu]
    have hset' : ∀ node ∈ nodes, (results.set first.id result).get node.id = none := by
      intro node hnode
      rw [hset node.id fun h => hfirst (h ▸ List.mem_map_of_mem hnode), hnew node hnode]
    have hself : (results.set first.id result).get first.id = some result := by
      rw [Dict.get_set, if_pos rfl]
    obtain hout | ⟨signal', hout⟩ := hout
    · rw [hout]
      intro node hnode v hv
      obtain rfl | hnode := List.mem_cons.mp hnode
      · rw [← hv, hself, ← hresult]
        exact evaluateNode_congr blocks p s candle hfirstInputs fun u hu => hset u (hupstream u hu).1
      · rw [hset' node hnode] at hv
        cases hv
    · rw [hout]
      intro node hnode v hv
      obtain rfl | hnode := List.mem_cons.mp hnode
      · rw [evaluateNodes_frame blocks p s candle hfirst, hself] at hv
        rw [← hv, ← hresult]
        refine evaluateNode_congr blocks p s candle hfirstInputs fun u hu => ?_
        rw [evaluateNodes_frame blocks p s candle (hupstream u hu).2, hset u (hupstream u hu).1]
      · refine ih hnodup hset' hinputs (fun before node after hsplit => ?_) node hnode v hv
        exact hbefore (first :: before) node after (congrArg (first :: ·) hsplit)

theorem not_mem_later {graph : ExecutionGraph} {dsl : StrategyDSL} (h : graph.Compiles dsl)
    {before after : List ExecutionNode} {node : ExecutionNode}
    (hsplit : graph.nodes = before ++ node :: after) {u : String}
    (hu : u ∈ getInputNodes node.id dsl.edges) : u ∉ (node :: after).map ExecutionNode.id := by
  intro hlater
  obtain ⟨e, he, rfl, htarget⟩ := (mem_getInputNodes dsl).mp hu
  have hnodup := h.nodup
  have hbefore := h.before e he
  rw [ExecutionGraph.executionOrder, hsplit, List.map_append] at hnodup hbefore
  have hnot : ∀ v ∈ (node :: after).map ExecutionNode.id, v ∉ before.map ExecutionNode.id :=
    fun v hv hv' => (List.nodup_append.mp hnodup).2.2 v hv' v hv rfl
  rw [htarget, List.idxOf_append_of_notMem (hnot _ hlater),
    List.idxOf_append_of_notMem (hnot _ List.mem_cons_self), List.map_cons, List.idxOf_cons_self]
    at hbefore
  exact absurd hbefore (by omega)

theorem onCandle_holds {graph : ExecutionGraph} (hgraph : p.graph = some graph)
    (hcompiles : graph.Compiles p.dsl) {node : ExecutionNode} (hnode : node ∈ graph.nodes) {v : Value}
    (hv : (onCandle blocks p s candle).2.1.get node.id = some v) :
    evaluateNode blocks p node (s.see candle) candle (onCandle blocks p s candle).2.1 = some v := by
  have hresults : (onCandle blocks p s candle).2.1 =
      (evaluateNodes blocks p (s.see candle) candle graph.nodes [] none).1 := by
    rw [onCandle, hgraph]
  rw [hresults] at hv ⊢
  exact evaluateNodes_holds blocks p _ candle hcompiles.nodup (fun _ _ => rfl) hcompiles.inputs
    (fun _ _ _ hsplit _ hu => not_mem_later hcompiles hsplit hu) node hnode v hv

theorem construct_compiles {blocks : Blocks} {o : SetOrder} {dsl : StrategyDSL}
    {config : Dict String Value} {symbol : String} {p : GraphProgram}
    (hp : GraphProgram.construct blocks o dsl config symbol = some p) {graph : ExecutionGraph}
    (hgraph : p.graph = some graph) : p.dsl = dsl ∧ graph.Compiles dsl ∧
      ∀ node ∈ graph.nodes, (blocks.getBlock node.blockType).isSome := by
  obtain ⟨result, hresult, hcompiles⟩ := compileDsl_compiles blocks.getBlock o dsl
  unfold GraphProgram.construct at hp
  rw [hresult] at hp
  cases hp
  refine ⟨rfl, hcompiles graph ?_⟩
  dsimp only at hgraph
  split_ifs at hgraph
  exact hgraph

end Evaluated

end Trademetrix.Builder

/-!
# What triggers an order block

The gate of an order block is open when the first of `condition`, `triggered`, `result` and
`value` that is not `None` is truthy, whether an edge into its condition has brought it or
it is an output of some block upstream.
-/

namespace Trademetrix.Builder

open StrategyRuntime.Evaluations (Candle PositionMemory)

section Gate

variable (p : GraphProgram) (results : Results)

def ConditionMet (id : String) : Prop :=
  ∃ e ∈ portEdges p.dsl id "condition", (edgeValue results e).truthy = true

def Gated : Prop :=
  ∀ graph ∈ p.graph, ∀ node ∈ graph.nodes, node.blockType ∈ orderTypes →
    (results.get node.id).any triggered = true → ConditionMet p results node.id

/-- The first value handed to a block under one of the four names that is not `None`. -/
def firstHanded (id : String) : Option Value :=
  ["condition", "triggered", "result", "value"].findSome? fun key =>
    (handed p.dsl results id key).filter fun v => !v.isNone

/-- Where no edge into its condition carries a truthy value, an order block that is evaluated is
handed none first. -/
def Undisturbed : Prop :=
  ∀ graph ∈ p.graph, ∀ node ∈ graph.nodes, node.blockType ∈ orderTypes →
    (results.get node.id).isSome → ¬ConditionMet p results node.id →
      (firstHanded p results node.id).any Value.truthy = false

end Gate

section Triggers

variable {blocks : Blocks} {o : SetOrder} {dsl : StrategyDSL} {config : Dict String Value}
  {symbol : String} {p : GraphProgram} {s : GraphState} {candle : Candle}

theorem conditionTriggered_nodeCtx {node : ExecutionNode} {results : Results}
    (hinputs : node.inputs = getInputNodes node.id p.dsl.edges) :
    conditionTriggered (nodeCtx p node s candle results) =
      (firstHanded p results node.id).any Value.truthy := by
  simp only [conditionTriggered, firstHanded, nodeCtx, get_nodeInputs hinputs]

theorem triggered_order {node : ExecutionNode} {results : Results} {v : Value}
    (hinputs : node.inputs = getInputNodes node.id p.dsl.edges)
    (hblock : (blocks.getBlock node.blockType).isSome) (horder : node.blockType ∈ orderTypes)
    (hv : evaluateNode blocks p node s candle results = some v) :
    triggered v = (firstHanded p results node.id).any Value.truthy := by
  obtain ⟨block, hblock⟩ := Option.isSome_iff_exists.mp hblock
  rw [evaluateNode, hblock] at hv
  dsimp only at hv
  rw [compute_order blocks horder, computeOrder] at hv
  obtain ⟨m, -, hm⟩ := Option.bind_eq_some_iff.mp hv
  rw [← conditionTriggered_nodeCtx hinputs, ← Option.some.inj hm]
  rfl

theorem gated_onCandle_iff (hp : GraphProgram.construct blocks o dsl config symbol = some p) :
    Gated p (onCandle blocks p s candle).2.1 ↔ Undisturbed p (onCandle blocks p s candle).2.1 := by
  refine forall₂_congr fun graph hgraph => forall₂_congr fun node hnode => forall_congr' fun horder => ?_
  obtain ⟨rfl, hcompiles, hblocks⟩ := construct_compiles hp hgraph
  cases hget : (onCandle blocks p s candle).2.1.get node.id with
  | none => simp
  | some v =>
    have hv := onCandle_holds blocks p s candle hgraph hcompiles hnode hget
    have htriggered := triggered_order (hcompiles.inputs node hnode) (hblocks node hnode) horder hv
    rw [Option.any_some, htriggered]
    simp only [Option.isSome_some, forall_true_left, ← Bool.not_eq_true]
    exact not_imp_not.symm

theorem mem_runResults {candles : List (PositionMemory × Candle)} {results : Results}
    (h : results ∈ runResults blocks p s candles) :
    ∃ s candle, results = (onCandle blocks p s candle).2.1 := by
  induction candles generalizing s with
  | nil => cases h
  | cons c candles ih =>
    obtain rfl | h := List.mem_cons.mp h
    · exact ⟨_, _, rfl⟩
    · exact ih h

theorem gated_iff (hp : GraphProgram.construct blocks o dsl config symbol = some p)
    (candles : List (PositionMemory × Candle)) :
    (∀ results ∈ runResults blocks p {} candles, Gated p results) ↔
      ∀ results ∈ runResults blocks p {} candles, Undisturbed p results := by
  refine forall₂_congr fun results hresults => ?_
  obtain ⟨s, candle, rfl⟩ := mem_runResults hresults
  exact gated_onCandle_iff hp

end Triggers

section Quantity

def dedupOrder : SetOrder := ⟨List.dedup, List.nodup_dedup, fun _ _ => List.mem_dedup⟩

def someBlocks : Dict String BlockDef :=
  [("source.candle", {
      name := "Candle"
      category := .input
      outputs := ["open", "high", "low", "close", "volume", "oi", "candle"].map fun name =>
        { name := name, label := name } }),
    ("constant.number", {
      name := "Number"
      category := .variable_
      outputs := [{ name := "value", label := "value" }]
      params := [{ name := "value", label := "Value", default := .num 0 }] }),
    ("signal.cross_above", {
      name := "Cross Above"
      category := .signal
      inputs := [{ name := "a", label := "Series A" }, { name := "b", label := "Series B" }]
      outputs := [{ name := "triggered", label := "triggered" },
        { name := "crossover_value", label := "crossover_value" }] }),
    ("order.buy", {
      name := "BUY Signal"
      category := .order
      inputs := [{ name := "condition", label := "Trigger Condition", required := false }]
      outputs := [{ name := "signal", label := "signal" }]
      params := [{ name := "quantity", label := "Quantity", default := .num 0 },
        { name := "order_type", label := "Order Type", default := .str "MARKET" },
        { name := "product", label := "Product", default := .str "INTRADAY" },
        { name := "reason", label := "Reason", default := .str "Strategy signal" }] })]

def plainBlocks : Blocks where
  getBlock := someBlocks.get
  compute _ _ := none
  floatOf _ := none

def flatCandle (timestamp : String) (price : ℚ) : Candle :=
  ⟨timestamp, price, price, price, price, 0, 0⟩

def quantityFed : StrategyDSL where
  nodes := [{ id := "src", blockType := "source.candle" },
    { id := "one", blockType := "constant.number", params := [("value", .num 1)] },
    { id := "buy", blockType := "order.buy" }]
  edges := [⟨"one", "value", "buy", "quantity"⟩]

def quantityProgram : GraphProgram where
  dsl := quantityFed
  graph := some {
    nodes := [⟨"src", "source.candle", "input", 0, [], "open", [], "source.candle", 10⟩,
      ⟨"one", "constant.number", "variable", 1, [], "value", [("value", .num 1)],
        "constant.number", 5⟩,
      ⟨"buy", "order.buy", "order", 2, ["one"], "signal", [], "order.buy", 5⟩]
    entryPoints := ["src", "one"]
    exitPoints := ["src", "buy"]
    totalEstimatedLatencyUs := 20
    maxDepth := 1 }
  symbol := "NIFTY"

theorem construct_quantityFed :
    GraphProgram.construct plainBlocks dedupOrder quantityFed [] "NIFTY" = some quantityProgram :=
  rfl

/-- The order block triggers on the number. -/
theorem not_gated_quantity :
    GraphProgram.construct plainBlocks dedupOrder quantityFed [] "NIFTY" = some quantityProgram ∧
      ¬∀ results ∈ runResults plainBlocks quantityProgram {}
        [({}, flatCandle "2026-10-05T09:15:00" 100)], Gated quantityProgram results := by
  refine ⟨construct_quantityFed, fun h => ?_⟩
  obtain ⟨e, he, -⟩ := h _ List.mem_cons_self _ rfl
    ⟨"buy", "order.buy", "order", 2, ["one"], "signal", [], "order.buy", 5⟩
    (List.mem_cons_of_mem _ (List.mem_cons_of_mem _ List.mem_cons_self)) (by decide) rfl
  have hnone : portEdges quantityProgram.dsl "buy" "condition" = [] := by decide
  rw [hnone] at he
  cases he

theorem gated_iff_quantity :
    (∀ results ∈ runResults plainBlocks quantityProgram {}
        [({}, flatCandle "2026-10-05T09:15:00" 100)], Gated quantityProgram results) ↔
      ∀ results ∈ runResults plainBlocks quantityProgram {}
        [({}, flatCandle "2026-10-05T09:15:00" 100)], Undisturbed quantityProgram results :=
  gated_iff construct_quantityFed _

end Quantity

end Trademetrix.Builder
