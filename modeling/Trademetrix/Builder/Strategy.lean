import Mathlib.Data.Rat.Floor
import Trademetrix.Builder.Compiler
import Trademetrix.StrategyRuntime.Evaluations

/-!
# The strategy of a graph

`GraphStrategy`: on each candle the nodes of the compiled graph are evaluated one after the
other on what their upstream blocks have handed over. The source, constant, logic, cross and
order blocks are here; the compute functions of the other types, `float` of a text and the
definitions of the blocks are parameters.
-/

namespace Trademetrix.Builder

open StrategyRuntime.Evaluations (Candle PositionMemory)
open StrategyRuntime (Workers.Order)

namespace Value

def truthy : Value → Bool
  | none => false
  | bool b => b
  | num x => x ≠ 0
  | str s => s ≠ ""
  | list xs => !xs.isEmpty
  | dict entries => !entries.isEmpty
  | object => true

def isNone : Value → Bool
  | none => true
  | _ => false

/-- The number that an `int`, a `float` or a `bool` is. -/
def number : Value → Option ℚ
  | num x => some x
  | bool b => some (if b then 1 else 0)
  | _ => Option.none

/-- `int(v)`; `none` raises. -/
def toInt : Value → Option ℤ
  | num x => some (if 0 ≤ x then ⌊x⌋ else ⌈x⌉)
  | bool b => some (if b then 1 else 0)
  | str s => Text.parseInt s
  | _ => Option.none

end Value

/-- `params.get(key, default)`. -/
def getOr (d : Dict String Value) (key : String) (default : Value) : Value :=
  (d.get key).getD default

structure Ctx where
  candle : Candle
  series : Dict String (List ℚ)
  memory : PositionMemory
  candleIndex : ℕ
  params : Dict String Value
  inputs : Dict String Value
  blockType : String

structure Blocks where
  getBlock : String → Option BlockDef
  /-- The compute functions of the types in `otherTypes`; `none` raises. -/
  compute : String → Ctx → Option Value
  /-- `float` of a text; `none` raises. -/
  floatOf : String → Option ℚ

def portValue (result : Option Value) (sourcePort : String) : Value :=
  match result with
  | none => .none
  | some (.dict entries) => getOr entries sourcePort .none
  | some v => v

/-- The first of the four that is not `None` decides. -/
def conditionTriggered (ctx : Ctx) : Bool :=
  (["condition", "triggered", "result", "value"].findSome? fun key =>
    (ctx.inputs.get key).filter fun v => !v.isNone).any Value.truthy

def getSeries (ctx : Ctx) (key : String) : List ℚ := (ctx.series.get key).getD []

/-- `xs[-n:]`. -/
def lastN {α : Type} (n : ℤ) (xs : List α) : List α :=
  if n ≤ 0 then xs.drop (-n).toNat else xs.drop (xs.length - n.toNat)

section Compute

variable (blocks : Blocks)

/-- `float(v)`; `none` raises. -/
def Blocks.toFloat : Value → Option ℚ
  | .str s => blocks.floatOf s
  | v => v.number

def crossSeriesAndTarget (ctx : Ctx) : Option (List Value × ℚ) :=
  let series : List Value :=
    match ctx.inputs.get "a" with
    | some (.list (x :: xs)) => x :: xs
    | _ => (getSeries ctx "close").map .num
  match getOr ctx.inputs "b" (.num 0) with
  | .num x => some (series, x)
  | .bool b => some (series, if b then 1 else 0)
  | .list (x :: xs) => do
    let target ← blocks.toFloat ((x :: xs).getLast (List.cons_ne_nil _ _))
    return (series, target)
  | _ => some (series, 0)

def lastTwo (series : List Value) : Option (Value × Value) :=
  match series.reverse with
  | x :: y :: _ => some (x, y)
  | _ => none

/-- Comparing what is no number with one raises. `and` does not look at the last value when the
one before is not on its side. -/
def crossed (onSide past : ℚ → ℚ → Bool) (target : ℚ) (last previous : Value) : Option Bool := do
  let y ← previous.number
  if onSide y target then
    let x ← last.number
    return past x target
  else return false

def computeCross (onSide past : ℚ → ℚ → Bool) (valueKey : String) (ctx : Ctx) : Option Value := do
  let (series, target) ← crossSeriesAndTarget blocks ctx
  match lastTwo series with
  | none => return .dict [("triggered", .bool false), (valueKey, .num 0)]
  | some (last, previous) =>
    let triggered ← crossed onSide past target last previous
    return .dict [("triggered", .bool triggered), (valueKey, last)]

def computeCrossAbove : Ctx → Option Value :=
  computeCross blocks (fun y t => y ≤ t) (fun x t => t < x) "crossover_value"

def computeCrossBelow : Ctx → Option Value :=
  computeCross blocks (fun y t => t ≤ y) (fun x t => x < t) "crossunder_value"

/-- No context has a `config`, and the quantity falls back to 75. -/
def orderMeta (ctx : Ctx) : Option Value := do
  let quantity := getOr ctx.params "quantity" (.num 0)
  let quantity ← (if quantity.truthy then quantity else .num 75).toInt
  return .dict [("quantity", .num quantity),
    ("order_type", getOr ctx.params "order_type" (.str "MARKET")),
    ("product", getOr ctx.params "product" (.str "INTRADAY")),
    ("reason", getOr ctx.params "reason" (.str ""))]

/-- `_compute_order_buy`, `_compute_order_sell`, `_compute_order_exit` and
`_compute_order_reverse`. -/
def computeOrder (ctx : Ctx) : Option Value := do
  let orderMeta ← orderMeta ctx
  return .dict [("triggered", .bool (conditionTriggered ctx)), ("meta", orderMeta)]

/-- `float(v or 0)`. -/
def floatOrZero (v : Value) : Option ℚ := if v.truthy then blocks.toFloat v else some 0

def computeComparison (compare : ℚ → ℚ → Bool) (ctx : Ctx) : Option Value := do
  let a ← floatOrZero blocks (getOr ctx.inputs "a" (.bool false))
  let b ← floatOrZero blocks (getOr ctx.inputs "b" (.bool false))
  return .bool (compare a b)

def computeLogicAnd (ctx : Ctx) : Value :=
  .bool ((getOr ctx.inputs "a" (.bool false)).truthy && (getOr ctx.inputs "b" (.bool false)).truthy)

def computeLogicOr (ctx : Ctx) : Value :=
  .bool ((getOr ctx.inputs "a" (.bool false)).truthy || (getOr ctx.inputs "b" (.bool false)).truthy)

def computeLogicNot (ctx : Ctx) : Value :=
  .bool !(getOr ctx.inputs "value" (getOr ctx.inputs "a" (.bool false))).truthy

def computeIfElse (ctx : Ctx) : Value :=
  if (getOr ctx.inputs "condition" .none).truthy then getOr ctx.inputs "then" .none
  else getOr ctx.inputs "else" .none

def computeSourcePosition (ctx : Ctx) : Value :=
  .dict [("quantity", .num ctx.memory.positionQty), ("avg_price", .num ctx.memory.positionAvg),
    ("pnl", .num ctx.memory.positionPnl), ("has_position", .bool (ctx.memory.positionQty ≠ 0))]

def computeSourceCandle (ctx : Ctx) : Value :=
  .dict [("open", .num ctx.candle.opened), ("high", .num ctx.candle.high),
    ("low", .num ctx.candle.low), ("close", .num ctx.candle.close),
    ("volume", .num ctx.candle.volume), ("oi", .num ctx.candle.oi), ("candle", .object)]

def computeSourceCloseHistory (ctx : Ctx) : Option Value := do
  let maxLength ← (getOr ctx.params "max_length" (.num 500)).toInt
  let history := fun key => Value.list ((lastN maxLength (getSeries ctx key)).map .num)
  return .dict [("prices", history "close"), ("highs", history "high"), ("lows", history "low"),
    ("volumes", history "volume")]

def computeConstantNumber (ctx : Ctx) : Option Value := do
  let value ← blocks.toFloat (getOr ctx.params "value" (.num 0))
  return .dict [("value", .num value)]

def otherTypes : List String :=
  ["indicator.sma", "indicator.ema", "indicator.rsi", "indicator.macd", "indicator.bollinger",
    "indicator.vwap", "indicator.atr", "indicator.supertrend", "indicator.stoch", "indicator.adx",
    "math.add", "math.sub", "math.mul", "math.div", "math.min", "math.max", "math.avg", "math.abs",
    "math.pct_change", "math.highest", "math.lowest", "logic.eq", "logic.neq", "signal.breakout",
    "signal.divergence", "smc.order_block", "smc.liquidity_grab", "smc.fvg", "source.market_time",
    "time.day_of_week", "time.time_range", "candle.bullish", "candle.bearish", "candle.doji"]

def orderTypes : List String := ["order.buy", "order.sell", "order.exit", "order.reverse"]

/-- The compute function of a block type, on its context; `_compute_default` hands on the inputs. -/
def compute (blockType : String) (ctx : Ctx) : Option Value :=
  if blockType ∈ orderTypes then computeOrder ctx
  else match blockType with
    | "signal.cross_above" => computeCrossAbove blocks ctx
    | "signal.cross_below" => computeCrossBelow blocks ctx
    | "source.candle" => some (computeSourceCandle ctx)
    | "source.close_history" => computeSourceCloseHistory ctx
    | "source.position" => some (computeSourcePosition ctx)
    | "constant.number" => computeConstantNumber blocks ctx
    | "logic.and" => some (computeLogicAnd ctx)
    | "logic.or" => some (computeLogicOr ctx)
    | "logic.not" => some (computeLogicNot ctx)
    | "logic.gt" => computeComparison blocks (fun a b => b < a) ctx
    | "logic.lt" => computeComparison blocks (fun a b => a < b) ctx
    | "logic.gte" => computeComparison blocks (fun a b => b ≤ a) ctx
    | "logic.lte" => computeComparison blocks (fun a b => a ≤ b) ctx
    | "logic.if_else" => some (computeIfElse ctx)
    | other => if other ∈ otherTypes then blocks.compute other ctx else some (.dict ctx.inputs)

theorem compute_order {blockType : String} (h : blockType ∈ orderTypes) (ctx : Ctx) :
    compute blocks blockType ctx = computeOrder ctx := by
  unfold compute
  exact if_pos h

end Compute

abbrev Results := Dict String Value

/-- A strategy as it is constructed: its graph is `none` when it did not compile. -/
structure GraphProgram where
  dsl : StrategyDSL
  graph : Option ExecutionGraph
  config : Dict String Value := []
  /-- `candle.symbol` -/
  symbol : String := ""

structure GraphState where
  memory : PositionMemory := {}
  series : Dict String (List ℚ) := []
  candleIndex : ℕ := 0

def GraphState.appendSeries (s : GraphState) (key : String) (value : ℚ) : GraphState :=
  { s with series := s.series.set key (lastN 500 ((s.series.get key).getD [] ++ [value])) }

def GraphState.see (s : GraphState) (candle : Candle) : GraphState :=
  let s := { s with candleIndex := s.candleIndex + 1 }
  let s := s.appendSeries "open" candle.opened
  let s := s.appendSeries "high" candle.high
  let s := s.appendSeries "low" candle.low
  let s := s.appendSeries "close" candle.close
  let s := s.appendSeries "volume" candle.volume
  s.appendSeries "oi" candle.oi

def mergeResult (results : Results) (inputs : Dict String Value) (inpId : String) :
    Dict String Value :=
  match results.get inpId with
  | none => inputs
  | some .none => inputs
  | some (.dict entries) => inputs.update entries
  | some v => inputs.set "value" v

section Evaluation

variable (blocks : Blocks) (p : GraphProgram)

/-- What `_evaluate_node` hands to the compute function. -/
def nodeInputs (node : ExecutionNode) (results : Results) : Dict String Value :=
  let inputs := node.inputs.foldl (mergeResult results) []
  (p.dsl.edges.filter fun e => e.targetNode = node.id).foldl (fun inputs e =>
    inputs.set e.targetPort (portValue (results.get e.sourceNode) e.sourcePort)) inputs

def nodeCtx (node : ExecutionNode) (s : GraphState) (candle : Candle) (results : Results) : Ctx where
  candle := candle
  series := s.series
  memory := s.memory
  candleIndex := s.candleIndex
  params := node.params
  inputs := nodeInputs p node results
  blockType := node.blockType

/-- `none` raises. -/
def evaluateNode (node : ExecutionNode) (s : GraphState) (candle : Candle) (results : Results) :
    Option Value :=
  match blocks.getBlock node.blockType with
  | none => some .none
  | some _ => compute blocks node.blockType (nodeCtx p node s candle results)

/-- `result and isinstance(result, dict) and result.get("triggered", False)` -/
def triggered : Value → Bool
  | .dict entries => (getOr entries "triggered" (.bool false)).truthy
  | _ => false

def exchanges : List String := ["NSE", "BSE", "NFO", "CDS", "MCX"]

def orderKinds : List String := ["MARKET", "LIMIT", "SL", "SLM"]

def products : List String := ["DELIVERY", "INTRADAY", "MIS", "NRML"]

def Value.isIn (values : List String) : Value → Bool
  | .str s => s ∈ values
  | _ => false

/-- `_parse_signal` of a triggered block: its orders, if it makes any; `none` raises. -/
def parseSignal (blockType : String) (result : Value) : Option (Option (List Workers.Order)) :=
  match result with
  | .dict entries =>
    match getOr entries "meta" (.dict []) with
    | .dict meta_ => do
      if blockType ≠ "order.buy" ∧ blockType ≠ "order.sell" then return none
      let qty := getOr meta_ "quantity" (.num 0)
      let qty := if qty.truthy then qty else getOr p.config "quantity" (.num 75)
      guard ((getOr p.config "exchange" (.str "NSE")).isIn exchanges)
      guard ((getOr meta_ "order_type" (.str "MARKET")).isIn orderKinds)
      guard ((getOr meta_ "product" (.str "INTRADAY")).isIn products)
      let quantity ← (if qty.truthy then qty else .num 75).toInt
      let .str symbol := getOr p.config "symbol" (.str p.symbol) | failure
      let .str _ := getOr meta_ "reason" (.str "") | failure
      return some [⟨symbol, if blockType = "order.buy" then "BUY" else "SELL", quantity⟩]
    | _ => failure
  | _ => some none

/-- The nodes one after the other: the results so far, and the signal, which is lost when a node
raises. -/
def evaluateNodes (s : GraphState) (candle : Candle) :
    List ExecutionNode → Results → Option (List Workers.Order) → Results × Option (List Workers.Order)
  | [], results, signal => (results, signal)
  | node :: nodes, results, signal =>
    match evaluateNode blocks p node s candle results with
    | none => (results, none)
    | some result =>
      let results := results.set node.id result
      if node.blockType ∈ orderTypes ∧ triggered result then
        match parseSignal p node.blockType result with
        | none => (results, none)
        | some none => evaluateNodes s candle nodes results signal
        | some (some orders) => evaluateNodes s candle nodes results (some orders)
      else evaluateNodes s candle nodes results signal

def onCandle (s : GraphState) (candle : Candle) :
    GraphState × Results × Option (List Workers.Order) :=
  match p.graph with
  | none => (s, [], none)
  | some graph =>
    let s := s.see candle
    (s, evaluateNodes blocks p s candle graph.nodes [] none)

def runResults : GraphState → List (PositionMemory × Candle) → List Results
  | _, [] => []
  | s, (memory, candle) :: candles =>
    let out := onCandle blocks p { s with memory := memory } candle
    out.2.1 :: runResults out.1 candles

end Evaluation

/-- `GraphStrategy(config)` of a strategy that has a DSL. -/
def GraphProgram.construct (blocks : Blocks) (o : SetOrder) (dsl : StrategyDSL)
    (config : Dict String Value) (symbol : String) : Option GraphProgram := do
  let (graph, validation) ← compileDsl blocks.getBlock o dsl
  return {
    dsl := dsl
    graph := if validation.valid then graph else none
    config := config
    symbol := symbol }

end Trademetrix.Builder
