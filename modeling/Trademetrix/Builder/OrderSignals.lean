import Trademetrix.Builder.Triggers

/-!
# The orders of a candle

`on_candle` keeps one signal, which each triggered buy or sell block sets anew;
exit and reverse blocks set none, and a node that raises takes the signal with it.
So the orders of a candle are those of its triggered blocks just if there is at
most one, to buy or to sell.
-/

namespace Trademetrix.Builder

open StrategyRuntime (Workers.Order)
open StrategyRuntime.Evaluations (Candle PositionMemory)

def tradeTypes : List String := ["order.buy", "order.sell"]

def fired (evaluations : List (ExecutionNode × Option Value)) : List (ExecutionNode × Value) :=
  evaluations.filterMap fun e =>
    (e.2.filter fun v => decide (e.1.blockType ∈ orderTypes) && triggered v).map fun v => (e.1, v)

section Evaluations

variable (blocks : Blocks) (p : GraphProgram) (s : GraphState) (candle : Candle)

def evaluations : List ExecutionNode → Results → List (ExecutionNode × Option Value)
  | [], _ => []
  | node :: nodes, results =>
    match evaluateNode blocks p node s candle results with
    | none => [(node, none)]
    | some v => (node, some v) :: evaluations nodes (results.set node.id v)

def candleEvaluations : List (ExecutionNode × Option Value) :=
  match p.graph with
  | none => []
  | some graph => evaluations blocks p (s.see candle) candle graph.nodes []

/-- An order of a triggered block. To buy or to sell, it is the one its parameters make; an exit or
a reverse may be made in any way. -/
def IsOrderOf (e : ExecutionNode × Value) (order : Workers.Order) : Prop :=
  e.1.blockType ∈ tradeTypes → parseSignal p e.1.blockType e.2 = some (some [order])

def ReturnsEach : Prop :=
  List.Forall₂ (IsOrderOf p) (fired (candleEvaluations blocks p s candle))
    ((onCandle blocks p s candle).2.2.getD [])

/-- The quantity of a block's own; `none` raises. -/
def ownQuantity (node : ExecutionNode) : Option ℤ :=
  let quantity := getOr node.params "quantity" (.num 0)
  (if quantity.truthy then quantity else .num 75).toInt

def configQuantity : Option ℤ :=
  let quantity := getOr p.config "quantity" (.num 75)
  (if quantity.truthy then quantity else .num 75).toInt

structure Buildable (node : ExecutionNode) : Prop where
  trade : node.blockType ∈ tradeTypes
  exchange : (getOr p.config "exchange" (.str "NSE")).isIn exchanges = true
  orderType : (getOr node.params "order_type" (.str "MARKET")).isIn orderKinds = true
  product : (getOr node.params "product" (.str "INTRADAY")).isIn products = true
  quantity : ownQuantity node = some 0 → (configQuantity p).isSome
  symbol : ∃ text, getOr p.config "symbol" (.str p.symbol) = .str text
  reason : ∃ text, getOr node.params "reason" (.str "") = .str text

def SingleOrder : Prop :=
  fired (candleEvaluations blocks p s candle) = [] ∨
    ∃ e, fired (candleEvaluations blocks p s candle) = [e] ∧ Buildable p e.1 ∧
      ∀ e' ∈ candleEvaluations blocks p s candle, e'.2 ≠ none

end Evaluations

section Signals

variable {blocks : Blocks} {p : GraphProgram} {s : GraphState} {candle : Candle}

theorem mem_fired {evs : List (ExecutionNode × Option Value)} {e : ExecutionNode × Value} :
    e ∈ fired evs ↔ (e.1, some e.2) ∈ evs ∧ e.1.blockType ∈ orderTypes ∧ triggered e.2 = true := by
  unfold fired
  rw [List.mem_filterMap]
  constructor
  · rintro ⟨⟨node, value⟩, hmem, heq⟩
    obtain ⟨v, hfilter, rfl⟩ := Option.map_eq_some_iff.mp heq
    obtain ⟨hvalue, hfires⟩ := Option.filter_eq_some_iff.mp hfilter
    rw [Bool.and_eq_true, decide_eq_true_eq] at hfires
    dsimp only at hvalue
    rw [hvalue] at hmem
    exact ⟨hmem, hfires⟩
  · rintro ⟨hmem, htype, htriggered⟩
    exact ⟨_, hmem, by simp [htype, htriggered]⟩

theorem fired_cons_of_fires {node : ExecutionNode} {v : Value}
    {evs : List (ExecutionNode × Option Value)}
    (h : node.blockType ∈ orderTypes ∧ triggered v = true) :
    fired ((node, some v) :: evs) = (node, v) :: fired evs := by
  simp [fired, h]

theorem fired_cons_of_not_fires {node : ExecutionNode} {v : Value}
    {evs : List (ExecutionNode × Option Value)}
    (h : ¬(node.blockType ∈ orderTypes ∧ triggered v = true)) :
    fired ((node, some v) :: evs) = fired evs := by
  have hfilter : ((some v).filter fun v => decide (node.blockType ∈ orderTypes) && triggered v) =
      none := by
    rw [Option.filter_eq_none_iff]
    intro v' hv'
    rw [← Option.some.inj hv', Bool.and_eq_true, decide_eq_true_eq]
    exact h
  simp only [fired, List.filterMap_cons, hfilter, Option.map_none]

theorem parseSignal_dict_iff {blockType : String} {entries meta_ : Dict String Value}
    {orders : List Workers.Order} (hmeta : getOr entries "meta" (.dict []) = .dict meta_) :
    parseSignal p blockType (.dict entries) = some (some orders) ↔
      blockType ∈ tradeTypes ∧ (getOr p.config "exchange" (.str "NSE")).isIn exchanges = true ∧
      (getOr meta_ "order_type" (.str "MARKET")).isIn orderKinds = true ∧
      (getOr meta_ "product" (.str "INTRADAY")).isIn products = true ∧
      ∃ quantity symbol reason,
        (let qty := getOr meta_ "quantity" (.num 0)
         let qty := if qty.truthy then qty else getOr p.config "quantity" (.num 75)
         (if qty.truthy then qty else .num 75).toInt) = some quantity ∧
        getOr p.config "symbol" (.str p.symbol) = .str symbol ∧
        getOr meta_ "reason" (.str "") = .str reason ∧
        orders = [⟨symbol, if blockType = "order.buy" then "BUY" else "SELL", quantity⟩] := by
  have htrade : blockType ∈ tradeTypes ↔ ¬(blockType ≠ "order.buy" ∧ blockType ≠ "order.sell") := by
    simp only [tradeTypes, List.mem_cons, List.not_mem_nil, or_false]
    tauto
  unfold parseSignal
  dsimp only
  rw [hmeta, htrade]
  dsimp only
  split
  · next h => simp [h]
  · next h =>
    rw [Option.bind_eq_bind, Option.bind_eq_some_iff]
    simp only [Option.bind_eq_bind, Option.bind_eq_some_iff, Option.guard_eq_some']
    constructor
    · rintro ⟨-, hexchange, -, htype, -, hproduct, quantity, hquantity, hout⟩
      cases hsymbol : getOr p.config "symbol" (.str p.symbol) with
      | str symbol =>
        cases hreason : getOr meta_ "reason" (.str "") with
        | str reason =>
          rw [hsymbol, hreason] at hout
          have horders : some [_] = some orders := Option.some.inj hout
          exact ⟨h, hexchange, htype, hproduct, quantity, symbol, reason, hquantity, rfl, rfl,
            (Option.some.inj horders).symm⟩
        | _ =>
          rw [hsymbol, hreason] at hout
          cases hout
      | _ =>
        rw [hsymbol] at hout
        cases hout
    · rintro ⟨-, hexchange, htype, hproduct, quantity, symbol, reason, hquantity, hsymbol, hreason, rfl⟩
      refine ⟨(), hexchange, (), htype, (), hproduct, quantity, hquantity, ?_⟩
      rw [hsymbol, hreason]
      rfl

theorem parseSignal_single {blockType : String} {v : Value} {orders : List Workers.Order}
    (h : parseSignal p blockType v = some (some orders)) :
    blockType ∈ tradeTypes ∧ ∃ order, orders = [order] := by
  cases v with
  | dict entries =>
    cases hmeta : getOr entries "meta" (.dict []) with
    | dict meta_ =>
      obtain ⟨htrade, -, -, -, quantity, symbol, reason, -, -, -, horders⟩ :=
        (parseSignal_dict_iff hmeta).mp h
      exact ⟨htrade, _, horders⟩
    | _ =>
      simp only [parseSignal, hmeta] at h
      cases h
  | _ => cases h

def handedMeta (node : ExecutionNode) (quantity : ℤ) : Dict String Value :=
  [("quantity", .num quantity), ("order_type", getOr node.params "order_type" (.str "MARKET")),
    ("product", getOr node.params "product" (.str "INTRADAY")),
    ("reason", getOr node.params "reason" (.str ""))]

theorem evaluateNode_order {node : ExecutionNode} {v : Value} {results : Results}
    (horder : node.blockType ∈ orderTypes) (htriggered : triggered v = true)
    (hv : evaluateNode blocks p node s candle results = some v) :
    ∃ quantity : ℤ, ownQuantity node = some quantity ∧
      v = .dict [("triggered", .bool true), ("meta", .dict (handedMeta node quantity))] := by
  unfold evaluateNode at hv
  split at hv
  · obtain rfl := Option.some.inj hv
    cases htriggered
  · rw [compute_order blocks horder, computeOrder] at hv
    obtain ⟨m, hm, hv⟩ := Option.bind_eq_some_iff.mp hv
    obtain ⟨quantity, hquantity, hm⟩ := Option.bind_eq_some_iff.mp hm
    obtain rfl := Option.some.inj hm
    obtain rfl := Option.some.inj hv
    have hgate : (Value.bool (conditionTriggered (nodeCtx p node s candle results))).truthy = true :=
      htriggered
    rw [show conditionTriggered (nodeCtx p node s candle results) = true from hgate]
    exact ⟨quantity, hquantity, rfl⟩

theorem buildable_iff {node : ExecutionNode} {v : Value} {results : Results}
    (horder : node.blockType ∈ orderTypes) (htriggered : triggered v = true)
    (hv : evaluateNode blocks p node s candle results = some v) :
    (∃ order, parseSignal p node.blockType v = some (some [order])) ↔ Buildable p node := by
  obtain ⟨own, hown, rfl⟩ := evaluateNode_order horder htriggered hv
  have hquantity : (let qty : Value := .num own
      let qty := if qty.truthy then qty else getOr p.config "quantity" (.num 75)
      (if qty.truthy then qty else .num 75).toInt).isSome ↔
        (ownQuantity node = some 0 → (configQuantity p).isSome) := by
    rw [hown]
    by_cases hzero : own = 0
    · simp [hzero, configQuantity, Value.truthy]
    · simp [hzero, Value.truthy, Value.toInt]
  rw [Option.isSome_iff_exists] at hquantity
  have hmeta : getOr [("triggered", .bool true), ("meta", .dict (handedMeta node own))] "meta" (.dict []) =
    .dict (handedMeta node own) := rfl
  constructor
  · rintro ⟨order, hparse⟩
    obtain ⟨htrade, hexchange, htype, hproduct, quantity, symbol, reason, hint, hsymbol, hreason, -⟩ :=
      (parseSignal_dict_iff hmeta).mp hparse
    exact ⟨htrade, hexchange, htype, hproduct, hquantity.mp ⟨quantity, hint⟩, ⟨symbol, hsymbol⟩,
      ⟨reason, hreason⟩⟩
  · intro h
    obtain ⟨quantity, hint⟩ := hquantity.mpr h.quantity
    obtain ⟨symbol, hsymbol⟩ := h.symbol
    obtain ⟨reason, hreason⟩ := h.reason
    exact ⟨_, (parseSignal_dict_iff hmeta).mpr ⟨h.trade, h.exchange, h.orderType, h.product, quantity,
      symbol, reason, hint, hsymbol, hreason, rfl⟩⟩

theorem evaluateNodes_of_value {node : ExecutionNode} {v : Value} {results : Results}
    (hv : evaluateNode blocks p node s candle results = some v) (nodes : List ExecutionNode)
    (signal : Option (List Workers.Order)) :
    evaluateNodes blocks p s candle (node :: nodes) results signal =
      if node.blockType ∈ orderTypes ∧ triggered v = true then
        match parseSignal p node.blockType v with
        | none => (results.set node.id v, none)
        | some parsed =>
          evaluateNodes blocks p s candle nodes (results.set node.id v) (parsed.or signal)
      else evaluateNodes blocks p s candle nodes (results.set node.id v) signal := by
  rw [evaluateNodes, hv]
  dsimp only
  split
  · cases parseSignal p node.blockType v with
    | none => rfl
    | some parsed => cases parsed <;> rfl
  · rfl

theorem evaluateNodes_signal {nodes : List ExecutionNode} {results : Results}
    {signal : Option (List Workers.Order)} {orders : List Workers.Order}
    (h : (evaluateNodes blocks p s candle nodes results signal).2 = some orders) :
    (∀ e ∈ evaluations blocks p s candle nodes results, e.2 ≠ none) ∧
      (signal = some orders ∨ ∃ e ∈ fired (evaluations blocks p s candle nodes results),
        parseSignal p e.1.blockType e.2 = some (some orders)) := by
  induction nodes generalizing results signal with
  | nil => exact ⟨by simp [evaluations], .inl h⟩
  | cons node nodes ih =>
    unfold evaluations
    cases hv : evaluateNode blocks p node s candle results with
    | none =>
      rw [evaluateNodes, hv] at h
      cases h
    | some v =>
      rw [evaluateNodes_of_value hv] at h
      dsimp only
      split at h
      · next hfires =>
        rw [fired_cons_of_fires hfires]
        cases hparse : parseSignal p node.blockType v with
        | none =>
          rw [hparse] at h
          cases h
        | some parsed =>
          rw [hparse] at h
          obtain ⟨hraise, hfound⟩ := ih h
          refine ⟨List.forall_mem_cons.mpr ⟨Option.some_ne_none v, hraise⟩, ?_⟩
          rcases hfound with hbefore | ⟨e, he, hparsed⟩
          · cases parsed with
            | none => exact .inl hbefore
            | some own =>
              rw [Option.some_or] at hbefore
              exact .inr ⟨_, List.mem_cons_self, hparse.trans (congrArg some hbefore)⟩
          · exact .inr ⟨e, List.mem_cons_of_mem _ he, hparsed⟩
      · next hfires =>
        rw [fired_cons_of_not_fires hfires]
        obtain ⟨hraise, hfound⟩ := ih h
        exact ⟨List.forall_mem_cons.mpr ⟨Option.some_ne_none v, hraise⟩, hfound⟩

theorem evaluateNodes_quiet {nodes : List ExecutionNode} {results : Results}
    {signal : Option (List Workers.Order)}
    (hraise : ∀ e ∈ evaluations blocks p s candle nodes results, e.2 ≠ none)
    (hquiet : fired (evaluations blocks p s candle nodes results) = []) :
    (evaluateNodes blocks p s candle nodes results signal).2 = signal := by
  induction nodes generalizing results with
  | nil => rfl
  | cons node nodes ih =>
    unfold evaluations at hraise hquiet
    cases hv : evaluateNode blocks p node s candle results with
    | none =>
      rw [hv] at hraise
      exact absurd rfl (hraise _ List.mem_cons_self)
    | some v =>
      rw [hv] at hraise hquiet
      dsimp only at hraise hquiet
      rw [evaluateNodes_of_value hv]
      split
      · next hfires =>
        rw [fired_cons_of_fires hfires] at hquiet
        cases hquiet
      · next hfires =>
        rw [fired_cons_of_not_fires hfires] at hquiet
        exact ih (fun e he => hraise e (List.mem_cons_of_mem _ he)) hquiet

theorem evaluateNodes_single {nodes : List ExecutionNode} {results : Results}
    {signal : Option (List Workers.Order)} {e : ExecutionNode × Value} {orders : List Workers.Order}
    (hraise : ∀ e ∈ evaluations blocks p s candle nodes results, e.2 ≠ none)
    (hsingle : fired (evaluations blocks p s candle nodes results) = [e])
    (hparse : parseSignal p e.1.blockType e.2 = some (some orders)) :
    (evaluateNodes blocks p s candle nodes results signal).2 = some orders := by
  induction nodes generalizing results with
  | nil => cases hsingle
  | cons node nodes ih =>
    unfold evaluations at hraise hsingle
    cases hv : evaluateNode blocks p node s candle results with
    | none =>
      rw [hv] at hraise
      exact absurd rfl (hraise _ List.mem_cons_self)
    | some v =>
      rw [hv] at hraise hsingle
      dsimp only at hraise hsingle
      have hlater := fun e' he' => hraise e' (List.mem_cons_of_mem (node, some v) he')
      rw [evaluateNodes_of_value hv]
      split
      · next hfires =>
        rw [fired_cons_of_fires hfires] at hsingle
        obtain ⟨rfl, hquiet⟩ := List.cons.inj hsingle
        rw [hparse]
        exact evaluateNodes_quiet hlater hquiet
      · next hfires =>
        rw [fired_cons_of_not_fires hfires] at hsingle
        exact ih hlater hsingle

theorem evaluateNode_of_mem {nodes : List ExecutionNode} {results : Results}
    {e : ExecutionNode × Value}
    (he : (e.1, some e.2) ∈ evaluations blocks p s candle nodes results) :
    ∃ results', evaluateNode blocks p e.1 s candle results' = some e.2 := by
  induction nodes generalizing results with
  | nil => cases he
  | cons node nodes ih =>
    unfold evaluations at he
    cases hv : evaluateNode blocks p node s candle results with
    | none =>
      rw [hv] at he
      cases List.mem_singleton.mp he
    | some v =>
      rw [hv] at he
      rcases List.mem_cons.mp he with heq | hlater
      · obtain ⟨hnode, hvalue⟩ := Prod.mk.inj heq
        exact ⟨results, by rw [hnode, hv, ← Option.some.inj hvalue]⟩
      · exact ih hlater

theorem buildable_iff_of_fired {nodes : List ExecutionNode} {results : Results}
    {e : ExecutionNode × Value} (he : e ∈ fired (evaluations blocks p s candle nodes results)) :
    (∃ order, parseSignal p e.1.blockType e.2 = some (some [order])) ↔ Buildable p e.1 := by
  obtain ⟨hmem, horder, htriggered⟩ := mem_fired.mp he
  obtain ⟨results', hv⟩ := evaluateNode_of_mem hmem
  exact buildable_iff horder htriggered hv

/-- A candle gives one order for every block that triggered just if at most one did, of which an
order can be made. -/
theorem returnsEach_iff (blocks : Blocks) (p : GraphProgram) (s : GraphState) (candle : Candle) :
    ReturnsEach blocks p s candle ↔ SingleOrder blocks p s candle := by
  unfold ReturnsEach SingleOrder candleEvaluations onCandle
  cases p.graph with
  | none => exact iff_of_true .nil (.inl rfl)
  | some graph =>
    dsimp only
    cases hsignal : (evaluateNodes blocks p (s.see candle) candle graph.nodes [] none).2 with
    | none =>
      rw [Option.getD_none, List.forall₂_nil_right_iff]
      refine ⟨.inl, fun h => h.resolve_right ?_⟩
      rintro ⟨e, hsingle, hbuild, hraise⟩
      obtain ⟨order, hparse⟩ := (buildable_iff_of_fired (hsingle ▸ List.mem_singleton_self e)).mpr hbuild
      have hset : (evaluateNodes blocks p (s.see candle) candle graph.nodes [] none).2 = some [order] :=
        evaluateNodes_single hraise hsingle hparse
      rw [hsignal] at hset
      cases hset
    | some orders =>
      obtain ⟨hraise, hfound⟩ := evaluateNodes_signal hsignal
      obtain ⟨e, he, hparse⟩ := hfound.resolve_left (by simp)
      obtain ⟨-, order, rfl⟩ := parseSignal_single hparse
      have hbuild := (buildable_iff_of_fired he).mp ⟨order, hparse⟩
      rw [Option.getD_some]
      constructor
      · intro h
        obtain ⟨e', rest, -, hrest, hall⟩ := List.forall₂_cons_right_iff.mp h
        rw [List.forall₂_nil_right_iff] at hrest
        rw [hall, hrest, List.mem_singleton] at he
        refine .inr ⟨e, ?_, hbuild, hraise⟩
        rw [hall, hrest, he]
      · rintro (hnone | ⟨e', hsingle, -, -⟩)
        · rw [hnone] at he
          cases he
        · rw [hsingle, List.mem_singleton] at he
          rw [hsingle, ← he]
          exact .cons (fun _ => hparse) .nil

end Signals

section TwoBuys

def twoBuys : StrategyDSL where
  nodes := [{ id := "src", blockType := "source.candle" },
    { id := "one", blockType := "constant.number", params := [("value", .num 1)] },
    { id := "buy", blockType := "order.buy" },
    { id := "more", blockType := "order.buy", params := [("quantity", .num 150)] }]
  edges := [⟨"one", "value", "buy", "condition"⟩, ⟨"one", "value", "more", "condition"⟩]

def twoBuysProgram : GraphProgram where
  dsl := twoBuys
  graph := some {
    nodes := [⟨"src", "source.candle", "input", 0, [], "open", [], "source.candle", 10⟩,
      ⟨"one", "constant.number", "variable", 1, [], "value", [("value", .num 1)],
        "constant.number", 5⟩,
      ⟨"buy", "order.buy", "order", 2, ["one"], "signal", [], "order.buy", 5⟩,
      ⟨"more", "order.buy", "order", 3, ["one"], "signal", [("quantity", .num 150)], "order.buy", 5⟩]
    entryPoints := ["src", "one"]
    exitPoints := ["src", "buy", "more"]
    totalEstimatedLatencyUs := 25
    maxDepth := 1 }
  symbol := "NIFTY"

/-- Of the two orders the later is returned. -/
theorem twoBuys_not_returnsEach :
    GraphProgram.construct plainBlocks dedupOrder twoBuys [] "NIFTY" = some twoBuysProgram ∧
      ¬ReturnsEach plainBlocks twoBuysProgram {} (flatCandle "2026-10-05T09:15:00" 100) := by
  refine ⟨rfl, fun h => ?_⟩
  have hlength := h.length_eq
  have hfired : (fired (candleEvaluations plainBlocks twoBuysProgram {}
      (flatCandle "2026-10-05T09:15:00" 100))).length = 2 := by decide
  have hreturned : ((onCandle plainBlocks twoBuysProgram {}
      (flatCandle "2026-10-05T09:15:00" 100)).2.2.getD []).length = 1 := by decide
  omega

end TwoBuys

end Trademetrix.Builder
