import Trademetrix.Builder.Triggers

/-!
# What fires a cross block

A cross block looks at the last two values of the list it is handed as `a`, or at the last
two closes when it is handed none, and compares both of them with what it is handed as `b`
on this candle. Its ports cross when the one was on its side of the other on the candle
before and is past it now.
-/

namespace Trademetrix.Builder

open StrategyRuntime.Evaluations (Candle PositionMemory)

structure Cross where
  onSide : ℚ → ℚ → Bool
  past : ℚ → ℚ → Bool

def crossAbove : Cross := ⟨fun y t => y ≤ t, fun x t => t < x⟩

def crossBelow : Cross := ⟨fun y t => t ≤ y, fun x t => x < t⟩

def crossOf : String → Option Cross
  | "signal.cross_above" => some crossAbove
  | "signal.cross_below" => some crossBelow
  | _ => none

def Value.current : Value → Option ℚ
  | .list xs => xs.getLast?.bind Value.number
  | v => v.number

def carried (dsl : StrategyDSL) (results : Results) (id port : String) : Option Value :=
  (portEdges dsl id port).getLast?.map (edgeValue results)

def portNumber (dsl : StrategyDSL) (results : Results) (id port : String) : Option ℚ :=
  (carried dsl results id port).bind Value.current

theorem handed_of_carried {dsl : StrategyDSL} {results : Results} {id port : String} {v : Value}
    (h : carried dsl results id port = some v) : handed dsl results id port = some v := by
  rw [carried] at h
  rw [handed, h, Option.some_or]

/-- A candle of a run: what the nodes hold after it, and the close and the results of the candle
before it, if there is one. -/
structure Bar where
  closed : Option ℚ
  previous : Results
  candle : Candle
  results : Results

section Bars

variable (blocks : Blocks) (p : GraphProgram)

def barsFrom : GraphState → Option ℚ → Results → List (PositionMemory × Candle) → List Bar
  | _, _, _, [] => []
  | s, closed, previous, (memory, candle) :: candles =>
    let out := onCandle blocks p { s with memory := memory } candle
    ⟨closed, previous, candle, out.2.1⟩ :: barsFrom out.1 (some candle.close) out.2.1 candles

def bars : List (PositionMemory × Candle) → List Bar := barsFrom blocks p {} none []

end Bars

namespace Bar

variable (blocks : Blocks) (p : GraphProgram) (bar : Bar) (c : Cross) (id : String)

def WasOnSide : Prop :=
  ∃ a ∈ portNumber p.dsl bar.previous id "a", ∃ b ∈ portNumber p.dsl bar.previous id "b", c.onSide a b

def IsPast : Prop :=
  ∃ a ∈ portNumber p.dsl bar.results id "a", ∃ b ∈ portNumber p.dsl bar.results id "b", c.past a b

def Crosses : Prop := bar.WasOnSide p c id ∧ bar.IsPast p c id

def FiresOnCross : Prop :=
  ∀ graph ∈ p.graph, ∀ node ∈ graph.nodes, ∀ c ∈ crossOf node.blockType,
    ((bar.results.get node.id).any triggered = true ↔ bar.Crosses p c node.id)

/-- The last two values that a cross block reads, the last one first: of the list it is handed
as `a`, or else of the closes. -/
def read : Option (Value × Value) :=
  match handed p.dsl bar.results id "a" with
  | some (.list (x :: xs)) => lastTwo (x :: xs)
  | _ => bar.closed.map fun close => (.num bar.candle.close, .num close)

def level : ℚ :=
  match handed p.dsl bar.results id "b" with
  | some (.num x) => x
  | some (.bool b) => if b then 1 else 0
  | some (.list (x :: xs)) =>
    (blocks.toFloat ((x :: xs).getLast (List.cons_ne_nil _ _))).getD 0
  | _ => 0

def ReadOnSide : Prop :=
  ∃ pair ∈ bar.read p id, ∃ y ∈ pair.2.number, c.onSide y (bar.level blocks p id)

def ReadPast : Prop :=
  ∃ pair ∈ bar.read p id, ∃ x ∈ pair.1.number, c.past x (bar.level blocks p id)

def CarriesSeries : Prop :=
  (∃ x xs, carried p.dsl bar.results id "a" = some (.list (x :: xs))) ∧
    (portNumber p.dsl bar.results id "b").isSome

/-- What a cross block reads on this candle is as good as what its ports carry on this one and
carried on the one before. -/
structure ReadsPorts : Prop where
  unevaluated : bar.results.get id = none → ¬bar.Crosses p c id
  series : (bar.results.get id).isSome → bar.CarriesSeries p id → bar.IsPast p c id →
    (bar.ReadOnSide blocks p c id ↔ bar.WasOnSide p c id)
  scalar : (bar.results.get id).isSome → ¬bar.CarriesSeries p id →
    (bar.ReadOnSide blocks p c id ∧ bar.ReadPast blocks p c id ↔ bar.Crosses p c id)

def CrossesReadPorts : Prop :=
  ∀ graph ∈ p.graph, ∀ node ∈ graph.nodes, ∀ c ∈ crossOf node.blockType,
    bar.ReadsPorts blocks p c node.id

end Bar

section Reads

variable {blocks : Blocks} {p : GraphProgram} {bar : Bar} {c : Cross} {id : String}

theorem getLast?_of_lastTwo {series : List Value} {last previous : Value}
    (h : lastTwo series = some (last, previous)) : series.getLast? = some last := by
  rw [lastTwo] at h
  rw [List.getLast?_eq_head?_reverse]
  split at h
  · rename_i hreverse
    cases h
    rw [hreverse, List.head?_cons]
  · cases h

theorem lastN_append (xs : List ℚ) (x : ℚ) :
    lastN 500 (xs ++ [x]) = xs.drop (xs.length - 499) ++ [x] := by
  have hstart : xs.length + 1 - (500 : ℤ).toNat = xs.length - 499 := by omega
  rw [lastN, if_neg (by decide), List.length_append, List.length_singleton, hstart,
    List.drop_append_of_le_length (by omega)]

theorem lastTwo_window (xs : List ℚ) (x : ℚ) :
    lastTwo ((lastN 500 (xs ++ [x])).map .num) = xs.getLast?.map fun y => (.num x, .num y) := by
  have hlast : (xs.drop (xs.length - 499)).getLast? = xs.getLast? := by
    rw [List.getLast?_drop]
    split_ifs with hle
    · have hnil : xs = [] := List.length_eq_zero_iff.mp (by omega)
      rw [hnil]
      rfl
    · rfl
  rw [lastN_append, ← hlast, List.map_append, List.map_singleton, lastTwo, List.reverse_append,
    List.reverse_singleton, List.singleton_append]
  cases hdrop : (xs.drop (xs.length - 499)).reverse with
  | nil =>
    rw [List.reverse_eq_nil_iff.mp hdrop]
    rfl
  | cons y ys =>
    rw [← List.map_reverse, hdrop, List.getLast?_eq_head?_reverse, hdrop]
    rfl

theorem level_of_portNumber {b : ℚ} (h : portNumber p.dsl bar.results id "b" = some b) :
    bar.level blocks p id = b := by
  obtain ⟨v, hv, hb⟩ := Option.bind_eq_some_iff.mp h
  rw [Bar.level, handed_of_carried hv]
  cases v with
  | num x => exact Option.some.inj hb
  | bool x => exact Option.some.inj hb
  | list xs =>
    cases xs with
    | nil => cases hb
    | cons x xs =>
      dsimp only
      rw [Value.current, List.getLast?_eq_getLast_of_ne_nil (List.cons_ne_nil x xs),
        Option.bind_some] at hb
      cases hlast : (x :: xs).getLast (List.cons_ne_nil x xs) with
      | num y => rw [hlast] at hb; exact Option.some.inj hb
      | bool y => rw [hlast] at hb; exact Option.some.inj hb
      | _ => rw [hlast] at hb; cases hb
  | _ => cases hb

theorem readPast_iff_isPast (h : bar.CarriesSeries p id) (hread : bar.ReadOnSide blocks p c id) :
    bar.ReadPast blocks p c id ↔ bar.IsPast p c id := by
  obtain ⟨⟨x, xs, ha⟩, hb⟩ := h
  obtain ⟨b, hb⟩ := Option.isSome_iff_exists.mp hb
  obtain ⟨⟨last, previous⟩, hpair, -⟩ := hread
  have hlastTwo : lastTwo (x :: xs) = some (last, previous) := by
    rwa [Bar.read, handed_of_carried ha] at hpair
  have hlast : (x :: xs).getLast? = some last := getLast?_of_lastTwo hlastTwo
  have hnumber : portNumber p.dsl bar.results id "a" = last.number := by
    rw [portNumber, ha, Option.bind_some, Value.current, hlast, Option.bind_some]
  rw [Bar.ReadPast, Bar.IsPast, level_of_portNumber hb, hb, hnumber, hpair]
  simp

theorem readsPorts_iff_of_unevaluated (h : bar.results.get id = none) :
    bar.ReadsPorts blocks p c id ↔ ¬bar.Crosses p c id := by
  have hnot : ¬(bar.results.get id).isSome := by simp [h]
  exact ⟨fun hreads => hreads.unevaluated h,
    fun hcross => ⟨fun _ => hcross, fun hsome => absurd hsome hnot, fun hsome => absurd hsome hnot⟩⟩

theorem readsPorts_iff_of_evaluated (h : (bar.results.get id).isSome) :
    bar.ReadsPorts blocks p c id ↔
      (bar.ReadOnSide blocks p c id ∧ bar.ReadPast blocks p c id ↔ bar.Crosses p c id) := by
  have hnot : bar.results.get id ≠ none := Option.isSome_iff_ne_none.mp h
  by_cases hseries : bar.CarriesSeries p id
  · have hpast : bar.ReadOnSide blocks p c id ∧ bar.ReadPast blocks p c id ↔
        bar.ReadOnSide blocks p c id ∧ bar.IsPast p c id :=
      and_congr_right fun hread => readPast_iff_isPast hseries hread
    rw [hpast, Bar.Crosses, and_congr_left_iff]
    exact ⟨fun hreads => hreads.series h hseries,
      fun hnow => ⟨fun hnone => absurd hnone hnot, fun _ _ => hnow, fun _ hno => absurd hseries hno⟩⟩
  · exact ⟨fun hreads => hreads.scalar h hseries,
      fun hfires => ⟨fun hnone => absurd hnone hnot, fun _ hyes => absurd hyes hseries,
        fun _ _ => hfires⟩⟩

end Reads

section Fires

variable {blocks : Blocks} {p : GraphProgram} {s : GraphState} {candle : Candle}

def GraphState.Closed (s : GraphState) (closed : Option ℚ) : Prop :=
  ((s.series.get "close").getD []).getLast? = closed

theorem close_see (s : GraphState) (candle : Candle) :
    (s.see candle).series.get "close" =
      some (lastN 500 ((s.series.get "close").getD [] ++ [candle.close])) := by
  simp [GraphState.see, GraphState.appendSeries, Dict.get_set]

theorem closed_see (s : GraphState) (candle : Candle) : (s.see candle).Closed (some candle.close) := by
  rw [GraphState.Closed, close_see, Option.getD_some, lastN_append, List.getLast?_concat]

variable (blocks) in
theorem compute_cross {blockType : String} {c : Cross} (h : crossOf blockType = some c) :
    ∃ key, ∀ ctx, compute blocks blockType ctx = computeCross blocks c.onSide c.past key ctx := by
  unfold crossOf at h
  split at h
  · cases h
    exact ⟨"crossover_value", fun _ => rfl⟩
  · cases h
    exact ⟨"crossunder_value", fun _ => rfl⟩
  · cases h

theorem crossSeriesAndTarget_nodeCtx {closed : Option ℚ} (previous : Results) {results : Results}
    {node : ExecutionNode} {series : List Value} {target : ℚ} (hclosed : s.Closed closed)
    (hinputs : node.inputs = getInputNodes node.id p.dsl.edges)
    (h : crossSeriesAndTarget blocks (nodeCtx p node (s.see candle) candle results) =
      some (series, target)) :
    lastTwo series = (Bar.mk closed previous candle results).read p node.id ∧
      target = (Bar.mk closed previous candle results).level blocks p node.id := by
  have hcloses : lastTwo ((getSeries (nodeCtx p node (s.see candle) candle results) "close").map
      Value.num) = closed.map fun close => (.num candle.close, .num close) := by
    rw [getSeries, nodeCtx, close_see, Option.getD_some, lastTwo_window, hclosed]
  have ha : (nodeCtx p node (s.see candle) candle results).inputs.get "a" =
      handed p.dsl results node.id "a" := get_nodeInputs hinputs "a"
  have hb : getOr (nodeCtx p node (s.see candle) candle results).inputs "b" (.num 0) =
      (handed p.dsl results node.id "b").getD (.num 0) := by
    rw [getOr, nodeCtx, get_nodeInputs hinputs "b"]
  rw [crossSeriesAndTarget, ha, hb] at h
  have hread : ∀ {series' : List Value},
      (match handed p.dsl results node.id "a" with
        | some (.list (x :: xs)) => x :: xs
        | _ => (getSeries (nodeCtx p node (s.see candle) candle results) "close").map Value.num) =
          series' → lastTwo series' = (Bar.mk closed previous candle results).read p node.id := by
    rintro _ rfl
    rw [Bar.read, ← hcloses]
    dsimp only
    cases handed p.dsl results node.id "a" with
    | none => rfl
    | some v =>
      cases v with
      | list xs => cases xs <;> rfl
      | _ => rfl
  rw [Bar.level]
  dsimp only
  generalize handed p.dsl results node.id "b" = b at h
  cases b with
  | none =>
    cases h
    exact ⟨hread rfl, rfl⟩
  | some v =>
    cases v with
    | list xs =>
      cases xs with
      | nil =>
        cases h
        exact ⟨hread rfl, rfl⟩
      | cons x xs =>
        obtain ⟨target, htarget, h⟩ := Option.bind_eq_some_iff.mp h
        cases h
        refine ⟨hread rfl, ?_⟩
        dsimp only
        rw [htarget, Option.getD_some]
    | _ =>
      cases h
      exact ⟨hread rfl, rfl⟩

theorem crossed_eq_some {c : Cross} {target : ℚ} {last previous : Value} {b : Bool}
    (h : crossed c.onSide c.past target last previous = some b) :
    b = true ↔ (∃ y ∈ previous.number, c.onSide y target) ∧ ∃ x ∈ last.number, c.past x target := by
  obtain ⟨y, hy, h⟩ := Option.bind_eq_some_iff.mp h
  rw [hy]
  split_ifs at h with honSide
  · obtain ⟨x, hx, h⟩ := Option.bind_eq_some_iff.mp h
    cases h
    simp [hx, honSide]
  · cases h
    simp [honSide]

theorem triggered_cross {closed : Option ℚ} {previous results : Results} {node : ExecutionNode}
    {c : Cross} {v : Value} (hclosed : s.Closed closed)
    (hinputs : node.inputs = getInputNodes node.id p.dsl.edges)
    (hblock : (blocks.getBlock node.blockType).isSome) (hc : crossOf node.blockType = some c)
    (hv : evaluateNode blocks p node (s.see candle) candle results = some v) :
    triggered v = true ↔ (Bar.mk closed previous candle results).ReadOnSide blocks p c node.id ∧
      (Bar.mk closed previous candle results).ReadPast blocks p c node.id := by
  obtain ⟨block, hblock⟩ := Option.isSome_iff_exists.mp hblock
  obtain ⟨key, hcompute⟩ := compute_cross blocks hc
  rw [evaluateNode, hblock] at hv
  dsimp only at hv
  rw [hcompute] at hv
  obtain ⟨⟨series, target⟩, hread, hv⟩ := Option.bind_eq_some_iff.mp hv
  obtain ⟨hseries, htarget⟩ := crossSeriesAndTarget_nodeCtx previous hclosed hinputs hread
  rw [Bar.ReadOnSide, Bar.ReadPast, ← hseries, ← htarget]
  dsimp only at hv
  cases hlast : lastTwo series with
  | none =>
    rw [hlast] at hv
    cases hv
    simp [triggered, getOr, Dict.get, Value.truthy]
  | some pair =>
    rw [hlast] at hv
    obtain ⟨fired, hfired, hv⟩ := Option.bind_eq_some_iff.mp hv
    cases hv
    simp only [Option.mem_some_iff, exists_eq_left']
    rw [← crossed_eq_some hfired]
    exact Iff.rfl

theorem firesOnCross_onCandle_iff {o : SetOrder} {dsl : StrategyDSL} {config : Dict String Value}
    {symbol : String} (hp : GraphProgram.construct blocks o dsl config symbol = some p)
    {closed : Option ℚ} (previous : Results) (hclosed : s.Closed closed) :
    (Bar.mk closed previous candle (onCandle blocks p s candle).2.1).FiresOnCross p ↔
      (Bar.mk closed previous candle (onCandle blocks p s candle).2.1).CrossesReadPorts blocks p := by
  refine forall₂_congr fun graph hgraph => forall₂_congr fun node hnode =>
    forall₂_congr fun c hc => ?_
  obtain ⟨rfl, hcompiles, hblocks⟩ := construct_compiles hp hgraph
  cases hget : (onCandle blocks p s candle).2.1.get node.id with
  | none =>
    rw [readsPorts_iff_of_unevaluated hget, Option.any_none]
    simp
  | some v =>
    have hv := onCandle_holds blocks p s candle hgraph hcompiles hnode hget
    have hsome : ((onCandle blocks p s candle).2.1.get node.id).isSome := by rw [hget]; rfl
    rw [readsPorts_iff_of_evaluated hsome, Option.any_some,
      triggered_cross hclosed (hcompiles.inputs node hnode) (hblocks node hnode) hc hv]

theorem firesOnCross_barsFrom_iff {o : SetOrder} {dsl : StrategyDSL} {config : Dict String Value}
    {symbol : String} (hp : GraphProgram.construct blocks o dsl config symbol = some p)
    {graph : ExecutionGraph} (hgraph : p.graph = some graph)
    (candles : List (PositionMemory × Candle)) {closed : Option ℚ} {previous : Results}
    (hclosed : s.Closed closed) :
    (∀ bar ∈ barsFrom blocks p s closed previous candles, bar.FiresOnCross p) ↔
      ∀ bar ∈ barsFrom blocks p s closed previous candles, bar.CrossesReadPorts blocks p := by
  induction candles generalizing s closed previous with
  | nil => simp [barsFrom]
  | cons head candles ih =>
    obtain ⟨memory, candle⟩ := head
    have hnext : (onCandle blocks p { s with memory := memory } candle).1.Closed (some candle.close) := by
      rw [onCandle, hgraph]
      exact closed_see _ candle
    rw [barsFrom, List.forall_mem_cons, List.forall_mem_cons, ih hnext]
    exact and_congr_left fun _ =>
      firesOnCross_onCandle_iff (s := { s with memory := memory }) hp previous hclosed

theorem firesOnCross_iff {o : SetOrder} {dsl : StrategyDSL} {config : Dict String Value}
    {symbol : String} (hp : GraphProgram.construct blocks o dsl config symbol = some p)
    (candles : List (PositionMemory × Candle)) :
    (∀ bar ∈ bars blocks p candles, bar.FiresOnCross p) ↔
      ∀ bar ∈ bars blocks p candles, bar.CrossesReadPorts blocks p := by
  cases hgraph : p.graph with
  | none => simp [Bar.FiresOnCross, Bar.CrossesReadPorts, hgraph]
  | some graph => exact firesOnCross_barsFrom_iff hp hgraph candles rfl

end Fires

section Constants

def constantsCrossed : StrategyDSL where
  nodes := [{ id := "src", blockType := "source.candle" },
    { id := "ten", blockType := "constant.number", params := [("value", .num 10)] },
    { id := "five", blockType := "constant.number", params := [("value", .num 5)] },
    { id := "x", blockType := "signal.cross_above" },
    { id := "buy", blockType := "order.buy" }]
  edges := [⟨"ten", "value", "x", "a"⟩, ⟨"five", "value", "x", "b"⟩,
    ⟨"x", "triggered", "buy", "condition"⟩]

def constantsProgram : GraphProgram where
  dsl := constantsCrossed
  graph := some {
    nodes := [⟨"src", "source.candle", "input", 0, [], "open", [], "source.candle", 10⟩,
      ⟨"ten", "constant.number", "variable", 1, [], "value", [("value", .num 10)],
        "constant.number", 5⟩,
      ⟨"five", "constant.number", "variable", 2, [], "value", [("value", .num 5)],
        "constant.number", 5⟩,
      ⟨"x", "signal.cross_above", "signal", 3, ["ten", "five"], "triggered", [],
        "signal.cross_above", 10⟩,
      ⟨"buy", "order.buy", "order", 4, ["x"], "signal", [], "order.buy", 5⟩]
    entryPoints := ["src", "ten", "five"]
    exitPoints := ["src", "buy"]
    totalEstimatedLatencyUs := 35
    maxDepth := 2 }
  symbol := "NIFTY"

theorem construct_constantsCrossed :
    GraphProgram.construct plainBlocks dedupOrder constantsCrossed [] "NIFTY" =
      some constantsProgram :=
  rfl

def risingCloses : List (PositionMemory × Candle) :=
  [({}, flatCandle "2026-10-05T09:15:00" 4), ({}, flatCandle "2026-10-05T09:16:00" 6)]

/-- The block fires on the closes, although 10 is above 5 all the time. -/
theorem not_firesOnCross_constants :
    GraphProgram.construct plainBlocks dedupOrder constantsCrossed [] "NIFTY" =
        some constantsProgram ∧
      ¬∀ bar ∈ bars plainBlocks constantsProgram risingCloses, bar.FiresOnCross constantsProgram := by
  refine ⟨construct_constantsCrossed, fun h => ?_⟩
  have hfires := h _ (List.mem_cons_of_mem _ List.mem_cons_self) _ rfl
    ⟨"x", "signal.cross_above", "signal", 3, ["ten", "five"], "triggered", [],
      "signal.cross_above", 10⟩
    (List.mem_cons_of_mem _ (List.mem_cons_of_mem _ (List.mem_cons_of_mem _ List.mem_cons_self)))
    crossAbove rfl
  obtain ⟨⟨a, ha, b, hb, hside⟩, -⟩ := hfires.mp rfl
  obtain rfl : (10 : ℚ) = a := Option.some.inj ha
  obtain rfl : (5 : ℚ) = b := Option.some.inj hb
  exact absurd hside (by decide)

theorem firesOnCross_iff_constants :
    (∀ bar ∈ bars plainBlocks constantsProgram risingCloses, bar.FiresOnCross constantsProgram) ↔
      ∀ bar ∈ bars plainBlocks constantsProgram risingCloses,
        bar.CrossesReadPorts plainBlocks constantsProgram :=
  firesOnCross_iff construct_constantsCrossed _

end Constants

end Trademetrix.Builder
