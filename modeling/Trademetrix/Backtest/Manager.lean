import Trademetrix.Backtest.Performance
import Trademetrix.Backtest.Risk

/-!
# The drivers of a backtest

`BacktestManager.run` at MAX speed, the same through `ReplayEngine.run`, and
`_fast_run`. A strategy is a state machine over the candles it is shown, whose
methods may raise. What `datetime` reads of a text, and the texts of the clock,
are parameters; pausing and stopping a replay from outside are left out.
-/

namespace Trademetrix.Backtest

open Engine (OrderSide)

/-- `SignalResult`. -/
structure Signal where
  orders : List Order := []
  reason : String := ""

/-- `none` is a method that raises; `onCandle` gives the state it leaves in either case. -/
structure Strategy (σ : Type) where
  init : σ
  onStart : σ → Option σ
  onCandle : σ → Candle → σ × Option Signal
  onStop : σ → Option σ

structure BacktestConfig where
  symbol : String := "NIFTY"
  initialCapital : ℚ := 100000
  riskEnabled : Bool := true
  closePositionsOnEnd : Bool := true
  slippagePct : ℚ := 0
  latencyCandles : ℕ := 0
  partialFillProbability : ℚ := 0
  cost : BacktestCostConfig := {}
  risk : RiskOverrides := {}

/-- What a run is given: `strategy` and `candles` are `none` when setting up the strategy or
loading the candles raises. `fromisoformat` parses a text that is not empty. -/
structure Run (σ : Type) where
  config : BacktestConfig
  strategy : Option (Strategy σ)
  candles : Option (List Candle)
  random : ℕ → ℚ
  elapsed : String → String → Option ℚ
  fromisoformat : String → Option Stamp

/-- What `str(datetime.now(UTC))` or `isoformat` reads when a snapshot is taken. -/
abbrev Clock := ℕ → String

def exchangeNames : List String := ["NSE", "BSE", "NFO", "CDS", "MCX"]

section Snapshots

/-- `_collect_snapshot` of the manager. -/
def Broker.collect (b : Broker) (index : ℕ) (timestamp : String) : Snapshot where
  index := index
  timestamp := timestamp
  equity := b.equity
  positions := b.positions.map fun (e : String × Position) =>
    { symbol := e.1
      quantity := e.2.quantity
      averageBuyPrice := if 0 ≤ e.2.quantity then e.2.avgPrice else 0
      averageSellPrice := if e.2.quantity < 0 then e.2.avgPrice else 0
      lastPrice := (b.lastPrices.get e.1).getD 0 }

/-- `_broker_snapshot` of the replay engine, which leaves two prices out. -/
def Broker.snapshot (b : Broker) (index : ℕ) (now : String) : Snapshot where
  index := index
  timestamp := now
  equity := b.equity
  positions := b.positions.map fun (e : String × Position) =>
    { symbol := e.1, quantity := e.2.quantity, averageBuyPrice := e.2.avgPrice }

end Snapshots

structure Account where
  broker : Broker
  risk : Option BacktestRiskSimulator

structure Progress (σ : Type) where
  strategy : σ
  account : Account
  snapshots : List Snapshot := []

section Orders

variable (s : Setup)

def Account.place (a : Account) (order : Order) : Account :=
  { a with broker := (a.broker.placeOrder s order).2 }

def Account.placeViaBroker (reason : String) (a : Account) (order : Order) : Account :=
  let order := if reason ≠ "" then { order with reason := reason } else order
  match a.risk with
  | none => a.place s order
  | some r =>
    let (check, r) := r.check a.broker order
    let a := { a with risk := some r }
    match check with
    | .rejected _ => a
    | .approved (some q) => a.place s { order with quantity := q }
    | .approved none => a.place s order

def Account.replayOrder (reason : String) (a : Account) (order : Order) : Account :=
  let order := if order.reason = "" then { order with reason := reason } else order
  match a.risk with
  | none => a.place s order
  | some r =>
    let (check, r) := r.check a.broker order
    let a := { a with risk := some r }
    match check with
    | .rejected _ => a
    | .approved (some q) => a.place s { order with quantity := q }
    | .approved none => a.place s order

def Account.onCandle (a : Account) (i : ℕ) : Account :=
  { a with broker := a.broker.onCandle s i }

/-- `risk_sim.snapshot`, if risk is simulated. -/
def Account.noteRisk (a : Account) (i : ℕ) (timestamp : String) : Account :=
  { a with risk := a.risk.map fun r => r.snapshot a.broker i timestamp }

end Orders

namespace Run

variable {σ : Type} (t : Run σ)

def setup (candles : List Candle) : Setup where
  config :=
    { initialCapital := t.config.initialCapital
      slippagePct := t.config.slippagePct
      latencyCandles := t.config.latencyCandles
      partialFillProbability := t.config.partialFillProbability
      costConfig := t.config.cost }
  candles := candles
  random := t.random
  elapsed := t.elapsed

def account (candles : List Candle) : Account where
  broker := (t.setup candles).broker
  risk :=
    if t.config.riskEnabled then
      some { config := t.config.risk.config t.config.initialCapital
             initialCapital := t.config.initialCapital
             peakEquity := t.config.initialCapital }
    else none

/-- `datetime.fromisoformat`. -/
def iso (text : String) : Option Stamp := if text = "" then none else t.fromisoformat text

/-- `to_candle` does not raise. -/
def converts (c : Candle) : Bool := exchangeNames.contains c.exchange && (t.iso c.timestamp).isSome

/-- `_collect_snapshot` with a timestamp; an empty one is replaced by the clock's. -/
def collect (clock : Clock) (i : ℕ) (timestamp : String) (p : Progress σ) : Progress σ :=
  let stamp := orElse timestamp (clock i)
  { p with
    account := p.account.noteRisk i stamp
    snapshots := p.snapshots ++ [p.account.broker.collect i stamp] }

/-- One candle of `run` at MAX speed and of `_fast_run`; `none` when something raises. -/
def fastStep (s : Setup) (st : Strategy σ) (clock : Clock) (p : Progress σ) (i : ℕ) (raw : Candle) :
    Option (Progress σ) :=
  let a := p.account.onCandle s i
  if t.converts raw = false then none
  else
    match st.onCandle p.strategy raw with
    | (_, none) => none
    | (strategy, some signal) =>
      let a := signal.orders.foldl (Account.placeViaBroker s signal.reason) a
      some (collect clock i raw.timestamp { p with strategy := strategy, account := a })

/-- One candle of `ReplayEngine.run`. What the strategy raises is logged. -/
def replayStep (s : Setup) (st : Strategy σ) (clock : Clock) (p : Progress σ) (i : ℕ) (raw : Candle) :
    Option (Progress σ) :=
  if t.converts raw = false then none
  else
    let a := (p.account.onCandle s i).noteRisk i raw.timestamp
    let (strategy, signal) := st.onCandle p.strategy raw
    let a := match signal with
      | none => a
      | some signal => signal.orders.foldl (Account.replayOrder s signal.reason) a
    some {
      strategy := strategy
      account := a
      snapshots := p.snapshots ++ [a.broker.snapshot i (clock i)] }

def loop (step : Progress σ → ℕ → Candle → Option (Progress σ)) :
    ℕ → List Candle → Progress σ → Option (Progress σ)
  | _, [], p => some p
  | i, raw :: raws, p => (step p i raw).bind (loop step (i + 1) raws)

/-- `_make_close_order`. -/
def closeOrder (symbol : String) (quantity : ℤ) : Order where
  symbol := symbol
  exchange := .nse
  side := if 0 < quantity then .sell else .buy
  orderType := .market
  product := .intraday
  quantity := |quantity|
  reason := "close_on_end"

def closeOpenPositions (s : Setup) (b : Broker) : Broker :=
  (b.positions.map Prod.fst).foldl (fun b symbol =>
    let quantity := (b.positionOf symbol).quantity
    if quantity = 0 then b else (b.placeOrder s (closeOrder symbol quantity)).2) b

/-- What follows the loop: `on_stop`, and the closing of what is open with a last snapshot. -/
def finish (s : Setup) (st : Strategy σ) (clock : Clock) (timestamp : String) (n : ℕ)
    (p : Progress σ) : Option (Progress σ) :=
  match st.onStop p.strategy with
  | none => none
  | some strategy =>
    let p := { p with strategy := strategy }
    if t.config.closePositionsOnEnd then
      let b := closeOpenPositions s p.account.broker
      some (collect clock n timestamp { p with account := { p.account with broker := b } })
    else some p

structure Result where
  completed : Bool
  report : BacktestReport
  deriving DecidableEq

def failed : Result where
  completed := false
  report := { startEquity := t.config.initialCapital, endEquity := t.config.initialCapital }

def drive (step : Setup → Strategy σ → Progress σ → ℕ → Candle → Option (Progress σ))
    (clock : Clock) (lastStamp : List Candle → String)
    (tradesOf : Progress σ → List Trade) : Result :=
  match t.strategy, t.candles with
  | some st, some candles =>
    if candles = [] then t.failed
    else
      let s := t.setup candles
      let run := do
        let strategy ← st.onStart st.init
        let p ← loop (step s st) 0 candles { strategy := strategy, account := t.account candles }
        t.finish s st clock (lastStamp candles) candles.length p
      match run with
      | none => t.failed
      | some p =>
        { completed := true
          report := calculate t.iso p.snapshots t.config.initialCapital (tradesOf p) }
  | _, _ => t.failed

/-- The trades `run` reports. -/
def tradesOrBuilt (p : Progress σ) : List Trade :=
  if p.account.broker.trades ≠ [] then p.account.broker.trades
  else buildTradesFromSnapshots p.snapshots t.config.symbol

/-- `run` at MAX speed. -/
def runMax (clock : Clock) : Result :=
  t.drive (fun s st => t.fastStep s st clock) clock (fun _ => "") t.tradesOrBuilt

/-- `run` at any other speed. -/
def runReplay (clock : Clock) : Result :=
  t.drive (fun s st => t.replayStep s st clock) clock (fun _ => "") t.tradesOrBuilt

/-- `_fast_run` without a slice. -/
def fastRun (clock : Clock) : Result :=
  t.drive (fun s st => t.fastStep s st clock) clock
    (fun candles => (candles.getLast?.map Candle.timestamp).getD "")
    fun p => p.account.broker.trades

end Run

end Trademetrix.Backtest
