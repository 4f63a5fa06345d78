import Mathlib.Tactic.Linarith
import Mathlib.Tactic.LinearCombination
import Trademetrix.Backtest.Manager
import Trademetrix.Run

/-!
# The legacy backtest engine

A run over candles that buys a position whole, replacing one that is there, and
closes it by the next sale. Capital is kept by the engine and the P&L by the
result. The Sharpe ratio is left out; what a candle's timestamp reads once it is
parsed is a parameter.
-/

namespace Trademetrix.Engine.LegacyBacktest

open Backtest (BacktestCostConfig Candle Strategy estimateRoundTrip exchangeNames)
open Text (round2)

structure Trade where
  symbol : String
  side : OrderSide
  entryPrice : ℚ
  exitPrice : ℚ
  quantity : ℤ
  pnl : ℚ
  entryTime : String
  exitTime : String
  deriving DecidableEq

structure CurvePoint where
  equity : ℚ
  timestamp : String
  deriving DecidableEq

structure BacktestResult where
  slippagePct : ℚ := 5 / 100
  brokeragePct : ℚ := 3 / 100
  sttPct : ℚ := 25 / 1000
  exchangePct : ℚ := 3 / 1000
  totalTrades : ℕ := 0
  winningTrades : ℕ := 0
  losingTrades : ℕ := 0
  totalPnl : ℚ := 0
  maxDrawdown : ℚ := 0
  winRate : ℚ := 0
  avgWin : ℚ := 0
  avgLoss : ℚ := 0
  largestWin : ℚ := 0
  largestLoss : ℚ := 0
  trades : List Trade := []
  equityCurve : List CurvePoint := []
  peak : ℚ := 0

namespace BacktestResult

variable (r : BacktestResult)

def applyCosts (side : OrderSide) (entryPrice exitPrice : ℚ) (quantity : ℤ) : ℚ × ℚ :=
  let entryValue := entryPrice * quantity
  let exitValue := exitPrice * quantity
  let cfg : BacktestCostConfig :=
    { commissionPct := r.brokeragePct
      commissionMin := 0
      sttPctOverride := some r.sttPct
      exchangeTcPctOverride := some r.exchangePct }
  let est := estimateRoundTrip side entryValue exitValue .equityIntraday
    (entryValue * r.slippagePct / 100) (exitValue * r.slippagePct / 100) cfg
  (est.total, round2 (est.brokerage + est.exchangeTc))

def grossPnl (side : OrderSide) (entryPrice exitPrice : ℚ) (quantity : ℤ) : ℚ :=
  if side = .buy then (exitPrice - entryPrice) * quantity else (entryPrice - exitPrice) * quantity

def recordTrade (symbol : String) (side : OrderSide) (entryPrice exitPrice : ℚ) (quantity : ℤ)
    (entryTime exitTime : String) : BacktestResult :=
  let costs := (r.applyCosts side entryPrice exitPrice quantity).1
  let pnl := grossPnl side entryPrice exitPrice quantity - costs
  let r := { r with totalTrades := r.totalTrades + 1 }
  let r :=
    if 0 < pnl then
      let n := r.winningTrades + 1
      { r with
        winningTrades := n
        avgWin := (r.avgWin * (n - 1) + pnl) / n
        largestWin := max r.largestWin pnl }
    else
      let n := r.losingTrades + 1
      { r with
        losingTrades := n
        avgLoss := (r.avgLoss * (n - 1) + |pnl|) / n
        largestLoss := min r.largestLoss pnl }
  { r with
    totalPnl := r.totalPnl + pnl
    trades := r.trades ++ [
      { symbol := symbol, side := side, entryPrice := entryPrice, exitPrice := exitPrice
        quantity := quantity, pnl := round2 pnl, entryTime := entryTime, exitTime := exitTime }] }

def updateEquity (equity : ℚ) (timestamp : String) : BacktestResult :=
  let peak := if r.peak < equity then equity else r.peak
  let dd := if 0 < peak then peak - equity else 0
  { r with
    equityCurve := r.equityCurve ++ [{ equity := round2 equity, timestamp := timestamp }]
    peak := peak
    maxDrawdown := max r.maxDrawdown dd }

def finalize : BacktestResult :=
  { r with
    winRate := if 0 < r.totalTrades then (r.winningTrades : ℚ) / r.totalTrades * 100 else 0 }

end BacktestResult

structure OpenPosition where
  side : OrderSide
  entryPrice : ℚ
  quantity : ℤ
  entryTime : String

structure BacktestEngine where
  initialCapital : ℚ
  capital : ℚ
  result : BacktestResult
  openPositions : Dict String OpenPosition := []

namespace BacktestEngine

variable (e : BacktestEngine)

def priceOf (order : Backtest.Order) (candle : Candle) : ℚ :=
  if order.orderType = .market then candle.close else order.price

/-- `_handle_order`; `time` is what the candle's timestamp reads. -/
def handleOrder (order : Backtest.Order) (candle : Candle) (time : String) : BacktestEngine :=
  let price := priceOf order candle
  let cost := price * order.quantity
  match order.side with
  | .buy =>
    if cost ≤ e.capital then
      { e with
        openPositions := e.openPositions.set order.symbol
          { side := .buy, entryPrice := price, quantity := order.quantity, entryTime := time }
        capital := e.capital - cost }
    else e
  | .sell =>
    match e.openPositions.get order.symbol with
    | none => e
    | some pos =>
      { e with
        openPositions := e.openPositions.pop order.symbol
        capital := e.capital + cost
        result := e.result.recordTrade order.symbol pos.side pos.entryPrice price order.quantity
          pos.entryTime time }

/-- One round of the loop of `run` over what is open at the end. -/
def closeLast (last : Candle) (e : BacktestEngine) (entry : String × OpenPosition) : BacktestEngine :=
  let pos := entry.2
  { e with
    result := e.result.recordTrade entry.1 pos.side pos.entryPrice last.close pos.quantity
      pos.entryTime last.timestamp
    capital := e.capital +
      BacktestResult.grossPnl pos.side pos.entryPrice last.close pos.quantity }

def closeAll (candles : List Candle) : BacktestEngine :=
  match candles.getLast? with
  | none => e
  | some last => e.openPositions.foldl (closeLast last) e

end BacktestEngine

/-- What a run is given; `isoformat` is `none` where the timestamp does not parse. -/
structure Run (σ : Type) where
  strategy : Strategy σ
  candles : List Candle
  isoformat : String → Option String
  initialCapital : ℚ := 100000
  slippagePct : ℚ := 5 / 100
  brokeragePct : ℚ := 3 / 100
  sttPct : ℚ := 25 / 1000
  exchangePct : ℚ := 3 / 1000

namespace Run

variable {σ : Type} (t : Run σ)

/-- `Candle(**c)`, by what its timestamp reads. -/
def candleTime (c : Candle) : Option String :=
  if exchangeNames.contains c.exchange then t.isoformat c.timestamp else none

def engine : BacktestEngine where
  initialCapital := t.initialCapital
  capital := t.initialCapital
  result :=
    { slippagePct := t.slippagePct, brokeragePct := t.brokeragePct, sttPct := t.sttPct
      exchangePct := t.exchangePct }

/-- One candle; `none` when something raises. -/
def step (p : σ × BacktestEngine) (c : Candle) : Option (σ × BacktestEngine) :=
  match t.candleTime c, t.strategy.onCandle p.1 c with
  | some time, (x, some signal) =>
    let e := signal.orders.foldl (fun (e : BacktestEngine) order => e.handleOrder order c time) p.2
    some (x, { e with result := e.result.updateEquity e.capital time })
  | _, _ => none

def run : Option BacktestEngine := do
  let x ← t.strategy.onStart t.strategy.init
  let p ← t.candles.foldlM t.step (x, t.engine)
  let e := p.2.closeAll t.candles
  let _ ← t.strategy.onStop p.1
  some { e with result := e.result.finalize }

end Run

section Events

inductive Event
  | place (order : Backtest.Order) (candle : Candle) (time : String)
  | mark (time : String)

def Event.on (e : BacktestEngine) : Event → BacktestEngine
  | .place order candle time => e.handleOrder order candle time
  | .mark time => { e with result := e.result.updateEquity e.capital time }

namespace Run

variable {σ : Type} (t : Run σ)

def emits (x : σ) : List Candle → Option (σ × List Event)
  | [] => some (x, [])
  | c :: cs =>
    match t.candleTime c, t.strategy.onCandle x c with
    | some time, (x, some signal) =>
      (emits x cs).map fun r => (r.1, signal.orders.map (fun order => .place order c time) ++
        .mark time :: r.2)
    | _, _ => none

def events : Option (List Event) := do
  let x ← t.strategy.onStart t.strategy.init
  let r ← t.emits x t.candles
  let _ ← t.strategy.onStop r.1
  some r.2

def traded (es : List Event) : BacktestEngine := es.foldl Event.on t.engine

theorem foldlM_step (x : σ) (e : BacktestEngine) (cs : List Candle) :
    cs.foldlM t.step (x, e) = (t.emits x cs).map fun r => (r.1, r.2.foldl Event.on e) := by
  induction cs generalizing x e with
  | nil => rfl
  | cons c cs ih =>
    rw [List.foldlM_cons, step, emits]
    cases t.candleTime c with
    | none => rfl
    | some time =>
      cases t.strategy.onCandle x c with
      | mk x' signal =>
        cases signal with
        | none => rfl
        | some signal =>
          simp only [Option.bind_eq_bind, Option.bind_some, ih, Option.map_map, Function.comp_def,
            List.foldl_append, List.foldl_map, List.foldl_cons, Event.on]

theorem run_eq : t.run = t.events.map fun es =>
    { (t.traded es).closeAll t.candles with
      result := ((t.traded es).closeAll t.candles).result.finalize } := by
  unfold run events
  simp only [foldlM_step, Option.bind_eq_bind]
  cases t.strategy.onStart t.strategy.init with
  | none => rfl
  | some x =>
    simp only [Option.bind_some]
    cases t.emits x t.candles with
    | none => rfl
    | some r =>
      simp only [Option.map_some, Option.bind_some]
      cases t.strategy.onStop r.1 <;> rfl

end Run

end Events

section Accounts

variable {e : BacktestEngine}

def OpenPosition.basis (pos : OpenPosition) : ℚ := pos.entryPrice * pos.quantity

namespace BacktestEngine

def basis (e : BacktestEngine) : ℚ := (e.openPositions.values.map OpenPosition.basis).sum

def charge (e : BacktestEngine) (pos : OpenPosition) (quantity : ℤ) (price : ℚ) : ℚ :=
  (e.result.applyCosts pos.side pos.entryPrice price quantity).1

def charged (e : BacktestEngine) : Event → ℚ
  | .place order candle _ =>
    match order.side, e.openPositions.get order.symbol with
    | .sell, some pos => e.charge pos order.quantity (priceOf order candle)
    | _, _ => 0
  | .mark _ => 0

/-- What is paid for and not sold: a position a purchase replaces, and what a sale leaves of one. A
sale of more than is held counts against it. -/
def lost (e : BacktestEngine) : Event → ℚ
  | .place order candle _ =>
    match order.side, e.openPositions.get order.symbol with
    | .buy, some pos => if priceOf order candle * order.quantity ≤ e.capital then pos.basis else 0
    | .sell, some pos => pos.entryPrice * (pos.quantity - order.quantity)
    | _, none => 0
  | .mark _ => 0

def Covered (e : BacktestEngine) : Event → Prop
  | .place order _ _ => order.side = .sell →
      ∀ pos, e.openPositions.get order.symbol = some pos → order.quantity ≤ pos.quantity
  | .mark _ => True

def surplus (e : BacktestEngine) : ℚ := e.capital + e.basis - e.initialCapital - e.result.totalPnl

structure Long (e : BacktestEngine) : Prop where
  keys : (e.openPositions.map Prod.fst).Nodup
  sides : ∀ entry ∈ e.openPositions, entry.2.side = .buy

end BacktestEngine

theorem totalPnl_recordTrade (r : BacktestResult) (symbol : String) (side : OrderSide)
    (entryPrice exitPrice : ℚ) (quantity : ℤ) (entryTime exitTime : String) :
    (r.recordTrade symbol side entryPrice exitPrice quantity entryTime exitTime).totalPnl =
      r.totalPnl + (BacktestResult.grossPnl side entryPrice exitPrice quantity -
        (r.applyCosts side entryPrice exitPrice quantity).1) := by
  unfold BacktestResult.recordTrade
  dsimp only
  split <;> rfl

theorem surplus_on (ev : Event) (h : e.Long) :
    (Event.on e ev).Long ∧ (Event.on e ev).surplus = e.surplus + (e.charged ev - e.lost ev) := by
  cases ev with
  | mark time =>
    refine ⟨⟨h.keys, h.sides⟩, ?_⟩
    simp only [BacktestEngine.charged, BacktestEngine.lost, sub_zero, add_zero]
    rfl
  | place order candle time =>
    simp only [Event.on, BacktestEngine.handleOrder, BacktestEngine.charged, BacktestEngine.lost]
    cases hside : order.side with
    | buy =>
      dsimp only
      split
      · next hcost =>
        have hsum := Dict.sum_set h.keys OpenPosition.basis order.symbol
          { side := .buy, entryPrice := BacktestEngine.priceOf order candle
            quantity := order.quantity, entryTime := time }
        refine ⟨⟨Dict.nodup_keys_set h.keys _ _, fun entry hentry => ?_⟩, ?_⟩
        · rcases Dict.mem_set hentry with rfl | hold
          · rfl
          · exact h.sides entry hold
        · simp only [BacktestEngine.surplus, BacktestEngine.basis]
          rw [hsum]
          cases e.openPositions.get order.symbol with
          | none => simp [OpenPosition.basis]
          | some pos =>
            simp [OpenPosition.basis]
            ring
      · next hcost =>
        refine ⟨h, ?_⟩
        cases e.openPositions.get order.symbol <;> simp
    | sell =>
      dsimp only
      cases hget : e.openPositions.get order.symbol with
      | none => exact ⟨h, by simp⟩
      | some pos =>
        have hbuy : pos.side = .buy := h.sides _ (Dict.mem_of_get hget)
        have hsum := Dict.sum_pop h.keys OpenPosition.basis order.symbol
        rw [hget, Option.map_some, Option.getD_some] at hsum
        refine ⟨⟨Dict.nodup_keys_pop h.keys _, fun entry hentry => ?_⟩, ?_⟩
        · exact h.sides entry (Dict.mem_pop hentry)
        · simp only [BacktestEngine.surplus, BacktestEngine.basis, BacktestEngine.charge]
          rw [hsum, totalPnl_recordTrade, hbuy]
          simp only [BacktestResult.grossPnl, OpenPosition.basis, if_true]
          ring

theorem trades_recordTrade (r : BacktestResult) (symbol : String) (side : OrderSide)
    (entryPrice exitPrice : ℚ) (quantity : ℤ) (entryTime exitTime : String) :
    ∃ trade, (r.recordTrade symbol side entryPrice exitPrice quantity entryTime exitTime).trades =
        r.trades ++ [trade] ∧ trade.symbol = symbol ∧ trade.quantity = quantity := by
  unfold BacktestResult.recordTrade
  dsimp only
  split <;> exact ⟨_, rfl, rfl, rfl⟩

theorem applyCosts_recordTrade (r : BacktestResult) (symbol : String) (side : OrderSide)
    (entryPrice exitPrice : ℚ) (quantity : ℤ) (entryTime exitTime : String) :
    (r.recordTrade symbol side entryPrice exitPrice quantity entryTime exitTime).applyCosts =
      r.applyCosts := by
  unfold BacktestResult.recordTrade
  dsimp only
  split <;> rfl

def Event.Bought (e : BacktestEngine) (ev : Event) : Prop :=
  ∀ trade ∈ (Event.on e ev).result.trades.drop e.result.trades.length,
    ∃ pos, e.openPositions.get trade.symbol = some pos ∧ trade.quantity ≤ pos.quantity

theorem bought_iff (e : BacktestEngine) (ev : Event) : ev.Bought e ↔ e.Covered ev := by
  cases ev with
  | mark time => simp [Event.Bought, Event.on, BacktestResult.updateEquity, BacktestEngine.Covered]
  | place order candle time =>
    simp only [Event.Bought, Event.on, BacktestEngine.handleOrder, BacktestEngine.Covered]
    cases hside : order.side with
    | buy =>
      dsimp only
      split <;> simp
    | sell =>
      cases hget : e.openPositions.get order.symbol with
      | none => simp
      | some pos =>
        obtain ⟨trade, htrades, hsymbol, hquantity⟩ := trades_recordTrade e.result order.symbol
          pos.side pos.entryPrice (BacktestEngine.priceOf order candle) order.quantity
          pos.entryTime time
        simp [htrades, hsymbol, hquantity, hget]

section Closing

namespace BacktestEngine

def closingCharges (candles : List Candle) (e : BacktestEngine) : ℚ :=
  match candles.getLast? with
  | none => 0
  | some last => (e.openPositions.map fun entry => e.charge entry.2 entry.2.quantity last.close).sum

theorem capital_closeLast (last : Candle) (entries : List (String × OpenPosition))
    (e : BacktestEngine) :
    (entries.foldl (closeLast last) e).capital - (entries.foldl (closeLast last) e).result.totalPnl =
      e.capital - e.result.totalPnl +
        (entries.map fun entry => e.charge entry.2 entry.2.quantity last.close).sum := by
  induction entries generalizing e with
  | nil => simp
  | cons entry entries ih =>
    have hcharge : (closeLast last e entry).charge = e.charge := by
      funext pos quantity price
      exact congrArg Prod.fst (congrFun (congrFun (congrFun (congrFun
        (applyCosts_recordTrade _ _ _ _ _ _ _ _) _) _) _) _)
    rw [List.foldl_cons, ih, hcharge, List.map_cons, List.sum_cons]
    simp only [closeLast, totalPnl_recordTrade, charge]
    ring

theorem trades_closeLast (last : Candle) (entries : List (String × OpenPosition))
    (e : BacktestEngine) :
    ∃ trades, (entries.foldl (closeLast last) e).result.trades = e.result.trades ++ trades ∧
      ∀ trade ∈ trades, ∃ entry ∈ entries,
        entry.1 = trade.symbol ∧ trade.quantity = entry.2.quantity := by
  induction entries generalizing e with
  | nil => exact ⟨[], by simp, by simp⟩
  | cons entry entries ih =>
    obtain ⟨trade, htrade, hsymbol, hquantity⟩ := trades_recordTrade e.result entry.1 entry.2.side
      entry.2.entryPrice last.close entry.2.quantity entry.2.entryTime last.timestamp
    obtain ⟨trades, htrades, hall⟩ := ih (closeLast last e entry)
    refine ⟨trade :: trades, ?_, ?_⟩
    · rw [List.foldl_cons, htrades]
      simp only [closeLast, htrade, List.append_assoc, List.singleton_append]
    · intro other hother
      rcases List.mem_cons.mp hother with rfl | hother
      · exact ⟨entry, List.mem_cons_self, hsymbol.symm, hquantity⟩
      · obtain ⟨entry', hmem, heq⟩ := hall other hother
        exact ⟨entry', List.mem_cons_of_mem _ hmem, heq⟩

end BacktestEngine

end Closing

namespace Run

variable {σ : Type} (t : Run σ)

def charges (es : List Event) : ℚ :=
  totalAlong Event.on BacktestEngine.charged t.engine es + (t.traded es).closingCharges t.candles

/-- What a run has paid for without getting it back: what was replaced or sold in part, and what is
open at the end. -/
def unreturned (es : List Event) : ℚ :=
  totalAlong Event.on BacktestEngine.lost t.engine es + (t.traded es).basis

/-- The engine `e` after the events `es`: its capital has grown by the P&L recorded, and every
trade is of no more than was bought. -/
structure Accounts (e : BacktestEngine) (es : List Event) : Prop where
  capital : e.capital = t.initialCapital + e.result.totalPnl
  bought : Along Event.on (fun e ev => ev.Bought e) t.engine es
  closed : ∀ trade ∈ e.result.trades.drop (t.traded es).result.trades.length,
    ∃ entry ∈ (t.traded es).openPositions,
      entry.1 = trade.symbol ∧ trade.quantity ≤ entry.2.quantity

theorem initialCapital_foldl (es : List Event) (e : BacktestEngine) :
    (es.foldl Event.on e).initialCapital = e.initialCapital := by
  induction es generalizing e with
  | nil => rfl
  | cons ev es ih =>
    rw [List.foldl_cons, ih]
    cases ev with
    | mark time => rfl
    | place order candle time =>
      unfold Event.on BacktestEngine.handleOrder
      dsimp only
      split
      · split <;> rfl
      · split <;> rfl

theorem events_nil {es : List Event} (hcandles : t.candles = []) (hes : t.events = some es) :
    es = [] := by
  unfold events at hes
  rw [hcandles] at hes
  obtain ⟨x, -, hx⟩ := Option.bind_eq_some_iff.mp hes
  obtain ⟨r, hr, hstop⟩ := Option.bind_eq_some_iff.mp hx
  obtain ⟨_, -, heq⟩ := Option.bind_eq_some_iff.mp hstop
  cases hr
  cases heq
  rfl

theorem engine_long : t.engine.Long := ⟨List.nodup_nil, by simp [engine]⟩

theorem capital_eq {es : List Event} (hes : t.events = some es) :
    ((t.traded es).closeAll t.candles).capital =
      t.initialCapital + ((t.traded es).closeAll t.candles).result.totalPnl +
        (t.charges es - t.unreturned es) := by
  have hstep : ∀ (e : BacktestEngine) (ev : Event), e.Long →
      (Event.on e ev).Long ∧
        (Event.on e ev).surplus = e.surplus + (e.charged ev - e.lost ev) := fun _ ev h =>
    surplus_on ev h
  have hsum := (totalAlong_eq hstep t.engine_long es).2
  rw [totalAlong_sub] at hsum
  have hstart : t.engine.surplus = 0 := by
    simp [BacktestEngine.surplus, BacktestEngine.basis, engine, Dict.values]
  have hinitial : (es.foldl Event.on t.engine).initialCapital = t.initialCapital :=
    initialCapital_foldl es t.engine
  rw [hstart, BacktestEngine.surplus, hinitial] at hsum
  unfold charges unreturned BacktestEngine.closeAll BacktestEngine.closingCharges traded
  cases hlast : t.candles.getLast? with
  | none =>
    have hnil : es = [] := t.events_nil (List.getLast?_eq_none_iff.mp hlast) hes
    subst hnil
    simp only [List.foldl_nil] at hsum ⊢
    have hbasis : t.engine.basis = 0 := by simp [BacktestEngine.basis, engine, Dict.values]
    linear_combination hsum
  | some last =>
    have hclose := BacktestEngine.capital_closeLast last
      (es.foldl Event.on t.engine).openPositions (es.foldl Event.on t.engine)
    dsimp only
    linear_combination hclose + hsum

/-- The accounts of a run agree exactly when what its trades are charged is what it has paid for
without getting it back, and no sale is of more than is held. -/
theorem accounts_iff :
    (∀ e es, t.run = some e → t.events = some es → t.Accounts e es) ↔
      ∀ es, t.events = some es →
        t.charges es = t.unreturned es ∧ Along Event.on BacktestEngine.Covered t.engine es := by
  constructor
  · intro h es hes
    have haccounts := h _ es (by rw [run_eq, hes]; rfl) hes
    have hcapital := haccounts.capital
    refine ⟨?_, (Along.congr_iff bought_iff).mp haccounts.bought⟩
    have heq := t.capital_eq hes
    simp only [BacktestResult.finalize] at hcapital
    linarith
  · intro h e es he hes
    obtain ⟨hbalance, hcovered⟩ := h es hes
    rw [run_eq, hes, Option.map_some, Option.some.injEq] at he
    subst he
    refine ⟨?_, (Along.congr_iff bought_iff).mpr hcovered, ?_⟩
    · have heq := t.capital_eq hes
      rw [hbalance, sub_self, add_zero] at heq
      exact heq
    · unfold BacktestEngine.closeAll
      cases hlast : t.candles.getLast? with
      | none => simp [BacktestResult.finalize]
      | some last =>
        obtain ⟨trades, htrades, hall⟩ := BacktestEngine.trades_closeLast last
          (t.traded es).openPositions (t.traded es)
        intro trade htrade
        simp only [BacktestResult.finalize, htrades, List.drop_left] at htrade
        obtain ⟨entry, hentry, hsymbol, hquantity⟩ := hall trade htrade
        exact ⟨entry, hentry, hsymbol, hquantity.le⟩

def order (side : OrderSide) (quantity : ℤ) : Backtest.Order where
  symbol := "NIFTY"
  exchange := .nse
  side := side
  orderType := .market
  product := .intraday
  quantity := quantity

def scripted : Strategy (List Backtest.Order) where
  init := []
  onStart := some
  onCandle orders _ := (orders.tail, some { orders := orders.head?.toList })
  onStop := some

def flat : Candle where
  symbol := "NIFTY"
  openPrice := 100
  high := 100
  low := 100
  close := 100
  timestamp := "2026-01-05T09:15:00+05:30"

def priced (orders : List Backtest.Order) : Run (List Backtest.Order) where
  strategy := { scripted with init := orders }
  candles := orders.map fun _ => flat
  isoformat := some

/-- Ten bought and ten sold at one price leave the capital as it was, with a loss recorded; ten
bought and kept cost all they were bought for; a sale of twenty records a trade of twenty. -/
theorem priced_accounts :
    ((priced [order .buy 10, order .sell 10]).run.map fun e =>
        (e.capital, decide (e.capital = 100000 + e.result.totalPnl))) = some (100000, false) ∧
      ((priced [order .buy 10]).run.map fun e => e.capital) = some 99000 ∧
      ((priced [order .buy 10, order .sell 20]).run.map fun e =>
        e.result.trades.map Trade.quantity) = some [20] ∧
      ¬∀ e es, (priced [order .buy 10, order .sell 10]).run = some e →
        (priced [order .buy 10, order .sell 10]).events = some es →
          (priced [order .buy 10, order .sell 10]).Accounts e es := by
  have hsold : ((priced [order .buy 10, order .sell 10]).run.map fun e =>
      (e.capital, decide (e.capital = 100000 + e.result.totalPnl))) = some (100000, false) := by
    decide +kernel
  have hkept : ((priced [order .buy 10]).run.map fun e => e.capital) = some 99000 := by decide +kernel
  have hmore : ((priced [order .buy 10, order .sell 20]).run.map fun e =>
      e.result.trades.map Trade.quantity) = some [20] := by decide +kernel
  refine ⟨hsold, hkept, hmore, fun h => ?_⟩
  obtain ⟨e, he, heq⟩ := Option.map_eq_some_iff.mp hsold
  have hevents := he
  rw [run_eq] at hevents
  obtain ⟨es, hes, -⟩ := Option.map_eq_some_iff.mp hevents
  have hcapital : e.capital = 100000 + e.result.totalPnl := (h e es he hes).capital
  simp [hcapital] at heq

end Run

end Accounts

end Trademetrix.Engine.LegacyBacktest
