import Trademetrix.Backtest.Costs
import Trademetrix.Dict

/-!
# The backtest's broker

Fills simulated against a candle series, and the in-memory broker that books
them. `Setup` is what a run is configured with: the candles, the draws of the
random generator and what `datetime` makes of two timestamps are parameters.
Orders are known by the number `place_order` gives them.
-/

namespace Trademetrix.Backtest

open Engine (NormalizedOrder OrderSide OrderStatus OrderType)
open Text (round2 roundHalfEven)

structure Candle where
  symbol : String
  exchange : String := "NSE"
  interval : String := ""
  openPrice : ℚ
  high : ℚ
  low : ℚ
  close : ℚ
  volume : ℤ := 0
  timestamp : String
  oi : ℤ := 0
  deriving DecidableEq

structure BacktestExecutionConfig where
  initialCapital : ℚ := 100000
  slippagePct : ℚ := 0
  latencyCandles : ℕ := 0
  fillTimeoutCandles : ℤ := 5
  partialFillProbability : ℚ := 0
  costConfig : BacktestCostConfig := {}

/-- What a run is set up with: `random` are the numbers the generator draws, `elapsed` the
seconds between two timestamps, if both parse. -/
structure Setup where
  config : BacktestExecutionConfig
  candles : List Candle
  random : ℕ → ℚ
  elapsed : String → String → Option ℚ

structure Order extends NormalizedOrder where
  reason : String := ""
  deriving DecidableEq

inductive FillStatus
  | filled | partiallyFilled | pending | rejected
  deriving DecidableEq, Repr

structure FillResult where
  price : ℚ := 0
  quantity : ℤ := 0
  status : FillStatus := .pending
  reason : String := ""
  deriving DecidableEq

inductive EntryStatus
  | pending | filled | partiallyFilled | expired | cancelled
  deriving DecidableEq, Repr

structure OrderEntry where
  order : Order
  status : EntryStatus
  fills : List FillResult
  index : ℤ
  deriving DecidableEq

structure Costs where
  slippage : ℚ := 0
  charges : ℚ := 0
  taxes : ℚ := 0
  total : ℚ := 0
  deriving DecidableEq

structure Position where
  quantity : ℤ := 0
  avgPrice : ℚ := 0
  realizedPnl : ℚ := 0
  entryTime : Option String := none
  entryReason : Option String := none
  entryCosts : Option Costs := none
  entryQty : Option ℤ := none
  deriving DecidableEq

structure Trade where
  symbol : String
  side : OrderSide
  entryPrice : ℚ
  exitPrice : ℚ
  quantity : ℤ
  pnl : ℚ
  entryTime : String
  exitTime : String
  durationMinutes : ℤ
  entryReason : String
  exitReason : String
  slippage : ℚ
  charges : ℚ
  taxes : ℚ
  costTotal : ℚ
  riskAmount : ℚ
  rr : ℚ
  deriving DecidableEq

structure Broker where
  index : ℤ := -1
  drawn : ℕ := 0
  orders : Dict ℕ OrderEntry := []
  positions : Dict String Position := []
  lastPrices : Dict String ℚ := []
  lastTimes : Dict String String := []
  cash : ℚ
  totalCosts : ℚ := 0
  totalSlippage : ℚ := 0
  realized : ℚ := 0
  orderCounter : ℕ := 0
  trades : List Trade := []

/-- `s or t` of two texts. -/
def orElse (s t : String) : String := if s = "" then t else s

/-- `round(x, 4)`. -/
def round4 (x : ℚ) : ℚ := roundHalfEven (x * 10000) / 10000

namespace Setup

variable (s : Setup)

def candleAt (i : ℤ) : Option Candle := if 0 ≤ i then s.candles[i.toNat]? else none

def slip (price : ℚ) (side : OrderSide) : ℚ :=
  let pct := s.config.slippagePct / 100
  if pct ≤ 0 then price
  else round4 (if side = .buy then price * (1 + pct) else price * (1 - pct))

/-- `_maybe_partial`: the quantity, whether it is partial, and the draws made so far. -/
def maybePartial (drawn : ℕ) (order : Order) : ℤ × Bool × ℕ :=
  let qty := order.quantity
  if s.config.partialFillProbability ≤ 0 ∨ qty ≤ 1 then (qty, false, drawn)
  else if s.random drawn < s.config.partialFillProbability then
    (max 1 ⌊qty * (3 / 10 + (1 - 3 / 10) * s.random (drawn + 1))⌋, true, drawn + 2)
  else (qty, false, drawn + 1)

def fillAt (drawn : ℕ) (order : Order) (price : ℚ) (reason : String) : FillResult × ℕ :=
  let (qty, partly, drawn) := s.maybePartial drawn order
  ({ price := price, quantity := qty, status := if partly then .partiallyFilled else .filled
     reason := reason }, drawn)

def marketFill (drawn : ℕ) (order : Order) (candle : Candle) : FillResult × ℕ :=
  let fill := s.fillAt drawn order (s.slip candle.close order.side) "market"
  if fill.1.quantity ≤ 0 then ({ status := .rejected, reason := "zero fill quantity" }, fill.2)
  else fill

def limitFill (drawn : ℕ) (order : Order) (candle : Candle) : FillResult × ℕ :=
  let limit := order.price
  let missed : Bool := match order.side with
    | .buy => limit < candle.low
    | .sell => candle.high < limit
  let price := match order.side with
    | .buy => min limit candle.openPrice
    | .sell => max limit candle.openPrice
  if missed then ({ reason := "limit not breached" }, drawn)
  else s.fillAt drawn order (round4 price) "limit"

/-- `order.trigger_price or order.price`. -/
def triggerOf (order : Order) : ℚ :=
  if order.triggerPrice.getD 0 = 0 then order.price else order.triggerPrice.getD 0

def stopFill (drawn : ℕ) (order : Order) (candle : Candle) : FillResult × ℕ :=
  let trigger := triggerOf order
  let limit := order.price
  let untouched : Bool := match order.side with
    | .buy => candle.high < trigger
    | .sell => trigger < candle.low
  let base := match order.side with
    | .buy => max trigger candle.openPrice
    | .sell => min trigger candle.openPrice
  let missed : Bool := match order.side with
    | .buy => limit < candle.low
    | .sell => candle.high < limit
  if untouched then ({ reason := "stop not triggered" }, drawn)
  else if order.orderType = .sl then
    if missed then ({ reason := "limit not traded" }, drawn)
    else
      let base := match order.side with
        | .buy => min base limit
        | .sell => max base limit
      s.fillAt drawn order (round4 (s.slip base order.side)) "stop"
  else s.fillAt drawn order (round4 (s.slip base order.side)) "stop"

def fillOn (drawn : ℕ) (order : Order) : Option Candle → FillResult × ℕ
  | none => ({ reason := "no candle at evaluation index" }, drawn)
  | some candle =>
    match order.orderType with
    | .market => s.marketFill drawn order candle
    | .limit => s.limitFill drawn order candle
    | .sl => s.stopFill drawn order candle
    | .slm => s.stopFill drawn order candle

/-- `simulate_fill`, at the current index plus the latency. -/
def simulateFill (b : Broker) (order : Order) : FillResult × ℕ :=
  s.fillOn b.drawn order (s.candleAt (b.index + s.config.latencyCandles))

def costOf (order : Order) (result : FillResult) : CostEstimate :=
  let tradedValue := result.quantity * result.price
  estimateCost order.side tradedValue (segmentFor order.instrumentType order.product)
    (tradedValue * s.config.slippagePct / 100) s.config.costConfig

end Setup

/-- `_cost_split`. -/
def CostEstimate.split (cost : CostEstimate) : Costs where
  slippage := round2 cost.slippage
  charges := round2 (cost.brokerage + cost.exchangeTc)
  taxes := round2 (cost.stt + cost.stampDuty + cost.gst + cost.sebi)
  total := round2 cost.total

namespace Costs

/-- `_sum_costs`. -/
def add (a b : Costs) : Costs where
  slippage := round2 (a.slippage + b.slippage)
  charges := round2 (a.charges + b.charges)
  taxes := round2 (a.taxes + b.taxes)
  total := round2 (a.total + b.total)

def scale (c : Costs) (x : ℚ) : Costs where
  slippage := round2 (c.slippage * x)
  charges := round2 (c.charges * x)
  taxes := round2 (c.taxes * x)
  total := round2 (c.total * x)

end Costs

def exitReason (order : Order) : String :=
  if order.reason ≠ "" then order.reason
  else match order.orderType with
    | .sl | .slm => "stop"
    | .limit => "target"
    | .market => "signal"

/-- The level of the first stop order of a symbol, `_stop_price_at_symbol`. -/
def stopPriceAtSymbol (orders : Dict ℕ OrderEntry) (symbol : String) : Option ℚ :=
  (orders.values.filter fun e =>
    e.order.symbol = symbol ∧ (e.order.orderType = .sl ∨ e.order.orderType = .slm) ∧
      0 < Setup.triggerOf e.order).head?.map fun e => Setup.triggerOf e.order

namespace Position

def noteEntry (pos : Position) (openedAt reason : String) (opening : Bool) (costs : Costs) (qty : ℤ) :
    Position :=
  { pos with
    entryTime := some (orElse (pos.entryTime.getD "") openedAt)
    entryReason := some (pos.entryReason.getD (orElse reason "signal"))
    entryCosts := some (if opening then costs else (pos.entryCosts.getD {}).add costs)
    entryQty := some (pos.entryQty.getD 0 + qty) }

def consumeEntryCosts (pos : Position) (closed : ℤ) : Position :=
  let entryQty := pos.entryQty.getD 0
  if entryQty ≤ 0 then pos
  else
    { pos with
      entryCosts := pos.entryCosts.map fun c => c.scale (1 - closed / entryQty)
      entryQty := some (max 0 (entryQty - closed)) }

def clearEntryState (pos : Position) : Position :=
  { pos with entryTime := none, entryReason := none, entryCosts := none, entryQty := none }

/-- What is left of a position after `closed` of it is closed by a fill of `qty`: what it held
beyond, or the rest of the fill on the other side. -/
def closeBy (pos : Position) (side : OrderSide) (qty closed : ℤ) (price pnl : ℚ)
    (openedAt reason : String) (costs : Costs) : Position :=
  let pos := ({ pos with realizedPnl := pos.realizedPnl + pnl }).consumeEntryCosts closed
  if closed < qty then
    { pos with
      quantity := if side = OrderSide.buy then qty - closed else -(qty - closed)
      avgPrice := price
      entryTime := some openedAt
      entryReason := some (orElse reason "signal")
      entryCosts := some costs
      entryQty := some (qty - closed) }
  else
    ({ pos with
      quantity := if side = OrderSide.buy then pos.quantity + closed else pos.quantity - closed }).clearEntryState

end Position

/-- What a fill makes of a position: the position after it, the P&L realised and the trade
recorded. -/
structure Turn where
  position : Position
  pnl : ℚ := 0
  trade : Option Trade := none

namespace Broker

variable (s : Setup) (b : Broker)

/-- `_record_trade`. -/
def tradeOf (symbol : String) (side : OrderSide) (entry exitPrice : ℚ) (qty : ℤ) (pnl : ℚ)
    (entryTime entryReason exitReason : String) (entryCosts : Option Costs) (exitCosts : Costs) :
    Trade :=
  let entryCosts := entryCosts.getD {}
  let exitTime := (b.lastTimes.get symbol).getD ""
  let slippage := round2 (entryCosts.slippage + exitCosts.slippage)
  let charges := round2 (entryCosts.charges + exitCosts.charges)
  let taxes := round2 (entryCosts.taxes + exitCosts.taxes)
  let riskAmount := match stopPriceAtSymbol b.orders symbol with
    | some stop => if stop = entry then 0 else round2 (|entry - stop| * qty)
    | none => 0
  { symbol := symbol
    side := side
    entryPrice := round4 entry
    exitPrice := round4 exitPrice
    quantity := qty
    pnl := round2 pnl
    entryTime := orElse entryTime exitTime
    exitTime := exitTime
    durationMinutes := ((s.elapsed entryTime exitTime).map fun t => max 0 ⌊t / 60⌋).getD 0
    entryReason := orElse entryReason "signal"
    exitReason := exitReason
    slippage := slippage
    charges := charges
    taxes := taxes
    costTotal := round2 (slippage + charges + taxes)
    riskAmount := riskAmount
    rr := if 0 < riskAmount then round2 (pnl / riskAmount) else 0 }

def addTo (order : Order) (result : FillResult) (pos : Position) : Turn :=
  let qty := result.quantity
  let openedAt := (b.lastTimes.get order.symbol).getD ""
  let costs := (s.costOf order result).split
  match order.side with
  | .buy =>
    let avg := (pos.avgPrice * pos.quantity + result.price * qty) / max 1 (pos.quantity + qty)
    { position := ({ pos with quantity := pos.quantity + qty, avgPrice := avg }).noteEntry openedAt
        order.reason (decide (pos.quantity = 0)) costs qty }
  | .sell =>
    let avg := (|pos.avgPrice| * |pos.quantity| + result.price * qty) / max 1 (|pos.quantity| + qty)
    { position := ({ pos with quantity := pos.quantity - qty, avgPrice := avg }).noteEntry openedAt
        order.reason pos.entryTime.isNone costs qty }

def takeFrom (order : Order) (result : FillResult) (pos : Position) : Turn :=
  let qty := result.quantity
  let openedAt := (b.lastTimes.get order.symbol).getD ""
  let costs := (s.costOf order result).split
  let closed := min qty |pos.quantity|
  let pnl := match order.side with
    | .buy => (pos.avgPrice - result.price) * closed
    | .sell => (result.price - pos.avgPrice) * closed
  let held : OrderSide := match order.side with
    | .buy => .sell
    | .sell => .buy
  { position := pos.closeBy order.side qty closed result.price pnl openedAt order.reason costs
    pnl := pnl
    trade := some (b.tradeOf s order.symbol held pos.avgPrice result.price closed pnl
      (orElse (pos.entryTime.getD "") openedAt) (pos.entryReason.getD "") (exitReason order)
      pos.entryCosts costs) }

def positionOf (symbol : String) : Position := (b.positions.get symbol).getD {}

def turn (order : Order) (result : FillResult) : Turn :=
  let pos := b.positionOf order.symbol
  match order.side with
  | .buy => if 0 ≤ pos.quantity then b.addTo s order result pos else b.takeFrom s order result pos
  | .sell => if pos.quantity ≤ 0 then b.addTo s order result pos else b.takeFrom s order result pos

def outlay (order : Order) (result : FillResult) : ℚ :=
  match order.side with
  | .buy => result.quantity * result.price
  | .sell => -(result.quantity * result.price)

def applyFill (order : Order) (result : FillResult) : Broker :=
  let cost := s.costOf order result
  let turn := b.turn s order result
  { b with
    totalCosts := b.totalCosts + cost.total
    totalSlippage := b.totalSlippage + cost.slippage
    positions := b.positions.set order.symbol turn.position
    realized := b.realized + turn.pnl
    trades := b.trades ++ turn.trade.toList
    cash := b.cash - outlay order result - cost.total
    lastPrices := b.lastPrices.set order.symbol result.price }

def onOrder (id : ℕ) (f : OrderEntry → OrderEntry) : Broker :=
  { b with orders := b.orders.modify id f }

def entryStatus : FillStatus → EntryStatus
  | .partiallyFilled => .partiallyFilled
  | _ => .filled

/-- One round of the loop of `on_candle` over the orders. -/
def retry (id : ℕ) : Broker :=
  match b.orders.get id with
  | none => b
  | some entry =>
    if entry.status ≠ .pending then b
    else if s.config.fillTimeoutCandles < b.index - entry.index then
      b.onOrder id fun e => { e with status := .expired }
    else
      let (result, drawn) := s.simulateFill b entry.order
      let b := { b with drawn := drawn }
      match result.status with
      | .filled | .partiallyFilled =>
        (b.applyFill s entry.order result).onOrder id fun e =>
          { e with status := entryStatus result.status, fills := e.fills ++ [result] }
      | _ => b

def markTo (candle : Candle) : Broker :=
  { b with
    lastPrices := b.lastPrices.set candle.symbol candle.close
    lastTimes := b.lastTimes.set candle.symbol candle.timestamp }

def onCandle (i : ℤ) : Broker :=
  let b := { b with index := i }
  let b := (b.orders.map Prod.fst).foldl (retry s) b
  match s.candleAt i with
  | some candle => b.markTo candle
  | none => b

/-- What `place_order` answers. -/
structure OrderResult where
  success : Bool
  brokerOrderId : ℕ
  status : FillStatus
  message : String := ""
  filledQty : ℤ := 0
  avgPrice : ℚ := 0
  deriving DecidableEq

/-- The order as `place_order` leaves it when it fills at once. -/
def noteFill (order : Order) (result : FillResult) : Order :=
  { order with
    status := if result.status = .partiallyFilled then .partiallyFilled else .filled
    filledQuantity := result.quantity
    averagePrice := result.price }

def book (id : ℕ) (entry : OrderEntry) : Broker := { b with orders := b.orders.set id entry }

def placeOrder (order : Order) : OrderResult × Broker :=
  let id := b.orderCounter + 1
  let (result, drawn) := s.simulateFill b order
  let b := { b with orderCounter := id, drawn := drawn }
  let order := { order with broker := "paper" }
  match result.status with
  | .rejected =>
    ({ success := false, brokerOrderId := id, status := .rejected, message := result.reason }, b)
  | .pending =>
    ({ success := true, brokerOrderId := id, status := .pending
       message := "Order pending (limit/stop not triggered)" },
      b.book id { order := order, status := .pending, fills := [], index := b.index })
  | status =>
    ({ success := true, brokerOrderId := id, status := status, filledQty := result.quantity
       avgPrice := result.price },
      (b.applyFill s order result).book id
        { order := noteFill order result, status := entryStatus status, fills := [result]
          index := b.index })

structure Changes where
  quantity : Option ℤ := none
  price : Option ℚ := none
  triggerPrice : Option ℚ := none

def Changes.on (changes : Changes) (order : Order) : Order :=
  { order with
    quantity := changes.quantity.getD order.quantity
    price := changes.price.getD order.price
    triggerPrice := changes.triggerPrice.orElse fun _ => order.triggerPrice }

def modifyOrder (id : ℕ) (changes : Changes) : Broker :=
  b.onOrder id fun e => { e with order := changes.on e.order }

def cancelOrder (id : ℕ) : Broker := b.onOrder id fun e => { e with status := .cancelled }

def unrealised (symbol : String) : ℚ :=
  match b.positions.get symbol with
  | none => 0
  | some p =>
    if p.quantity = 0 then 0
    else ((b.lastPrices.get symbol).getD p.avgPrice - p.avgPrice) * p.quantity

def totalUnrealised : ℚ := ((b.positions.map Prod.fst).map b.unrealised).sum

def equity : ℚ := b.cash + b.totalUnrealised

end Broker

/-- `BacktestBroker` once `update_config` has been called. -/
def Setup.broker (s : Setup) : Broker := { cash := s.config.initialCapital }

end Trademetrix.Backtest
