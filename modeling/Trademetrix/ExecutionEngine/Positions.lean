import Trademetrix.Dict
import Trademetrix.ExecutionEngine.Events
import Trademetrix.ExecutionEngine.Fifo

/-!
# Positions and accounts

A trade event changes the lots of its (user, broker, symbol) and the position that is
read off them; a position event has the account of its (user, broker) computed anew from
all the positions it covers. Keys are texts joined by colons, and what belongs to a user
is found by the start of the key.
-/

/-!
## The trade ledger

A trade is built from every fill event. The ledger keeps one bucket of trades per
account and passes over a trade whose broker order id, quantity and price it has there.
-/

namespace Trademetrix.ExecutionEngine

structure TradeRecord where
  userId : String := ""
  broker : String := ""
  account : String := ""
  orderId : String := ""
  clientOrderId : String := ""
  brokerOrderId : String := ""
  symbol : String := ""
  side : String := ""
  quantity : ℤ := 0
  price : ℚ := 0
  commission : ℚ := 0
  exchangeCharges : ℚ := 0
  stt : ℚ := 0
  stampDuty : ℚ := 0
  charges : ℚ := 0
  strategyId : String := ""
  source : String := ""
  isPaper : Bool := false
  deriving DecidableEq

def TradeRecord.fingerprint (trade : TradeRecord) : String × ℤ × ℚ :=
  (trade.brokerOrderId, trade.quantity, trade.price)

abbrev TradeLedger := Dict String (List TradeRecord)

def maxPerAccount : ℕ := 20000

def accountKey (userId broker : String) : String := userId ++ ":" ++ broker

def TradeRecord.accountKey (trade : TradeRecord) : String :=
  ExecutionEngine.accountKey trade.userId trade.broker

namespace TradeLedger

def bucket (ledger : TradeLedger) (key : String) : List TradeRecord := (ledger.get key).getD []

def repeats (ledger : TradeLedger) (trade : TradeRecord) : Prop :=
  trade.brokerOrderId ≠ "" ∧
    trade.fingerprint ∈ (ledger.bucket trade.accountKey).map TradeRecord.fingerprint

instance (ledger : TradeLedger) (trade : TradeRecord) : Decidable (ledger.repeats trade) :=
  inferInstanceAs (Decidable (_ ∧ _))

def add (trade : TradeRecord) (ledger : TradeLedger) : TradeLedger :=
  if ledger.repeats trade then ledger
  else
    let bucket := ledger.bucket trade.accountKey ++ [trade]
    ledger.set trade.accountKey (bucket.drop (bucket.length - maxPerAccount))

def addAll (trades : List TradeRecord) (ledger : TradeLedger) : TradeLedger :=
  trades.foldl (fun ledger trade => ledger.add trade) ledger

@[simp] theorem addAll_nil (ledger : TradeLedger) : ledger.addAll [] = ledger := rfl

@[simp] theorem addAll_singleton (trade : TradeRecord) (ledger : TradeLedger) :
    ledger.addAll [trade] = ledger.add trade := rfl

theorem addAll_append (trades trades' : List TradeRecord) (ledger : TradeLedger) :
    ledger.addAll (trades ++ trades') = (ledger.addAll trades).addAll trades' := List.foldl_append

end TradeLedger

def buildTrade (event : ExecutionEngineEvent) : Option TradeRecord :=
  let qty := event.filledQuantity
  let price := orNumber event.avgPrice event.price
  if qty ≤ 0 then none
  else if price ≤ 0 then none
  else
    let payload := event.payload
    some
      { userId := event.userId
        broker := event.broker
        account := payload.account
        orderId := event.orderId
        clientOrderId := event.clientOrderId
        brokerOrderId := event.brokerOrderId
        symbol := event.symbol
        side := event.side
        quantity := qty
        price := price
        commission := Text.round2 payload.commission
        exchangeCharges := Text.round2 payload.exchangeCharges
        stt := Text.round2 payload.stt
        stampDuty := Text.round2 payload.stampDuty
        charges :=
          Text.round2 (payload.commission + payload.exchangeCharges + payload.stt + payload.stampDuty)
        strategyId := payload.strategyId
        source := payload.source.getD ""
        isPaper := payload.isPaper.getD (event.broker = "paper") }

/-- The trade that `_on_order_event` records for an event of the order domain. -/
def tradeOf (event : ExecutionEngineEvent) : Option TradeRecord :=
  if event.type ∈ fillEvents then buildTrade event else none

/-- The event that `_on_order_event` publishes for a trade. -/
def TradeRecord.event (trade : TradeRecord) : ExecutionEngineEvent where
  type := .tradeExecuted
  userId := trade.userId
  broker := trade.broker
  orderId := trade.orderId
  clientOrderId := trade.clientOrderId
  brokerOrderId := trade.brokerOrderId
  symbol := trade.symbol
  side := trade.side
  quantity := trade.quantity
  avgPrice := trade.price
  payload :=
    { account := trade.account
      commission := trade.commission
      exchangeCharges := trade.exchangeCharges
      stt := trade.stt
      stampDuty := trade.stampDuty
      strategyId := trade.strategyId
      source := some trade.source
      isPaper := some trade.isPaper }

theorem buildTrade_positive {event : ExecutionEngineEvent} {trade : TradeRecord}
    (h : buildTrade event = some trade) : 0 < trade.quantity ∧ 0 < trade.price := by
  simp only [buildTrade] at h
  split at h
  · cases h
  · next hqty =>
    split at h
    · cases h
    · next hprice =>
      cases h
      exact ⟨not_le.mp hqty, not_le.mp hprice⟩

theorem tradeOf_positive {event : ExecutionEngineEvent} {trade : TradeRecord}
    (h : tradeOf event = some trade) : 0 < trade.quantity ∧ 0 < trade.price := by
  unfold tradeOf at h
  split at h
  · exact buildTrade_positive h
  · cases h

end Trademetrix.ExecutionEngine

namespace Trademetrix.ExecutionEngine

section Positions

structure EnginePosition where
  userId : String := ""
  broker : String := ""
  account : String := ""
  symbol : String := ""
  quantity : ℤ := 0
  openQuantity : ℤ := 0
  side : String := "FLAT"
  averagePrice : ℚ := 0
  averageBuyPrice : ℚ := 0
  averageSellPrice : ℚ := 0
  buyQuantity : ℤ := 0
  sellQuantity : ℤ := 0
  lastPrice : ℚ := 0
  realisedPnl : ℚ := 0
  unrealisedPnl : ℚ := 0
  m2m : ℚ := 0
  strategyId : String := ""
  deriving DecidableEq

def EnginePosition.isOpen (position : EnginePosition) : Bool := position.quantity ≠ 0

def positionKey (userId broker symbol : String) : String :=
  userId ++ ":" ++ broker ++ ":" ++ symbol

def EnginePosition.key (position : EnginePosition) : String :=
  positionKey position.userId position.broker position.symbol

structure PositionBook where
  positions : Dict String EnginePosition := []
  fifos : Dict String FifoLots := []
  deriving DecidableEq

def basePosition (event : ExecutionEngineEvent) (position : Option EnginePosition) :
    EnginePosition :=
  position.getD { userId := event.userId, broker := event.broker, symbol := event.symbol }

def syncPosition (event : ExecutionEngineEvent) (position : Option EnginePosition)
    (fifo : FifoLots) (realized : ℚ) : EnginePosition :=
  let base := basePosition event position
  let net := fifo.netQuantity
  let buyPrice := Text.round2 (fifo.averagePrice "BUY")
  let sellPrice := Text.round2 (fifo.averagePrice "SELL")
  let lastPrice := orNumber (event.payload.lastPrice.getD base.lastPrice) base.lastPrice
  let unrealised := fifo.unrealizedPnl lastPrice
  { base with
    account := orText event.payload.account base.account
    strategyId := orText event.payload.strategyId base.strategyId
    quantity := net
    openQuantity := net.natAbs
    side := if 0 < net then "LONG" else if net < 0 then "SHORT" else "FLAT"
    buyQuantity := fifo.longQuantity
    sellQuantity := fifo.shortQuantity
    averageBuyPrice := buyPrice
    averageSellPrice := sellPrice
    averagePrice := if 0 < net then buyPrice else if net < 0 then sellPrice else 0
    realisedPnl := Text.round2 (base.realisedPnl + realized)
    lastPrice := lastPrice
    unrealisedPnl := if 0 < lastPrice then unrealised else base.unrealisedPnl
    m2m := if 0 < lastPrice then unrealised else base.m2m }

def positionEvent (etype : ExecutionEventType) (position : EnginePosition) :
    ExecutionEngineEvent where
  type := etype
  userId := position.userId
  broker := position.broker
  symbol := position.symbol
  side := position.side
  quantity := position.quantity
  avgPrice := position.averagePrice
  payload := { account := position.account, lastPrice := some position.lastPrice }

def openedOrClosed (wasOpen nowOpen : Bool) : ExecutionEventType :=
  if nowOpen && !wasOpen then .positionOpened
  else if !nowOpen && wasOpen then .positionClosed
  else .positionUpdated

def onTradeEvent (event : ExecutionEngineEvent) (book : PositionBook) :
    PositionBook × List ExecutionEngineEvent :=
  let side := Text.upper event.side
  let price := orNumber event.avgPrice event.price
  if event.type ≠ .tradeExecuted then (book, [])
  else if side ≠ "BUY" ∧ side ≠ "SELL" then (book, [])
  else if event.quantity ≤ 0 ∨ price ≤ 0 then (book, [])
  else
    let key := positionKey event.userId event.broker event.symbol
    let position := book.positions.get key
    let wasOpen := (position.map EnginePosition.isOpen).getD false
    let fifo := (book.fifos.get key).getD {}
    match fifo.apply side event.quantity price with
    | .error _ => ({ book with fifos := book.fifos.set key fifo }, [])
    | .ok (realized, fifo) =>
      let position := syncPosition event position fifo realized
      ({ positions := book.positions.set key position, fifos := book.fifos.set key fifo },
        [positionEvent (openedOrClosed wasOpen position.isOpen) position])

def positionPrefix (userId broker : String) : String :=
  if broker = "" then userId ++ ":" else userId ++ ":" ++ broker ++ ":"

def getPositions (userId broker : String) (positions : Dict String EnginePosition) :
    List EnginePosition :=
  Dict.values (positions.filter fun p => Text.startsWith p.1 (positionPrefix userId broker))

/-- What `aggregate_pnl` gives: the realised and the unrealised sum. -/
def aggregatePnl (userId broker : String) (positions : Dict String EnginePosition) : ℚ × ℚ :=
  let rows := getPositions userId broker positions
  (Text.round2 (rows.map EnginePosition.realisedPnl).sum,
    Text.round2 (rows.map EnginePosition.unrealisedPnl).sum)

def markPrice (userId broker : String) (prices : Dict String ℚ) (key : String)
    (position : EnginePosition) : Option ℚ :=
  if Text.startsWith key (userId ++ ":" ++ broker ++ ":") then
    (prices.get position.symbol).filter fun price => 0 < price
  else none

def markPosition (fifo : Option FifoLots) (price : ℚ) (position : EnginePosition) :
    EnginePosition :=
  match fifo with
  | none => { position with lastPrice := price }
  | some fifo =>
    { position with
      lastPrice := price, unrealisedPnl := fifo.unrealizedPnl price
      m2m := fifo.unrealizedPnl price }

def markedPosition (userId broker : String) (prices : Dict String ℚ)
    (fifos : Dict String FifoLots) (key : String) (position : EnginePosition) : EnginePosition :=
  match markPrice userId broker prices key position with
  | none => position
  | some price => markPosition (fifos.get key) price position

def markToMarket (userId broker : String) (prices : Dict String ℚ) (book : PositionBook) :
    PositionBook × List ExecutionEngineEvent :=
  let marked := markedPosition userId broker prices book.fifos
  let updated :=
    book.positions.filter fun p => (markPrice userId broker prices p.1 p.2).isSome
  ({ book with positions := book.positions.map fun p => (p.1, marked p.1 p.2) },
    updated.map fun p => positionEvent .positionUpdated (marked p.1 p.2))

end Positions

section Accounts

structure PnLAccount where
  userId : String := ""
  broker : String := ""
  initialCapital : ℚ := 500000
  realisedPnl : ℚ := 0
  unrealisedPnl : ℚ := 0
  dailyPnl : ℚ := 0
  currentEquity : ℚ := 500000
  dayStartEquity : ℚ := 500000
  peakEquity : ℚ := 500000
  drawdownPct : ℚ := 0
  dayDate : String := ""
  deriving DecidableEq

def PnLAccount.key (account : PnLAccount) : String := accountKey account.userId account.broker

def ensureAccount (today userId broker : String) (accounts : Dict String PnLAccount) : PnLAccount :=
  { (accounts.get (accountKey userId broker)).getD { userId := userId, broker := broker } with
    dayDate := today }

def PnLAccount.recompute (today : String) (totals : ℚ × ℚ) (account : PnLAccount) : PnLAccount :=
  let dayStart :=
    if account.dayDate ≠ "" ∧ account.dayDate ≠ today then account.currentEquity
    else account.dayStartEquity
  let equity := Text.round2 (account.initialCapital + totals.1 + totals.2)
  let peak := max equity account.peakEquity
  { account with
    dayStartEquity := dayStart
    dayDate := today
    realisedPnl := totals.1
    unrealisedPnl := totals.2
    currentEquity := equity
    peakEquity := peak
    drawdownPct :=
      if 0 < peak then Text.round2 (max 0 ((peak - equity) / peak * 100)) else account.drawdownPct
    dailyPnl := Text.round2 (equity - dayStart) }

end Accounts

end Trademetrix.ExecutionEngine

/-!
## The engine on its bus

One dispatcher takes the events off the bus in the order of their publication; a handler
runs to its end before the next event is taken, and what it publishes waits behind what
is there. Fill events come in from outside at any time.
-/

namespace Trademetrix.ExecutionEngine

open Execution (OrderResult)
open Engine (NormalizedOrder)

structure EngineState where
  queue : List ExecutionEngineEvent := []
  ledger : TradeLedger := []
  book : PositionBook := {}
  accounts : Dict String PnLAccount := []
  today : String := ""
  deriving DecidableEq

namespace EngineState

def publish (events : List ExecutionEngineEvent) (s : EngineState) : EngineState :=
  { s with queue := s.queue ++ events }

def onOrderEvent (event : ExecutionEngineEvent) (s : EngineState) : EngineState :=
  match tradeOf event with
  | none => s
  | some trade => { s with ledger := s.ledger.add trade }.publish [trade.event]

def onTradeEvent (event : ExecutionEngineEvent) (s : EngineState) : EngineState :=
  let (book, events) := ExecutionEngine.onTradeEvent event s.book
  { s with book := book }.publish events

def recompute (userId broker : String) (s : EngineState) : EngineState :=
  let account := ensureAccount s.today userId broker s.accounts
  let totals := aggregatePnl userId broker s.book.positions
  { s with
    accounts :=
      s.accounts.set (accountKey userId broker) (account.recompute s.today totals) }.publish
    [{ type := .portfolioRevalued, userId := userId, broker := broker }]

def onPortfolioEvent (event : ExecutionEngineEvent) (s : EngineState) : EngineState :=
  if event.type = .portfolioSnapshot ∨ event.userId = "" then s
  else s.publish [{ type := .portfolioSnapshot, userId := event.userId }]

def handle (event : ExecutionEngineEvent) (s : EngineState) : EngineState :=
  match event.domain with
  | .order => s.onOrderEvent event
  | .trade => s.onTradeEvent event
  | .position => s.recompute event.userId event.broker
  | .portfolio => s.onPortfolioEvent event
  | .execution | .risk => s

def dispatch (s : EngineState) : EngineState :=
  match s.queue with
  | [] => s
  | event :: queue => { s with queue := queue }.handle event

def markToMarket (userId broker : String) (prices : Dict String ℚ) (s : EngineState) :
    EngineState :=
  let (book, events) := ExecutionEngine.markToMarket userId broker prices s.book
  { s with book := book }.publish events

def getAccount (userId broker : String) (s : EngineState) : EngineState :=
  { s with
    accounts :=
      s.accounts.set (accountKey userId broker) (ensureAccount s.today userId broker s.accounts) }

end EngineState

/-- What can happen next: a fill is reported, over the older bus, by the facade or by
another caller of the engine's bus; the dispatcher takes an event; prices come in; an
account is looked up; the date changes. -/
inductive Action
  | legacy (event : LegacyEvent)
  | outcome (result : OrderResult) (order : NormalizedOrder)
  | order (event : ExecutionEngineEvent) (h : event.domain = ExecutionDomain.order)
  | dispatch
  | mark (userId broker : String) (prices : Dict String ℚ)
  | account (userId broker : String)
  | day (today : String)

def Action.published : Action → List ExecutionEngineEvent
  | .legacy event => (forward event).toList
  | .outcome result placed => publishOutcome result placed
  | .order event _ => [event]
  | _ => []

def EngineState.step (s : EngineState) : Action → EngineState
  | .dispatch => s.dispatch
  | .mark userId broker prices => s.markToMarket userId broker prices
  | .account userId broker => s.getAccount userId broker
  | .day today => { s with today := today }
  | action => s.publish action.published

def EngineState.run (s : EngineState) (actions : List Action) : EngineState :=
  actions.foldl EngineState.step s

def Along (P : EngineState → Action → Prop) : EngineState → List Action → Prop
  | _, [] => True
  | s, action :: actions => P s action ∧ Along P (s.step action) actions

instance decidableAlong (P : EngineState → Action → Prop) [∀ s action, Decidable (P s action)] :
    (s : EngineState) → (actions : List Action) → Decidable (Along P s actions)
  | _, [] => .isTrue trivial
  | s, action :: actions =>
    have := decidableAlong P (s.step action) actions
    inferInstanceAs (Decidable (P s action ∧ Along P (s.step action) actions))

end Trademetrix.ExecutionEngine
