import Trademetrix.Dict
import Trademetrix.Engine.Models
import Trademetrix.Execution.Retry
import Trademetrix.Ledger

/-!
# The paper broker

Its memory, the fills it books, and the rebuild of the memory from the `orders`
table. What the fill engine answers is a parameter, and so are the clock, the
rows a read gives and how far a write gets.
-/

namespace Trademetrix.Paper

open Engine (NormalizedOrder OrderSide OrderStatus)
open Execution (OrderResult)

/-- An order with its `created_at`, in microseconds. -/
structure Order extends NormalizedOrder where
  createdAt : ℤ
  deriving DecidableEq

inductive PaperOrderStatus
  | pending | partiallyFilled | filled | rejected | cancelled
  deriving DecidableEq, Repr

structure PaperPosition where
  symbol : String
  quantity : ℤ := 0
  buyQuantity : ℤ := 0
  sellQuantity : ℤ := 0
  averageBuyPrice : ℚ := 0
  averageSellPrice : ℚ := 0
  realisedPnl : ℚ := 0
  unrealisedPnl : ℚ := 0
  m2m : ℚ := 0
  product : String := "INTRADAY"
  lastPrice : ℚ := 0
  deriving DecidableEq

structure PaperAccount where
  userId : String
  totalMargin : ℚ := 0
  usedMargin : ℚ := 0
  availableMargin : ℚ := 0
  m2mUnrealised : ℚ := 0
  initialCapital : ℚ := 500000
  currentValue : ℚ := 500000
  deriving DecidableEq

structure PaperFill where
  orderId : String := ""
  filledQuantity : ℤ := 0
  filledPrice : ℚ := 0
  deriving DecidableEq

structure Entry where
  order : Order
  status : PaperOrderStatus
  fills : List PaperFill
  deriving DecidableEq

structure Book where
  positions : Dict String PaperPosition := []
  account : PaperAccount
  deriving DecidableEq

/-- `initialCapital` is the one setting of the configuration that is read here. -/
structure PaperBroker extends Book where
  userId : String
  initialCapital : ℚ
  orders : Dict String Entry := []
  authenticated : Bool := false
  connected : Bool := false
  orderCounter : ℕ := 0
  deriving DecidableEq

namespace PaperPosition

def fillSide (pos : PaperPosition) (side : OrderSide) (qty : ℤ) (price : ℚ) : PaperPosition :=
  match side with
  | .buy =>
    let newBuyQty := pos.buyQuantity + qty
    { pos with
      averageBuyPrice :=
        (pos.averageBuyPrice * pos.buyQuantity + price * qty) / (max newBuyQty 1 : ℤ)
      buyQuantity := newBuyQty
      quantity := newBuyQty - pos.sellQuantity }
  | .sell =>
    let newSellQty := pos.sellQuantity + qty
    { pos with
      averageSellPrice :=
        (pos.averageSellPrice * pos.sellQuantity + price * qty) / (max newSellQty 1 : ℤ)
      sellQuantity := newSellQty
      quantity := pos.buyQuantity - newSellQty }

def flatten (pos : PaperPosition) : PaperPosition :=
  if pos.quantity = 0 then
    { pos with
      realisedPnl := pos.realisedPnl +
        (pos.averageSellPrice - pos.averageBuyPrice) * (min pos.buyQuantity pos.sellQuantity : ℤ)
      buyQuantity := 0
      sellQuantity := 0 }
  else pos

def mark (pos : PaperPosition) (price : ℚ) : PaperPosition :=
  let unrealised : ℚ :=
    if 0 < pos.quantity then pos.quantity * (price - pos.averageBuyPrice)
    else if pos.quantity < 0 then |pos.quantity| * (pos.averageSellPrice - price)
    else 0
  { pos with
    lastPrice := price
    unrealisedPnl := unrealised
    m2m := pos.realisedPnl + unrealised }

end PaperPosition

namespace Book

def updatePosition (positions : Dict String PaperPosition) (order : Order) (fill : PaperFill) :
    Dict String PaperPosition :=
  let pos := (positions.get order.symbol).getD
    { symbol := order.symbol, product := order.product.value }
  positions.set order.symbol
    (((pos.fillSide order.side fill.filledQuantity fill.filledPrice).flatten).mark fill.filledPrice)

def updateAccount (account : PaperAccount) (positions : Dict String PaperPosition) (order : Order)
    (fill : PaperFill) : PaperAccount :=
  let gross := fill.filledQuantity * fill.filledPrice
  let account := match order.side with
    | .sell => { account with availableMargin := account.availableMargin + gross }
    | .buy => { account with usedMargin := account.usedMargin + gross }
  let unrealised := (positions.values.map PaperPosition.unrealisedPnl).sum
  { account with
    availableMargin := account.totalMargin - account.usedMargin
    m2mUnrealised := unrealised
    currentValue := account.totalMargin + unrealised }

def record (b : Book) (order : Order) (fill : PaperFill) : Book :=
  let positions := updatePosition b.positions order fill
  { positions := positions
    account := updateAccount b.account positions order fill }

end Book

/-- What `_reset_account` puts in place. -/
def freshAccount (userId : String) (initialCapital : ℚ) : PaperAccount where
  userId := userId
  initialCapital := initialCapital
  totalMargin := initialCapital
  availableMargin := initialCapital
  currentValue := initialCapital

/-- What `_one_row_per_fill` tells two rows apart by. -/
def fillKey (row : Order) : String × ℤ × ℚ :=
  (row.brokerOrderId, row.filledQuantity, row.averagePrice)

def oneRowPerFill (rows : List Order) : List Order := Ledger.firstOfEach fillKey [] rows

def restoredOrder (userId : String) (now : ℤ) (row : Order) : Order where
  symbol := row.symbol
  exchange := row.exchange
  side := row.side
  orderType := row.orderType
  product := row.product
  quantity := row.quantity
  price := row.price
  triggerPrice := row.triggerPrice
  broker := "paper"
  brokerOrderId := row.brokerOrderId
  filledQuantity := row.filledQuantity
  averagePrice := row.averagePrice
  userId := userId
  isPaper := true
  status := .filled
  createdAt := now

/-- `filled_quantity or quantity` at `average_price or price or 0`. -/
def restoredFill (order : Order) : PaperFill where
  filledQuantity := if order.filledQuantity = 0 then order.quantity else order.filledQuantity
  filledPrice := if order.averagePrice = 0 then order.price else order.averagePrice
  orderId := order.brokerOrderId

def twoPlaces (x : ℚ) : String :=
  let hundredths := Text.roundHalfEven (x * 100)
  let cents := hundredths.natAbs % 100
  (if hundredths < 0 then "-" else "") ++ toString (hundredths.natAbs / 100) ++ "." ++
    (if cents < 10 then "0" else "") ++ toString cents

/-- How far `_persist_order` gets. -/
inductive Write
  | stored | deletedOnly | failed
  deriving DecidableEq, Repr

/-- `_persist_order`: the rows of the same user and client order id are replaced. -/
def persistOrder (table : List Order) (order : Order) : Write → List Order
  | .failed => table
  | write =>
    let kept := if order.clientOrderId = "" then table else
      table.filter fun row => ¬ (row.userId = order.userId ∧ row.clientOrderId = order.clientOrderId)
    if write = .stored then kept ++ [order] else kept

namespace PaperBroker

def new (userId : String) (initialCapital : ℚ) : PaperBroker where
  userId := userId
  initialCapital := initialCapital
  account := { userId := userId }

variable (b : PaperBroker)

def resetAccount : PaperBroker := { b with account := freshAccount b.userId b.initialCapital }

def isAudit (row : Order) : Bool :=
  row.userId = b.userId ∧ row.broker = "paper" ∧ row.status = .filled

def restoreRow (now : ℤ) (row : Order) : PaperBroker :=
  let order := restoredOrder b.userId now row
  let fill := restoredFill order
  let orderId := if order.brokerOrderId ≠ "" then order.brokerOrderId
    else if order.clientOrderId ≠ "" then order.clientOrderId
    else toString (now / 1000000)
  { b with
    toBook := b.toBook.record order fill
    orders := b.orders.set orderId { order := order, status := .filled, fills := [fill] } }

/-- `_restore_positions_locked`, on the rows the read gives: a read that fails gives none. -/
def restorePositions (now : ℤ) (rows : List Order) : PaperBroker :=
  if rows = [] then b
  else (oneRowPerFill rows).foldl (fun b row => b.restoreRow now row)
    { b with positions := [], orders := [] }.resetAccount

def connect (now : ℤ) (rows : List Order) : PaperBroker :=
  ({ b with authenticated := true, connected := true }).resetAccount.restorePositions now rows

def disconnect : PaperBroker := { b with authenticated := false, connected := false }

def checkMargin (order : Order) : Bool :=
  let price := if 0 < order.price then order.price else order.triggerPrice.getD 0
  let price := if price ≤ 0 then 100 else price
  order.quantity * price ≤ b.account.availableMargin

/-- The id of the next order, `seconds` being `int(time.time())`. -/
def nextId (seconds : ℤ) : String :=
  "paper_" ++ toString (b.orderCounter + 1) ++ "_" ++ toString seconds

/-- The order as `place_order` hands it to the fill engine. -/
def stamp (order : Order) (seconds : ℤ) : Order :=
  { order with brokerOrderId := b.nextId seconds, broker := "paper" }

def noteFill (order : Order) (fill : PaperFill) : Order :=
  { order with
    status := if fill.filledQuantity < order.quantity then .partiallyFilled else .filled
    filledQuantity := fill.filledQuantity
    averagePrice := fill.filledPrice }

/-- `place_order`, with the row it writes. -/
def placeOrder (order : Order) (seconds : ℤ) (fill : PaperFill) :
    PaperBroker × OrderResult × Option Order :=
  let orderId := b.nextId seconds
  let order := b.stamp order seconds
  let b := { b with orderCounter := b.orderCounter + 1 }
  if ¬ b.checkMargin order then
    (b, { success := false, brokerOrderId := orderId, message := "Insufficient margin"
          status := "rejected" }, none)
  else if fill.filledQuantity ≤ 0 then
    ({ b with orders := b.orders.set orderId { order := order, status := .pending, fills := [] } },
      { success := true, brokerOrderId := orderId
        message := "Order pending (limit/stop not triggered)", status := "pending" }, none)
  else
    let filled := noteFill order fill
    let partly : Bool := fill.filledQuantity < order.quantity
    ({ b with
        toBook := b.toBook.record filled fill
        orders := b.orders.set orderId { order := filled, status := .filled, fills := [fill] } },
      { success := true, brokerOrderId := orderId
        message := "Paper order " ++ (if partly then "partially filled" else "filled") ++ " " ++
          toString fill.filledQuantity ++ " @ " ++ twoPlaces fill.filledPrice
        status := if partly then "partially_filled" else "filled"
        filledQty := fill.filledQuantity, avgPrice := fill.filledPrice }, some filled)

/-- The fields of an order that `modify_order` was given. -/
structure Changes where
  quantity : Option ℤ := none
  price : Option ℚ := none
  triggerPrice : Option (Option ℚ) := none
  deriving DecidableEq

def Changes.edit (changes : Changes) (order : Order) : Order :=
  { order with
    quantity := changes.quantity.getD order.quantity
    price := changes.price.getD order.price
    triggerPrice := changes.triggerPrice.getD order.triggerPrice }

def modifyOrder (orderId : String) (changes : Changes) : PaperBroker × OrderResult :=
  match b.orders.get orderId with
  | none => (b, { success := false, message := "Order not found" })
  | some entry =>
    ({ b with orders := b.orders.set orderId { entry with order := changes.edit entry.order } },
      { success := true, brokerOrderId := orderId, message := "Order modified" })

def cancelOrder (orderId : String) : PaperBroker × OrderResult :=
  match b.orders.get orderId with
  | none => (b, { success := false, message := "Order not found" })
  | some entry =>
    ({ b with orders := b.orders.set orderId { entry with status := .cancelled } },
      { success := true, brokerOrderId := orderId, message := "Order cancelled" })

def openOrders : Dict String Entry := b.orders.filter fun p => p.2.status = .pending

end PaperBroker

end Trademetrix.Paper
