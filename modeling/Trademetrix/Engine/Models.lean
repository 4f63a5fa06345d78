import Trademetrix.Oms.Models

/-!
# Orders at the engine gate

The order a strategy or a user hands to the gate, what the gate checks of it by
itself and how it reads the order manager's record of it.
-/

namespace Trademetrix.Engine

open Execution (ExecutionRequest OrderResult)
open Oms (OmniOrder OMSOrderState)

inductive OptionType
  | ce | pe
  deriving DecidableEq, Repr

def OptionType.value : OptionType → String
  | ce => "CE"
  | pe => "PE"

inductive InstrumentType
  | eq | fut | opt
  deriving DecidableEq, Repr

def InstrumentType.value : InstrumentType → String
  | eq => "EQ"
  | fut => "FUT"
  | opt => "OPT"

inductive OrderSide
  | buy | sell
  deriving DecidableEq, Repr

def OrderSide.value : OrderSide → String
  | buy => "BUY"
  | sell => "SELL"

inductive OrderType
  | market | limit | sl | slm
  deriving DecidableEq, Repr

def OrderType.value : OrderType → String
  | market => "MARKET"
  | limit => "LIMIT"
  | sl => "SL"
  | slm => "SLM"

inductive ProductType
  | delivery | intraday | mis | nrml
  deriving DecidableEq, Repr

def ProductType.value : ProductType → String
  | delivery => "DELIVERY"
  | intraday => "INTRADAY"
  | mis => "MIS"
  | nrml => "NRML"

inductive Exchange
  | nse | bse | nfo | cds | mcx
  deriving DecidableEq, Repr

def Exchange.value : Exchange → String
  | nse => "NSE"
  | bse => "BSE"
  | nfo => "NFO"
  | cds => "CDS"
  | mcx => "MCX"

/-- The states `OrderStatus` an order can be given; `working` is `OPEN`. -/
inductive OrderStatus
  | pending | working | partiallyFilled | filled | cancelled | rejected | expired
  deriving DecidableEq, Repr

def OrderStatus.value : OrderStatus → String
  | .pending => "PENDING"
  | .working => "OPEN"
  | .partiallyFilled => "PARTIALLY_FILLED"
  | .filled => "FILLED"
  | .cancelled => "CANCELLED"
  | .rejected => "REJECTED"
  | .expired => "EXPIRED"

structure NormalizedOrder where
  brokerOrderId : String := ""
  clientOrderId : String := ""
  source : String := "manual"
  symbol : String
  exchange : Exchange
  side : OrderSide
  orderType : OrderType
  product : ProductType
  quantity : ℤ
  price : ℚ := 0
  triggerPrice : Option ℚ := none
  disclosedQuantity : ℤ := 0
  validity : String := "DAY"
  status : OrderStatus := .pending
  filledQuantity : ℤ := 0
  averagePrice : ℚ := 0
  message : String := ""
  strategyId : Option String := none
  userId : String := ""
  broker : String := ""
  instrumentType : InstrumentType := .eq
  strikePrice : Option ℚ := none
  expiryDate : Option String := none
  optionType : Option OptionType := none
  isPaper : Bool := false
  deriving DecidableEq

/-- `timeNs` is what `time.time_ns` gives. -/
def generateClientOrderId (sha256 : String → String) (timeNs : ℕ) (userId symbol side source : String)
    (strategyId signalId : Option String) : String :=
  let digest (text : String) := String.ofList ((sha256 text).toList.take 32)
  let signal := signalId.getD ""
  if source = "mirror" ∨ signal ≠ "" then
    if signal ≠ "" then digest (userId ++ ":" ++ signal)
    else digest (userId ++ ":" ++ strategyId.getD "" ++ ":" ++ symbol ++ ":" ++ side)
  else digest (userId ++ ":" ++ symbol ++ ":" ++ side ++ ":" ++ toString timeNs)

def classifyRejection (reason : String) : String :=
  let r := Text.lower reason
  if Text.contains r "kill switch" then "KILL_SWITCH"
  else if Text.contains r "daily loss" then "DAILY_LOSS_CAP"
  else if Text.contains r "max position size" then "MAX_POSITION_SIZE"
  else if Text.contains r "live_position_ceiling_unset" then "LIVE_POSITION_CEILING_UNSET"
  else if Text.contains r "max capital" then "MAX_CAPITAL"
  else if Text.contains r "drawdown" then "MAX_DRAWDOWN"
  else if Text.contains r "open positions" then "MAX_OPEN_POSITIONS"
  else if Text.contains r "invalid_lot_multiple" || Text.contains r "not a multiple of" then
    "INVALID_LOT_MULTIPLE"
  else if Text.contains r "invalid_quantity" || Text.contains r "positive number of units" then
    "INVALID_QUANTITY"
  else "RISK_REJECTED"

structure ContractLot where
  brokerSymbol : String
  lotSize : ℤ

def blockedMessage (symbol broker instrumentType : String) : String :=
  "ORDER BLOCKED — Unable to resolve authoritative instrument metadata. " ++
    "Symbol: " ++ symbol ++ ". Broker: " ++ broker ++ ". Instrument type: " ++ instrumentType ++
    ". Required metadata: Security ID, Exchange Segment, Instrument Type, Lot Size."

def validateQuantityForInstrument
    (resolve : (symbol broker instrumentType : String) → Option ContractLot)
    (order : NormalizedOrder) (broker : String) : String :=
  let qty := order.quantity
  let rawType := order.instrumentType.value
  if qty ≤ 0 then
    "INVALID_QUANTITY: quantity must be a positive number of units, got " ++ toString qty
  else if rawType = "EQ" then ""
  else match resolve order.symbol broker rawType with
    | none => blockedMessage order.symbol broker rawType
    | some instrument =>
      let lot := instrument.lotSize
      if lot ≤ 0 then blockedMessage order.symbol broker rawType
      else if qty % lot ≠ 0 then
        "INVALID_LOT_MULTIPLE: quantity " ++ toString qty ++ " units is not a multiple of the " ++
          toString lot ++ "-unit contract lot for " ++ instrument.brokerSymbol ++ " (" ++
          toString qty ++ " = " ++ toString (qty / lot) ++ " x " ++ toString lot ++ " + " ++
          toString (qty % lot) ++ " leftover units)"
      else ""

theorem validateQuantity_accepts
    {resolve : (symbol broker instrumentType : String) → Option ContractLot}
    {order : NormalizedOrder} {broker : String}
    (h : validateQuantityForInstrument resolve order broker = "") :
    0 < order.quantity ∧ (order.instrumentType = .eq ∨
      ∃ instrument, resolve order.symbol broker order.instrumentType.value = some instrument ∧
        0 < instrument.lotSize ∧ instrument.lotSize ∣ order.quantity) := by
  have hblocked : blockedMessage order.symbol broker order.instrumentType.value ≠ "" := by
    unfold blockedMessage
    repeat apply Text.append_ne_empty
    decide
  simp only [validateQuantityForInstrument] at h
  split at h
  · exact absurd h (Text.append_ne_empty (by decide) _)
  · next hpos =>
    refine ⟨not_le.mp hpos, ?_⟩
    split at h
    · next hcash =>
      left
      cases ht : order.instrumentType <;> simp [ht, InstrumentType.value] at hcash ⊢
    · right
      split at h
      · exact absurd h hblocked
      · next instrument hresolve =>
        refine ⟨instrument, hresolve, ?_⟩
        split at h
        · exact absurd h hblocked
        · next hlot =>
          split at h
          · refine absurd h ?_
            repeat apply Text.append_ne_empty
            decide
          · next hmod => exact ⟨not_le.mp hlot, Int.dvd_of_emod_eq_zero (not_not.mp hmod)⟩

def normalizedToExecutionRequest (userId : String) (order : NormalizedOrder)
    (broker source : String) : ExecutionRequest where
  userId := userId
  broker := broker
  symbol := order.symbol
  exchange := order.exchange.value
  side := order.side.value
  orderType := order.orderType.value
  product := order.product.value
  quantity := order.quantity
  price := order.price
  triggerPrice := order.triggerPrice
  disclosedQuantity := order.disclosedQuantity
  validity := order.validity
  instrumentType := order.instrumentType.value
  strikePrice := order.strikePrice
  expiryDate := order.expiryDate
  optionType := order.optionType.map OptionType.value
  strategyId := order.strategyId
  source := source
  executionRequestId := order.clientOrderId
  isPaper := order.isPaper

def succeeds (state : OMSOrderState) : Bool :=
  state ∈ [OMSOrderState.filled, .partialFill, .pending]

/-- What `execute_order` notes on the order it was given. -/
def NormalizedOrder.judge (omsOrder : OmniOrder) (order : NormalizedOrder) : NormalizedOrder :=
  { order with
    brokerOrderId := omsOrder.brokerOrderId
    filledQuantity := omsOrder.filledQuantity
    averagePrice := omsOrder.averagePrice
    status := match omsOrder.state with
      | .filled => .filled
      | .partialFill => .partiallyFilled
      | .pending => .pending
      | _ => .rejected
    message :=
      if omsOrder.message ≠ "" then omsOrder.message
      else if succeeds omsOrder.state then "Order placed successfully"
      else "PLACEMENT_FAILED" }

def omsToOrderResult (omsOrder : OmniOrder) (order : NormalizedOrder) : OrderResult :=
  let success : Bool := omsOrder.state.value ∈ ["FILLED", "PARTIAL", "PENDING"]
  { success := success
    brokerOrderId := omsOrder.brokerOrderId
    message := omsOrder.message
    status := Text.lower omsOrder.state.value
    filledQty := if success then order.filledQuantity else 0
    avgPrice := if success then order.averagePrice else 0 }

theorem omsToOrderResult_success (omsOrder : OmniOrder) (order : NormalizedOrder) :
    (omsToOrderResult omsOrder order).success = succeeds omsOrder.state := by
  unfold omsToOrderResult succeeds
  cases omsOrder.state <;> rfl

theorem judge_rejected (omsOrder : OmniOrder) (order : NormalizedOrder) :
    (order.judge omsOrder).status = .rejected ↔ succeeds omsOrder.state = false := by
  unfold NormalizedOrder.judge succeeds
  cases omsOrder.state <;> simp

/-- What `execute_order` says of an order: what it notes on it, or what it returns. -/
inductive Verdict
  | noted (order : NormalizedOrder)
  | returned (result : OrderResult)

def Verdict.failing : Verdict → Bool
  | noted order => order.status = .rejected
  | returned result => !result.success

theorem failing_noted (omsOrder : OmniOrder) (order : NormalizedOrder) :
    (Verdict.noted (order.judge omsOrder)).failing = !succeeds omsOrder.state := by
  have h := judge_rejected omsOrder order
  cases hs : succeeds omsOrder.state <;> simp [Verdict.failing, hs] at h ⊢ <;> exact h

theorem failing_returned (omsOrder : OmniOrder) (order : NormalizedOrder) :
    (Verdict.returned (omsToOrderResult omsOrder order)).failing = !succeeds omsOrder.state := by
  simp only [Verdict.failing, omsToOrderResult_success]

end Trademetrix.Engine
