import Trademetrix.Execution.Retry
import Trademetrix.Text

/-!
# Orders of the order manager

The records of the order manager and the state machine its orders are meant to
follow. Order ids are numbered in the order they are minted; the state `PARTIAL`
is `partialFill` here.
-/

namespace Trademetrix.Oms

open Execution (ExecutionRequest)

inductive OMSOrderState
  | new | validated | queued | sent | unknown | reconciling | ambiguous | pending | partialFill
  | filled | cancelled | rejected | expired
  deriving DecidableEq, Repr

namespace OMSOrderState

def value : OMSOrderState → String
  | new => "NEW"
  | validated => "VALIDATED"
  | queued => "QUEUED"
  | sent => "SENT"
  | unknown => "UNKNOWN"
  | reconciling => "RECONCILING"
  | ambiguous => "AMBIGUOUS"
  | pending => "PENDING"
  | partialFill => "PARTIAL"
  | filled => "FILLED"
  | cancelled => "CANCELLED"
  | rejected => "REJECTED"
  | expired => "EXPIRED"

end OMSOrderState

def omsStateTransitions : OMSOrderState → List OMSOrderState
  | .new => [.validated, .queued, .rejected]
  | .validated => [.queued, .rejected]
  | .queued => [.sent, .rejected, .cancelled]
  | .sent => [.unknown, .reconciling, .pending, .partialFill, .filled, .rejected]
  | .unknown =>
    [.reconciling, .pending, .partialFill, .filled, .rejected, .ambiguous, .cancelled, .expired]
  | .reconciling =>
    [.unknown, .pending, .partialFill, .filled, .rejected, .ambiguous, .cancelled, .expired]
  | .ambiguous => []
  | .pending => [.partialFill, .filled, .cancelled, .rejected, .expired]
  | .partialFill => [.queued, .pending, .filled, .cancelled, .rejected]
  | .filled => []
  | .cancelled => []
  | .rejected => []
  | .expired => []

def terminalOmsStates : List OMSOrderState := [.filled, .cancelled, .rejected, .expired]

namespace StateMachine

def transition (current target : OMSOrderState) : OMSOrderState :=
  if target ∈ omsStateTransitions current then target else current

def canTransition (current target : OMSOrderState) : Bool :=
  target ∈ omsStateTransitions current

def isTerminal (state : OMSOrderState) : Bool :=
  state ∈ [OMSOrderState.filled, .cancelled, .rejected, .expired]

def isActive (state : OMSOrderState) : Bool :=
  state ∈ [OMSOrderState.new, .validated, .queued, .sent, .pending, .partialFill]

theorem canTransition_of_terminal {current : OMSOrderState} (h : isTerminal current = true)
    (target : OMSOrderState) : canTransition current target = false := by
  cases current <;> first | rfl | simp [isTerminal] at h

theorem canTransition_sent {current : OMSOrderState} :
    canTransition current .sent = true ↔ current = .queued := by
  cases current <;> simp [canTransition, omsStateTransitions]

end StateMachine

inductive OrderRelationType
  | none | bracket | oco | parent | child
  deriving DecidableEq, Repr

abbrev OrderId := ℕ

/-- Microseconds, the resolution of `datetime`. -/
abbrev Time := ℕ

def seconds (n : ℕ) : Time := n * 1000000

structure OmniOrder where
  omsOrderId : OrderId
  executionRequestId : String := ""
  clientOrderId : String := ""
  brokerOrderId : String := ""
  userId : String := ""
  broker : String := ""
  symbol : String := ""
  exchange : String := "NSE"
  side : String := ""
  orderType : String := "MARKET"
  product : String := "INTRADAY"
  quantity : ℤ := 0
  filledQuantity : ℤ := 0
  averagePrice : ℚ := 0
  price : ℚ := 0
  triggerPrice : Option ℚ := none
  instrumentType : String := ""
  expiryDate : String := ""
  strikePrice : Option ℚ := none
  optionType : String := ""
  validity : String := ""
  disclosedQuantity : ℤ := 0
  reconcileAttempts : ℕ := 0
  notFoundObservations : ℕ := 0
  intentFingerprint : String := ""
  state : OMSOrderState := .new
  relationType : OrderRelationType := .none
  siblingOrderId : Option OrderId := none
  strategyId : String := ""
  source : String := "manual"
  retryCount : ℕ := 0
  maxRetries : ℕ := 3
  priority : ℤ := 0
  isPaper : Bool := false
  errorCode : String := ""
  message : String := ""
  sentAt : Option Time := none
  deriving DecidableEq

structure BracketOrder where
  omsOrderId : OrderId
  parentOrderId : OrderId
  userId : String := ""
  symbol : String := ""
  quantity : ℤ := 0
  entryPrice : ℚ := 0
  stopLossPrice : ℚ := 0
  targetPrice : ℚ := 0
  trailingSlPct : ℚ := 0
  entryFilled : Bool := false
  slOrderId : Option OrderId := none
  targetOrderId : Option OrderId := none
  active : Bool := true
  side : String := "BUY"
  broker : String := "fyers"

structure OCOOrder where
  omsOrderId : OrderId
  userId : String := ""
  symbol : String := ""
  quantity : ℤ := 0
  orderAId : OrderId
  orderBId : OrderId
  orderAFilled : Bool := false
  orderBFilled : Bool := false
  active : Bool := true

structure OrderQueueItem where
  omsOrderId : OrderId
  userId : String := ""
  broker : String := ""
  priority : ℤ := 0
  enqueuedAt : Time := 0
  retryCount : ℕ := 0
  nextRetryAt : Option Time := none
  deriving DecidableEq

/-- The keys `modify_order` looks for in its `changes`. -/
structure Changes where
  quantity : Option ℤ := none
  price : Option ℚ := none
  triggerPrice : Option ℚ := none

def maxOrderRetries : ℕ := 3

def paperBroker : String := "paper"

/-- The identity attributes of a request, normalised as `identity._norm` does. -/
def materialAttributes (req : ExecutionRequest) : List String :=
  [Text.strip req.userId, Text.strip req.broker, Text.strip req.symbol, Text.strip req.side,
    toString req.quantity, Text.strip req.orderType, Text.strip req.product,
    Text.strip req.instrumentType, (req.expiryDate.map Text.strip).getD "",
    (req.strikePrice.map Text.formatG).getD "", (req.optionType.map Text.strip).getD ""]

/-- `sha256` maps a text to its 64 hexadecimal digits. -/
def intentFingerprint (sha256 : String → String) (req : ExecutionRequest) : String :=
  String.ofList ((sha256 ("|".intercalate (materialAttributes req))).toList.take 32)

/-- The order `place_order` stores for a request. -/
def newOrder (sha256 : String → String) (omsId : OrderId) (req : ExecutionRequest)
    (maxRetries : Option ℤ) : OmniOrder :=
  let execRequestId :=
    if req.executionRequestId ≠ "" then req.executionRequestId else toString omsId
  { omsOrderId := omsId
    executionRequestId := execRequestId
    clientOrderId := execRequestId
    userId := req.userId
    broker := req.broker
    symbol := req.symbol
    exchange := req.exchange
    side := req.side
    orderType := req.orderType
    product := req.product
    quantity := req.quantity
    price := req.price
    triggerPrice := req.triggerPrice
    instrumentType := req.instrumentType
    expiryDate := req.expiryDate.getD ""
    strikePrice := req.strikePrice.bind fun q => if q = 0 then none else some q
    optionType := req.optionType.getD ""
    validity := req.validity
    disclosedQuantity := req.disclosedQuantity
    strategyId := req.strategyId.getD ""
    source := req.source
    isPaper := req.isPaper || req.broker = paperBroker
    state := .new
    intentFingerprint := intentFingerprint sha256 req
    maxRetries := match maxRetries with
      | none => maxOrderRetries
      | some n => (max 0 (min n maxOrderRetries)).toNat }

def orNone (s : String) : Option String := if s = "" then none else some s

def buildExecutionRequest (order : OmniOrder) : ExecutionRequest where
  userId := order.userId
  broker := order.broker
  symbol := order.symbol
  exchange := order.exchange
  side := order.side
  orderType := order.orderType
  product := order.product
  quantity := order.quantity
  price := order.price
  triggerPrice := order.triggerPrice
  instrumentType := if order.instrumentType = "" then "EQ" else order.instrumentType
  expiryDate := orNone order.expiryDate
  strikePrice := order.strikePrice
  optionType := orNone order.optionType
  validity := if order.validity = "" then "DAY" else order.validity
  disclosedQuantity := order.disclosedQuantity
  strategyId := orNone order.strategyId
  source := order.source
  isPaper := order.isPaper
  executionRequestId := order.executionRequestId

end Trademetrix.Oms
