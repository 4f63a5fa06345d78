import Trademetrix.Async.Pool
import Trademetrix.Engine.Models
import Trademetrix.Execution.Manager
import Trademetrix.Execution.OrdersTable
import Trademetrix.Risk.Rules

/-!
# Calls of the execution manager side by side

`ExecutionManager.place_order` with what its checks and its insert read and write: the
orders table and the memory of the risk rules. The other checks, the broker and the
event log are left to the replies; none of them looks at an order that was not filled.
A query is carried out, or fails, at some moment of its await. The order manager's worker
repeats a call whose failure is transient.
-/

namespace Trademetrix.Execution.Placing

open Async
open Engine (Exchange InstrumentType NormalizedOrder OptionType OrderSide OrderStatus OrderType
  ProductType)
open Oms (OmniOrder Time buildExecutionRequest)
open RiskRules (Memory RiskConfig RiskRuleResult RiskRuleType Texts riskRules todayStart)

/-- The checks of a call that look at earlier orders: `_check_duplicate` and four rules. -/
inductive Check
  | duplicate
  | tradeCooldown (config : RiskConfig)
  | maxTradesPerDay (config : RiskConfig)
  | maxOrdersPerMinute (config : RiskConfig)
  | duplicateOrder
  deriving DecidableEq

structure Desk where
  now : Time := 0
  orders : OrdersTable := []
  nextId : ℕ := 0
  memory : Memory := {}
  started : List ℕ := []
  /-- The calls whose insert gave no row, with their orders, and whether
  `_check_existing_order` could look. -/
  lost : List (Call × NormalizedOrder × Bool) := []
  /-- The calls that have gone on to the broker. -/
  sent : List Call := []

namespace Desk

def today (s : Desk) (userId : String) : List OrderRow :=
  s.orders.filter fun r => r.userId = userId ∧ todayStart s.now ≤ r.createdAt

def judge (texts : Texts) (s : Desk) (order : ℕ) (req : ExecutionRequest) :
    Check → RiskRuleResult × Memory
  | .duplicate =>
    if req.executionRequestId = "" then ({}, s.memory)
    else match OrdersTable.maybeSingle (s.orders.withKey req.userId req.executionRequestId) with
      | some _ => ({ decision := .rejected, reason := "Duplicate order detected" }, s.memory)
      | none => ({}, s.memory)
  | .tradeCooldown config => RiskRules.tradeCooldown texts s.memory order s.now req config
  | .maxTradesPerDay config =>
    (RiskRules.maxTradesPerDay config (s.today req.userId).length, s.memory)
  | .maxOrdersPerMinute config => RiskRules.maxOrdersPerMinute s.memory order s.now req config
  | .duplicateOrder => RiskRules.duplicateOrder texts s.memory order s.now req

def rejects (texts : Texts) (s : Desk) (order : ℕ) (req : ExecutionRequest) (check : Check) : Bool :=
  (s.judge texts order req check).1.decision = .rejected

def without (s : Desk) (order : ℕ) : Desk where
  now := s.now
  orders := s.orders.filter fun r => !r.isOf order
  nextId := s.nextId
  memory := s.memory.without order
  started := s.started
  lost := s.lost
  sent := s.sent

end Desk

inductive DeskEffect
  | starts (order : ℕ)
  | judges (c : Call) (req : ExecutionRequest) (check : Check)
  | inserts (c : Call) (order : NormalizedOrder) (createdAt : Time)
  | loses (c : Call) (order : NormalizedOrder) (answered : Bool)
  | sends (c : Call) (order : NormalizedOrder)
  | posts (c : Call) (order : NormalizedOrder) (posts : List PostOutcome)
  | updates (c : Call) (order : NormalizedOrder) (brokerOrderId status : String)
  | returns (c : Call) (result : ExecutionResult)
  | clock (now : Time)
  /-- A row of another writer. -/
  | adds (row : OrderRow)
  | marks (id : ℕ) (brokerOrderId status : String)

namespace Desk

/-- The row `_insert_order_atomic` sends. -/
def rowOf (s : Desk) (c : Call) (order : NormalizedOrder) (createdAt : Time) : OrderRow where
  id := s.nextId
  userId := order.userId
  clientOrderId := order.clientOrderId
  broker := order.broker
  createdAt := createdAt
  storedBy := some c

def updateRows (s : Desk) (p : OrderRow → Bool) (brokerOrderId status : String) : Desk :=
  { s with orders := s.orders.update p brokerOrderId status }

def addRow (s : Desk) (row : OrderRow) : Desk :=
  { s with orders := s.orders.insert row, nextId := s.nextId + 1 }

def apply (texts : Texts) (e : DeskEffect) (s : Desk) : Desk :=
  match e with
  | .starts order => { s with started := order :: s.started }
  | .judges c req check => { s with memory := (s.judge texts c.order req check).2 }
  | .inserts c order createdAt => s.addRow (s.rowOf c order createdAt)
  | .loses c order answered => { s with lost := (c, order, answered) :: s.lost }
  | .updates _ order brokerOrderId status =>
    s.updateRows (fun r => r.HasKey order.userId order.clientOrderId) brokerOrderId status
  | .sends c _ => { s with sent := c :: s.sent }
  | .clock now => { s with now := now }
  | .adds row => s.addRow { row with id := s.nextId, storedBy := none }
  | .marks id brokerOrderId status =>
    s.updateRows (fun r => r.id = id) brokerOrderId status
  | .posts _ _ _ | .returns _ _ => s

end Desk

inductive Carried
  | unreached | unanswered | answered
  deriving DecidableEq

structure Sending extends BrokerSide where
  attached : Bool := true
  authenticated : Bool := true
  bookkeeping : Option Raised := none
  logging : Option Raised := none

inductive DeskPoint
  | turn
  | query
  | insert
  | marketOpen
  | margin (userId broker : String)
  | quote (symbol : String)
  | config (userId : String)
  | rule (rule : RiskRuleType) (req : ExecutionRequest)
  | adapter (userId broker : String)
  | log
  | send (order : NormalizedOrder)
  | delay (seconds : ℕ)

/-- The replies of an await. `query` is whether the query is carried out and answered. -/
def DeskReply : DeskPoint → Type
  | .turn | .delay _ => Unit
  | .query | .marketOpen => Bool
  | .insert => Carried
  | .margin _ _ => Option (Option ℚ)
  | .quote _ => Except Raised (Option ℚ)
  | .config _ => Except Raised RiskConfig
  | .rule _ _ => RiskRuleResult
  | .adapter _ _ => Except Raised Bool
  | .log => Except Raised Unit
  | .send _ => Sending

abbrev M := Proc Desk DeskEffect DeskReply

abbrev Raising := ExceptT Raised M

def emit (e : DeskEffect) : M Unit := Proc.emit e

def look : M Desk := Proc.look

def wait (i : DeskPoint) : M (DeskReply i) := Proc.wait i

structure FieldError where
  field : String
  message : String
  deriving DecidableEq

section Build

variable (texts : Texts)

/-- `_generate_execution_request_id`; the time is in seconds. -/
def generateExecutionRequestId (userId broker symbol side : String) (now : Time) : String :=
  let raw := s!"{userId}:{broker}:{symbol}:{side}:{texts.str ((now : ℚ) / 1000000)}"
  String.ofList ((texts.sha256 raw).toList.take 16)

def ofValue {α : Type} (all : List α) (value : α → String) (s : String) : Option α :=
  all.find? fun a => value a = s

def optionTypeOf : Option String → Option (Option OptionType)
  | none | some "" => some none
  | some s => (ofValue [.ce, .pe] OptionType.value s).map some

/-- `_build_normalized_order`; a value no enumeration has raises. -/
def buildNormalizedOrder (req : ExecutionRequest) : Option NormalizedOrder := do
  let exchange ← ofValue [.nse, .bse, .nfo, .cds, .mcx] Exchange.value req.exchange
  let side ← ofValue [.buy, .sell] OrderSide.value req.side
  let orderType ← ofValue [.market, .limit, .sl, .slm] OrderType.value req.orderType
  let product ← ofValue [.delivery, .intraday, .mis, .nrml] ProductType.value req.product
  let instrumentType ← ofValue [.eq, .fut, .opt] InstrumentType.value req.instrumentType
  let optionType ← optionTypeOf req.optionType
  some {
    symbol := req.symbol, exchange := exchange, side := side, orderType := orderType
    product := product, quantity := req.quantity, price := req.price
    triggerPrice := req.triggerPrice, disclosedQuantity := req.disclosedQuantity
    validity := req.validity, instrumentType := instrumentType, strikePrice := req.strikePrice
    expiryDate := req.expiryDate, optionType := optionType, strategyId := req.strategyId
    source := req.source, userId := req.userId, broker := req.broker
    clientOrderId := req.executionRequestId, isPaper := req.isPaper }

end Build

section Validation

/-- `f"{q:.{digits}f}"` of a number that is not negative. -/
def fixed (digits : ℕ) (q : ℚ) : String :=
  let ds := (toString (Text.roundHalfEven (q * 10 ^ digits)).toNat).toList
  let ds := List.replicate (digits + 1 - ds.length) '0' ++ ds
  String.ofList (ds.take (ds.length - digits)) ++ "." ++ String.ofList (ds.drop (ds.length - digits))

/-- The checks of `validate_order` on the order alone. The other required fields are
numbers or of an enumeration, whose values are all valid. -/
def fieldErrors (order : NormalizedOrder) : List FieldError :=
  (if Text.strip order.symbol = "" then [⟨"symbol", "symbol is required"⟩] else []) ++
  (if order.quantity ≤ 0 then [⟨"quantity", "Quantity must be positive"⟩] else []) ++
  (if order.orderType ∈ [OrderType.limit, .sl, .slm] ∧ order.price ≤ 0 then
    [⟨"price", "Price is required for LIMIT/SL/SLM orders"⟩] else []) ++
  (if order.orderType = .sl ∧ order.triggerPrice.getD 0 ≤ 0 then
    [⟨"trigger_price", "Trigger price is required for SL orders"⟩] else []) ++
  (if order.quantity < order.disclosedQuantity then
    [⟨"disclosed_quantity", "Disclosed quantity cannot exceed total quantity"⟩] else [])

def exitSources : List String := ["exit_sl", "exit_target", "bracket_sl", "bracket_target"]

def checkPriceBand (order : NormalizedOrder) : Raising (List FieldError) :=
  if order.orderType ∈ [OrderType.market, .slm, .sl] ∨ order.source ∈ exitSources ∨
      order.price ≤ 0 then pure []
  else do
    let quote : Option ℚ ← ExceptT.mk (wait (.quote order.symbol))
    match quote with
    | none => pure []
    | some ltp =>
      if ltp ≤ 0 then pure []
      else
        let deviation := |order.price - ltp| / ltp * 100
        if 5 < deviation then
          pure [⟨"price", s!"Price {fixed 2 order.price} deviates {fixed 1 deviation}% from LTP " ++
            s!"{fixed 2 ltp} (max 5.0%)"⟩]
        else pure []

def checkMargin (order : NormalizedOrder) : M (List FieldError) := do
  let margin : Option (Option ℚ) ← wait (.margin order.userId order.broker)
  match margin with
  | none => pure [⟨"margin", "Insufficient margin"⟩]
  | some none => pure []
  | some (some available) =>
    if order.quantity * order.price ≤ available then pure []
    else pure [⟨"margin", "Insufficient margin"⟩]

def validateTradingSession (order : NormalizedOrder) : M (List FieldError) :=
  if order.isPaper = true ∨ order.source = "admin" then pure []
  else do
    let isOpen : Bool ← wait .marketOpen
    if isOpen then pure [] else pure [⟨"session", "Market is closed"⟩]

variable (texts : Texts) (c : Call) (req : ExecutionRequest)

def judged (check : Check) : M RiskRuleResult := do
  let s ← look
  emit (.judges c req check)
  pure (s.judge texts c.order req check).1

/-- `_check_duplicate`; a query that fails finds nothing. -/
def checkDuplicate : M (List FieldError) := do
  if req.executionRequestId = "" then pure []
  else
    let answered : Bool ← wait .query
    if answered then
      let r ← judged texts c req .duplicate
      if r.decision = .rejected then pure [⟨"duplicate", r.reason⟩] else pure []
    else pure []

def validateOrder (order : NormalizedOrder) : Raising (List FieldError) := do
  let session ← (validateTradingSession order : M _)
  let duplicate ← (checkDuplicate texts c req : M _)
  let margin ← (checkMargin order : M _)
  let price ← checkPriceBand order
  pure (fieldErrors order ++ session ++ duplicate ++ margin ++ price)

end Validation

section Risk

variable (texts : Texts) (c : Call) (req : ExecutionRequest) (config : RiskConfig)

def evaluateRule : RiskRuleType → M RiskRuleResult
  | .tradeCooldown => do
    let _ : Unit ← wait .turn
    judged texts c req (.tradeCooldown config)
  | .maxTradesPerDay => do
    let answered : Bool ← wait .query
    if answered then judged texts c req (.maxTradesPerDay config)
    else pure (RiskRules.maxTradesPerDay config 0)
  | .maxOrdersPerMinute => do
    let _ : Unit ← wait .turn
    judged texts c req (.maxOrdersPerMinute config)
  | .duplicateOrder => do
    let _ : Unit ← wait .turn
    judged texts c req .duplicateOrder
  | rule => wait (.rule rule req)

def firstRejection : List RiskRuleType → M (Option String)
  | [] => pure none
  | rule :: rest => do
    let r ← evaluateRule texts c req config rule
    if r.decision = .rejected then pure (some r.reason) else firstRejection rest

def evaluate : Raising (Option String) := do
  let config : RiskConfig ← ExceptT.mk (wait (.config req.userId))
  firstRejection texts c req config riskRules

end Risk

section Place

variable (texts : Texts) (c : Call) (req : ExecutionRequest) (order : NormalizedOrder)

/-- `_insert_order_atomic`: whether the row came back. -/
def insertOrderAtomic (createdAt : Time) : M Bool := do
  let carried : Carried ← wait .insert
  if carried = .unreached then pure false
  else
    let s ← look
    emit (.inserts c order createdAt)
    pure (!s.orders.conflicts (s.rowOf c order createdAt) && decide (carried = .answered))

/-- `_check_existing_order`, by the client order id alone. -/
def checkExistingOrder (s : Desk) (requestId : String) : Option (String × String) :=
  (OrdersTable.maybeSingle (s.orders.withClientOrderId requestId)).map fun r =>
    (r.brokerOrderId, r.status)

def lostResult (s : Desk) (requestId : String) (answered : Bool) : Option (String × String) :=
  if answered then checkExistingOrder s requestId else none

/-- `place_order` from the insert to the send. -/
def claimRow (createdAt : Time) : M Preflight := do
  let inserted ← insertOrderAtomic c order createdAt
  if inserted then pure .ready
  else do
    let answered : Bool ← wait .query
    let s ← look
    emit (.loses c order answered)
    pure (.duplicate (lostResult s order.clientOrderId answered))

/-- The body of the `try` of `place_order` up to the send. -/
def checks (createdAt : Time) : Raising Preflight := do
  let errors ← validateOrder texts c req order
  if errors ≠ [] then
    let _ : Unit ← ExceptT.mk (wait .log)
    pure .invalid
  else
    match ← evaluate texts c req with
    | some reason =>
      let _ : Unit ← ExceptT.mk (wait .log)
      pure (.riskRejected reason)
    | none =>
      let available : Bool ←
        ExceptT.mk (wait (.adapter req.userId (if req.isPaper then "paper" else req.broker)))
      if available then claimRow c order createdAt else pure .unavailable

/-- The status `place_order` writes for a result of the broker. -/
def statusOf (r : OrderResult) : OrderStatus :=
  if r.status ∈ Manager.partialStatuses then .partiallyFilled
  else if r.status ∈ Manager.filledStatuses then .filled
  else .pending

/-- `_update_order_in_db`, for an order the broker took. -/
def updateOrderInDb : Except Raised OrderResult → M Unit
  | .error _ => pure ()
  | .ok r =>
    if r.success = false then pure ()
    else do
      let answered : Bool ← wait .query
      if answered then emit (.updates c order r.brokerOrderId (statusOf r).value)
      else pure ()

def sendOrder (requestId : String) (p : Preflight) : M (Except Raised ExecutionResult) := do
  emit (.sends c order)
  let out : Sending ← wait (.send order)
  let wire : Wire := { attached := out.attached, authenticated := out.authenticated }
  let placed := Manager.placeOrder
    { out.toBrokerSide with
      requestId := requestId, preflight := p, bookkeeping := out.bookkeeping
      logging := out.logging } wire
  emit (.posts c order placed.2.posts)
  updateOrderInDb c order (Manager.executeWithRetry out.toBrokerSide wire).1
  pure placed.1

/-- `place_order` from the request id on. -/
def placeNamed (requestId : String) : M (Except Raised ExecutionResult) :=
  match buildNormalizedOrder req with
  | none =>
    pure (.ok (Manager.failed requestId .failed "Failed to build order" "ORDER_BUILD_FAILED"))
  | some order => do
    let s ← look
    let checked ← (checks texts c req order s.now).run
    match checked with
    | .error e => do
      let logged : Except Raised Unit ← wait .log
      match logged with
      | .error e' => pure (.error e')
      | .ok _ => pure (.ok (Manager.failed requestId .failed e.text "EXECUTION_FAILED"))
    | .ok p =>
      match Manager.refusal requestId p with
      | some result => pure (.ok result)
      | none => sendOrder c order requestId p

def placeOrder : M (Except Raised ExecutionResult) := do
  let s ← look
  let requestId :=
    if req.executionRequestId ≠ "" then req.executionRequestId
    else generateExecutionRequestId texts req.userId req.broker req.symbol req.side s.now
  placeNamed texts c { req with executionRequestId := requestId } requestId

end Place

section Work

variable (texts : Texts)

/-- The worker's attempts at one order, with the retries left and made: a failure that is
definitive and transient is followed by another attempt. -/
def attempts (order : ℕ) (req : ExecutionRequest) : (left made : ℕ) → M Unit
  | left, n => do
    let placed ← placeOrder texts ⟨order, n⟩ req
    match placed with
    | .error _ => pure ()
    | .ok res => do
      emit (.returns ⟨order, n⟩ res)
      match left with
      | 0 => pure ()
      | left + 1 =>
        if res.indeterminate = false ∧ res.success = false ∧ isTransient res.errorCode = true then do
          let _ : Unit ← wait (.delay (2 ^ n))
          attempts order req left (n + 1)
        else pure ()

inductive Work
  | process (order : ℕ) (record : OmniOrder)
  | place (order : ℕ) (req : ExecutionRequest)

namespace Work

def order : Work → ℕ
  | process order _ | place order _ => order

def code : Work → M Unit
  | process order record => do
    let s ← look
    if order ∈ s.started then pure ()
    else do
      emit (.starts order)
      attempts texts order (buildExecutionRequest record) (record.maxRetries - record.retryCount)
        record.retryCount
  | place order req => do
    let s ← look
    if order ∈ s.started then pure ()
    else do
      emit (.starts order)
      attempts texts order req 0 0

end Work

/-- Beside the calls the clock moves on and other writers add rows and change them. -/
def system : System Desk DeskEffect DeskReply ℕ Work where
  apply := Desk.apply texts
  tag := Work.order
  code := Work.code texts
  blocks a b := a = b
  ready _ _ _ := true
  env _ e := match e with
    | .clock _ | .adds _ | .marks _ _ _ => true
    | _ => false

end Work

end Trademetrix.Execution.Placing
