import Trademetrix.Execution.Retry
import Trademetrix.Oms.World

/-!
# The order manager

The coroutines of the order manager, each under its name in the source. An await
is a `Point`; a statement to the database or to Redis goes out, takes effect or
not, and is answered later, so that others may run before and after it takes
effect. Two awaits with nothing between them are one.
-/

namespace Trademetrix.Oms

open Async
open Execution (ExecutionRequest ExecutionResult ExecutionState)

/-- What becomes of a statement: it is carried out and answered, it is carried out
and the answer is an exception, or it is not carried out. -/
inductive Io
  | done | lost | failed
  deriving DecidableEq

inductive Point
  | statement
  | answer
  | placeOrder (req : ExecutionRequest)
  | cancelOrder (brokerOrderId : String)
  | modifyOrder (brokerOrderId : String) (changes : Changes)
  | correlation (correlationId : String)
  | listOrders (userId broker : String)
  | getOrders (userId broker : String)
  | quotes (brackets : List Ref)
  | rounds

/-- The replies of an await; `none` is an exception. `rounds` bounds a loop that
runs until the outside ends it. -/
def Reply : Point → Type
  | .statement => Io
  | .answer => Unit
  | .placeOrder _ => Option ExecutionResult
  | .cancelOrder _ | .modifyOrder _ _ => Option (Bool × String)
  | .correlation _ | .listOrders _ _ => HttpReply
  | .getOrders _ _ => Option (List RemoteOrder)
  | .quotes _ => Ref → Option ℚ
  | .rounds => ℕ

abbrev M := Proc World Effect Reply

def look : M World := Proc.look

def emit (e : Effect) : M Unit := Proc.emit e

def wait (i : Point) : M (Reply i) := Proc.wait i

def forEach {α : Type} : List α → (α → M Unit) → M Unit
  | [], _ => pure ()
  | a :: as, f => do
    f a
    forEach as f

def takeEffect (io : Io) (e : Effect) : M Unit :=
  if io = .failed then pure () else emit e

/-- Send out a statement whose effect is `e`. -/
def statement (e : Effect) : M Unit := do
  let io : Io ← wait .statement
  takeEffect io e
  let _ ← wait .answer

def mirrorAuditStatus : M Unit := do
  let _ ← wait .statement
  let _ ← wait .answer

section Persistence

def saveOrder (r : Ref) : M Unit := do
  let w ← look
  statement (.upsert (w.heap r))

def removeOrder (oid : OrderId) : M Unit := statement (.delete oid)

def loadOrder (oid : OrderId) : M (Option OmniOrder) := do
  let io : Io ← wait .statement
  let w ← look
  let _ ← wait .answer
  pure (if io = .done then w.rows.get oid else none)

/-- The states `load_active_orders` selects. -/
def activeStates : List OMSOrderState := [.new, .validated, .queued, .sent, .pending, .partialFill]

def loadActiveOrders : M (List OmniOrder) := do
  let io : Io ← wait .statement
  let w ← look
  let _ ← wait .answer
  pure (if io = .done then w.rows.values.filter fun o => o.state ∈ activeStates else [])

def loadActiveBracketOrders : M (List BracketOrder) := do
  let io : Io ← wait .statement
  let w ← look
  let _ ← wait .answer
  pure (if io = .done then w.bracketRows.values.filter (·.active) else [])

def loadActiveOcoOrders : M (List OCOOrder) := do
  let io : Io ← wait .statement
  let w ← look
  let _ ← wait .answer
  pure (if io = .done then w.ocoRows.values.filter (·.active) else [])

def saveBracketOrder (b : Ref) : M Unit := do
  let w ← look
  statement (.upsertBracket (w.bracketHeap b))

def saveOcoOrder (id : OrderId) : M Unit := do
  let w ← look
  match w.ocos.get id with
  | some oco => statement (.upsertOco oco)
  | none => pure ()

end Persistence

section Queue

/-- `failed` is also a Redis that is not there. -/
def enqueue (item : OrderQueueItem) : M Unit := statement (.rpush item)

def enqueueRetry (item : OrderQueueItem) (delay : Time) : M Unit := do
  let w ← look
  enqueue { item with retryCount := item.retryCount + 1, nextRetryAt := some (w.now + delay) }

def dequeue : M (Option OrderQueueItem) := do
  let io : Io ← wait .statement
  let w ← look
  if io = .failed then pure none
  else match w.queue with
    | [] => pure none
    | item :: _ => do
      emit .lpop
      let _ ← wait .answer
      let w ← look
      if io = .lost then pure none
      else if (item.nextRetryAt.any fun t => w.now < t) = true then do
        statement (.rpush item)
        pure none
      else pure (some item)

/-- The chunks of `remove`, 51 items at steps of 50; the bound running out is a
chunk that could not be read. -/
def removeFrom (oid : OrderId) : ℕ → ℕ → M Bool
  | 0, _ => pure false
  | n + 1, start => do
    let io : Io ← wait .statement
    let w ← look
    let _ ← wait .answer
    let chunk := (w.queue.drop start).take 51
    if io ≠ .done ∨ chunk = [] then pure false
    else match chunk.find? fun item => item.omsOrderId = oid with
      | none => removeFrom oid n (start + 50)
      | some item => do
        let io : Io ← wait .statement
        let w ← look
        if io = .failed then pure false
        else do
          emit (.lrem item)
          let _ ← wait .answer
          if io = .lost then pure false
          else if item ∈ w.queue then pure true
          else removeFrom oid n (start + 50)

def remove (oid : OrderId) : M Bool := do
  let n : ℕ ← wait .rounds
  removeFrom oid n 0

end Queue

section Brackets

def deactivateBracket (oid : OrderId) : M Unit := do
  let w ← look
  match w.brackets.get oid with
  | none => pure ()
  | some b =>
    if (w.bracketHeap b).active then do
      emit (.deactivated b)
      saveBracketOrder b
    else pure ()

def exitSources : List String := ["bracket_sl", "bracket_target", "exit_sl", "exit_target"]

/-- The bracket `_attach_auto_bracket` makes of a filled order, if it makes one. -/
def autoBracket (order : OmniOrder) : Option BracketOrder :=
  let entry := if order.averagePrice ≠ 0 then order.averagePrice else order.price
  let side := Text.upper order.side
  let record (sl target : ℚ) : BracketOrder :=
    { omsOrderId := 0
      parentOrderId := order.omsOrderId
      userId := order.userId
      symbol := order.symbol
      quantity := if order.filledQuantity ≠ 0 then order.filledQuantity else order.quantity
      entryPrice := entry
      stopLossPrice := sl
      targetPrice := target
      entryFilled := true
      active := true
      side := side
      broker := order.broker }
  if order.source ∈ exitSources ∨ order.relationType ≠ .none then none
  else if entry ≤ 0 ∨ order.quantity ≤ 0 then none
  else if side = "BUY" then
    some (record (Text.round2 (entry * (1 - 1 / 10))) (Text.round2 (entry * (1 + 3 / 20))))
  else if side = "SELL" then
    some (record (Text.round2 (entry * (1 + 1 / 10))) (Text.round2 (entry * (1 - 3 / 20))))
  else none

def attachAutoBracket (r : Ref) : M Unit := do
  let w ← look
  match autoBracket (w.heap r) with
  | none => pure ()
  | some bracket => do
    emit (.bracketed bracket)
    saveBracketOrder w.nextBracket

end Brackets

section Placing

/-- `exitOf` is the entry order when this places an exit of its bracket. -/
def placeOrder (req : ExecutionRequest) (maxRetries : Option ℤ) (exitOf : Option OrderId) :
    M Ref := do
  let w ← look
  let r := w.nextRef
  emit (.create req maxRetries exitOf)
  saveOrder r
  let item : OrderQueueItem :=
    { omsOrderId := w.nextOid, userId := req.userId, broker := req.broker }
  emit (.queued r)
  saveOrder r
  enqueue item
  pure r

/-- The request of a bracket leg in `_handle_bracket_completion`. -/
def legRequest (order : OmniOrder) (bracket : BracketOrder) (leg : Leg) : ExecutionRequest where
  userId := order.userId
  broker := order.broker
  symbol := order.symbol
  exchange := order.exchange
  side := if order.side = "BUY" then "SELL" else "BUY"
  orderType := match leg with
    | .stopLoss => "SL"
    | .target => "LIMIT"
  product := order.product
  quantity := if order.filledQuantity ≠ 0 then order.filledQuantity else order.quantity
  price := match leg with
    | .stopLoss => bracket.stopLossPrice
    | .target => bracket.targetPrice
  triggerPrice := match leg with
    | .stopLoss => some bracket.stopLossPrice
    | .target => none
  source := match leg with
    | .stopLoss => "bracket_sl"
    | .target => "bracket_target"

def refusedStates : List OMSOrderState := [.rejected, .cancelled]

def handleBracketCompletion (r : Ref) : M Unit := do
  let w ← look
  match w.brackets.get (w.heap r).omsOrderId with
  | none => pure ()
  | some b => do
    emit (.entryFilled b)
    saveBracketOrder b
    let w ← look
    let sl ← placeOrder (legRequest (w.heap r) (w.bracketHeap b) .stopLoss) none
      (some (w.heap r).omsOrderId)
    let w ← look
    if (w.heap sl).state ∈ refusedStates then pure ()
    else do
      emit (.legPlaced b .stopLoss (w.heap sl).omsOrderId)
      let w ← look
      let target ← placeOrder (legRequest (w.heap r) (w.bracketHeap b) .target) none
        (some (w.heap r).omsOrderId)
      let w ← look
      if (w.heap target).state ∈ refusedStates then pure ()
      else do
        emit (.legPlaced b .target (w.heap target).omsOrderId)
        saveBracketOrder b

def findOco (w : World) (oid : OrderId) : Option (OCOOrder × OrderId × Bool) :=
  (w.ocos.values.find? fun oco =>
    oco.active && (oco.orderAId = oid || oco.orderBId = oid : Bool)).map fun oco =>
      if oco.orderAId = oid then (oco, oco.orderBId, true) else (oco, oco.orderAId, false)

def cancelSibling (siblingId : OrderId) : M Unit := do
  let w ← look
  match w.orders.get siblingId with
  | none => pure ()
  | some q =>
    if StateMachine.canTransition (w.heap q).state .cancelled then do
      emit (.cancelled q .sibling)
      saveOrder q
      removeOrder siblingId
    else pure ()

def handleOcoCompletion (r : Ref) : M Unit := do
  let w ← look
  match findOco w (w.heap r).omsOrderId with
  | none => pure ()
  | some (oco, siblingId, isA) => do
    emit (.ocoClosed oco.omsOrderId isA !isA)
    saveOcoOrder oco.omsOrderId
    cancelSibling siblingId

def handleParentCompletion (r : Ref) : M Unit := do
  let w ← look
  match (w.heap r).relationType with
  | .bracket => handleBracketCompletion r
  | .oco => handleOcoCompletion r
  | _ => pure ()

end Placing

section Api

def cancelOcoSibling (r : Ref) : M Unit := do
  let w ← look
  if (w.heap r).relationType ≠ .oco then pure ()
  else match findOco w (w.heap r).omsOrderId with
    | none => pure ()
    | some (oco, siblingId, _) => do
      emit (.ocoClosed oco.omsOrderId false false)
      saveOcoOrder oco.omsOrderId
      cancelSibling siblingId

def finishCancel (r : Ref) (oid : OrderId) : M Unit := do
  saveOrder r
  removeOrder oid
  mirrorAuditStatus
  deactivateBracket oid
  cancelOcoSibling r

/-- The branches of `cancel_order` on the broker's answer. -/
def brokerAnswered (r : Ref) (oid : OrderId) (success : Bool) (message : String) : M Unit :=
  if success then do
    emit (.cancelled r (.confirmed message))
    saveOrder r
    removeOrder oid
    mirrorAuditStatus
    deactivateBracket oid
  else do
    emit (.note r (if message = "" then "Cancel failed" else message))
    saveOrder r

/-- The part of `cancel_order` after the queue. -/
def cancelUnqueued (r : Ref) (oid : OrderId) (via : CancelVia) : M Unit := do
  let w ← look
  if (w.heap r).brokerOrderId = "" then do
    emit (.cancelled r via)
    finishCancel r oid
  else do
    let reply : Option (Bool × String) ← wait (.cancelOrder (w.heap r).brokerOrderId)
    match reply with
    | none => pure ()
    | some (success, message) => do
      brokerAnswered r oid success message
      cancelOcoSibling r

def cancelOrder (oid : OrderId) : M Unit := do
  let w ← look
  match w.orders.get oid with
  | none => pure ()
  | some r =>
    if StateMachine.canTransition (w.heap r).state .cancelled = false then
      emit (.note r ("Cannot cancel order in state " ++ (w.heap r).state.value))
    else if (w.heap r).state = .queued then do
      let removed ← remove oid
      if removed then do
        emit (.cancelled r .dequeued)
        finishCancel r oid
      else cancelUnqueued r oid .notRemoved
    else cancelUnqueued r oid .noBrokerId

def modifyOrder (oid : OrderId) (changes : Changes) : M Unit := do
  let w ← look
  match w.orders.get oid with
  | none => pure ()
  | some r =>
    if StateMachine.isActive (w.heap r).state = false then
      emit (.note r ("Cannot modify order in state " ++ (w.heap r).state.value))
    else if (w.heap r).brokerOrderId = "" then do
      emit (.modified r changes)
      saveOrder r
    else do
      let reply : Option (Bool × String) ← wait (.modifyOrder (w.heap r).brokerOrderId changes)
      match reply with
      | none => pure ()
      | some (success, message) =>
        if success then do
          emit (.modified r changes)
          saveOrder r
        else do
          emit (.note r (if message = "" then "Modify failed" else message))
          saveOrder r

def createBracket (req : ExecutionRequest) (slPrice targetPrice trailingSlPct : ℚ) : M Unit := do
  let parent ← placeOrder req none none
  emit (.related parent .bracket none)
  let w ← look
  emit (.bracketed
    { omsOrderId := 0
      parentOrderId := (w.heap parent).omsOrderId
      userId := req.userId
      symbol := req.symbol
      quantity := req.quantity
      entryPrice := req.price
      stopLossPrice := slPrice
      targetPrice := targetPrice
      trailingSlPct := trailingSlPct
      active := true })
  saveBracketOrder w.nextBracket

def createOco (reqA reqB : ExecutionRequest) : M Unit := do
  let a ← placeOrder reqA none none
  let b ← placeOrder reqB none none
  let w ← look
  emit (.related a .oco (some (w.heap b).omsOrderId))
  emit (.related b .oco (some (w.heap a).omsOrderId))
  emit (.ocoLinked
    { omsOrderId := 0
      userId := reqA.userId
      symbol := reqA.symbol
      quantity := reqA.quantity
      orderAId := (w.heap a).omsOrderId
      orderBId := (w.heap b).omsOrderId
      active := true })
  saveOcoOrder w.nextOid

def retryOrder (oid : OrderId) : M Unit := do
  let w ← look
  match w.orders.get oid with
  | none => pure ()
  | some r =>
    let order := w.heap r
    if order.maxRetries ≤ order.retryCount then do
      emit (.exhausted r)
      saveOrder r
      removeOrder oid
    else do
      enqueueRetry
        { omsOrderId := oid, userId := order.userId, broker := order.broker
          priority := order.priority, enqueuedAt := w.now, retryCount := order.retryCount }
        (seconds (2 ^ order.retryCount))
      emit (.retried r)
      saveOrder r

end Api

section Worker

/-- The branches of `_process_queue` on the result of a send. -/
def handleResult (r : Ref) (item : OrderQueueItem) (res : ExecutionResult) : M Unit := do
  let w ← look
  let order := w.heap r
  if res.indeterminate then do
    emit (.unanswered r res)
    saveOrder r
  else if res.success then do
    emit (.answered r res)
    saveOrder r
    match res.state with
    | .filled => do
      removeOrder item.omsOrderId
      attachAutoBracket r
      emit (.recorded r)
      handleParentCompletion r
    | .partiallyFilled =>
      if 0 < order.remaining res then enqueueRetry item (seconds 5)
      else do
        removeOrder item.omsOrderId
        attachAutoBracket r
        emit (.recorded r)
    | _ => pure ()
  else if order.retryCount < order.maxRetries ∧ Execution.isTransient res.errorCode = true then do
    emit (.requeued r)
    enqueueRetry item (seconds (2 ^ order.retryCount))
    emit (.countRetry r res)
    saveOrder r
  else do
    emit (.refused r res)
    saveOrder r
    removeOrder item.omsOrderId
    emit (.recorded r)

/-- `_process_queue` from the transition guard on. -/
def sendOrder (r : Ref) (item : OrderQueueItem) : M Unit := do
  let w ← look
  if StateMachine.canTransition (w.heap r).state .sent = false then pure ()
  else do
    emit (.markSent r)
    saveOrder r
    let w ← look
    emit (.post r)
    let reply : Option ExecutionResult ← wait (.placeOrder (buildExecutionRequest (w.heap r)))
    match reply with
    | none => emit (.abandoned r)
    | some res => handleResult r item res

/-- One round of the loop of `_process_queue`. -/
def processQueue : M Unit := do
  let next ← dequeue
  match next with
  | none => pure ()
  | some item => do
    let w ← look
    match w.orders.get item.omsOrderId with
    | some r => sendOrder r item
    | none => do
      let row ← loadOrder item.omsOrderId
      match row with
      | none => pure ()
      | some row => do
        let w ← look
        emit (.loaded row)
        sendOrder w.nextRef item

end Worker

section Reconciler

def reconcileAttributes (cfg : Settings) (order : OmniOrder) : Fields :=
  let strike (q : Option ℚ) : Scalar := match q with
    | none => .none
    | some q => .float q
  let orElse (a b : Scalar) : Scalar := if a.truthy then a else b
  let text (s : Option String) : Scalar := match s with
    | none => .none
    | some s => .str s
  let base : Fields :=
    [("transactionType", .str order.side), ("quantity", .int order.quantity),
      ("orderType", .str order.orderType), ("productType", .str order.product)]
  match cfg.resolve order.symbol order.broker
      (if order.instrumentType = "" then "EQ" else order.instrumentType) with
  | none => base ++
    [("drvExpiryDate", .str order.expiryDate), ("drvStrikePrice", strike order.strikePrice),
      ("drvOptionType", .str order.optionType)]
  | some instrument => base ++
    [("drvExpiryDate", orElse (.str order.expiryDate) (text instrument.expiry)),
      ("drvStrikePrice", orElse (strike order.strikePrice) (strike instrument.strike)),
      ("drvOptionType", orElse (.str order.optionType) (text instrument.optionType)),
      ("securityId", .str instrument.securityId),
      ("exchangeSegment", .str instrument.exchangeSegment)]

/-- The arguments `_reconcile_one_unknown` calls `reconcile` with. -/
def reconcileArgs (cfg : Settings) (order : OmniOrder) : ReconcileArgs where
  correlationId :=
    if order.clientOrderId ≠ "" then order.clientOrderId else order.executionRequestId
  expectedAttributes := reconcileAttributes cfg order
  sentAt := order.sentAt
  brokerOrderId := order.brokerOrderId
  notFoundObservations := order.notFoundObservations

/-- The lookups `reconcile` makes. -/
def askBroker (userId broker : String) (args : ReconcileArgs) : M Lookups :=
  if args.brokerOrderId ≠ "" ∨ args.correlationId = "" then pure {}
  else do
    let reply : HttpReply ← wait (.correlation args.correlationId)
    let byId := byCorrelation args.correlationId (lookupByCorrelation reply)
    match afterCorrelation byId.1 byId.2 with
    | some _ => pure { correlation := some reply }
    | none => do
      let listing : HttpReply ← wait (.listOrders userId broker)
      pure { correlation := some reply, listing := some listing }

def reconcileOneUnknown (cfg : Settings) (r : Ref) : M Unit := do
  emit (.reconciling r)
  saveOrder r
  let w ← look
  let order := w.heap r
  let args := reconcileArgs cfg order
  emit (.lookup r args)
  let lookups ← askBroker order.userId order.broker args
  let w ← look
  let outcome := reconcile cfg.fromisoformat cfg.obs args lookups w.now
  emit (.resolved r args lookups)
  match outcome.verdict, outcome.found with
  | .accepted, none => pure ()
  | .accepted, some _ | .unknown, _ => saveOrder r
  | .rejected, _ | .ambiguous, _ => do
    saveOrder r
    removeOrder order.omsOrderId
    emit (.recorded r)
  | .notFound, _ => do
    saveOrder r
    enqueueRetry { omsOrderId := order.omsOrderId, enqueuedAt := w.now } (seconds 2)

def reconcileUnknownOnce (cfg : Settings) : M Unit := do
  let w ← look
  forEach (w.orders.values.filter fun r => (w.heap r).state ∈ [OMSOrderState.unknown, .reconciling])
    (reconcileOneUnknown cfg)

def applyRemoteStatus (r : Ref) (remote : RemoteOrder) : M Unit := do
  let w ← look
  match OmniOrder.remoteTarget remote.status with
  | none => pure ()
  | some target =>
    if StateMachine.canTransition (w.heap r).state target = false then pure ()
    else do
      emit (.remote r remote target)
      saveOrder r
      if target = .partialFill then pure ()
      else do
        removeOrder (w.heap r).omsOrderId
        emit (.dropped (w.heap r).omsOrderId)
        if target = .filled then attachAutoBracket r
        else deactivateBracket (w.heap r).omsOrderId
        emit (.recorded r)
        mirrorAuditStatus
        if target = .filled then handleParentCompletion r else pure ()

/-- The references of `active`, by user and broker. -/
def byKey (w : World) (active : List Ref) : Dict (String × String) (List Ref) :=
  active.foldl
    (fun d r =>
      let key := ((w.heap r).userId, (w.heap r).broker)
      d.set key ((d.get key).getD [] ++ [r]))
    []

def bookEntry (book : List RemoteOrder) (brokerOrderId : String) : Option RemoteOrder :=
  (book.reverse.find? fun o => o.brokerOrderId = brokerOrderId ∧ o.brokerOrderId ≠ "")

def reconcileBroker (key : (String × String) × List Ref) : M Unit := do
  let book : Option (List RemoteOrder) ← wait (.getOrders key.1.1 key.1.2)
  match book with
  | none => pure ()
  | some book => forEach key.2 fun r => do
    let w ← look
    match bookEntry book (w.heap r).brokerOrderId with
    | none => pure ()
    | some remote => applyRemoteStatus r remote

def reconcileOnce (cfg : Settings) : M Unit := do
  reconcileUnknownOnce cfg
  let w ← look
  forEach
    (byKey w (w.orders.values.filter fun r =>
      (w.heap r).brokerOrderId ≠ "" ∧
        (w.heap r).state ∈ [OMSOrderState.pending, .partialFill]))
    reconcileBroker

end Reconciler

section BracketLoop

/-- The request of `_place_exit`. -/
def exitRequest (bracket : BracketOrder) (leg : Leg) (last : ℚ) : ExecutionRequest :=
  let side := if bracket.side = "BUY" then "SELL" else "BUY"
  match leg with
  | .target =>
    let market := bracket.targetPrice * (102 / 100) < last
    { userId := bracket.userId, broker := bracket.broker, symbol := bracket.symbol
      exchange := "NSE", side := side
      orderType := if market then "MARKET" else "LIMIT"
      product := "INTRADAY", quantity := bracket.quantity
      price := if market then 0 else bracket.targetPrice
      source := "exit_target" }
  | .stopLoss =>
    { userId := bracket.userId, broker := bracket.broker, symbol := bracket.symbol
      exchange := "NSE", side := side, orderType := "SL"
      product := "INTRADAY", quantity := bracket.quantity
      price := bracket.stopLossPrice, triggerPrice := some bracket.stopLossPrice
      source := "exit_sl" }

/-- The end of `_place_exit`, once an exit order stands. -/
def finishExit (b : Ref) (leg : Leg) (r : Ref) : M Unit := do
  let w ← look
  if (w.heap r).state ∈ refusedStates then pure ()
  else do
    emit (.exited b leg (w.heap r).omsOrderId)
    saveBracketOrder b

def placeExit (b : Ref) (leg : Leg) (last : ℚ) : M Unit := do
  let w ← look
  let bracket := w.bracketHeap b
  let req := exitRequest bracket leg last
  let r ← placeOrder req none (some bracket.parentOrderId)
  let w ← look
  if (w.heap r).state ∈ refusedStates ∧ leg = .stopLoss then do
    let r ← placeOrder { req with orderType := "MARKET", price := 0, triggerPrice := none } none
      (some bracket.parentOrderId)
    finishExit b leg r
  else finishExit b leg r

def triggered (bracket : BracketOrder) (last : ℚ) : Option Leg :=
  if last ≤ 0 then none
  else if bracket.side = "BUY" then
    if last ≤ bracket.stopLossPrice then some .stopLoss
    else if bracket.targetPrice ≤ last then some .target
    else none
  else if bracket.stopLossPrice ≤ last then some .stopLoss
  else if last ≤ bracket.targetPrice then some .target
  else none

def hasLeg (bracket : BracketOrder) : Bool :=
  bracket.slOrderId.isSome || bracket.targetOrderId.isSome

def evaluateBracket (quotes : Ref → Option ℚ) (b : Ref) : M Unit := do
  let w ← look
  match quotes b with
  | none => pure ()
  | some last =>
    match triggered (w.bracketHeap b) last with
    | none => pure ()
    | some leg => placeExit b leg last

def evaluateBrackets : M Unit := do
  let w ← look
  let all := w.brackets.values
  let active := all.filter fun b => (w.bracketHeap b).active && !hasLeg (w.bracketHeap b)
  forEach all fun b => do
    let w ← look
    if (w.bracketHeap b).active && hasLeg (w.bracketHeap b) then do
      emit (.deactivated b)
      saveBracketOrder b
    else pure ()
  if active = [] then pure ()
  else do
    let quotes : Ref → Option ℚ ← wait (.quotes active)
    forEach active (evaluateBracket quotes)

end BracketLoop

section Boot

def requeuedStates : List OMSOrderState := [.queued, .sent]

def recoverOrder (row : OmniOrder) : M Unit := do
  let w ← look
  emit (.loaded row)
  if row.state ∈ requeuedStates then
    enqueue
      { omsOrderId := row.omsOrderId, userId := row.userId, broker := row.broker
        priority := row.priority, enqueuedAt := w.now, retryCount := row.retryCount }
  else pure ()

def recoverActiveOrders : M Unit := do
  let rows ← loadActiveOrders
  forEach rows recoverOrder
  let brackets ← loadActiveBracketOrders
  forEach brackets fun row => emit (.recoveredBracket row)
  let ocos ← loadActiveOcoOrders
  forEach ocos fun row => emit (.recoveredOco row)

def start : M Unit := do
  recoverActiveOrders
  emit .started

end Boot

section Waiting

/-- `_load_result`; the record is not an object others hold. -/
def loadResult (oid : OrderId) : M (Option OmniOrder) := do
  let io : Io ← wait .statement
  let w ← look
  let _ ← wait .answer
  pure (if io = .done then w.results.get oid else none)

inductive Found
  | object (r : Ref)
  | copy (o : OmniOrder)

def Found.order (w : World) : Found → OmniOrder
  | .object r => w.heap r
  | .copy o => o

def waitingStates : List OMSOrderState := [.queued, .sent]

/-- `self._completed.get(oid) or await self._load_result(oid)`. -/
def completedOrResult (oid : OrderId) : M (Option Found) := do
  let w ← look
  match w.completed.get oid with
  | some r => pure (some (.object r))
  | none => do
    let result ← loadResult oid
    pure (result.map .copy)

def poll (oid : OrderId) : ℕ → M (Option Found)
  | 0 => pure none
  | n + 1 => do
    let w ← look
    match (w.orders.get oid).filter fun r => (w.heap r).state ∉ waitingStates with
    | some r => pure (some (.object r))
    | none => do
      let current ← completedOrResult oid
      let w ← look
      match current.filter fun found => (found.order w).state ∉ waitingStates with
      | some found => pure (some found)
      | none => do
        let _ ← wait .answer
        poll oid n

/-- The end of `place_and_wait`, after the deadline. -/
def lastLook (r : Ref) : M Found := do
  let w ← look
  let oid := (w.heap r).omsOrderId
  let current ← match w.orders.get oid with
    | some q => pure (Found.object q)
    | none => do
      let other ← completedOrResult oid
      pure (other.getD (.object r))
  let w ← look
  let state := (current.order w).state
  let message := "Order still " ++ state.value ++ " after 20s wait"
  if state ∈ waitingStates then
    match current with
    | .object q => do
      emit (.note q message)
      pure current
    | .copy o => pure (.copy { o with message := message })
  else pure current

/-- `place_and_wait` once the order is placed. -/
def awaitOrder (r : Ref) : M Found := do
  let w ← look
  let polls : ℕ ← wait .rounds
  let found ← poll (w.heap r).omsOrderId polls
  match found with
  | some found => pure found
  | none => lastLook r

def placeAndWait (req : ExecutionRequest) : M Found := do
  let r ← placeOrder req none none
  awaitOrder r

end Waiting

end Trademetrix.Oms
