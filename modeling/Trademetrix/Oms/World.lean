import Trademetrix.Async.Proc
import Trademetrix.Dict
import Trademetrix.Engine.Models
import Trademetrix.Oms.Reconciliation

/-!
# The state of the order manager and its effects

`World` is what the order manager's coroutines share: its own dictionaries, the
work queue in Redis and the rows in the database. An order is an object that
several coroutines may hold, so the dictionaries map to references. Each
`Effect` is a block of assignments the source carries out without an await.
-/

namespace Trademetrix.Oms

open Engine (Verdict)
open Execution (ExecutionRequest ExecutionResult ExecutionState OrderResult)

abbrev Ref := ℕ

structure RemoteOrder where
  brokerOrderId : String
  status : String
  filledQuantity : ℤ := 0
  averagePrice : ℚ := 0

/-- What `instrument_resolver` knows of a contract. -/
structure Instrument where
  securityId : String
  exchangeSegment : String
  expiry : Option String := none
  strike : Option ℚ := none
  optionType : Option String := none

/-- `raises` is what building the order raises on a request. -/
structure Settings where
  maxOrders : ℕ := 1000
  obs : Observation := {}
  resolve : String → String → String → Option Instrument
  fromisoformat : String → Option ℤ
  sha256 : String → String
  raises : ExecutionRequest → Option String := fun _ => none

inductive WorkerAt
  | idle
  | preparing (r : Ref)
  | sending (r : Ref)
  | counting (r : Ref)
  deriving DecidableEq

structure World where
  now : Time := 0
  running : Bool := false
  nextOid : OrderId := 0
  nextRef : Ref := 0
  heap : Ref → OmniOrder := fun _ => { omsOrderId := 0 }
  orders : Dict OrderId Ref := []
  completed : Dict OrderId Ref := []
  unstored : List Ref := []
  results : Dict OrderId OmniOrder := []
  nextBracket : Ref := 0
  bracketHeap : Ref → BracketOrder := fun _ => { omsOrderId := 0, parentOrderId := 0 }
  brackets : Dict OrderId Ref := []
  ocos : Dict OrderId OCOOrder := []
  queue : List OrderQueueItem := []
  rows : Dict OrderId OmniOrder := []
  bracketRows : Dict OrderId BracketOrder := []
  ocoRows : Dict OrderId OCOOrder := []
  worker : WorkerAt := .idle
  probing : Option (Ref × ReconcileArgs) := none

namespace World

def modify (w : World) (r : Ref) (f : OmniOrder → OmniOrder) : World :=
  { w with heap := fun q => if q = r then f (w.heap q) else w.heap q }

def modifyBracket (w : World) (b : Ref) (f : BracketOrder → BracketOrder) : World :=
  { w with bracketHeap := fun q => if q = b then f (w.bracketHeap q) else w.bracketHeap q }

def evictOldestTerminalOrder (w : World) : World :=
  match w.orders.find? fun p => (w.heap p.2).state ∈ terminalOmsStates with
  | some p => { w with orders := w.orders.pop p.1 }
  | none => w

/-- `_add_order` on a new object. -/
def addOrder (cfg : Settings) (w : World) (o : OmniOrder) : World :=
  let w := { w with
    heap := fun q => if q = w.nextRef then o else w.heap q
    nextRef := w.nextRef + 1
    orders := w.orders.pop o.omsOrderId ++ [(o.omsOrderId, w.nextRef)] }
  if cfg.maxOrders < w.orders.length then w.evictOldestTerminalOrder else w

/-- `_record_terminal`; the `_store` task it creates is still to run. -/
def recordTerminal (w : World) (r : Ref) : World :=
  let completed := w.completed.set (w.heap r).omsOrderId r
  { w with
    completed := if 200 < completed.length then completed.tail else completed
    unstored := w.unstored ++ [r] }

def crash (w : World) : World :=
  { now := w.now
    nextOid := w.nextOid
    results := w.results
    queue := w.queue
    rows := w.rows
    bracketRows := w.bracketRows
    ocoRows := w.ocoRows }

end World

namespace OmniOrder

def markSent (now : Time) (o : OmniOrder) : OmniOrder :=
  { o with state := .sent, sentAt := some now }

def cancel (o : OmniOrder) : OmniOrder := { o with state := .cancelled }

def modify (changes : Changes) (o : OmniOrder) : OmniOrder :=
  { o with
    quantity := changes.quantity.getD o.quantity
    price := changes.price.getD o.price
    triggerPrice := changes.triggerPrice.or o.triggerPrice
    message := "Order modified" }

def exhausted (o : OmniOrder) : OmniOrder :=
  { o with state := .rejected, message := "Max retries exceeded" }

def retried (o : OmniOrder) : OmniOrder :=
  { o with retryCount := o.retryCount + 1, state := .queued }

def unanswered (res : ExecutionResult) (o : OmniOrder) : OmniOrder :=
  { o with
    state := .unknown
    message := if res.message = "" then "broker did not respond" else res.message }

def takeFill (res : ExecutionResult) (o : OmniOrder) : OmniOrder :=
  let newFilled := res.filledQty
  let filled := o.filledQuantity + newFilled
  let prevFilled := filled - newFilled
  { o with
    brokerOrderId := res.brokerOrderId
    filledQuantity := filled
    averagePrice :=
      if newFilled ≠ 0 ∧ res.avgPrice ≠ 0 then
        if 0 < prevFilled then
          (o.averagePrice * prevFilled + res.avgPrice * newFilled) / filled
        else res.avgPrice
      else o.averagePrice
    message := res.message }

def remaining (res : ExecutionResult) (o : OmniOrder) : ℤ := o.quantity - res.filledQty

def answered (res : ExecutionResult) (o : OmniOrder) : OmniOrder :=
  { o.takeFill res with
    quantity :=
      if res.state = .partiallyFilled ∧ 0 < o.remaining res then o.remaining res else o.quantity
    state := match res.state with
      | .filled => .filled
      | .partiallyFilled => if 0 < o.remaining res then .queued else .filled
      | _ => .pending }

def requeued (o : OmniOrder) : OmniOrder := { o with state := .queued }

def countRetry (res : ExecutionResult) (o : OmniOrder) : OmniOrder :=
  { o with retryCount := o.retryCount + 1, message := "Retrying: " ++ res.message }

def refused (res : ExecutionResult) (o : OmniOrder) : OmniOrder :=
  { o with
    state := .rejected
    errorCode := if res.errorCode = "" then "EXECUTION_FAILED" else res.errorCode
    message := if res.message = "" then "Execution failed" else res.message }

def reconciling (o : OmniOrder) : OmniOrder :=
  { o with state := .reconciling, reconcileAttempts := o.reconcileAttempts + 1 }

/-- The branches of `_reconcile_one_unknown`; an acceptance that names no match is
an unhandled verdict. -/
def resolve (out : ReconcileOutcome) (o : OmniOrder) : OmniOrder :=
  let o := { o with message := out.reason }
  match out.verdict, out.found with
  | .accepted, some m =>
    { o with brokerOrderId := m.brokerOrderId, notFoundObservations := 0, state := .pending }
  | .accepted, none => o
  | .rejected, _ =>
    { o with
      notFoundObservations := 0
      state := .rejected
      errorCode := if o.errorCode = "" then "BROKER_REJECTED" else o.errorCode }
  | .ambiguous, _ => { o with state := .ambiguous, errorCode := "AMBIGUOUS_BROKER_MATCH" }
  | .notFound, _ =>
    { o with
      notFoundObservations := o.notFoundObservations + 1
      state := .queued
      retryCount := o.retryCount + 1
      message := out.reason ++ "; broker confirmed no matching order, retry is eligible" }
  | .unknown, _ =>
    { o with notFoundObservations := o.notFoundObservations + 1, state := .unknown }

def resolvedState (out : ReconcileOutcome) (state : OMSOrderState) : OMSOrderState :=
  match out.verdict, out.found with
  | .accepted, some _ => .pending
  | .accepted, none => state
  | .rejected, _ => .rejected
  | .ambiguous, _ => .ambiguous
  | .notFound, _ => .queued
  | .unknown, _ => .unknown

theorem resolve_state (out : ReconcileOutcome) (o : OmniOrder) :
    (o.resolve out).state = resolvedState out o.state := by
  unfold resolve resolvedState
  split <;> rfl

/-- The state `_apply_remote_status` moves to on a broker status. -/
def remoteTarget (status : String) : Option OMSOrderState :=
  if status ∈ ["FILLED", "TRADED", "COMPLETED"] then some .filled
  else if status = "PARTIALLY_FILLED" then some .partialFill
  else if status = "CANCELLED" then some .cancelled
  else if status = "REJECTED" then some .rejected
  else if status = "EXPIRED" then some .expired
  else none

theorem remoteTarget_mem {status : String} {target : OMSOrderState}
    (h : remoteTarget status = some target) :
    target ∈ [OMSOrderState.filled, .partialFill, .cancelled, .rejected, .expired] := by
  unfold remoteTarget at h
  split_ifs at h <;> cases h <;> decide

/-- The assignments of `_apply_remote_status`. -/
def applyRemote (remote : RemoteOrder) (target : OMSOrderState) (o : OmniOrder) : OmniOrder :=
  { o with
    brokerOrderId := if remote.brokerOrderId = "" then o.brokerOrderId else remote.brokerOrderId
    state := target
    filledQuantity := match target with
      | .partialFill =>
        if remote.filledQuantity = 0 then o.filledQuantity else remote.filledQuantity
      | .filled => if remote.filledQuantity = 0 then o.quantity else remote.filledQuantity
      | _ => o.filledQuantity
    averagePrice := match target with
      | .partialFill => if remote.averagePrice = 0 then o.averagePrice else remote.averagePrice
      | .filled => remote.averagePrice
      | _ => o.averagePrice
    message := match target with
      | .partialFill => "Partially filled (reconciled)"
      | .filled => "Filled (reconciled)"
      | .cancelled => "Cancelled at broker"
      | .rejected => "Rejected at broker"
      | _ => "Expired at broker" }

theorem applyRemote_filledQuantity (remote : RemoteOrder) (target : OMSOrderState)
    (o : OmniOrder) :
    (o.applyRemote remote target).filledQuantity = match target with
      | .partialFill =>
        if remote.filledQuantity = 0 then o.filledQuantity else remote.filledQuantity
      | .filled => if remote.filledQuantity = 0 then o.quantity else remote.filledQuantity
      | _ => o.filledQuantity := rfl

theorem applyRemote_averagePrice (remote : RemoteOrder) (target : OMSOrderState)
    (o : OmniOrder) :
    (o.applyRemote remote target).averagePrice = match target with
      | .partialFill => if remote.averagePrice = 0 then o.averagePrice else remote.averagePrice
      | .filled => remote.averagePrice
      | _ => o.averagePrice := rfl

end OmniOrder

/-- How a cancellation came about: the item was taken out of the queue; it was not
found there; the order had no broker id; the broker confirmed; an OCO sibling was
cancelled or filled. -/
inductive CancelVia
  | dequeued
  | notRemoved
  | noBrokerId
  | confirmed (message : String)
  | sibling
  deriving DecidableEq

inductive Leg
  | stopLoss | target
  deriving DecidableEq

inductive Effect
  | elapse (t : Time)
  | started
  | crash
  | create (req : ExecutionRequest) (maxRetries : Option ℤ) (exitOf : Option OrderId)
  | queued (r : Ref)
  | note (r : Ref) (message : String)
  | cancelled (r : Ref) (via : CancelVia)
  | modified (r : Ref) (changes : Changes)
  | related (r : Ref) (relation : OrderRelationType) (sibling : Option OrderId)
  | exhausted (r : Ref)
  | retried (r : Ref)
  | loaded (row : OmniOrder)
  | markSent (r : Ref)
  | post (r : Ref)
  | abandoned (r : Ref)
  | unanswered (r : Ref) (res : ExecutionResult)
  | answered (r : Ref) (res : ExecutionResult)
  | requeued (r : Ref)
  | countRetry (r : Ref) (res : ExecutionResult)
  | refused (r : Ref) (res : ExecutionResult)
  | reconciling (r : Ref)
  | lookup (r : Ref) (args : ReconcileArgs)
  | resolved (r : Ref) (args : ReconcileArgs) (lookups : Lookups)
  | remote (r : Ref) (remote : RemoteOrder) (target : OMSOrderState)
  | dropped (oid : OrderId)
  | recorded (r : Ref)
  | stored (r : Ref)
  | bracketed (bracket : BracketOrder)
  | recoveredBracket (bracket : BracketOrder)
  | entryFilled (b : Ref)
  | legPlaced (b : Ref) (leg : Leg) (oid : OrderId)
  | exited (b : Ref) (leg : Leg) (oid : OrderId)
  | deactivated (b : Ref)
  | ocoLinked (oco : OCOOrder)
  | recoveredOco (oco : OCOOrder)
  | ocoClosed (id : OrderId) (fillsA fillsB : Bool)
  | upsert (row : OmniOrder)
  | delete (oid : OrderId)
  | upsertBracket (row : BracketOrder)
  | upsertOco (row : OCOOrder)
  | rpush (item : OrderQueueItem)
  | lpop
  | lrem (item : OrderQueueItem)
  | reported (r : Ref) (found : OmniOrder) (verdict : Verdict)
  | raised (result : OrderResult)

namespace BracketOrder

def setLeg (leg : Leg) (oid : OrderId) (b : BracketOrder) : BracketOrder :=
  match leg with
  | .stopLoss => { b with slOrderId := some oid }
  | .target => { b with targetOrderId := some oid }

end BracketOrder

namespace World

def setBracket (w : World) (bracket : BracketOrder) : World :=
  { w with
    bracketHeap := fun q => if q = w.nextBracket then bracket else w.bracketHeap q
    nextBracket := w.nextBracket + 1
    brackets := w.brackets.set bracket.parentOrderId w.nextBracket }

def lastRef (w : World) : Ref := w.nextRef - 1

def apply (cfg : Settings) (e : Effect) (w : World) : World :=
  match e with
  | .elapse t => { w with now := w.now + t }
  | .started => { w with running := true }
  | .crash => w.crash
  | .create req maxRetries _ =>
    { w with nextOid := w.nextOid + 1 }.addOrder cfg
      (newOrder cfg.sha256 w.nextOid req maxRetries)
  | .queued r => w.modify r fun o => { o with state := .queued }
  | .note r message => w.modify r fun o => { o with message := message }
  | .cancelled r (.confirmed message) => w.modify r fun o => { o.cancel with message := message }
  | .cancelled r _ => w.modify r OmniOrder.cancel
  | .modified r changes => w.modify r (OmniOrder.modify changes)
  | .related r relation sibling => w.modify r fun o =>
      { o with relationType := relation, siblingOrderId := sibling.or o.siblingOrderId }
  | .exhausted r => w.modify r OmniOrder.exhausted
  | .retried r => w.modify r OmniOrder.retried
  | .loaded row => w.addOrder cfg row
  | .markSent r => { w.modify r (OmniOrder.markSent w.now) with worker := .preparing r }
  | .post r => { w with worker := .sending r }
  | .abandoned _ => { w with worker := .idle }
  | .unanswered r res => { w.modify r (OmniOrder.unanswered res) with worker := .idle }
  | .answered r res => { w.modify r (OmniOrder.answered res) with worker := .idle }
  | .requeued r => { w.modify r OmniOrder.requeued with worker := .counting r }
  | .countRetry r res => { w.modify r (OmniOrder.countRetry res) with worker := .idle }
  | .refused r res => { w.modify r (OmniOrder.refused res) with worker := .idle }
  | .reconciling r => w.modify r OmniOrder.reconciling
  | .lookup r args => { w with probing := some (r, args) }
  | .resolved r args lookups =>
    { w.modify r (OmniOrder.resolve (reconcile cfg.fromisoformat cfg.obs args lookups w.now)) with
      probing := none }
  | .remote r remote target => w.modify r (OmniOrder.applyRemote remote target)
  | .dropped oid => { w with orders := w.orders.pop oid }
  | .recorded r => w.recordTerminal r
  | .stored r =>
    { w with
      unstored := w.unstored.erase r
      results := w.results.set (w.heap r).omsOrderId (w.heap r) }
  | .bracketed bracket =>
    { w with nextOid := w.nextOid + 1 }.setBracket { bracket with omsOrderId := w.nextOid }
  | .recoveredBracket bracket => w.setBracket bracket
  | .entryFilled b => w.modifyBracket b fun o => { o with entryFilled := true }
  | .legPlaced b leg oid => w.modifyBracket b (BracketOrder.setLeg leg oid)
  | .exited b leg oid => w.modifyBracket b fun o => { o.setLeg leg oid with active := false }
  | .deactivated b => w.modifyBracket b fun o => { o with active := false }
  | .ocoLinked oco =>
    { w with
      nextOid := w.nextOid + 1
      ocos := w.ocos.set w.nextOid { oco with omsOrderId := w.nextOid } }
  | .recoveredOco oco => { w with ocos := w.ocos.set oco.omsOrderId oco }
  | .ocoClosed id fillsA fillsB =>
    { w with ocos := w.ocos.map fun p =>
        if p.1 = id then
          (p.1, { p.2 with
            active := false
            orderAFilled := fillsA || p.2.orderAFilled
            orderBFilled := fillsB || p.2.orderBFilled })
        else p }
  | .upsert row => { w with rows := w.rows.set row.omsOrderId row }
  | .delete oid => { w with rows := w.rows.pop oid }
  | .upsertBracket row => { w with bracketRows := w.bracketRows.set row.omsOrderId row }
  | .upsertOco row => { w with ocoRows := w.ocoRows.set row.omsOrderId row }
  | .rpush item => { w with queue := w.queue ++ [item] }
  | .lpop => { w with queue := w.queue.tail }
  | .lrem item => { w with queue := w.queue.erase item }
  | .reported _ _ _ | .raised _ => w

end World

end Trademetrix.Oms
