import Trademetrix.Async.Pool
import Trademetrix.Dict
import Trademetrix.Engine.Models

/-!
# The engine gate

`execute_order`, with the per-order locks it takes. A lock is an object the
registry binds to a client order id; callers may hold or await a lock that the
registry has dropped. Calls are numbered; `calls` says which lock a call that is
past `_get_order_lock` uses, and how far it is.
-/

namespace Trademetrix.Engine

open Async
open Execution (ExecutionRequest OrderResult)
open Oms (OmniOrder)

/-- `asyncio.Lock`; a waiter is the number of its call. -/
structure Lock where
  locked : Bool := false
  waiters : List ℕ := []

namespace Lock

/-- `acquire` returns at once. -/
def free (l : Lock) : Bool := !l.locked && l.waiters.isEmpty

def take (l : Lock) : Lock := { l with locked := true }

def enqueue (l : Lock) (n : ℕ) : Lock := { l with waiters := l.waiters ++ [n] }

def leave (l : Lock) (n : ℕ) : Lock := { l with waiters := l.waiters.erase n }

def release (l : Lock) : Lock := { l with locked := false }

def turn (l : Lock) (n : ℕ) : Bool := !l.locked && l.waiters.head? = some n

end Lock

/-- Where a call is: the id it carries, the lock object it got for it, whether it is
between acquiring and releasing, and whether the duplicate check let it pass. -/
structure CallAt where
  key : String
  lock : ℕ
  inside : Bool := false
  passed : Bool := false

structure Gate where
  orderLocks : Dict String ℕ := []
  nextLock : ℕ := 0
  locks : ℕ → Lock := fun _ => {}
  calls : ℕ → Option CallAt := fun _ => none

inductive GateEffect
  | lockFor (n : ℕ) (key : String)
  | acquired (n : ℕ) (key : String)
  | awaits (n : ℕ)
  | woken (n : ℕ) (key : String)
  | gaveUp (n : ℕ)
  | passed (n : ℕ) (key : String)
  | placing (n : ℕ) (key : String) (req : ExecutionRequest)
  | dropped (n : ℕ) (key : String)
  | released (n : ℕ) (key : String)
  deriving DecidableEq

namespace Gate

def lockOf (g : Gate) (n : ℕ) : Lock := ((g.calls n).map fun a => g.locks a.lock).getD {}

def onLock (g : Gate) (n : ℕ) (f : Lock → Lock) : Gate :=
  match g.calls n with
  | none => g
  | some a => { g with locks := Function.update g.locks a.lock (f (g.locks a.lock)) }

def onCall (g : Gate) (n : ℕ) (f : CallAt → CallAt) : Gate :=
  { g with calls := Function.update g.calls n ((g.calls n).map f) }

def forget (g : Gate) (n : ℕ) : Gate := { g with calls := Function.update g.calls n none }

/-- `_get_order_lock`. Nothing between taking and releasing `_order_lock_lock` awaits, so no
call ever finds it taken. -/
def getOrderLock (g : Gate) (n : ℕ) (key : String) : Gate :=
  match g.orderLocks.get key with
  | some l => { g with calls := Function.update g.calls n (some { key := key, lock := l }) }
  | none =>
    { g with
      orderLocks := g.orderLocks.set key g.nextLock
      nextLock := g.nextLock + 1
      calls := Function.update g.calls n (some { key := key, lock := g.nextLock }) }

def apply (e : GateEffect) (g : Gate) : Gate :=
  match e with
  | .lockFor n key => g.getOrderLock n key
  | .acquired n _ => (g.onLock n Lock.take).onCall n fun a => { a with inside := true }
  | .awaits n => g.onLock n fun l => l.enqueue n
  | .woken n _ =>
    (g.onLock n fun l => (l.leave n).take).onCall n fun a => { a with inside := true }
  | .gaveUp n => (g.onLock n fun l => l.leave n).forget n
  | .passed n _ => g.onCall n fun a => { a with passed := true }
  | .placing n _ _ => g.onCall n fun a => { a with passed := false }
  | .dropped _ key => { g with orderLocks := g.orderLocks.pop key }
  | .released n _ => (g.onLock n Lock.release).forget n

end Gate

structure Snap where
  symbol : String
  exchange : Exchange
  strikePrice : ℚ
  expiryDate : String

structure RiskCheck where
  allowed : Bool
  reason : String := ""

/-- How `place_and_wait` ends: with an exception `execute_order` catches, with a
cancellation it does not, or with the record of the order. -/
inductive Placed
  | raised (message : String)
  | cancelled
  | order (o : OmniOrder)

inductive GatePoint
  | turn (n : ℕ)
  | existing (userId clientOrderId : String)
  | audit (userId action source reason broker : String) (order : NormalizedOrder)
  | auditPlaced (userId action source reason broker : String) (order : NormalizedOrder)
  | resolveBroker (userId : String)
  | snap (userId : String) (order : NormalizedOrder)
  | riskCheck (order : NormalizedOrder)
  | resolveSymbol (canonical broker : String)
  | placeAndWait (req : ExecutionRequest)

/-- The replies of an await; `none` ends the call with an exception. After
`auditPlaced` the record of the order is as others have left it. -/
def GateReply : GatePoint → Type
  | .turn _ => Bool
  | .existing _ _ => Option (Option String)
  | .audit _ _ _ _ _ _ => Option Unit
  | .auditPlaced _ _ _ _ _ _ => Option OmniOrder
  | .resolveBroker _ => Option (Option String)
  | .snap _ _ => Option (Option Snap)
  | .riskCheck _ => Option (Option RiskCheck)
  | .resolveSymbol _ _ => Option (Option String)
  | .placeAndWait _ => Placed

abbrev G := Proc Gate GateEffect GateReply

def look : G Gate := Proc.look

def emit (e : GateEffect) : G Unit := Proc.emit e

def wait (i : GatePoint) : G (GateReply i) := Proc.wait i

/-- The arguments of `execute_order`, and what the clock reads. -/
structure Order where
  userId : String
  order : NormalizedOrder
  source : String := "manual"
  idempotencyKey : String := ""
  timeNs : ℕ := 0

structure GateSettings where
  sha256 : String → String
  resolve : (symbol broker instrumentType : String) → Option ContractLot

/-- The order with the identity `execute_order` gives it. -/
def Order.identified (cfg : GateSettings) (c : Order) : NormalizedOrder :=
  let order := { c.order with userId := c.userId, source := c.source }
  { order with
    clientOrderId :=
      if c.idempotencyKey ≠ "" then c.idempotencyKey
      else if order.clientOrderId ≠ "" then order.clientOrderId
      else generateClientOrderId cfg.sha256 c.timeNs c.userId order.symbol order.side.value c.source
        order.strategyId none }

def refusal (message : String) : OrderResult :=
  { success := false, message := message, status := "rejected" }

def refuse (c : Order) (order : NormalizedOrder) (code reason message : String) :
    G (Option OrderResult) := do
  let rejected := { order with status := .rejected, message := code }
  let noted : Option Unit ← wait (.audit c.userId "rejected" c.source reason order.broker rejected)
  pure (noted.map fun _ => refusal message)

/-- `execute_order` from the call of `place_and_wait` on. -/
def place (n : ℕ) (c : Order) (order : NormalizedOrder) : G (Option OrderResult) := do
  let req := normalizedToExecutionRequest c.userId order order.broker c.source
  emit (.placing n order.clientOrderId req)
  let placed : Placed ← wait (.placeAndWait req)
  match placed with
  | .cancelled => pure none
  | .raised message => pure (some { success := false, message := message, status := "error" })
  | .order omsOrder => do
    let judged := order.judge omsOrder
    let success := succeeds omsOrder.state
    let after : Option OmniOrder ← wait (.auditPlaced c.userId
      (if success then "placed" else "failed") c.source
      (if success then "" else if omsOrder.message ≠ "" then omsOrder.message
        else "PLACEMENT_FAILED") order.broker judged)
    pure (after.map fun o => omsToOrderResult o judged)

def checkRisk (cfg : GateSettings) (n : ℕ) (c : Order) (order : NormalizedOrder) :
    G (Option OrderResult) :=
  let lotReason := validateQuantityForInstrument cfg.resolve order order.broker
  if lotReason ≠ "" then refuse c order (classifyRejection lotReason) lotReason lotReason
  else do
    let risk : Option (Option RiskCheck) ← wait (.riskCheck order)
    match risk with
    | none => pure none
    | some none => refuse c order "RISK_CHECK_FAILED" "RISK_CHECK_FAILED" "RISK_CHECK_FAILED"
    | some (some risk) =>
      if risk.allowed = false then
        refuse c order (classifyRejection risk.reason) (classifyRejection risk.reason)
          (classifyRejection risk.reason)
      else do
        let resolved : Option (Option String) ← wait (.resolveSymbol order.symbol order.broker)
        match resolved with
        | none => pure none
        | some symbol =>
          let symbol := symbol.getD ""
          place n c { order with symbol := if symbol ≠ "" then symbol else order.symbol }

def Snap.on (s : Snap) (order : NormalizedOrder) : NormalizedOrder :=
  { order with
    symbol := s.symbol
    exchange := s.exchange
    strikePrice := some s.strikePrice
    expiryDate := some s.expiryDate }

def check (cfg : GateSettings) (n : ℕ) (c : Order) (order : NormalizedOrder) (broker : String) :
    G (Option OrderResult) :=
  let order := { order with broker := broker, isPaper := order.isPaper || broker = "paper" }
  if order.optionType.isSome then do
    let snapped : Option (Option Snap) ← wait (.snap c.userId order)
    match snapped with
    | none => pure none
    | some none => checkRisk cfg n c order
    | some (some snap) => checkRisk cfg n c (snap.on order)
  else checkRisk cfg n c order

def guarded (cfg : GateSettings) (n : ℕ) (c : Order) (order : NormalizedOrder) :
    G (Option OrderResult) := do
  let existing : Option (Option String) ← wait (.existing c.userId order.clientOrderId)
  match existing with
  | none => pure none
  | some (some brokerOrderId) => do
    let noted : Option Unit ←
      wait (.audit c.userId "duplicate" c.source "DUPLICATE_ORDER" order.broker order)
    pure (noted.map fun _ =>
      { success := true, brokerOrderId := brokerOrderId, message := "DUPLICATE_ORDER"
        status := "duplicate" })
  | some none => do
    emit (.passed n order.clientOrderId)
    if order.isPaper then check cfg n c order "paper"
    else do
      let broker : Option (Option String) ← wait (.resolveBroker c.userId)
      match broker with
      | none => pure none
      | some broker =>
        let broker := broker.getD ""
        if broker = "" then
          refuse c order "NO_ACTIVE_BROKER" "NO_ACTIVE_BROKER"
            "No active broker configured. Connect a broker first."
        else check cfg n c order broker

/-- `Lock.acquire`: at once, or in turn; false when the wait was cancelled. -/
def acquire (n : ℕ) (key : String) : G Bool := do
  let g : Gate ← look
  if (g.lockOf n).free then do
    emit (.acquired n key)
    pure true
  else do
    emit (.awaits n)
    let mine : Bool ← wait (.turn n)
    if mine then do
      emit (.woken n key)
      pure true
    else do
      emit (.gaveUp n)
      pure false

def executeOrder (cfg : GateSettings) (n : ℕ) (c : Order) : G (Option OrderResult) := do
  let order := c.identified cfg
  let key := order.clientOrderId
  emit (.lockFor n key)
  let got ← acquire n key
  if got = false then pure none
  else do
    let result ← guarded cfg n c order
    emit (.dropped n key)
    emit (.released n key)
    pure result

/-- The calls of `execute_order` in flight together, each under its own number. -/
def gate (cfg : GateSettings) : System Gate GateEffect GateReply ℕ (ℕ × Order) where
  apply := Gate.apply
  tag := Prod.fst
  code c := do
    let _ ← executeOrder cfg c.1 c.2
  blocks a b := a = b
  ready i r g := match i with
    | .turn n => !r || (g.lockOf n).turn n
    | _ => true
  env _ _ := false

end Trademetrix.Engine
