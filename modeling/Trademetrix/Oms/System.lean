import Trademetrix.Async.Pool
import Trademetrix.Oms.Manager

/-!
# The order manager as a system

The calls that may be in flight together, what each of them expects of the others
and what each effect finds true when it is carried out.
-/

namespace Trademetrix.Oms

open Async
open Engine (NormalizedOrder normalizedToExecutionRequest omsToOrderResult)
open Execution (ExecutionRequest ExecutionResult)

/-- `execute_order` from the call of `place_and_wait` on, for an order that has passed
the checks. -/
def executeOrder (cfg : Settings) (userId : String) (order : NormalizedOrder)
    (broker source : String) : M Unit := do
  let req := normalizedToExecutionRequest userId order broker source
  match cfg.raises req with
  | some message => emit (.raised { success := false, message := message, status := "error" })
  | none => do
    let r ← placeOrder req none none
    let found ← awaitOrder r
    let w ← look
    let judged := order.judge (found.order w)
    emit (.reported r (found.order w) (.noted judged))
    let _ ← wait .statement
    let w ← look
    emit (.reported r (found.order w) (.returned (omsToOrderResult (found.order w) judged)))

inductive Tag
  | boot | worker | reconciler | brackets | api
  deriving DecidableEq

inductive Call
  | start
  | processQueue
  | reconcileOnce
  | evaluateBrackets
  | placeOrder (req : ExecutionRequest) (maxRetries : Option ℤ)
  | placeAndWait (req : ExecutionRequest)
  | executeOrder (userId : String) (order : NormalizedOrder) (broker source : String)
  | cancelOrder (oid : OrderId)
  | modifyOrder (oid : OrderId) (changes : Changes)
  | retryOrder (oid : OrderId)
  | createBracket (req : ExecutionRequest) (slPrice targetPrice trailingSlPct : ℚ)
  | createOco (reqA reqB : ExecutionRequest)

namespace Call

def tag : Call → Tag
  | start => .boot
  | processQueue => .worker
  | reconcileOnce => .reconciler
  | evaluateBrackets => .brackets
  | _ => .api

def body (cfg : Settings) : Call → M Unit
  | start => Oms.start
  | processQueue => Oms.processQueue
  | reconcileOnce => Oms.reconcileOnce cfg
  | evaluateBrackets => Oms.evaluateBrackets
  | placeOrder req maxRetries => do
    let _ ← Oms.placeOrder req maxRetries none
  | placeAndWait req => do
    let _ ← Oms.placeAndWait req
  | executeOrder userId order broker source => Oms.executeOrder cfg userId order broker source
  | cancelOrder oid => Oms.cancelOrder oid
  | modifyOrder oid changes => Oms.modifyOrder oid changes
  | retryOrder oid => Oms.retryOrder oid
  | createBracket req sl target trailing => Oms.createBracket req sl target trailing
  | createOco reqA reqB => Oms.createOco reqA reqB

/-- The loops are created, and requests are served, once `start` is through. -/
def code (cfg : Settings) (c : Call) : M Unit := do
  let w ← look
  if w.running = (c.tag ≠ .boot : Bool) then c.body cfg else pure ()

end Call

/-- The loops run one round at a time, nothing runs beside `start`, and any number
of requests are in flight together. Time passes and results get stored. -/
def system (cfg : Settings) : System World Effect Reply Tag Call where
  apply := World.apply cfg
  tag := Call.tag
  code := Call.code cfg
  blocks a b := (a = b && a ≠ .api) || a = .boot || b = .boot
  ready _ _ _ := true
  env w e := match e with
    | .elapse _ => true
    | .stored r => r ∈ w.unstored
    | _ => false

def bare : Settings where
  resolve _ _ _ := none
  fromisoformat _ := none
  sha256 s := s

structure Outside where
  io : Io := .done
  placed : Option ExecutionResult := none
  confirmed : Option (Bool × String) := none
  correlation : HttpReply := .notFound
  listing : HttpReply := .body (.list [])
  book : Option (List RemoteOrder) := none
  quote : Ref → Option ℚ := fun _ => none
  rounds : ℕ := 1

def Outside.reply (o : Outside) : (i : Point) → Reply i
  | .statement => o.io
  | .answer => ()
  | .placeOrder _ => o.placed
  | .cancelOrder _ => o.confirmed
  | .modifyOrder _ _ => o.confirmed
  | .correlation _ => o.correlation
  | .listOrders _ _ => o.listing
  | .getOrders _ _ => o.book
  | .quotes _ => o.quote
  | .rounds => o.rounds

abbrev Act := Action Effect Reply Call

/-- Answer the first task's awaits `k` times. -/
def Outside.times (o : Outside) (k : ℕ) : List Act := List.replicate k (.resume 0 o.reply)

/-- A call that runs alone, `k` awaits long. -/
def alone (c : Call) (k : ℕ) (o : Outside) : List Act := .start c :: o.times k

def buyTen : ExecutionRequest :=
  { userId := "u1", broker := "dhan", symbol := "RELIANCE", side := "BUY", quantity := 10 }

def filledTen : ExecutionResult :=
  { success := true, brokerOrderId := "b1", state := .filled, filledQty := 10, avgPrice := 100 }

end Trademetrix.Oms
