import Trademetrix.Engine.Models

/-!
# Events of the execution engine

The typed events of the engine's bus, and the two places that make a fill event of
what the rest of the program says: the bridge from the older string-typed bus and the
engine's own facade. The bus takes an event's domain from its type.
-/

namespace Trademetrix.ExecutionEngine

open Execution (OrderResult)
open Engine (NormalizedOrder)

inductive ExecutionDomain
  | order | execution | trade | position | portfolio | risk
  deriving DecidableEq, Repr

inductive ExecutionEventType
  | orderSubmitted | orderValidated | orderQueued | orderSent | orderAccepted | orderPending
  | orderPartiallyFilled | orderFilled | orderModified | orderCancelled | orderRejected
  | orderExpired | orderFailed
  | executionValidated | executionRetry | executionResult
  | tradeExecuted
  | positionOpened | positionUpdated | positionClosed
  | portfolioSnapshot | portfolioRevalued
  | riskDecision
  deriving DecidableEq, Repr

def domainFor : ExecutionEventType → ExecutionDomain
  | .executionValidated | .executionRetry | .executionResult => .execution
  | .tradeExecuted => .trade
  | .positionOpened | .positionUpdated | .positionClosed => .position
  | .portfolioSnapshot | .portfolioRevalued => .portfolio
  | .riskDecision => .risk
  | _ => .order

/-- `a or b` of two texts. -/
def orText (a b : String) : String := if a = "" then b else a

/-- `a or b` of two numbers. -/
def orNumber {α : Type} [Zero α] [DecidableEq α] (a b : α) : α := if a = 0 then b else a

structure EventPayload where
  account : String := ""
  commission : ℚ := 0
  exchangeCharges : ℚ := 0
  stt : ℚ := 0
  stampDuty : ℚ := 0
  strategyId : String := ""
  source : Option String := none
  isPaper : Option Bool := none
  lastPrice : Option ℚ := none
  deriving DecidableEq

structure ExecutionEngineEvent where
  type : ExecutionEventType
  userId : String := ""
  broker : String := ""
  orderId : String := ""
  clientOrderId : String := ""
  brokerOrderId : String := ""
  symbol : String := ""
  side : String := ""
  quantity : ℤ := 0
  filledQuantity : ℤ := 0
  price : ℚ := 0
  avgPrice : ℚ := 0
  state : String := ""
  payload : EventPayload := {}
  deriving DecidableEq

def ExecutionEngineEvent.domain (event : ExecutionEngineEvent) : ExecutionDomain :=
  domainFor event.type

section Bridge

structure LegacyFill where
  filledQuantity : ℤ := 0
  filledPrice : ℚ := 0
  deriving DecidableEq

/-- A key that is not there has the value that `or` passes over. -/
structure LegacyPayload extends EventPayload where
  symbol : String := ""
  side : String := ""
  quantity : ℤ := 0
  orderId : String := ""
  omsOrderId : String := ""
  brokerOrderId : String := ""
  filledQuantity : ℤ := 0
  averagePrice : ℚ := 0
  price : ℚ := 0
  fill : LegacyFill := {}
  deriving DecidableEq

structure LegacyEvent where
  eventType : String
  executionRequestId : String := ""
  userId : String := ""
  broker : String := ""
  symbol : String := ""
  side : String := ""
  payload : LegacyPayload := {}
  deriving DecidableEq

def typeMap : String → Option ExecutionEventType
  | "RiskDecision" => some .riskDecision
  | "OrderRejected" => some .orderRejected
  | "OrderPending" => some .orderPending
  | "OrderCancelled" => some .orderCancelled
  | "OrderExpired" => some .orderExpired
  | "OrderCompleted" => some .orderFilled
  | "PaperOrderFilled" => some .orderFilled
  | "PaperOrderPartiallyFilled" => some .orderPartiallyFilled
  | "PaperOrderPending" => some .orderPending
  | _ => none

def fillEvents : List ExecutionEventType := [.orderFilled, .orderPartiallyFilled]

def forward (legacy : LegacyEvent) : Option ExecutionEngineEvent :=
  (typeMap legacy.eventType).map fun etype =>
    let payload := legacy.payload
    let data : ExecutionEngineEvent :=
      { type := etype
        userId := legacy.userId
        broker := legacy.broker
        symbol := orText legacy.symbol payload.symbol
        side := orText legacy.side payload.side
        quantity := payload.quantity
        clientOrderId := legacy.executionRequestId
        payload :=
          { payload.toEventPayload with
            source := some (payload.source.getD "legacy_execution_bus") } }
    if etype ∈ fillEvents then
      { data with
        orderId := orText payload.orderId payload.omsOrderId
        brokerOrderId := orText payload.brokerOrderId payload.orderId
        filledQuantity := orNumber payload.filledQuantity payload.fill.filledQuantity
        avgPrice :=
          orNumber payload.averagePrice (orNumber payload.fill.filledPrice payload.price) }
    else data

end Bridge

section Facade

/-- The events of `_publish_outcome`: what became of an order that was submitted. -/
def publishOutcome (result : OrderResult) (order : NormalizedOrder) :
    List ExecutionEngineEvent :=
  let status := Text.lower (orText result.status "error")
  let base (etype : ExecutionEventType) (state : String) : ExecutionEngineEvent :=
    { type := etype
      userId := order.userId
      broker := order.broker
      clientOrderId := order.clientOrderId
      brokerOrderId := result.brokerOrderId
      symbol := order.symbol
      side := order.side.value
      quantity := order.quantity
      state := state
      payload := { source := some "execution_engine" } }
  let filled (etype : ExecutionEventType) (state : String) : ExecutionEngineEvent :=
    { base etype state with filledQuantity := result.filledQty, avgPrice := result.avgPrice }
  let outcome (event : ExecutionEngineEvent) : List ExecutionEngineEvent :=
    [event,
      { type := .executionResult
        userId := order.userId
        broker := order.broker
        clientOrderId := order.clientOrderId
        symbol := order.symbol
        quantity := order.quantity
        state := event.state }]
  if status = "filled" then outcome (filled .orderFilled "FILLED")
  else if status = "partially_filled" ∨ status = "partial" ∨ status = "partially filled" then
    outcome (filled .orderPartiallyFilled "PARTIALLY_FILLED")
  else if status = "pending" then outcome (base .orderPending "PENDING")
  else if status = "rejected" then outcome (base .orderRejected "REJECTED")
  else if status = "duplicate" then []
  else if status = "error" then outcome (base .orderFailed "FAILED")
  else outcome (base .orderPending (Text.upper status))

end Facade

end Trademetrix.ExecutionEngine

/-!
## The bus of the execution engine

Its two dispatchers, and the bus from start to stop. What a handler does with an
event is a parameter. A dispatcher that awaits a handler gives up control; until
it goes on, anything else may happen on the loop or in another thread.
-/

namespace Trademetrix.ExecutionEngine

/-- An event as `publish` leaves it. -/
structure BusEvent extends ExecutionEngineEvent where
  sequence : ℕ := 0
  correlationId : String := ""
  deriving DecidableEq

/-- What a handler gives back for an event: a value or an exception as a value, an exception that
it raises, or something to await, which takes time or not and raises at its end or not. -/
inductive Reply
  | returns
  | raises
  | awaits (suspends fails : Bool)
  deriving DecidableEq, Repr

structure Subscribers (H : Type) where
  handlers : ExecutionDomain → List H
  reply : H → BusEvent → Reply

/-- How a dispatcher's turn ends: with the handlers, with an exception, or at an await that
suspends, which leaves the handlers after it. -/
inductive TurnEnd (H : Type)
  | done
  | raised
  | waits (rest : List H)

namespace Subscribers

variable {H : Type} (subs : Subscribers H)

def handlersOf (event : BusEvent) : List H := subs.handlers event.domain

/-- `_dispatch`, as far as it gets without giving up control: the handlers that are called. What
an awaited handler raises is logged; what a called one raises is not caught. -/
def dispatch (event : BusEvent) : List H → List H × TurnEnd H
  | [] => ([], .done)
  | h :: hs =>
    match subs.reply h event with
    | .raises => ([h], .raised)
    | .awaits true _ => ([h], .waits hs)
    | _ =>
      let rest := dispatch event hs
      (h :: rest.1, rest.2)

/-- `_dispatch_inline`: the handlers that run at once, and those whose awaitables become tasks.
Without a running loop an awaitable is dropped. -/
def dispatchInline (event : BusEvent) (loop : Bool) : List H → List H × List H
  | [] => ([], [])
  | h :: hs =>
    let rest := dispatchInline event loop hs
    match subs.reply h event with
    | .awaits _ _ => if loop then (rest.1, h :: rest.2) else rest
    | _ => (h :: rest.1, rest.2)

end Subscribers

/-- The dispatcher's queue, the puts that other threads have scheduled, and the event it is at
with the handlers that are left. -/
structure Dispatcher (H : Type) where
  queue : List BusEvent := []
  scheduled : List BusEvent := []
  current : Option (BusEvent × List H) := none

/-- `stop` first waits for the dispatcher it has cancelled, and then drains what was queued. -/
inductive Phase (H : Type)
  | off
  | running (d : Dispatcher H)
  | cancelling (d : Dispatcher H)
  | draining (current : Option (BusEvent × List H)) (pending : List BusEvent)

/-- The bus. `handing` are events of other threads on their way into the queue. The last four are
notes: the tasks that waited when `stop` was called, the events whose publication has
returned, those that had by that call, and what was delivered. -/
structure Bus (H : Type) where
  phase : Phase H := .off
  tasks : List (BusEvent × H) := []
  handing : List BusEvent := []
  lastSeq : ℕ := 0
  buffer : List BusEvent := []
  oldTasks : List (BusEvent × H) := []
  published : List BusEvent := []
  before : List BusEvent := []
  delivered : List (BusEvent × H) := []

def maxBuffered : ℕ := 2000

def withEach {H : Type} (event : BusEvent) (hs : List H) : List (BusEvent × H) :=
  hs.map fun h => (event, h)

namespace Bus

variable {H : Type} (subs : Subscribers H) (b : Bus H)

/-- `_finalize`, with the id that `uuid4` gives. -/
def finalize (event : BusEvent) (uuid : String) : Bus H × BusEvent :=
  if 0 < event.sequence ∧ event.correlationId ≠ "" then (b, event)
  else
    let fresh : Bool := event.sequence = 0
    let event := { event with
      sequence := if fresh then b.lastSeq + 1 else event.sequence
      correlationId := if event.correlationId = "" then orText event.clientOrderId uuid
        else event.correlationId }
    let buffer := b.buffer ++ [event]
    ({ b with
        lastSeq := if fresh then b.lastSeq + 1 else b.lastSeq
        buffer := buffer.drop (buffer.length - maxBuffered) }, event)

def inline (event : BusEvent) (loop : Bool) : Bus H :=
  let turn := subs.dispatchInline event loop (subs.handlersOf event)
  { b with
    delivered := b.delivered ++ withEach event turn.1
    tasks := b.tasks ++ withEach event turn.2
    published := b.published ++ [event] }

/-- `publish`. On another thread than the loop's the event is handed over later. -/
def publish (event : BusEvent) (uuid : String) (onLoop : Bool) : Bus H :=
  let (b, event) := b.finalize event uuid
  match b.phase with
  | .running d =>
    if onLoop then
      { b with
        phase := .running { d with queue := d.queue ++ [event] }
        published := b.published ++ [event] }
    else { b with handing := b.handing ++ [event] }
  | _ => b.inline subs event onLoop

/-- `call_soon_threadsafe` of the put. The queue of a bus that is no longer read swallows it. -/
def handOver : Bus H :=
  match b.handing with
  | [] => b
  | event :: handing =>
    let b := { b with handing := handing, published := b.published ++ [event] }
    match b.phase with
    | .running d => { b with phase := .running { d with scheduled := d.scheduled ++ [event] } }
    | .cancelling d => { b with phase := .cancelling { d with scheduled := d.scheduled ++ [event] } }
    | _ => b

def Dispatcher.runCallbacks (d : Dispatcher H) : Dispatcher H :=
  { d with queue := d.queue ++ d.scheduled, scheduled := [] }

def callbacks : Bus H :=
  match b.phase with
  | .running d => { b with phase := .running (Dispatcher.runCallbacks d) }
  | .cancelling d => { b with phase := .cancelling (Dispatcher.runCallbacks d) }
  | _ => b

def next (current : Option (BusEvent × List H)) (queue : List BusEvent) :
    Option (BusEvent × List H) :=
  match current, queue with
  | some at', _ => some at'
  | none, event :: _ => some (event, subs.handlersOf event)
  | none, [] => none

def afterNext (current : Option (BusEvent × List H)) (queue : List BusEvent) : List BusEvent :=
  if current.isSome then queue else queue.tail

def waiting (event : BusEvent) : TurnEnd H → Option (BusEvent × List H)
  | .waits rest => some (event, rest)
  | _ => none

/-- A turn of the dispatcher: it goes on with the event it is at, or takes the next. An exception
is logged, and the event is done with. -/
def turn : Bus H :=
  match b.phase with
  | .running d =>
    match next subs d.current d.queue with
    | none => b
    | some (event, hs) =>
      let turn := subs.dispatch event hs
      { b with
        phase := .running
          { d with queue := afterNext d.current d.queue, current := waiting event turn.2 }
        delivered := b.delivered ++ withEach event turn.1 }
  | _ => b

def runTask : Bus H :=
  match b.oldTasks, b.tasks with
  | t :: oldTasks, _ => { b with oldTasks := oldTasks, delivered := b.delivered ++ [t] }
  | [], t :: tasks => { b with tasks := tasks, delivered := b.delivered ++ [t] }
  | [], [] => b

def start : Bus H :=
  match b.phase with
  | .off => { b with phase := .running {} }
  | _ => b

/-- `stop` is called. The puts that were scheduled before are carried out while it waits. -/
def stop : Bus H :=
  match b.phase with
  | .running d =>
    { b with
      phase := .cancelling (Dispatcher.runCallbacks d)
      oldTasks := b.oldTasks ++ b.tasks
      tasks := []
      before := b.published }
  | _ => b

/-- The dispatcher has ended where it was; `stop` has what is queued. -/
def cancelled : Bus H :=
  match b.phase with
  | .cancelling d => { b with phase := .draining none d.queue }
  | _ => b

/-- A turn of `stop` over what was queued. When all is drained it returns; an exception ends it. -/
def drain : Bus H :=
  match b.phase with
  | .draining current pending =>
    match next subs current pending with
    | none => { b with phase := .off }
    | some (event, hs) =>
      let turn := subs.dispatch event hs
      let b := { b with delivered := b.delivered ++ withEach event turn.1 }
      match turn.2 with
      | .raised => { b with phase := .off }
      | turnEnd => { b with phase := .draining (waiting event turnEnd) (afterNext current pending) }
  | _ => b

inductive Act
  | start
  | publish (event : BusEvent) (uuid : String) (onLoop : Bool)
  | handOver
  | callbacks
  | turn
  | runTask
  | stop
  | cancelled
  | drain

def step (b : Bus H) : Act → Bus H
  | .start => b.start
  | .publish event uuid onLoop => b.publish subs event uuid onLoop
  | .handOver => b.handOver
  | .callbacks => b.callbacks
  | .turn => b.turn subs
  | .runTask => b.runTask
  | .stop => b.stop
  | .cancelled => b.cancelled
  | .drain => b.drain subs

end Bus

end Trademetrix.ExecutionEngine
