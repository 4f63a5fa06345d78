import Trademetrix.Async.Pool
import Trademetrix.StrategyRuntime.Models
import Trademetrix.Text

/-!
# The worker of a strategy

Ticks, closed candles, time triggers and warm-up of the workers of one strategy,
as coroutines over the stats of its record. A worker is a number; a restart
makes a new one on the same record, a crash leaves a new record. `evaluating`
and `unanswered` hold what each call is in the middle of and `submitted` the
dates orders went out for; no code reads them. More than one tick of a worker
may be under way here, where its loop takes one at a time.
-/

namespace Trademetrix.StrategyRuntime.Workers

open Trademetrix.Async Proc

structure Candle where
  timestamp : String
  date : String
  deriving DecidableEq

structure Tick where
  lastPrice : ℚ
  date : String

structure Order where
  symbol : String
  side : String
  quantity : ℤ

structure Stats where
  dailyTradesDate : Option String
  dailyTrades : ℤ
  ordersPlaced : ℕ
  ordersRejected : ℕ

/-- The fields of a `StrategyWorker`. -/
structure Worker where
  strategy : Bool
  evaluationAllowed : Bool
  evalLock : Bool
  lastPrice : ℚ
  lastCandle : Option Candle
  /-- The last closed candle of the aggregator of the strategy's interval. -/
  mtfCandle : Option Candle
  seenIds : List (String × String)

def Worker.new : Worker := ⟨false, false, false, 0, none, none, []⟩

structure Desk where
  stats : Stats
  workers : Dict ℕ Worker
  /-- Open long positions of the account, by upper-case symbol. -/
  openPositions : Dict String ℕ
  evaluating : Dict ℕ (Option String)
  unanswered : Dict ℕ String
  submitted : List String

inductive Trigger
  | tick | candle
  deriving DecidableEq

inductive Effect
  /-- `_start_running` makes a worker and loads its strategy. -/
  | created (w : ℕ)
  /-- `start` ends, `pause`, `resume` or `stop`. -/
  | allowed (w : ℕ) (evaluation : Bool)
  /-- `stop` drops the strategy. -/
  | dropped (w : ℕ)
  | priced (w : ℕ) (price : ℚ)
  | positions (d : Dict String ℕ)
  | loadedSeen (w : ℕ) (ids : List (String × String))
  | saw (w : ℕ) (tf : String) (c : Candle)
  | lastCandle (w : ℕ) (c : Candle)
  | mtfCandle (w : ℕ) (c : Candle)
  | mtfReset (w : ℕ)
  | locked (n w : ℕ)
  | unlocked (n w : ℕ)
  /-- `_evaluate` turns the daily counter to the candle's date. -/
  | dated (n : ℕ) (date : String)
  | rejected
  | submitted (n : ℕ) (trigger : Trigger) (date : String)
  | placed (n w : ℕ)
  /-- The order was refused, or its submission raised. -/
  | unplaced (n : ℕ)
  /-- The task was cancelled while its order was out. -/
  | cancelled (n : ℕ)
  | crash

inductive Await
  | evalLock (w : ℕ)
  /-- `on_candle` or `on_tick`. -/
  | strategy
  | ordersAllowed
  | executeOrder
  | seenIds
  | history
  | io

inductive Signal
  | cancelled
  | raised
  | orders (os : List Order)

inductive Answer
  | cancelled
  | raised
  | refused
  | placed

/-- `none` where the await ends in a cancellation. -/
abbrev Reply : Await → Type
  | .evalLock _ => Unit
  | .strategy => Signal
  | .ordersAllowed => Option Bool
  | .executeOrder => Answer
  | .seenIds => List (String × String)
  | .history => List Candle
  | .io => Option Unit

abbrev Call := Proc Desk Effect Reply

namespace Desk

def modify (s : Desk) (w : ℕ) (f : Worker → Worker) : Desk :=
  { s with workers := s.workers.modify w f }

/-- `_evaluate` resets the counter only when the date changes. -/
def dateStats (st : Stats) (date : String) : Stats :=
  if st.dailyTradesDate = some date then st
  else { st with dailyTradesDate := some date, dailyTrades := 0 }

def placeStats (st : Stats) (last : Option Candle) : Stats :=
  let st := { st with ordersPlaced := st.ordersPlaced + 1 }
  match last with
  | none => st
  | some c =>
    if st.dailyTradesDate = some c.date then { st with dailyTrades := st.dailyTrades + 1 } else st

def apply (e : Effect) (s : Desk) : Desk :=
  match e with
  | .created w => { s with workers := s.workers.set w { Worker.new with strategy := true } }
  | .allowed w b => s.modify w fun k => { k with evaluationAllowed := b }
  | .dropped w => s.modify w fun k => { k with strategy := false }
  | .priced w price => s.modify w fun k => { k with lastPrice := price }
  | .positions d => { s with openPositions := d }
  | .loadedSeen w ids => s.modify w fun k => { k with seenIds := ids }
  | .saw w tf c => s.modify w fun k => { k with seenIds := (tf, c.timestamp) :: k.seenIds }
  | .lastCandle w c => s.modify w fun k => { k with lastCandle := some c }
  | .mtfCandle w c => s.modify w fun k => { k with mtfCandle := some c }
  | .mtfReset w => s.modify w fun k => { k with mtfCandle := none }
  | .locked n w =>
    { s.modify w (fun k => { k with evalLock := true }) with
      evaluating := s.evaluating.set n none }
  | .unlocked n w =>
    { s.modify w (fun k => { k with evalLock := false }) with evaluating := s.evaluating.pop n }
  | .dated n date =>
    { s with stats := dateStats s.stats date, evaluating := s.evaluating.set n (some date) }
  | .rejected => { s with stats := { s.stats with ordersRejected := s.stats.ordersRejected + 1 } }
  | .submitted n _ date =>
    { s with unanswered := s.unanswered.set n date, submitted := date :: s.submitted }
  | .placed n w =>
    { s with
      stats := placeStats s.stats ((s.workers.get w).bind Worker.lastCandle)
      unanswered := s.unanswered.pop n }
  | .unplaced n =>
    { s with
      stats := { s.stats with ordersRejected := s.stats.ordersRejected + 1 }
      unanswered := s.unanswered.pop n }
  | .cancelled n => { s with unanswered := s.unanswered.pop n }
  | .crash =>
    { s with
      stats := ⟨none, 0, 0, 0⟩, workers := [], evaluating := [], unanswered := [] }

end Desk

def withWorker (w : ℕ) (k : Worker → Call Unit) : Call Unit := do
  let s ← look
  match s.workers.get w with
  | none => pure ()
  | some st => k st

variable (spec : StrategySpec)

/-- `_enforce_order_limits` once trading is known to be allowed. -/
def withinLimits (s : Desk) (worker : Worker) (order : Order) : Bool :=
  if spec.maxDailyTrades > 0 ∧ s.stats.dailyTrades ≥ spec.maxDailyTrades then false
  else
    let side := Text.upper order.side
    if side ≠ "BUY" ∧ side ≠ "LONG" then true
    else if spec.maxPositions > 0 ∧
        ((s.openPositions.get (Text.upper order.symbol)).getD 0 : ℤ) ≥ spec.maxPositions then false
    else if spec.maxRiskPerTrade > 0 ∧ order.quantity * worker.lastPrice > spec.maxRiskPerTrade then
      false
    else true

/-- `execute_order` and what its answer does to the stats; `false` when the task is
cancelled meanwhile. -/
def submitOrder (n w : ℕ) (trigger : Trigger) (date : String) : Call Bool := do
  emit (.submitted n trigger date)
  let answer ← wait Await.executeOrder
  match answer with
  | .cancelled =>
    emit (.cancelled n)
    pure false
  | .raised | .refused =>
    emit (.unplaced n)
    pure true
  | .placed =>
    emit (.placed n w)
    pure true

def rejectOrder : Call Bool := do
  emit .rejected
  pure true

/-- The body of the loop in `_execute_orders`. -/
def tryOrder (n w : ℕ) (trigger : Trigger) (date : String) (order : Order) : Call Bool := do
  let allowed ← wait Await.ordersAllowed
  match allowed with
  | none => pure false
  | some allowed =>
    let s ← look
    match s.workers.get w with
    | none => pure false
    | some worker =>
      let alive ← bif allowed && withinLimits spec s worker order
        then submitOrder n w trigger date else rejectOrder
      if alive then
        let audited ← wait Await.io
        pure audited.isSome
      else pure false

def executeOrders (n w : ℕ) (trigger : Trigger) (date : String) : List Order → Call Bool
  | [] => pure true
  | order :: orders => do
    let alive ← tryOrder spec n w trigger date order
    if alive then executeOrders n w trigger date orders else pure false

def evaluateTick (n w : ℕ) (tick : Tick) : Call Bool := do
  wait (Await.evalLock w)
  emit (.locked n w)
  let s ← look
  match s.workers.get w with
  | some ⟨true, true, _, _, _, _, _⟩ =>
    let signal ← wait Await.strategy
    match signal with
    | .cancelled =>
      emit (.unlocked n w)
      pure false
    | .raised =>
      emit (.unlocked n w)
      pure true
    | .orders orders =>
      let alive ← executeOrders spec n w .tick tick.date orders
      emit (.unlocked n w)
      pure alive
  | _ =>
    emit (.unlocked n w)
    pure true

def evaluate (n w : ℕ) (candle : Candle) (execute : Bool) : Call Bool := do
  wait (Await.evalLock w)
  emit (.locked n w)
  let s ← look
  match s.workers.get w with
  | some ⟨true, _, _, _, _, _, _⟩ =>
    let signal ← wait Await.strategy
    match signal with
    | .cancelled =>
      emit (.unlocked n w)
      pure false
    | .raised =>
      emit (.unlocked n w)
      pure true
    | .orders orders =>
      emit (.dated n candle.date)
      if execute then
        let alive ← executeOrders spec n w .candle candle.date orders
        emit (.unlocked n w)
        pure alive
      else
        emit (.unlocked n w)
        pure true
  | _ =>
    emit (.unlocked n w)
    pure true

/-- `_handle_candle` for the strategy's own interval. -/
def handleCandle (n w : ℕ) (candle : Candle) : Call Unit :=
  withWorker w fun worker =>
    if (spec.interval, candle.timestamp) ∈ worker.seenIds then pure ()
    else do
      emit (.saw w spec.interval candle)
      emit (.lastCandle w candle)
      if worker.evaluationAllowed then
        let _ ← evaluate spec n w candle true
        pure ()
      else pure ()

/-- `_process_tick`; `closed` is the candle of the strategy's interval the tick closes. -/
def processTick (n w : ℕ) (tick : Tick) (closed : Option Candle) : Call Unit :=
  withWorker w fun worker => do
    let alive ← bif decide (spec.trigger = .everyTick) && worker.evaluationAllowed
      then evaluateTick spec n w tick else pure true
    match alive, closed with
    | true, some candle =>
      emit (.mtfCandle w candle)
      handleCandle spec n w candle
    | _, _ => pure ()

def timeTick (n w : ℕ) : Call Unit :=
  withWorker w fun worker =>
    match worker.mtfCandle with
    | none => pure ()
    | some candle => handleCandle spec n w candle

/-- `_warmup` over the candles of one timeframe. -/
def warmupCandles (n w : ℕ) (tf : String) : List Candle → Call Unit
  | [] => pure ()
  | candle :: candles => do
    withWorker w fun worker =>
      if (tf, candle.timestamp) ∈ worker.seenIds then pure ()
      else do
        emit (.saw w tf candle)
        if tf = spec.interval then
          let _ ← evaluate spec n w candle false
          pure ()
        else pure ()
    warmupCandles n w tf candles

def warmupFrames (n w : ℕ) : List String → Call Unit
  | [] => pure ()
  | tf :: tfs => do
    let candles ← wait Await.history
    warmupCandles spec n w tf candles
    warmupFrames n w tfs

/-- A new worker and its `start`. -/
def start (n w : ℕ) : Call Unit := do
  let s ← look
  if (s.workers.get w).isSome then pure ()
  else
    emit (.created w)
    if spec.warmup then
      let ids ← wait Await.seenIds
      emit (.loadedSeen w ids)
      warmupFrames spec n w spec.timeframes
    else pure ()
    emit (.allowed w true)

inductive Event
  | start (w : ℕ)
  | tick (w : ℕ) (t : Tick) (closed : Option Candle)
  | timeTick (w : ℕ)

def Event.run (n : ℕ) : Event → Call Unit
  | .start w => Workers.start spec n w
  | .tick w t closed => processTick spec n w t closed
  | .timeTick w => Workers.timeTick spec n w

def system : System Desk Effect Reply (Option ℕ) (ℕ × Event) where
  apply := Desk.apply
  tag c := some c.1
  code c := c.2.run spec c.1
  blocks a b := decide (a = b ∧ a ≠ none)
  ready
    | .evalLock w, _, s => ((s.workers.get w).map Worker.evalLock) == some false
    | .strategy, _, _ | .ordersAllowed, _, _ | .executeOrder, _, _ | .seenIds, _, _
    | .history, _, _ | .io, _, _ => true
  env _
    | .allowed _ _ | .dropped _ | .priced _ _ | .positions _ | .mtfReset _ => true
    | _ => false

end Trademetrix.StrategyRuntime.Workers
