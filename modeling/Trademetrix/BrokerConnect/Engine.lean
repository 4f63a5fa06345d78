import Trademetrix.Async.Pool
import Trademetrix.Text
import Mathlib.Data.Rat.Floor
import Mathlib.Logic.Function.Basic

/-!
# The fan-out engine

`dispatch_signal` gathers one task for each live subscriber of a strategy; a task
checks the user's kill switch, claims the signal for the user in Redis, sizes the
order, asks the risk guard and places it. Calls are numbered, and the `i`-th task
of call `n` is `(n, i)`. What a task asks Redis is served at some moment of its
await; the connection may fail before or after.
-/

namespace Trademetrix.BrokerConnect

open Async

inductive Side
  | buy | sell
  deriving DecidableEq

inductive OrderType
  | mkt | lmt | sl | slM
  deriving DecidableEq

inductive Product
  | intraday | margin | cnc
  deriving DecidableEq

inductive Mode
  | paper | live
  deriving DecidableEq

inductive ResultStatus
  | placed | rejected | skippedNoConn | skippedExpired | skippedKilled | skippedDuplicate
  | riskBlocked | sizedZero | error
  deriving DecidableEq

structure Signal where
  signalId : String
  strategyId : String
  symbol : String
  side : Side
  orderType : OrderType := .mkt
  limitPrice : Option ℚ := none
  triggerPrice : Option ℚ := none
  product : Product := .intraday
  target : Option ℚ := none
  stoploss : Option ℚ := none
  refPrice : ℚ
  lotSize : ℤ := 1
  deriving DecidableEq

structure Subscriber where
  userId : String
  broker : String
  brokerUserId : Option String := none
  deriving DecidableEq

structure UserTradingProfile where
  userId : String
  mode : Mode := .paper
  capital : ℚ := 0
  riskFraction : ℚ := 1 / 100
  maxLots : ℤ := 10

structure OrderIntent where
  userId : String
  broker : String
  brokerSymbol : String
  side : Side
  qty : ℤ
  orderType : OrderType
  product : Product
  estPrice : ℚ := 0
  limitPrice : Option ℚ := none
  triggerPrice : Option ℚ := none
  target : Option ℚ := none
  stoploss : Option ℚ := none
  deriving DecidableEq

structure ExecutionResult where
  userId : String
  broker : String
  status : ResultStatus
  brokerOrderId : Option String := none
  qty : ℤ := 0
  reason : Option String := none
  deriving DecidableEq

structure ExecutionBatch where
  signalId : String
  strategyId : String
  dispatched : ℕ := 0
  placed : ℕ := 0
  skipped : ℕ := 0
  blocked : ℕ := 0
  errors : ℕ := 0
  results : List ExecutionResult := []
  deriving DecidableEq

namespace ExecutionBatch

def add (b : ExecutionBatch) (r : ExecutionResult) : ExecutionBatch :=
  let b := { b with results := b.results ++ [r] }
  match r.status with
  | .placed => { b with placed := b.placed + 1 }
  | .riskBlocked => { b with blocked := b.blocked + 1 }
  | .error => { b with errors := b.errors + 1 }
  | _ => { b with skipped := b.skipped + 1 }

def counted (b : ExecutionBatch) : ℕ := b.placed + b.skipped + b.blocked + b.errors

end ExecutionBatch

structure Token where
  accessToken : String
  tokenExpiresAt : Option String
  status : String

/-- What the synchronous calls find at a moment: the vault, the symbol table, the clock. -/
structure Books where
  getDecryptedToken : String → String → Except String (Option Token) := fun _ _ => .ok none
  markStatus : String → String → String → Except String Unit := fun _ _ _ => .ok ()
  toBrokerSymbol : String → Signal → Except String String := fun _ s => .ok s.symbol
  now : ℚ := 0
  uuid : String := ""

/-- A call of `dispatch_signal` or one of the tasks it gathers. -/
inductive Party
  | dispatch (n : ℕ)
  | user (n i : ℕ)
  deriving DecidableEq

/-- What is asked of Redis; `killed none` is the global switch. -/
inductive Request
  | killed (userId : Option String)
  | claim (signalId userId : String)
  deriving DecidableEq

namespace Request

def key : Request → String
  | .killed none => "exec:kill:global"
  | .killed (some userId) => "exec:kill:user:" ++ userId
  | .claim signalId userId => "exec:idem:" ++ signalId ++ ":" ++ userId

end Request

structure Line where
  asked : Option Request := none
  log : List (Request × Bool) := []

structure Order where
  task : ℕ × ℕ
  signalId : String
  intent : OrderIntent
  accessToken : String
  deriving DecidableEq

structure Exec where
  keys : List String := []
  books : Books := {}
  lines : Party → Line := fun _ => {}
  calls : List ℕ := []
  created : ℕ → Option (Signal × List Subscriber) := fun _ => none
  entered : List (ℕ × ℕ) := []
  outcomes : ℕ × ℕ → Option (Except String ExecutionResult) := fun _ => none
  orders : List Order := []

inductive ExecEffect
  | calls (n : ℕ) (signal : Signal)
  | sends (p : Party) (r : Request)
  | gathers (n : ℕ) (signal : Signal) (subs : List Subscriber)
  | enters (c : ℕ × ℕ)
  | marks (c : ℕ × ℕ) (userId broker status : String)
  | places (o : Order)
  | audits (p : Party) (signal : Signal) (subscriberBroker : String) (brokerUserId : Option String)
      (result : ExecutionResult) (intent : Option OrderIntent)
  | records (c : ℕ × ℕ) (signal : Signal) (intent : OrderIntent) (result : ExecutionResult)
      (mode : Mode)
  | leaves (c : ℕ × ℕ) (outcome : Except String ExecutionResult)
  | returns (n : ℕ) (batch : ExecutionBatch)
  | serves (p : Party)
  | trips (userId : Option String)
  | resets (userId : Option String)
  | books (b : Books)

namespace Exec

def onLine (s : Exec) (p : Party) (f : Line → Line) : Exec :=
  { s with lines := Function.update s.lines p (f (s.lines p)) }

/-- `EXISTS` and `SET .. NX`. -/
def serve (s : Exec) (p : Party) : Exec :=
  match (s.lines p).asked with
  | none => s
  | some (.killed u) =>
    s.onLine p fun l =>
      ⟨none, l.log ++ [(.killed u, decide ((Request.killed u).key ∈ s.keys))]⟩
  | some (.claim signalId userId) =>
    let key := (Request.claim signalId userId).key
    let s' := s.onLine p fun l =>
      ⟨none, l.log ++ [(.claim signalId userId, decide (key ∉ s.keys))]⟩
    if key ∈ s.keys then s' else { s' with keys := key :: s.keys }

def apply (e : ExecEffect) (s : Exec) : Exec :=
  match e with
  | .calls n _ => { s with calls := n :: s.calls }
  | .sends p r => s.onLine p fun l => { l with asked := some r }
  | .gathers n signal subs => { s with created := Function.update s.created n (some (signal, subs)) }
  | .enters c => { s with entered := c :: s.entered }
  | .places o => { s with orders := s.orders ++ [o] }
  | .leaves c outcome => { s with outcomes := Function.update s.outcomes c (some outcome) }
  | .serves p => s.serve p
  | .trips u => { s with keys := (Request.killed u).key :: s.keys }
  | .resets u => { s with keys := s.keys.filter fun k => k ≠ (Request.killed u).key }
  | .books b => { s with books := b }
  | .marks _ _ _ _ | .audits _ _ _ _ _ _ | .records _ _ _ _ _ | .returns _ _ => s

def parallel (s : Exec) : ℕ := (s.entered.filter fun c => (s.outcomes c).isNone).length

end Exec

structure FyersPayload where
  symbol : String
  qty : ℤ
  type : ℤ
  side : ℤ
  productType : String
  limitPrice : ℚ
  stopPrice : ℚ
  takeProfit : ℚ
  stopLoss : ℚ

structure FyersData where
  s : String
  id : String := ""
  message : String := ""

inductive ExecPoint
  | answer (p : Party)
  | liveSubscribers (strategyId : String)
  | gather (n : ℕ)
  | slot (c : ℕ × ℕ) (sub : Subscriber) (signal : Signal)
  | profile (userId : String)
  | risk (profile : UserTradingProfile) (intent : OrderIntent)
  | post (authorization : String) (payload : FyersPayload)
  | notify (userId kind message : String)

def ExecReply : ExecPoint → Type
  | .answer _ => Except String Bool
  | .liveSubscribers _ => Except String (List Subscriber)
  | .gather _ => List (Except String ExecutionResult)
  | .slot _ _ _ => Unit
  | .profile _ => Except String UserTradingProfile
  | .risk _ _ => Except String (Bool × Option String)
  | .post _ _ => Except String FyersData
  | .notify _ _ _ => Except String Unit

abbrev X := Proc Exec ExecEffect ExecReply

abbrev Raising := ExceptT String X

def emit (e : ExecEffect) : X Unit := Proc.emit e

def look : X Exec := Proc.look

def wait (i : ExecPoint) : X (ExecReply i) := Proc.wait i

def now {α : Type} (f : Books → Except String α) : Raising α :=
  ExceptT.mk (do
    let s ← look
    pure (f s.books))

def command (p : Party) (r : Request) : Raising Bool :=
  ExceptT.mk (do
    emit (.sends p r)
    wait (.answer p))

def isGlobalTripped (p : Party) : Raising Bool := command p (.killed none)

def isUserTripped (p : Party) (userId : String) : Raising Bool := command p (.killed (some userId))

def claimOnce (p : Party) (signalId userId : String) : Raising Bool :=
  command p (.claim signalId userId)

def profileOf (userId : String) : Raising UserTradingProfile := ExceptT.mk (wait (.profile userId))

def riskCheck (profile : UserTradingProfile) (intent : OrderIntent) :
    Raising (Bool × Option String) :=
  ExceptT.mk (wait (.risk profile intent))

def notify (userId kind message : String) : Raising Unit :=
  ExceptT.mk (wait (.notify userId kind message))

structure ExecutionEngine where
  size : UserTradingProfile → Signal → Except String ℤ
  maxParallel : ℕ := 25
  fromisoformat : String → Option ℚ
  fyersAppId : String := ""

/-- `CapitalFractionSizer.size`, the default. -/
def capitalFractionSize (profile : UserTradingProfile) (signal : Signal) : ℤ :=
  if profile.capital ≤ 0 ∨ signal.refPrice ≤ 0 then 0
  else
    let budget := profile.capital * max 0 profile.riskFraction
    let costPerLot := signal.refPrice * signal.lotSize
    if costPerLot ≤ 0 then 0
    else max 0 (min ⌊budget / costPerLot⌋ profile.maxLots) * signal.lotSize

/-- `_expired`; what cannot be read counts as expired. -/
def expired (eng : ExecutionEngine) (now : ℚ) (iso : Option String) : Bool :=
  match iso with
  | none => true
  | some iso =>
    match eng.fromisoformat (iso.replace "Z" "+00:00") with
    | none => true
    | some t => decide (t ≤ now)

/-- `a or b` on prices: zero is no price. -/
def orPrice (a : Option ℚ) (b : ℚ) : ℚ :=
  match a with
  | none => b
  | some a => if a = 0 then b else a

def fyersType : OrderType → ℤ
  | .lmt => 1
  | .mkt => 2
  | .sl => 4
  | .slM => 3

def fyersSide : Side → ℤ
  | .buy => 1
  | .sell => -1

def fyersProduct : Product → String
  | .intraday => "INTRADAY"
  | .margin => "MARGIN"
  | .cnc => "CNC"

inductive TradingAdapter
  | paper (broker : String)
  | fyersLive (appId : String)

def getTradingAdapter (eng : ExecutionEngine) (broker : String) (mode : Mode) : TradingAdapter :=
  if mode = .paper then .paper broker
  else if Text.lower broker = "fyers" then .fyersLive eng.fyersAppId
  else .paper broker

namespace TradingAdapter

def payload (intent : OrderIntent) : FyersPayload where
  symbol := intent.brokerSymbol
  qty := intent.qty
  type := fyersType intent.orderType
  side := fyersSide intent.side
  productType := fyersProduct intent.product
  limitPrice := orPrice intent.limitPrice 0
  stopPrice := orPrice intent.triggerPrice 0
  takeProfit := orPrice intent.target 0
  stopLoss := orPrice intent.stoploss 0

def placeOrder (a : TradingAdapter) (intent : OrderIntent) (accessToken : String) :
    Raising ExecutionResult :=
  match a with
  | .paper broker => do
    let uuid ← now fun b => .ok b.uuid
    pure {
      userId := intent.userId, broker := broker, status := .placed
      brokerOrderId := some ("PAPER-" ++ uuid), qty := intent.qty, reason := some "paper_fill" }
  | .fyersLive appId =>
    ExceptT.mk (do
      let answer : Except String FyersData ← wait (.post (appId ++ ":" ++ accessToken) (payload intent))
      match answer with
      | .error e =>
        pure (.ok {
          userId := intent.userId, broker := "fyers", status := .error, qty := intent.qty
          reason := some e })
      | .ok data =>
        if data.s = "ok" ∧ data.id ≠ "" then
          pure (.ok {
            userId := intent.userId, broker := "fyers", status := .placed
            brokerOrderId := some data.id, qty := intent.qty })
        else
          pure (.ok {
            userId := intent.userId, broker := "fyers", status := .rejected, qty := intent.qty
            reason := some data.message }))

end TradingAdapter

section Tasks

variable (eng : ExecutionEngine) (c : ℕ × ℕ) (sub : Subscriber) (signal : Signal)

def Party.task (c : ℕ × ℕ) : Party := .user c.1 c.2

def auditRet (status : ResultStatus) (reason : Option String) (intent : Option OrderIntent := none) :
    Raising ExecutionResult := do
  let res : ExecutionResult :=
    { userId := sub.userId, broker := sub.broker, status := status, reason := reason }
  emit (.audits (.task c) signal sub.broker sub.brokerUserId res intent)
  pure res

def recordAttempt (intent : OrderIntent) (result : ExecutionResult) (mode : Mode) : X Unit :=
  if result.status = .placed ∨ result.status = .rejected then
    emit (.records c signal intent result mode)
  else pure ()

def announce (intent : OrderIntent) (result : ExecutionResult) (mode : Mode) : Raising Unit :=
  if result.status = .placed then
    let tag := if mode = .paper then "PAPER" else "LIVE"
    let side := if signal.side = .buy then "BUY" else "SELL"
    notify sub.userId "order"
      ("[" ++ tag ++ "] " ++ side ++ " " ++ toString intent.qty ++ " " ++ signal.symbol)
  else pure ()

/-- The adapter's `place_order`, and what follows it. -/
def place (profile : UserTradingProfile) (intent : OrderIntent) (accessToken : String) :
    Raising ExecutionResult := do
  let adapter := getTradingAdapter eng sub.broker profile.mode
  emit (.places { task := c, signalId := signal.signalId, intent := intent, accessToken := accessToken })
  let result ← adapter.placeOrder intent accessToken
  let result := { result with qty := intent.qty }
  emit (.audits (.task c) signal sub.broker sub.brokerUserId result (some intent))
  recordAttempt c signal intent result profile.mode
  announce sub signal intent result profile.mode
  pure result

def tradeForUser : Raising ExecutionResult := do
  let uid := sub.userId
  let broker := sub.broker
  match ← now fun b => b.getDecryptedToken uid broker with
  | none =>
    notify uid "reconnect" ("Reconnect " ++ broker ++ " to trade.")
    auditRet c sub signal .skippedNoConn (some "no_connection")
  | some tok =>
    if tok.status ≠ "connected" then
      notify uid "reconnect" ("Reconnect " ++ broker ++ " to trade.")
      auditRet c sub signal .skippedNoConn (some "no_connection")
    else if ← now fun b => .ok (expired eng b.now tok.tokenExpiresAt) then
      now fun b => b.markStatus uid broker "needs_attention"
      emit (.marks c uid broker "needs_attention")
      notify uid "reconnect" (broker ++ " login expired — reconnect for today.")
      auditRet c sub signal .skippedExpired (some "token_expired")
    else
      let profile ← profileOf uid
      let qty ← eng.size profile signal
      if qty ≤ 0 then auditRet c sub signal .sizedZero (some "qty_zero")
      else
        let brokerSymbol ← now fun b => b.toBrokerSymbol broker signal
        let intent : OrderIntent :=
          { userId := uid, broker := broker, brokerSymbol := brokerSymbol, side := signal.side
            qty := qty, orderType := signal.orderType, product := signal.product
            estPrice := orPrice signal.limitPrice signal.refPrice, limitPrice := signal.limitPrice
            triggerPrice := signal.triggerPrice, target := signal.target
            stoploss := signal.stoploss }
        let (allowed, reason) ← riskCheck profile intent
        if allowed = false then auditRet c sub signal .riskBlocked reason (some intent)
        else place eng c sub signal profile intent tok.accessToken

def executeForUser : Raising ExecutionResult := do
  if ← isUserTripped (.task c) sub.userId then
    auditRet c sub signal .skippedKilled (some "user_killswitch")
  else if ← claimOnce (.task c) signal.signalId sub.userId then
    tradeForUser eng c sub signal
  else auditRet c sub signal .skippedDuplicate (some "already_processed")

/-- `_guarded`, a task of the gather. -/
def guarded : X Unit := do
  let _ : Unit ← wait (.slot c sub signal)
  emit (.enters c)
  let r ← (executeForUser eng c sub signal).run
  match r with
  | .ok res => emit (.leaves c (.ok res))
  | .error e => do
    let res : ExecutionResult :=
      { userId := sub.userId, broker := sub.broker, status := .error, reason := some e }
    emit (.audits (.task c) signal sub.broker sub.brokerUserId res none)
    emit (.leaves c (.ok res))

end Tasks

section Dispatch

variable (n : ℕ) (signal : Signal)

def unhandled (sub : Subscriber) (e : String) : ExecutionResult :=
  { userId := sub.userId, broker := sub.broker, status := .error
    reason := some ("unhandled: " ++ e) }

def settle (sub : Subscriber) : Except String ExecutionResult → ExecutionResult
  | .ok res => res
  | .error e => unhandled sub e

/-- The loop over `zip(subscribers, results)`. -/
def collect : List (Subscriber × Except String ExecutionResult) → ExecutionBatch → X ExecutionBatch
  | [], batch => pure batch
  | (_, .ok res) :: rest, batch => collect rest (batch.add res)
  | (sub, .error e) :: rest, batch => do
    let res := unhandled sub e
    emit (.audits (.dispatch n) signal sub.broker sub.brokerUserId res none)
    collect rest (batch.add res)

def dispatchSignal : Raising ExecutionBatch := do
  let batch : ExecutionBatch := { signalId := signal.signalId, strategyId := signal.strategyId }
  if ← isGlobalTripped (.dispatch n) then pure { batch with skipped := batch.skipped + 1 }
  else
    let subscribers : List Subscriber ← ExceptT.mk (wait (.liveSubscribers signal.strategyId))
    let batch := { batch with dispatched := subscribers.length }
    if subscribers = [] then pure batch
    else
      emit (.gathers n signal subscribers)
      let results : List (Except String ExecutionResult) ← wait (.gather n)
      collect n signal (subscribers.zip results) batch

end Dispatch

inductive ExecCall
  | dispatchSignal (n : ℕ) (signal : Signal)
  | guarded (c : ℕ × ℕ) (sub : Subscriber) (signal : Signal)

namespace ExecCall

def tag : ExecCall → Party
  | dispatchSignal n _ => .dispatch n
  | guarded c _ _ => .task c

def code (eng : ExecutionEngine) : ExecCall → X Unit
  | dispatchSignal n signal => do
    let s ← look
    if n ∈ s.calls then pure ()
    else do
      emit (.calls n signal)
      let r ← (BrokerConnect.dispatchSignal n signal).run
      match r with
      | .ok batch => emit (.returns n batch)
      | .error _ => pure ()
  | guarded c sub signal => BrokerConnect.guarded eng c sub signal

end ExecCall

/-- A task of a gather gets a slot once, when it has been created and the semaphore has
a slot left; the gather is through when each of its tasks has ended. -/
def ready (eng : ExecutionEngine) : (i : ExecPoint) → ExecReply i → Exec → Bool
  | .answer p, r, s =>
    let r : Except String Bool := r
    match r with
    | .error _ => true
    | .ok b => (s.lines p).asked.isNone && (s.lines p).log.getLast?.any fun x => x.2 = b
  | .slot c sub signal, _, s =>
    ((s.created c.1).any fun x => x.1 = signal ∧ x.2[c.2]? = some sub) &&
      decide (c ∉ s.entered) && decide (s.parallel < eng.maxParallel)
  | .gather n, r, s =>
    let r : List (Except String ExecutionResult) := r
    match s.created n with
    | none => false
    | some (_, subs) =>
      r.length = subs.length ∧
        ∀ i < subs.length, (s.outcomes (n, i)).isSome ∧ s.outcomes (n, i) = r[i]?
  | _, _, _ => true

/-- Beside the tasks Redis serves requests, operators trip and reset switches, and the
books change. -/
def system (eng : ExecutionEngine) : System Exec ExecEffect ExecReply Party ExecCall where
  apply := Exec.apply
  tag := ExecCall.tag
  code := ExecCall.code eng
  blocks a b := a = b
  ready := ready eng
  env _ e := match e with
    | .serves _ | .trips _ | .resets _ | .books _ => true
    | _ => false

end Trademetrix.BrokerConnect
