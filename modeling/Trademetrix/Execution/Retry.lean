import Mathlib.Data.Rat.Defs
import Trademetrix.Text

/-!
# Execution requests and results

The records that pass between the order manager, the execution manager and the
broker adapters. An empty text stands for an absent broker order id, as in the
source; prices are exact rationals.
-/

namespace Trademetrix.Execution

inductive ExecutionState
  | new | validated | sent | pending | partiallyFilled | filled
  | rejected | cancelled | failed | expired
  deriving DecidableEq, Repr

structure ExecutionRequest where
  userId : String
  broker : String
  symbol : String
  exchange : String := "NSE"
  side : String
  orderType : String := "MARKET"
  product : String := "INTRADAY"
  quantity : ℤ
  price : ℚ := 0
  triggerPrice : Option ℚ := none
  disclosedQuantity : ℤ := 0
  validity : String := "DAY"
  instrumentType : String := "EQ"
  strikePrice : Option ℚ := none
  expiryDate : Option String := none
  optionType : Option String := none
  strategyId : Option String := none
  source : String := "manual"
  isPaper : Bool := false
  executionRequestId : String := ""
  deriving DecidableEq

structure OrderResult where
  success : Bool
  brokerOrderId : String := ""
  message : String := ""
  status : String := ""
  filledQty : ℤ := 0
  avgPrice : ℚ := 0
  indeterminate : Bool := false
  errorCode : String := ""
  deriving DecidableEq

structure ExecutionResult where
  success : Bool := false
  executionRequestId : String := ""
  brokerOrderId : String := ""
  state : ExecutionState := .new
  message : String := ""
  errorCode : String := ""
  filledQty : ℤ := 0
  avgPrice : ℚ := 0
  indeterminate : Bool := false
  deriving DecidableEq

end Trademetrix.Execution

/-!
# Retry classification and backoff

`isTransient` decides which error codes may be retried. `retryWithBackoff` runs
an operation up to `maxRetries + 1` times; an indeterminate result is never
retried.
-/

namespace Trademetrix.Execution

/-- The exception classes the execution layer tells apart. `transportError` is a
transport failure of `httpx` outside the classes named in the handlers. -/
inductive ExceptionClass
  | timeoutError | timeoutException | connectError | remoteProtocolError | readTimeout
  | transportError | httpStatusError | indeterminateOrderError | other
  deriving DecidableEq, Repr

/-- `text` is `str(e)`; `code` and `message` are the attributes of those names,
`""` and `none` when the exception has no such attribute. -/
structure Raised where
  cls : ExceptionClass
  text : String
  code : String := ""
  message : Option String := none
  deriving DecidableEq

def maxRetries : ℕ := 3

def transientExceptions : List ExceptionClass :=
  [.timeoutError, .timeoutException, .connectError, .remoteProtocolError, .readTimeout,
    .httpStatusError]

def transientErrors : List String :=
  ["TIMEOUT", "CONNECTION_RESET", "NETWORK_ERROR", "RATE_LIMITED", "TOKEN_EXPIRED",
    "BROKER_UNAVAILABLE", "SERVICE_OVERLOADED"]

def nonTransientErrors : List String :=
  ["INVALID_SYMBOL", "INVALID_QUANTITY", "INVALID_PRICE", "INVALID_PRODUCT",
    "INVALID_ORDER_TYPE", "MARGIN_INSUFFICIENT", "DUPLICATE_ORDER", "ORDER_REJECTED",
    "USER_CANCELLED", "INSTRUMENT_NOT_TRADABLE", "EXCHANGE_CLOSED", "VALIDATION_FAILED"]

def isTransient (errorCode : String) : Bool :=
  let code := Text.strip (Text.upper errorCode)
  if code ∈ nonTransientErrors then false
  else if code ∈ transientErrors then true
  else false

def isIndeterminate (e : Raised) : Bool := e.cls = .indeterminateOrderError

/-- The code `retry_with_backoff` classifies an exception by. -/
def Raised.errorCode (e : Raised) : String :=
  if e.code ≠ "" then e.code else e.message.getD e.text

/-- Whether the loop goes on to another attempt after `e`. -/
def retries (e : Raised) : Bool :=
  if isIndeterminate e then false
  else if e.cls ∈ transientExceptions then true
  else isTransient e.errorCode

/-- A computation that changes `σ` and ends in a value or an exception. -/
def Attempt (σ α : Type) : Type := σ → Except Raised α × σ

namespace Attempt

variable {σ α β : Type}

def bind (x : Attempt σ α) (f : α → Attempt σ β) : Attempt σ β := fun s =>
  match x s with
  | (.ok a, s') => f a s'
  | (.error e, s') => (.error e, s')

instance : Monad (Attempt σ) where
  pure a := fun s => (.ok a, s)
  bind := bind

def raise (e : Raised) : Attempt σ α := fun s => (.error e, s)

/-- `try: x except Exception as e: handler e`. -/
def handle (x : Attempt σ α) (handler : Raised → Attempt σ α) : Attempt σ α := fun s =>
  match x s with
  | (.ok a, s') => (.ok a, s')
  | (.error e, s') => handler e s'

theorem bind_eq (x : Attempt σ α) (f : α → Attempt σ β) (s : σ) :
    (x >>= f) s = match x s with
      | (.ok a, s') => f a s'
      | (.error e, s') => (.error e, s') := rfl

theorem bind_ok {x : Attempt σ α} {f : α → Attempt σ β} {s s' : σ} {a : α}
    (h : x s = (.ok a, s')) : (x >>= f) s = f a s' := by
  rw [bind_eq, h]

theorem handle_ok {x : Attempt σ α} {handler : Raised → Attempt σ α} {s s' : σ} {a : α}
    (h : x s = (.ok a, s')) : x.handle handler s = (.ok a, s') := by
  simp only [handle, h]

theorem handle_error {x : Attempt σ α} {handler : Raised → Attempt σ α} {s s' : σ} {e : Raised}
    (h : x s = (.error e, s')) : x.handle handler s = handler e s' := by
  simp only [handle, h]

end Attempt

/-- Run `operation attempt`, for the attempts left; the last exception is raised
when they are used up. -/
def retryWithBackoff {σ α : Type} (operation : ℕ → Attempt σ α) :
    (left attempt : ℕ) → Attempt σ α
  | 0, attempt => operation attempt
  | left + 1, attempt =>
    (operation attempt).handle fun e =>
      if retries e then retryWithBackoff operation left (attempt + 1) else Attempt.raise e

end Trademetrix.Execution

/-!
## The broker adapter

`BrokerExecutionAdapter.place_order` over a wrapped broker that may answer or raise
anything. `Wire` keeps what became of each POST, in order.
-/

namespace Trademetrix.Execution

def tokenExpiryKeywords : List String :=
  ["token", "expired", "unauthorized", "invalid session", "auth failed", "auth_error",
    "invalid_token"]

def isTokenExpiry (error : Raised) : Bool :=
  let msg := Text.lower error.text
  tokenExpiryKeywords.any fun kw => Text.contains msg kw

def indeterminateOrderError (reason broker : String) : Raised where
  cls := .indeterminateOrderError
  text :=
    let reason := if reason = "" then "no response from the broker" else reason
    if broker ≠ "" then broker ++ ": order result unknown (" ++ reason ++ ")"
    else "order result unknown (" ++ reason ++ ")"
  code := "ORDER_RESULT_UNKNOWN"

/-- The classes `place_order` turns into an indeterminate error. -/
def lostResponses : List ExceptionClass :=
  [.timeoutError, .timeoutException, .connectError, .remoteProtocolError, .readTimeout]

abbrev PostOutcome := Except Raised OrderResult

/-- What the broker, the rate limiter and the session renewal do, each counted from the
start of the call. -/
structure BrokerSide where
  broker : String
  post : ℕ → PostOutcome
  limiter : ℕ → Option Raised
  connect : ℕ → Bool

structure Wire where
  posts : List PostOutcome := []
  waits : ℕ := 0
  connects : ℕ := 0
  attached : Bool := true
  authenticated : Bool := true

namespace BrokerAdapter

variable (side : BrokerSide)

def acquireBrokerToken : Attempt Wire Unit := fun s =>
  (match side.limiter s.waits with
    | none => .ok ()
    | some e => .error e,
    { s with waits := s.waits + 1 })

/-- `self._adapter.place_order(order)`. -/
def post : Attempt Wire OrderResult := fun s =>
  let outcome := side.post s.posts.length
  (outcome, { s with posts := s.posts ++ [outcome] })

def connect : Attempt Wire Bool := fun s =>
  let connected := side.connect s.connects
  (.ok connected, { s with connects := s.connects + 1, authenticated := connected })

def handleTokenExpiryAndRetry {α : Type} (coroFn : Attempt Wire α) : Attempt Wire α :=
  coroFn.handle fun e =>
    if isTokenExpiry e then do
      let connected ← connect side
      if connected then coroFn else Attempt.raise e
    else Attempt.raise e

def placeOrder : Attempt Wire OrderResult := fun s =>
  if !s.attached || !s.authenticated then
    (.ok { success := false, message := "Broker not connected" }, s)
  else
    (do
      acquireBrokerToken side
      (handleTokenExpiryAndRetry side (post side)).handle fun e =>
        if e.cls ∈ lostResponses then
          Attempt.raise (indeterminateOrderError e.text side.broker)
        else pure { success := false, message := e.text } : Attempt Wire OrderResult) s

end BrokerAdapter

def PostOutcome.isIndeterminate : PostOutcome → Bool
  | .error e =>
    e.cls ∈ ExceptionClass.transportError :: lostResponses || Execution.isIndeterminate e
  | .ok r => r.indeterminate

def NoResend (posts : List PostOutcome) : Prop :=
  ∀ outcome ∈ posts.dropLast, outcome.isIndeterminate = false

instance (posts : List PostOutcome) : Decidable (NoResend posts) :=
  inferInstanceAs (Decidable (∀ _ ∈ _, _))

namespace BrokerAdapter

variable {side : BrokerSide} {s : Wire}

def reposts (side : BrokerSide) (s : Wire) : Bool :=
  match side.post s.posts.length with
  | .error e => isTokenExpiry e && side.connect s.connects
  | .ok _ => false

theorem post_eq (side : BrokerSide) (s : Wire) :
    post side s =
      (side.post s.posts.length, { s with posts := s.posts ++ [side.post s.posts.length] }) := rfl

theorem handleTokenExpiryAndRetry_posts (side : BrokerSide) (s : Wire) :
    (handleTokenExpiryAndRetry side (post side) s).2.posts =
      s.posts ++ side.post s.posts.length ::
        if reposts side s then [side.post (s.posts.length + 1)] else [] := by
  have hpost := post_eq side s
  unfold handleTokenExpiryAndRetry reposts
  cases hp : side.post s.posts.length with
  | ok r =>
    rw [hp] at hpost
    rw [Attempt.handle_ok hpost]
    simp
  | error e =>
    rw [hp] at hpost
    rw [Attempt.handle_error hpost]
    by_cases hexp : isTokenExpiry e = true
    · cases hconn : side.connect s.connects <;>
        simp [hexp, hconn, connect, Attempt.bind_eq, post, Attempt.raise]
    · simp [hexp, Attempt.raise]

theorem placeOrder_unattached (h : (!s.attached || !s.authenticated) = true) :
    placeOrder side s = (.ok { success := false, message := "Broker not connected" }, s) := by
  simp only [placeOrder, h, if_true]

theorem placeOrder_limited (h : (!s.attached || !s.authenticated) = false) {e : Raised}
    (hl : side.limiter s.waits = some e) :
    placeOrder side s = (.error e, { s with waits := s.waits + 1 }) := by
  simp [placeOrder, h, acquireBrokerToken, Attempt.bind_eq, hl]

theorem placeOrder_sent (h : (!s.attached || !s.authenticated) = false)
    (hl : side.limiter s.waits = none) :
    (placeOrder side s).2.posts =
        s.posts ++ side.post s.posts.length ::
          (if reposts side s then [side.post (s.posts.length + 1)] else []) ∧
      ∀ e, (placeOrder side s).1 = .error e → isIndeterminate e = true := by
  have hposts := handleTokenExpiryAndRetry_posts side { s with waits := s.waits + 1 }
  have hlimit : acquireBrokerToken side s = (.ok (), { s with waits := s.waits + 1 }) := by
    simp [acquireBrokerToken, hl]
  unfold placeOrder
  rw [h, if_neg (by simp), Attempt.bind_ok hlimit]
  cases hsend : handleTokenExpiryAndRetry side (post side) { s with waits := s.waits + 1 } with
  | mk result s' =>
    rw [hsend] at hposts
    cases result with
    | ok r =>
      rw [Attempt.handle_ok hsend]
      exact ⟨hposts, nofun⟩
    | error e =>
      rw [Attempt.handle_error hsend]
      by_cases hcls : e.cls ∈ lostResponses
      · rw [if_pos hcls]
        refine ⟨hposts, fun e' he => ?_⟩
        cases he
        rfl
      · rw [if_neg hcls]
        exact ⟨hposts, nofun⟩

end BrokerAdapter

end Trademetrix.Execution
