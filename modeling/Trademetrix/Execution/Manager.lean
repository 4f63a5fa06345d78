import Trademetrix.Execution.Retry

/-!
# One order through the execution manager

`ExecutionManager.place_order`: the checks before the send, the send under
`retry_with_backoff` and what becomes of its result. The POSTs of a call are worked
out from what the broker, the limiter and the session renewal do.
-/

namespace Trademetrix.Execution

inductive Preflight
  | unbuildable
  | invalid
  | riskRejected (message : String)
  | unavailable
  | duplicate (existing : Option (String × String))
  | raised (e : Raised)
  | ready

/-- What is outside of one call: the checks, the broker's side, and the exceptions of
the bookkeeping after the send and of the log entry for a failure. -/
structure Surroundings extends BrokerSide where
  requestId : String
  preflight : Preflight
  bookkeeping : Option Raised := none
  logging : Option Raised := none

namespace Manager

def partialStatuses : List String := ["partially_filled", "PARTIALLY_FILLED"]

def filledStatuses : List String :=
  ["filled", "traded", "complete", "completed", "FILLED", "TRADED", "COMPLETE", "COMPLETED"]

def executionResult (requestId : String) (r : OrderResult) : ExecutionResult :=
  if r.success then
    { success := true
      executionRequestId := requestId
      brokerOrderId := r.brokerOrderId
      state :=
        if r.status ∈ partialStatuses then .partiallyFilled
        else if r.status ∈ filledStatuses then .filled
        else .pending
      message := "Order placed successfully"
      filledQty := r.filledQty
      avgPrice := r.avgPrice }
  else
    { success := false
      executionRequestId := requestId
      state := .rejected
      message := r.message
      indeterminate := r.indeterminate
      errorCode := if r.errorCode = "" then "ORDER_REJECTED" else r.errorCode }

def failed (requestId : String) (state : ExecutionState) (message errorCode : String) :
    ExecutionResult where
  success := false
  executionRequestId := requestId
  state := state
  message := message
  errorCode := errorCode

def executeWithRetry (side : BrokerSide) : Attempt Wire OrderResult :=
  (retryWithBackoff (fun _ => BrokerAdapter.placeOrder side) maxRetries 0).handle fun e =>
    if isIndeterminate e then
      pure
        { success := false, indeterminate := true, errorCode := "ORDER_RESULT_UNKNOWN"
          message := e.text }
    else pure { success := false, message := e.text }

def refusal (requestId : String) : Preflight → Option ExecutionResult
  | .unbuildable => failed requestId .failed "Failed to build order" "ORDER_BUILD_FAILED"
  | .invalid => failed requestId .rejected "Validation failed" "VALIDATION_FAILED"
  | .riskRejected message => failed requestId .rejected message "RISK_REJECTED"
  | .unavailable => failed requestId .failed "Broker not available" "BROKER_UNAVAILABLE"
  | .duplicate (some (brokerOrderId, status)) => some
    { success := true
      executionRequestId := requestId
      brokerOrderId := brokerOrderId
      state := if status = "FILLED" then .filled else .pending
      message := "DUPLICATE_REQUEST" }
  | .duplicate none =>
    failed requestId .failed "Order insert failed — unknown error" "INSERT_FAILED"
  | .raised _ | .ready => none

/-- The body of the `try` of `place_order`. -/
def send (out : Surroundings) : Attempt Wire ExecutionResult :=
  match out.preflight with
  | .raised e => Attempt.raise e
  | _ => do
    let r ← executeWithRetry out.toBrokerSide
    match out.bookkeeping with
    | some e => Attempt.raise e
    | none => pure (executionResult out.requestId r)

def placeOrder (out : Surroundings) : Attempt Wire ExecutionResult :=
  match refusal out.requestId out.preflight with
  | some result => pure result
  | none => (send out).handle fun e =>
    match out.logging with
    | some e' => Attempt.raise e'
    | none => pure (failed out.requestId .failed e.text "EXECUTION_FAILED")

section Posts

variable {side : BrokerSide} {s : Wire}

def passes (limiter : ℕ → Option Raised) : (left waits : ℕ) → Bool
  | 0, waits => (limiter waits).isNone
  | left + 1, waits =>
    match limiter waits with
    | none => true
    | some e => retries e && passes limiter left (waits + 1)

def sentPosts (side : BrokerSide) (s : Wire) : List PostOutcome :=
  side.post s.posts.length ::
    if BrokerAdapter.reposts side s then [side.post (s.posts.length + 1)] else []

theorem retries_indeterminate {e : Raised} (h : isIndeterminate e = true) : retries e = false := by
  simp [retries, h]

theorem retryWithBackoff_posts (h : (!s.attached || !s.authenticated) = false)
    (left attempt : ℕ) :
    (retryWithBackoff (fun _ => BrokerAdapter.placeOrder side) left attempt s).2.posts =
      s.posts ++ if passes side.limiter left s.waits then sentPosts side s else [] := by
  induction left generalizing s attempt with
  | zero =>
    cases hl : side.limiter s.waits with
    | none =>
      have hsent := (BrokerAdapter.placeOrder_sent h hl).1
      simpa [retryWithBackoff, passes, hl, sentPosts] using hsent
    | some e =>
      simp [retryWithBackoff, passes, hl, BrokerAdapter.placeOrder_limited h hl]
  | succ left ih =>
    cases hl : side.limiter s.waits with
    | none =>
      obtain ⟨hsent, herr⟩ := BrokerAdapter.placeOrder_sent h hl
      simp only [retryWithBackoff, passes, hl, if_true]
      cases hop : BrokerAdapter.placeOrder side s with
      | mk result s' =>
        rw [hop] at hsent herr
        cases result with
        | ok r =>
          rw [Attempt.handle_ok hop]
          exact hsent
        | error e =>
          have hno := retries_indeterminate (herr e rfl)
          rw [Attempt.handle_error hop, hno]
          exact hsent
    | some e =>
      have hop := BrokerAdapter.placeOrder_limited h hl
      simp only [retryWithBackoff, passes, hl]
      rw [Attempt.handle_error hop]
      by_cases hr : retries e = true
      · have hrest := ih (s := { s with waits := s.waits + 1 }) h (attempt + 1)
        rw [if_pos hr, hr, Bool.true_and]
        exact hrest
      · simp [hr, Attempt.raise]

theorem retryWithBackoff_unattached (h : (!s.attached || !s.authenticated) = true)
    (left attempt : ℕ) :
    (retryWithBackoff (fun _ => BrokerAdapter.placeOrder side) left attempt s).2 = s := by
  have hop : BrokerAdapter.placeOrder side s = _ := BrokerAdapter.placeOrder_unattached h
  cases left with
  | zero => simp [retryWithBackoff, hop]
  | succ left => simp [retryWithBackoff, Attempt.handle_ok hop]

theorem handle_posts {α : Type} (x : Attempt Wire α) (handler : Raised → Attempt Wire α)
    (s : Wire) (h : ∀ e s', (handler e s').2.posts = s'.posts) :
    (x.handle handler s).2.posts = (x s).2.posts := by
  cases hx : x s with
  | mk result s' =>
    cases result with
    | ok a => rw [Attempt.handle_ok hx]
    | error e => rw [Attempt.handle_error hx, h]

theorem executeWithRetry_posts (side : BrokerSide) (s : Wire) :
    (executeWithRetry side s).2.posts =
      (retryWithBackoff (fun _ => BrokerAdapter.placeOrder side) maxRetries 0 s).2.posts := by
  refine handle_posts _ _ s fun e s' => ?_
  split <;> rfl

def reaches (out : Surroundings) (s : Wire) : Bool :=
  (match out.preflight with
    | .ready => true
    | _ => false) && s.attached && s.authenticated && passes out.limiter maxRetries s.waits

theorem send_posts (out : Surroundings) (s : Wire) (h : out.preflight = .ready) :
    (send out s).2.posts = (executeWithRetry out.toBrokerSide s).2.posts := by
  unfold send
  simp only [h]
  rw [Attempt.bind_eq]
  cases executeWithRetry out.toBrokerSide s with
  | mk result s' =>
    cases result with
    | ok r => cases out.bookkeeping <;> rfl
    | error e => rfl

theorem placeOrder_posts (out : Surroundings) (s : Wire) :
    (placeOrder out s).2.posts =
      s.posts ++ if reaches out s then sentPosts out.toBrokerSide s else [] := by
  have hhandle : ∀ (x : Attempt Wire ExecutionResult),
      (x.handle (fun e => match out.logging with
        | some e' => Attempt.raise e'
        | none => pure (failed out.requestId .failed e.text "EXECUTION_FAILED")) s).2.posts =
        (x s).2.posts := by
    intro x
    refine handle_posts _ _ s fun e s' => ?_
    cases out.logging <;> rfl
  unfold placeOrder reaches
  cases hp : out.preflight with
  | ready =>
    simp only [refusal, hhandle, send_posts out s hp, executeWithRetry_posts, Bool.true_and]
    by_cases ha : (!s.attached || !s.authenticated) = true
    · rw [retryWithBackoff_unattached ha]
      have hoff : (s.attached && s.authenticated) = false := by
        revert ha
        cases s.attached <;> cases s.authenticated <;> simp
      simp [hoff]
    · have hon : (s.attached && s.authenticated) = true := by
        revert ha
        cases s.attached <;> cases s.authenticated <;> simp
      rw [retryWithBackoff_posts (by simpa using ha), hon, Bool.true_and]
  | raised e =>
    simp only [refusal, hhandle]
    simp [send, hp, Attempt.raise]
  | duplicate existing =>
    cases existing <;> simp [refusal] <;> rfl
  | unbuildable | invalid | riskRejected message | unavailable =>
    simp [refusal]
    rfl

end Posts

section Resend

variable (out : Surroundings) (attached authenticated : Bool)

def calling : Wire := { attached := attached, authenticated := authenticated }

def postsOf : List PostOutcome := (placeOrder out (calling attached authenticated)).2.posts

/-- The first POST of the call comes to nothing certain, its exception reads like an
expired token, and the session is renewed. -/
def ResendsUnknown : Prop :=
  reaches out (calling attached authenticated) = true ∧ (out.post 0).isIndeterminate = true ∧
    BrokerAdapter.reposts out.toBrokerSide (calling attached authenticated) = true

/-- A call sends nothing after a POST of unknown outcome, unless that POST reads like
an expired token and the session is renewed. -/
theorem noResend_iff :
    NoResend (postsOf out attached authenticated) ↔ ¬ ResendsUnknown out attached authenticated := by
  unfold ResendsUnknown NoResend
  by_cases hr : reaches out (calling attached authenticated) = true
  · by_cases hp : BrokerAdapter.reposts out.toBrokerSide (calling attached authenticated) = true
    · have hposts : postsOf out attached authenticated = [out.post 0, out.post 1] := by
        rw [postsOf, placeOrder_posts, if_pos hr, sentPosts, if_pos hp]
        rfl
      rw [hposts]
      simp only [List.dropLast, List.mem_singleton, forall_eq, hr, hp, true_and, and_true,
        Bool.not_eq_true]
    · have hposts : postsOf out attached authenticated = [out.post 0] := by
        rw [postsOf, placeOrder_posts, if_pos hr, sentPosts, if_neg hp]
        rfl
      rw [hposts]
      simp [hp]
  · have hposts : postsOf out attached authenticated = [] := by
      rw [postsOf, placeOrder_posts, if_neg hr]
      rfl
    rw [hposts]
    simp [hr]

/-- The broker that times out on the first POST, in words that name a token, and fills
the second. -/
def timesOutOnce : Surroundings where
  broker := "dhan"
  post k :=
    if k = 0 then .error { cls := .readTimeout, text := "token request timed out" }
    else .ok { success := true, brokerOrderId := "b2", status := "FILLED" }
  limiter _ := none
  connect _ := true
  requestId := "r1"
  preflight := .ready

theorem timesOutOnce_resends : ¬ NoResend (postsOf timesOutOnce true true) := by
  decide

end Resend

end Manager

end Trademetrix.Execution
