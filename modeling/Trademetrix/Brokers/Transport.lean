import Mathlib.Data.NNRat.Defs
import Trademetrix.Dict
import Trademetrix.Places
import Trademetrix.Run
import Trademetrix.Text

/-!
# The broker HTTP transport

One transport answers the requests of many callers: from the cache, by joining the
request in flight under the same key, or over the wire with retries. The calls take
turns where they wait: for the future of another call, before the wire (the rate
limiter and the delays of the retries), and for the answer. A call notes the token
it was made under and the token its headers have, which the program never reads.
-/

namespace Trademetrix.Brokers

structure Token where
  clientId : String
  accessToken : String
  deriving DecidableEq

/-- The knobs and strategies of a transport. `build` is `URLBuilder.build`, `translate` is
`ErrorTranslator.translate` of a status, a text and a URL, and `sha256` is the hexadecimal digest. -/
structure TransportConfig where
  maxRetries : ℕ := 3
  retryableHttp : List ℕ := [429, 500, 502, 503, 504, 521, 1015]
  rateLimitStatuses : List ℕ := [429, 1015]
  wafStatuses : List ℕ := [403]
  cacheMaxEntries : ℕ := 1024
  authorization : (clientId accessToken : String) → Option String
  build : String → String
  translate : (status : ℕ) → (text url : String) → Option String
  sha256 : String → String

/-- `AuthStrategy.authorization`. -/
def bearer (_clientId accessToken : String) : Option String :=
  if accessToken = "" then none else some ("Bearer " ++ accessToken)

/-- `URLBuilder.build`. -/
def buildUrl (baseUrl path : String) : String :=
  if Text.startsWith path "http" then path else baseUrl ++ path

def translate (broker : String) (stub : String → String) (status : ℕ) (text url : String) : Option String :=
  let name := if broker = "" then "Broker" else broker
  if status = 403 then
    some s!"{name} endpoint blocked by CDN WAF (HTTP {status}) for {stub url}: {text.take 120}"
  else none

/-- A body and parameters are given as `json.dumps` writes them with sorted keys, and by the empty
text when they are missing or empty. -/
structure Request where
  method : String
  path : String
  jsonBody : String := ""
  params : String := ""
  cacheTtl : ℚ := 0
  dedup : Bool := true
  retries : Option ℕ := none
  authenticated : Bool := true
  deriving DecidableEq

/-- `token` is the token with whose credentials the response was obtained. -/
structure Response where
  statusCode : ℕ
  body : String
  token : Option Token
  deriving DecidableEq

inductive Failure
  | error (message : String)
  | cancelled
  deriving DecidableEq

inductive Stage
  | following (owner : ℕ)
  | preparing
  | onWire
  | returned (resp : Response) (shared : Bool)
  | raised (e : Failure)
  deriving DecidableEq

structure Call where
  request : Request
  made : Token
  auth : Option Token := none
  attempt : ℕ := 0
  stage : Stage
  deriving DecidableEq

/-- A call is named by its place; the future of a leader is settled when it ends, with what it
ends with. -/
structure Transport where
  token : Token
  now : ℚ := 0
  cache : Dict String (ℚ × Response) := []
  inflight : Dict String ℕ := []
  calls : List Call := []

inductive Event
  | setToken (token : Token)
  | elapse (seconds : NNRat)
  | request (r : Request)
  | wake (c : ℕ)
  | send (c : ℕ)
  | reply (c : ℕ) (status : ℕ) (body : String)
  | netError (c : ℕ) (error : String)
  | fault (c : ℕ) (error : String)
  | cancel (c : ℕ)

def Request.isGet (r : Request) : Bool := Text.upper r.method = "GET"

def Stage.leading : Stage → Bool
  | .preparing | .onWire => true
  | _ => false

section Keys

variable (cfg : TransportConfig)

def cacheKey (r : Request) : String :=
  cfg.sha256 s!"{Text.upper r.method} {cfg.build r.path} {r.jsonBody} {r.params}"

def retryableStatus (status : ℕ) : Bool := status ∈ cfg.retryableHttp ∨ 500 ≤ status

def triesAgain (status : ℕ) : Bool := status ∈ cfg.rateLimitStatuses ∨ retryableStatus cfg status

def retriesOf (r : Request) : ℕ := r.retries.getD cfg.maxRetries

def authOf (token : Token) (r : Request) : Option Token :=
  if r.authenticated ∧ (cfg.authorization token.clientId token.accessToken).getD "" ≠ "" then some token
  else none

end Keys

namespace Transport

variable (cfg : TransportConfig) (s : Transport)

def cached (r : Request) : Option Response :=
  if r.isGet ∧ 0 < r.cacheTtl then
    ((s.cache.get (cacheKey cfg r)).filter fun entry => s.now < entry.1).map Prod.snd
  else none

def joined (r : Request) : Option ℕ := if r.dedup then s.inflight.get (cacheKey cfg r) else none

def future (owner : ℕ) : Option (Except Failure Response) :=
  match (s.calls[owner]?).map Call.stage with
  | some (.returned resp _) => some (.ok resp)
  | some (.raised e) => some (.error e)
  | _ => none

def setCall (c : ℕ) (call : Call) : Transport := { s with calls := s.calls.set c call }

def register (c : ℕ) (r : Request) : Transport :=
  if r.dedup then { s with inflight := s.inflight.set (cacheKey cfg r) c } else s

def lead (r : Request) (made : Token) : Call :=
  { request := r, made, auth := authOf cfg s.token r, stage := .preparing }

def settle (c : ℕ) (call : Call) (stage : Stage) : Transport :=
  { s with
    calls := s.calls.set c { call with stage }
    inflight := if call.request.dedup then s.inflight.pop (cacheKey cfg call.request) else s.inflight }

def store (r : Request) (resp : Response) : Transport :=
  if r.isGet ∧ 0 < r.cacheTtl ∧ resp.statusCode < 400 then
    let cache := s.cache.set (cacheKey cfg r) (s.now + r.cacheTtl, resp)
    { s with cache := cache.drop (cache.length - cfg.cacheMaxEntries) }
  else s

def request (r : Request) : Transport :=
  match s.cached cfg r with
  | some resp =>
    { s with calls := s.calls ++ [{ request := r, made := s.token, stage := .returned resp true }] }
  | none =>
    match s.joined cfg r with
    | some owner =>
      { s with calls := s.calls ++ [{ request := r, made := s.token, stage := .following owner }] }
    | none => { s.register cfg s.calls.length r with calls := s.calls ++ [s.lead cfg r s.token] }

/-- The future a call waits for is settled. After an `Exception` it leads, without another look at
the cache or at the calls in flight; a `CancelledError` is none and is raised. -/
def wake (c : ℕ) (call : Call) (owner : ℕ) : Transport :=
  match s.future owner with
  | none => s
  | some (.ok resp) => s.setCall c { call with stage := .returned resp true }
  | some (.error (.error _)) => (s.register cfg c call.request).setCall c (s.lead cfg call.request call.made)
  | some (.error .cancelled) => s.setCall c { call with stage := .raised .cancelled }

def retry (c : ℕ) (call : Call) : Transport :=
  s.setCall c { call with attempt := call.attempt + 1, stage := .preparing }

/-- What `_execute_with_retries` makes of an answer. -/
def reply (c : ℕ) (call : Call) (status : ℕ) (body : String) : Transport :=
  match if status ∈ cfg.wafStatuses then cfg.translate status body (cfg.build call.request.path) else none with
  | some e => s.settle cfg c call (.raised (.error e))
  | none =>
    if triesAgain cfg status ∧ call.attempt < retriesOf cfg call.request then s.retry c call
    else
      let resp : Response := ⟨status, body, call.auth⟩
      (s.store cfg call.request resp).settle cfg c call (.returned resp false)

def turn (c : ℕ) (call : Call) : Event → Transport
  | .wake _ =>
    match call.stage with
    | .following owner => s.wake cfg c call owner
    | _ => s
  | .send _ => if call.stage = .preparing then s.setCall c { call with stage := .onWire } else s
  | .reply _ status body => if call.stage = .onWire then s.reply cfg c call status body else s
  | .netError _ error =>
    if call.stage = .onWire then
      if call.attempt < retriesOf cfg call.request then s.retry c call
      else s.settle cfg c call (.raised (.error error))
    else s
  | .fault _ error =>
    if call.stage.leading then s.settle cfg c call (.raised (.error error)) else s
  | .cancel _ =>
    match call.stage with
    | .following _ => s.setCall c { call with stage := .raised .cancelled }
    | .preparing | .onWire => s.settle cfg c call (.raised .cancelled)
    | _ => s
  | _ => s

end Transport

def Event.call : Event → Option ℕ
  | .wake c | .send c | .reply c _ _ | .netError c _ | .fault c _ | .cancel c => some c
  | _ => none

def step (cfg : TransportConfig) (s : Transport) (e : Event) : Transport :=
  match e with
  | .setToken token => { s with token }
  | .elapse seconds => { s with now := s.now + seconds }
  | .request r => s.request cfg r
  | e =>
    match e.call.bind fun c => (s.calls[c]?).map fun call => (c, call) with
    | some (c, call) => s.turn cfg c call e
    | none => s

def Event.Raises (c : ℕ) (f : Failure) : Event → Prop
  | .reply d _ _ | .netError d _ | .fault d _ => d = c ∧ f ≠ .cancelled
  | .cancel d => d = c ∧ f = .cancelled
  | _ => False

inductive Effect (cfg : TransportConfig) (s : Transport) : Event → Transport → Prop
  | quiet {e s'} (hcalls : s'.calls = s.calls) (hinflight : s'.inflight = s.inflight) : Effect cfg s e s'
  | shares {r s'} (resp : Response) (hcached : s.cached cfg r = some resp)
      (hcalls : Puts s.calls s.calls.length { request := r, made := s.token, stage := .returned resp true } s'.calls)
      (hinflight : s'.inflight = s.inflight) : Effect cfg s (.request r) s'
  | joins {r s'} (owner : ℕ) (hcached : s.cached cfg r = none) (hjoined : s.joined cfg r = some owner)
      (hcalls : Puts s.calls s.calls.length { request := r, made := s.token, stage := .following owner } s'.calls)
      (hinflight : s'.inflight = s.inflight) : Effect cfg s (.request r) s'
  | leads {r s'} (hcached : s.cached cfg r = none) (hjoined : s.joined cfg r = none)
      (hcalls : Puts s.calls s.calls.length (s.lead cfg r s.token) s'.calls)
      (hinflight : s'.inflight = (s.register cfg s.calls.length r).inflight) : Effect cfg s (.request r) s'
  | follows {c s'} {call : Call} {owner : ℕ} {resp : Response} (hcall : s.calls[c]? = some call)
      (hstage : call.stage = .following owner) (hfuture : s.future owner = some (.ok resp))
      (hcalls : Puts s.calls c { call with stage := .returned resp true } s'.calls)
      (hinflight : s'.inflight = s.inflight) : Effect cfg s (.wake c) s'
  | again {c s'} {call : Call} {owner : ℕ} {message : String} (hcall : s.calls[c]? = some call)
      (hstage : call.stage = .following owner) (hfuture : s.future owner = some (.error (.error message)))
      (hcalls : Puts s.calls c (s.lead cfg call.request call.made) s'.calls)
      (hinflight : s'.inflight = (s.register cfg c call.request).inflight) : Effect cfg s (.wake c) s'
  | dragged {c s'} {call : Call} {owner : ℕ} (hcall : s.calls[c]? = some call)
      (hstage : call.stage = .following owner) (hfuture : s.future owner = some (.error .cancelled))
      (hcalls : Puts s.calls c { call with stage := .raised .cancelled } s'.calls)
      (hinflight : s'.inflight = s.inflight) : Effect cfg s (.wake c) s'
  | leaves {c s'} {call : Call} {owner : ℕ} (hcall : s.calls[c]? = some call)
      (hstage : call.stage = .following owner)
      (hcalls : Puts s.calls c { call with stage := .raised .cancelled } s'.calls)
      (hinflight : s'.inflight = s.inflight) : Effect cfg s (.cancel c) s'
  | moves {e c s'} {call : Call} (attempt : ℕ) (stage : Stage) (hcall : s.calls[c]? = some call)
      (hstage : call.stage.leading = true) (hnext : stage.leading = true)
      (hcalls : Puts s.calls c { call with attempt, stage } s'.calls)
      (hinflight : s'.inflight = s.inflight) : Effect cfg s e s'
  | returns {e c s'} {call : Call} (resp : Response) (hevent : e.call = some c)
      (hcall : s.calls[c]? = some call) (hstage : call.stage.leading = true) (hresp : resp.token = call.auth)
      (hcalls : Puts s.calls c { call with stage := .returned resp false } s'.calls)
      (hinflight : s'.inflight = (s.settle cfg c call (.returned resp false)).inflight) : Effect cfg s e s'
  | fails {e c s'} {call : Call} (f : Failure) (hevent : e.call = some c)
      (hcall : s.calls[c]? = some call) (hstage : call.stage.leading = true) (hraises : e.Raises c f)
      (hcalls : Puts s.calls c { call with stage := .raised f } s'.calls)
      (hinflight : s'.inflight = (s.settle cfg c call (.raised f)).inflight) : Effect cfg s e s'

section Effects

variable {cfg : TransportConfig} {s : Transport}

theorem Transport.store_calls (r : Request) (resp : Response) : (s.store cfg r resp).calls = s.calls := by
  unfold store
  split <;> rfl

theorem Transport.store_inflight (r : Request) (resp : Response) :
    (s.store cfg r resp).inflight = s.inflight := by
  unfold store
  split <;> rfl

theorem Transport.register_calls (c : ℕ) (r : Request) : (s.register cfg c r).calls = s.calls := by
  unfold register
  split <;> rfl

theorem request_effect (r : Request) : Effect cfg s (.request r) (s.request cfg r) := by
  unfold Transport.request
  cases hcached : s.cached cfg r with
  | some resp => exact .shares resp hcached (puts_append _ _) rfl
  | none =>
    cases hjoined : s.joined cfg r with
    | some owner => exact .joins owner hcached hjoined (puts_append _ _) rfl
    | none => exact .leads hcached hjoined (puts_append _ _) rfl

variable {c : ℕ} {call : Call} (hcall : s.calls[c]? = some call)

include hcall

theorem wake_effect {owner : ℕ} (hstage : call.stage = .following owner) :
    Effect cfg s (.wake c) (s.wake cfg c call owner) := by
  unfold Transport.wake
  match hfuture : s.future owner with
  | none => exact .quiet rfl rfl
  | some (.ok resp) => exact .follows hcall hstage hfuture (puts_set hcall _) rfl
  | some (.error (.error message)) =>
    refine .again hcall hstage hfuture ?_ rfl
    simp only [Transport.setCall, Transport.register_calls]
    exact puts_set hcall _
  | some (.error .cancelled) => exact .dragged hcall hstage hfuture (puts_set hcall _) rfl

theorem raised_effect {e : Event} {f : Failure} (he : e.call = some c) (hraises : e.Raises c f)
    (hstage : call.stage.leading = true) : Effect cfg s e (s.settle cfg c call (.raised f)) :=
  .fails f he hcall hstage hraises (puts_set hcall _) rfl

theorem retry_effect {e : Event} (hstage : call.stage.leading = true) : Effect cfg s e (s.retry c call) :=
  .moves (call.attempt + 1) .preparing hcall hstage rfl (puts_set hcall _) rfl

theorem reply_effect (status : ℕ) (body : String) (hstage : call.stage = .onWire) :
    Effect cfg s (.reply c status body) (s.reply cfg c call status body) := by
  have hleading : call.stage.leading = true := by rw [hstage]; rfl
  unfold Transport.reply
  split
  · exact raised_effect hcall rfl ⟨rfl, Failure.noConfusion⟩ hleading
  · split
    · exact retry_effect hcall hleading
    · refine .returns ⟨status, body, call.auth⟩ rfl hcall hleading rfl ?_ ?_
      · simp only [Transport.settle, Transport.store_calls]
        exact puts_set hcall _
      · simp only [Transport.settle, Transport.store_inflight]

theorem turn_effect {e : Event} (he : e.call = some c) : Effect cfg s e (s.turn cfg c call e) := by
  cases e with
  | setToken token => cases he
  | elapse seconds => cases he
  | request r => cases he
  | wake d =>
    obtain rfl : d = c := Option.some.inj he
    unfold Transport.turn
    cases hstage : call.stage with
    | following owner => exact wake_effect hcall hstage
    | preparing => exact .quiet rfl rfl
    | onWire => exact .quiet rfl rfl
    | returned resp shared => exact .quiet rfl rfl
    | raised f => exact .quiet rfl rfl
  | send d =>
    unfold Transport.turn
    dsimp only
    split
    · next hstage =>
      exact .moves call.attempt .onWire hcall (by rw [hstage]; rfl) rfl
        (puts_set hcall _) rfl
    · exact .quiet rfl rfl
  | reply d status body =>
    obtain rfl : d = c := Option.some.inj he
    unfold Transport.turn
    dsimp only
    split
    · next hstage => exact reply_effect hcall status body hstage
    · exact .quiet rfl rfl
  | netError d error =>
    obtain rfl : d = c := Option.some.inj he
    unfold Transport.turn
    dsimp only
    split
    · next hstage =>
      have hleading : call.stage.leading = true := by rw [hstage]; rfl
      split
      · exact retry_effect hcall hleading
      · exact raised_effect hcall rfl ⟨rfl, Failure.noConfusion⟩ hleading
    · exact .quiet rfl rfl
  | fault d error =>
    obtain rfl : d = c := Option.some.inj he
    unfold Transport.turn
    dsimp only
    split
    · next hleading => exact raised_effect hcall rfl ⟨rfl, Failure.noConfusion⟩ hleading
    · exact .quiet rfl rfl
  | cancel d =>
    obtain rfl : d = c := Option.some.inj he
    unfold Transport.turn
    cases hstage : call.stage with
    | following owner => exact .leaves hcall hstage (puts_set hcall _) rfl
    | preparing => exact raised_effect hcall rfl ⟨rfl, rfl⟩ (by rw [hstage]; rfl)
    | onWire => exact raised_effect hcall rfl ⟨rfl, rfl⟩ (by rw [hstage]; rfl)
    | returned resp shared => exact .quiet rfl rfl
    | raised f => exact .quiet rfl rfl

omit hcall

theorem call_effect {e : Event} (he : e.call ≠ none) : Effect cfg s e (step cfg s e) := by
  obtain ⟨c, hc⟩ := Option.ne_none_iff_exists'.mp he
  have hstep : step cfg s e = match (s.calls[c]?).map fun call => (c, call) with
      | some (c, call) => s.turn cfg c call e
      | none => s := by
    cases e <;> cases hc <;> rfl
  rw [hstep]
  cases hcall : s.calls[c]? with
  | none => exact .quiet rfl rfl
  | some call => exact turn_effect hcall hc

theorem step_effect (cfg : TransportConfig) (s : Transport) (e : Event) : Effect cfg s e (step cfg s e) := by
  cases e with
  | setToken token => exact .quiet rfl rfl
  | elapse seconds => exact .quiet rfl rfl
  | request r => exact request_effect r
  | wake c => exact call_effect (by simp [Event.call])
  | send c => exact call_effect (by simp [Event.call])
  | reply c status body => exact call_effect (by simp [Event.call])
  | netError c error => exact call_effect (by simp [Event.call])
  | fault c error => exact call_effect (by simp [Event.call])
  | cancel c => exact call_effect (by simp [Event.call])

end Effects

end Trademetrix.Brokers
