import Mathlib.Data.List.Sort
import Trademetrix.Async.Pool
import Trademetrix.Market.Packets
import Trademetrix.Text

/-!
# The Dhan market feed

`DhanMarketFeed` as one session coroutine (`run` or a bare `connect_once`) beside
any number of `unsubscribe_now` calls; `subscribe`, `unsubscribe`,
`clear_subscriptions` and `stop` never wait and are actions of their own. A frame
is on the socket when `send` is called. The socket is what the server has live on
it. `phase` and `refused` are read by no code: where the session is, and the last
terminal disconnect of this run.
-/

namespace Trademetrix.Market

open Trademetrix.Async Proc

inductive FeedState
  | disconnected
  | connecting
  | connected
  | authenticated
  | subscribing
  | ready
  | reconnecting
  | failed
  | stopped
  deriving DecidableEq

inductive FeedMode
  | ticker
  | quote
  | full
  deriving DecidableEq

def feedModeToRequestCode : FeedMode → ℕ
  | .ticker => 15
  | .quote => 17
  | .full => 21

def unsubscribeCodeOffset : ℕ := 1

def maxInstrumentsPerFrame : ℕ := 100

/-- `(exchange_segment, security_id)`. -/
abbrev Identity := String × String

/-- `__post_init__` raises unless the last two fields can be filled. -/
structure DhanSubscription where
  exchangeSegment : String
  securityId : String
  mode : FeedMode
  digits : securityId ≠ "" ∧ securityId.toList.all Char.isDigit = true
  known : exchangeSegment ∈ segmentCodeToName.map Prod.snd

namespace DhanSubscription

def identity (sub : DhanSubscription) : Identity := (sub.exchangeSegment, sub.securityId)

def requestCode (sub : DhanSubscription) : ℕ := feedModeToRequestCode sub.mode

/-- What `_subscriptions` is keyed by. -/
def key (sub : DhanSubscription) : Identity × FeedMode := (sub.identity, sub.mode)

end DhanSubscription

structure InstrumentFrame where
  requestCode : ℕ
  instrumentList : List Identity

/-- `range(0, len(batch), n)` and its slices. -/
def batches {α : Type} (n : ℕ) : ℕ → List α → List (List α)
  | 0, _ => []
  | _, [] => []
  | fuel + 1, xs => xs.take n :: batches n fuel (xs.drop n)

def byCode (code : DhanSubscription → ℕ) (subscriptions : List DhanSubscription) :
    Dict ℕ (List DhanSubscription) :=
  subscriptions.foldl (fun d sub => d.set (code sub) ((d.get (code sub)).getD [] ++ [sub])) []

def buildFrames (code : DhanSubscription → ℕ) (subscriptions : List DhanSubscription) :
    List InstrumentFrame :=
  let groups := byCode code subscriptions
  ((groups.map Prod.fst).insertionSort (· ≤ ·)).flatMap fun c =>
    let batch := (groups.get c).getD []
    (batches maxInstrumentsPerFrame batch.length batch).map fun chunk =>
      ⟨c, chunk.map DhanSubscription.identity⟩

def buildSubscribeFrame (subscriptions : List DhanSubscription) : List InstrumentFrame :=
  buildFrames DhanSubscription.requestCode subscriptions

def buildUnsubscribeFrame (subscriptions : List DhanSubscription) : List InstrumentFrame :=
  buildFrames (fun sub => sub.requestCode + unsubscribeCodeOffset) subscriptions

/-- An exception: its text and whether it is a `ConnectionError`. -/
structure Exc where
  text : String
  connection : Bool

inductive TextMessage
  | unparseable
  | serverDisconnect (reason : Option String) (terminal : Bool)
  | other

/-- What `recv` returns. -/
inductive RawFrame
  | text (message : TextMessage)
  | binary (data : List UInt8)

inductive Phase
  | off
  /-- In a round of `run`'s loop that has found `_stop` unset. -/
  | round
  /-- In `_send_subscriptions`, with these frames still to be sent. -/
  | sending (frames : List InstrumentFrame)
  | pumping
  /-- At a frame, with `_stop` and the desired identities as they were when it came. -/
  | handling (raw : RawFrame) (stopped : Bool) (desired : List Identity)

structure Feed (F : Type) where
  stop : Bool
  state : FeedState
  /-- The pairs the server has live on the current socket. -/
  ws : Option (List (Identity × FeedMode))
  subscriptions : Dict (Identity × FeedMode) DhanSubscription
  acknowledged : List Identity
  quotes : Dict Identity (DhanMarketEvent F)
  lastError : String
  reconnectCount : ℕ
  phase : Phase
  refused : Option ℕ

/-- A new `DhanMarketFeed`. -/
def Feed.new (F : Type) : Feed F := ⟨false, .disconnected, none, [], [], [], "", 0, .off, none⟩

inductive Effect (F : Type)
  | setState (state : FeedState) (reason : String)
  | lastError (text : String)
  /-- `run` begins. -/
  | started
  /-- The condition of `run`'s loop is tested. -/
  | tested
  /-- `self._connect(url)` is called, in `run` or in a bare `connect_once`. -/
  | attempt (byRun : Bool)
  | opened
  | sending (frames : List InstrumentFrame)
  | sent (frame : InstrumentFrame)
  | abandoned
  | ready (reason : String)
  | received (raw : RawFrame)
  | handled
  | disconnected (code : ℕ)
  /-- `_quotes` is written and `on_event` is called. -/
  | event (e : DhanMarketEvent F)
  | reconnecting
  | detached
  | subscribed (subs : List DhanSubscription)
  | unsubscribed (subs : List DhanSubscription)
  | cleared
  /-- `unsubscribe_now` up to and with its first frame. -/
  | withdrawn (subs : List DhanSubscription)
  | withdrawnMore (frame : InstrumentFrame)
  | stop

inductive Await
  | connect
  | send
  | recv
  | wakeup
  | backoff (seconds : ℚ)
  | io

/-- The outcome of `wait_for(recv)`; a frame comes with the clock's reading and with what
`on_event` raises on its event. -/
inductive Recv
  | timeout
  | raised (exc : Exc)
  | frame (raw : RawFrame) (now : ℚ) (callback : Option Exc)

abbrev Reply : Await → Type
  | .connect => Option Exc
  | .send => Option Exc
  | .recv => Recv
  | .wakeup | .backoff _ | .io => Unit

namespace Feed

variable {F : Type}

def identities (s : Feed F) : List Identity := s.subscriptions.values.map DhanSubscription.identity

def subscribe (s : Feed F) (subs : List DhanSubscription) : Feed F :=
  { s with
    subscriptions := subs.foldl
      (fun d sub => if (d.get sub.key).isSome then d else d.set sub.key sub) s.subscriptions }

/-- What `unsubscribe` returns and leaves. -/
def withdraw (d : Dict (Identity × FeedMode) DhanSubscription) :
    List DhanSubscription → List DhanSubscription × Dict (Identity × FeedMode) DhanSubscription
  | [] => ([], d)
  | sub :: subs =>
    let rest := withdraw (d.pop sub.key) subs
    if (d.get sub.key).isSome then (sub :: rest.1, rest.2) else rest

def removedBy (s : Feed F) (subs : List DhanSubscription) : List DhanSubscription :=
  (withdraw s.subscriptions subs).1

def unsubscribe (s : Feed F) (subs : List DhanSubscription) : Feed F :=
  { s with subscriptions := (withdraw s.subscriptions subs).2 }

/-- The frames `unsubscribe_now` sends. -/
def unsubscribeFrames (s : Feed F) (subs : List DhanSubscription) : List InstrumentFrame :=
  let removed := s.removedBy subs
  if !removed.isEmpty && s.ws.isSome && decide (s.state = .ready) then buildUnsubscribeFrame removed
  else []

end Feed

/-- What a frame does to the pairs that are live: a request code puts its mode's pairs in,
the code above it takes them out. -/
def InstrumentFrame.obey (frame : InstrumentFrame) (live : List (Identity × FeedMode)) :
    List (Identity × FeedMode) :=
  let pairs (mode : FeedMode) := frame.instrumentList.map fun i => (i, mode)
  match frame.requestCode with
  | 15 => live ++ pairs .ticker
  | 17 => live ++ pairs .quote
  | 21 => live ++ pairs .full
  | 16 => live.filter fun p => p ∉ pairs .ticker
  | 18 => live.filter fun p => p ∉ pairs .quote
  | 22 => live.filter fun p => p ∉ pairs .full
  | _ => live

namespace Feed

variable {F : Type}

/-- `send` on the current socket. -/
def send (s : Feed F) (frame : InstrumentFrame) : Feed F := { s with ws := s.ws.map frame.obey }

def apply (e : Effect F) (s : Feed F) : Feed F :=
  match e with
  | .setState state _ => { s with state := state }
  | .lastError text => { s with lastError := text }
  | .started => { s with refused := none }
  | .tested => { s with phase := if s.stop then .off else .round }
  | .attempt _ => s
  | .opened => { s with ws := some [] }
  | .sending frames => { s with phase := .sending frames }
  | .sent frame =>
    match s.phase with
    | .sending frames => { s.send frame with phase := .sending frames.tail }
    | _ => s.send frame
  | .abandoned => { s with phase := .off }
  | .ready _ => { s with acknowledged := s.identities, state := .ready, phase := .pumping }
  | .received raw => { s with phase := .handling raw s.stop s.identities }
  | .handled => { s with phase := .pumping }
  | .disconnected code =>
    { s with refused := if code ∈ terminalDisconnectCodes then some code else s.refused }
  | .event e => { s with quotes := s.quotes.set (e.exchangeSegment, e.securityId) e }
  | .reconnecting => { s with reconnectCount := s.reconnectCount + 1 }
  | .detached => { s with ws := none }
  | .subscribed subs => s.subscribe subs
  | .unsubscribed subs => s.unsubscribe subs
  | .cleared => { s with subscriptions := [], acknowledged := [] }
  | .withdrawn subs =>
    let removed := s.removedBy subs
    let s' := { s.unsubscribe subs with
      acknowledged := s.acknowledged.filter fun i => i ∉ removed.map DhanSubscription.identity }
    match (s.unsubscribeFrames subs).head? with
    | some frame => s'.send frame
    | none => s'
  | .withdrawnMore frame => s.send frame
  | .stop => { s with stop := true, state := .stopped }

end Feed

section Session

variable {F : Type}

abbrev Call (F : Type) := Proc (Feed F) (Effect F) Reply

/-- `_open`; what it raises. -/
def openSocket (byRun : Bool) : Call F (Option Exc) := do
  emit (.setState .connecting "")
  emit (.attempt byRun)
  let failed ← wait Await.connect
  match failed with
  | some exc =>
    emit (.lastError s!"connect failed: {exc.text}")
    emit (.setState .failed s!"connect failed: {exc.text}")
    pure (some exc)
  | none =>
    emit .opened
    emit (.setState .connected "")
    emit (.setState .authenticated "")
    pure none

def sendFrames : List InstrumentFrame → Call F (Option Exc)
  | [] => pure none
  | frame :: frames => do
    emit (.sent frame)
    let failed ← wait Await.send
    match failed with
    | some exc =>
      emit .abandoned
      pure (some exc)
    | none => sendFrames frames

def sendSubscriptions : Call F (Option Exc) := do
  emit (.setState .subscribing "")
  let s ← look
  if s.subscriptions.isEmpty then
    emit (.sending [])
    emit (.ready "no subscriptions requested")
    pure none
  else
    emit (.sending (buildSubscribeFrame s.subscriptions.values))
    let failed ← sendFrames (buildSubscribeFrame s.subscriptions.values)
    match failed with
    | some exc => pure (some exc)
    | none =>
      let t ← look
      emit (.ready s!"subscribed {t.identities.dedup.length} instruments")
      pure none

def connectOnce (byRun : Bool) : Call F (Option Exc) := do
  let failed ← openSocket byRun
  match failed with
  | some exc => pure (some exc)
  | none => sendSubscriptions

/-- The rest of `unsubscribe_now` after its first frame is on the socket. -/
def sendMore : List InstrumentFrame → Call F Unit
  | [] => pure ()
  | frame :: frames => do
    emit (.withdrawnMore frame)
    let failed ← wait Await.send
    match failed with
    | some _ => pure ()
    | none => sendMore frames

def unsubscribeNow (subs : List DhanSubscription) : Call F Unit := do
  let s ← look
  emit (.withdrawn subs)
  match s.unsubscribeFrames subs with
  | [] => pure ()
  | _ :: frames =>
    let failed ← wait Await.send
    match failed with
    | some _ => pure ()
    | none => sendMore frames

variable (flt : SinglePrecision F)

/-- `_handle_frame`; `callback` is what `on_event` raises. -/
def handleFrame (raw : RawFrame) (now : ℚ) (callback : Option Exc) : Call F (Option Exc) :=
  match raw with
  | .text .unparseable | .text .other => pure none
  | .text (.serverDisconnect none _) => pure (some ⟨"'reason'", false⟩)
  | .text (.serverDisconnect (some reason) terminal) => do
    emit (.lastError reason)
    if terminal then emit (.setState .failed reason) else pure ()
    pure (some ⟨reason, true⟩)
  | .binary data =>
    match parsePacket flt now data with
    | .error _ => pure none
    | .ok (.marketStatus _) => pure none
    | .ok (.serverDisconnect code reason _) => do
      emit (.disconnected code)
      emit (.lastError reason)
      emit (.setState .failed reason)
      pure (some ⟨reason, true⟩)
    | .ok (.event e) => do
      emit (.event e)
      pure callback

/-- `_pump`, for `rounds` of its loop; `none` while it goes on. -/
def pump : ℕ → Call F (Option Exc)
  | 0 => pure none
  | rounds + 1 => do
    let got ← wait Await.recv
    match got with
    | .timeout => pump rounds
    | .raised exc =>
      emit (.lastError s!"recv failed: {exc.text}")
      pure (some exc)
    | .frame raw now callback =>
      emit (.received raw)
      let raised ← handleFrame flt raw now callback
      emit .handled
      match raised with
      | some exc => pure (some exc)
      | none => pump rounds

def closeWs : Call F Unit := do
  let s ← look
  emit .detached
  if s.ws.isSome then
    wait Await.io
    wait Await.io
  else pure ()

def reconnectBaseSeconds : ℚ := 1

def reconnectMaxSeconds : ℚ := 30

/-- The handler of `run`'s loop: the next delay, or `none` when it leaves the loop. -/
def dropped (exc : Exc) (delay : ℚ) : Call F (Option ℚ) := do
  emit (.lastError exc.text)
  let s ← look
  if s.state = .stopped then pure none
  else if exc.connection && Text.contains (Text.lower exc.text) "expired" then
    emit (.setState .failed exc.text)
    pure none
  else
    emit .reconnecting
    emit (.setState .reconnecting exc.text)
    wait (Await.backoff delay)
    closeWs
    pure (some (min (delay * 2) reconnectMaxSeconds))

/-- What a round of `run`'s loop ends with: an exception and the delay in force, or `none`
while it goes on. -/
def connectAndPump (frames : ℕ) (delay : ℚ) : Call F (Option (Exc × ℚ)) := do
  let failed ← connectOnce true
  match failed with
  | some exc => pure (some (exc, delay))
  | none =>
    let raised ← pump flt frames
    match raised with
    | none => pure none
    | some exc =>
      -- the pump is a task of its own; `run` wakes up after it
      wait Await.wakeup
      pure (some (exc, reconnectBaseSeconds))

/-- `run`'s loop for `rounds` rounds; whether it has been left. -/
def runLoop (frames : ℕ) : ℕ → ℚ → Call F Bool
  | 0, _ => pure false
  | rounds + 1, delay => do
    emit .tested
    let s ← look
    if s.stop then pure true
    else
      let ended ← connectAndPump flt frames delay
      match ended with
      | none => pure false
      | some (exc, delay) =>
        let again ← dropped exc delay
        match again with
        | none => pure true
        | some delay => runLoop frames rounds delay

def run (frames rounds : ℕ) : Call F Unit := do
  emit .started
  let left ← runLoop flt frames rounds reconnectBaseSeconds
  if left then
    let s ← look
    emit (.setState .stopped s.lastError)
    closeWs
  else pure ()

end Session

inductive Entry
  | run (frames rounds : ℕ)
  | connectOnce
  | unsubscribeNow (subs : List DhanSubscription)

/-- One session at a time, and calls of `unsubscribe_now` beside it. -/
def feedSystem {F : Type} (flt : SinglePrecision F) :
    System (Feed F) (Effect F) Reply Bool Entry where
  apply := Feed.apply
  tag
    | .run _ _ | .connectOnce => true
    | .unsubscribeNow _ => false
  code
    | .run frames rounds => run flt frames rounds
    | .connectOnce => do
      let _ ← connectOnce false
      pure ()
    | .unsubscribeNow subs => unsubscribeNow subs
  blocks a b := a && b
  ready _ _ _ := true
  env _
    | .subscribed _ | .unsubscribed _ | .cleared | .stop => true
    | _ => false

end Trademetrix.Market
