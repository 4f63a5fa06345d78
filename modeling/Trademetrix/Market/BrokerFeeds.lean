import Trademetrix.Async.Pool
import Trademetrix.Dict
import Trademetrix.Text

/-!
# Broker feeds and their supervisors

`SharedDataSocket` keeps one feed task for each broker type in `_broker_feeds`;
the done callback of a task takes out whatever is registered under its type.
`SubscriptionManager._run_feed_once` is a supervisor: it starts the feed, sleeps
and goes round again. A round of it is the text between two of its sleeps, and a
sleeping supervisor that has been cancelled ends when it wakes.
-/

namespace Trademetrix.Market

open Async

/-- An `Exception`; `runtime` when it is a `RuntimeError`. -/
structure Failure where
  runtime : Bool := false
  typeName : String
  text : String
  deriving DecidableEq

inductive Thrown
  | cancelled
  | failed (e : Failure)
  deriving DecidableEq

def permanentErrorMarkers : List String :=
  ["failed to decrypt", "cannot decrypt broker credentials", "key rotation may be incomplete",
    "invalid access_token", "invalid_access_token", "invalid_authentication",
    "access token has expired", "token has expired", "invalid_api_key", "invalid_token",
    "invalidapikey", "user is disabled", "account is deactivated"]

def isPermanentFeedError (e : Failure) : Bool :=
  permanentErrorMarkers.any fun marker =>
    Text.contains (Text.lower (e.typeName ++ ": " ++ e.text)) marker

def Failure.saysRunning (e : Failure) : Bool := e.runtime && Text.contains e.text "already running"

/-- A task of `feed_runner`. -/
structure FeedTask where
  broker : String
  begun : Bool := false
  cancelled : Bool := false
  done : Bool := false
  deriving DecidableEq

/-- How `_run_feed_once` ended. -/
inductive Ending
  | shutDown | alreadyRunning | permanent | cancelled
  deriving DecidableEq

/-- A task of `_run_feed_once`; `refused` when the feed of its last call was already running. -/
structure Supervisor where
  broker : String
  userId : String
  symbols : List String
  cancelled : Bool := false
  refused : Bool := false
  ended : Option Ending := none
  deriving DecidableEq

/-- `feeds` and `sups` are the tasks created so far; adapters are numbered. -/
structure Feeds where
  brokerFeeds : Dict String ℕ := []
  brokerAdapters : Dict String ℕ := []
  adapters : ℕ := 0
  feeds : List FeedTask := []
  running : Bool := false
  activeFeeds : Dict String ℕ := []
  reconnectBackoff : Dict String ℕ := []
  sups : List Supervisor := []
  deriving DecidableEq

/-- `create_broker` as the registry has it. -/
structure FeedSettings where
  createBroker : String → Except Failure Unit

/-- Who calls `start_broker_feed`. -/
inductive Caller
  | direct
  | sup (k : ℕ)
  deriving DecidableEq

inductive FeedTag
  | api
  | feed (f : ℕ)
  | sup (k : ℕ)
  deriving DecidableEq

inductive BrokerFeedEffect
  | makes (broker : String)
  | registers (broker : String)
  | begins (f : ℕ)
  | ends (f : ℕ)
  | unregisters (f : ℕ)
  | stops (broker : String)
  | stopsAll
  | runs (running : Bool)
  | supervises (broker userId : String) (symbols : List String)
  | tries (k : ℕ)
  | returns (k : ℕ) (ending : Ending)
  | cancels (k : ℕ)
  | popsActive (broker : String)
  | setsBackoff (broker : String) (n : ℕ)
  | popsBackoff (broker : String)
  deriving DecidableEq

namespace Feeds

/-- `start_broker_feed` raises what reads "already running". -/
def refuses (cfg : FeedSettings) (s : Feeds) (broker : String) : Bool :=
  (s.brokerFeeds.get broker).isSome ||
    match cfg.createBroker broker with
    | .error e => e.saysRunning
    | .ok () => false

def onFeed (s : Feeds) (f : ℕ) (g : FeedTask → FeedTask) : Feeds :=
  { s with feeds := s.feeds.modify f g }

def onSup (s : Feeds) (k : ℕ) (g : Supervisor → Supervisor) : Feeds :=
  { s with sups := s.sups.modify k g }

/-- `task.cancel()` on what is registered. -/
def cancelFeed (s : Feeds) : Option ℕ → Feeds
  | none => s
  | some f => s.onFeed f fun t => { t with cancelled := true }

def apply (cfg : FeedSettings) (e : BrokerFeedEffect) (s : Feeds) : Feeds :=
  match e with
  | .makes broker =>
    { s with brokerAdapters := s.brokerAdapters.set broker s.adapters, adapters := s.adapters + 1 }
  | .registers broker =>
    { s with
      feeds := s.feeds ++ [{ broker := broker }]
      brokerFeeds := s.brokerFeeds.set broker s.feeds.length }
  | .begins f => s.onFeed f fun t => { t with begun := true }
  | .ends f => s.onFeed f fun t => { t with done := true }
  | .unregisters f =>
    match s.feeds[f]? with
    | none => s
    | some t => { s with brokerFeeds := s.brokerFeeds.pop t.broker }
  | .stops broker =>
    let s' := s.cancelFeed (s.brokerFeeds.get broker)
    { s' with
      brokerFeeds := s.brokerFeeds.pop broker, brokerAdapters := s.brokerAdapters.pop broker }
  | .stopsAll =>
    let s' := s.brokerFeeds.values.foldl (fun s f => s.cancelFeed (some f)) s
    { s' with brokerFeeds := [] }
  | .runs running => { s with running := running }
  | .supervises broker userId symbols =>
    { s with
      sups := s.sups ++ [{ broker := broker, userId := userId, symbols := symbols }]
      activeFeeds := s.activeFeeds.set broker s.sups.length }
  | .tries k => s.onSup k fun sup => { sup with refused := s.refuses cfg sup.broker }
  | .returns k ending => s.onSup k fun sup => { sup with ended := some ending }
  | .cancels k => s.onSup k fun sup => { sup with cancelled := true }
  | .popsActive broker => { s with activeFeeds := s.activeFeeds.pop broker }
  | .setsBackoff broker n => { s with reconnectBackoff := s.reconnectBackoff.set broker n }
  | .popsBackoff broker => { s with reconnectBackoff := s.reconnectBackoff.pop broker }

end Feeds

/-- What `start_broker_feed` awaits. -/
inductive FeedIo
  | credentials (userId broker : String)
  | authenticate (broker : String)
  | backfill (userId broker : String) (symbols : List String)

inductive FeedPoint
  | io (who : Caller) (what : FeedIo)
  | turn (f : ℕ)
  | stream (f : ℕ)
  | disconnect (f : ℕ)
  | callback (f : ℕ)
  | joined (k : ℕ)

inductive IoEnd
  | done | raised | cancelled
  deriving DecidableEq

/-- `turn` says whether a feed task begins or was cancelled before. -/
def BrokerFeedReply : FeedPoint → Type
  | .io _ _ => IoEnd
  | .turn _ => Bool
  | .stream _ => IoEnd
  | .disconnect _ | .callback _ | .joined _ => Unit

abbrev B := Proc Feeds BrokerFeedEffect BrokerFeedReply

abbrev RaisingB := ExceptT Thrown B

namespace BrokerFeeds

def emit (e : BrokerFeedEffect) : B Unit := Proc.emit e

def look : B Feeds := Proc.look

def wait (i : FeedPoint) : B (BrokerFeedReply i) := Proc.wait i

def attempt (who : Caller) (what : FeedIo) : RaisingB Unit :=
  ExceptT.mk (do
    let r : IoEnd ← wait (.io who what)
    match r with
    | .cancelled => pure (.error .cancelled)
    | _ => pure (.ok ()))

section Socket

variable (cfg : FeedSettings)

/-- `start_broker_feed` past its check. -/
def launchFeed (who : Caller) (userId broker : String) (symbols : List String) : RaisingB Unit :=
  match cfg.createBroker broker with
  | .error e => throw (.failed e)
  | .ok () => do
    emit (.makes broker)
    attempt who (.credentials userId broker)
    attempt who (.authenticate broker)
    emit (.registers broker)
    attempt who (.backfill userId broker symbols)

def startBrokerFeed (who : Caller) (userId broker : String) (symbols : List String) :
    RaisingB Unit :=
  ExceptT.mk (do
    let s ← look
    if (s.brokerFeeds.get broker).isSome then
      pure (.error (.failed
        { runtime := true, typeName := "RuntimeError"
          text := "Broker feed already running for " ++ broker }))
    else (launchFeed cfg who userId broker symbols).run)

/-- `feed_runner` from its first step to its last. -/
def streamFeed (f : ℕ) (started : Bool) : B Unit :=
  match started with
  | false => pure ()
  | true => do
    let _ : IoEnd ← wait (.stream f)
    wait (.disconnect f)

def feedRunner (f : ℕ) : B Unit := do
  let started : Bool ← wait (.turn f)
  emit (.begins f)
  streamFeed f started
  emit (.ends f)
  let _ : Unit ← wait (.callback f)
  emit (.unregisters f)

def stopBrokerFeed (broker : String) : B Unit := emit (.stops broker)

def stopEach : List String → B Unit
  | [] => pure ()
  | broker :: rest => do
    stopBrokerFeed broker
    stopEach rest

/-- `stop_all_feeds` of the socket. -/
def stopAllFeeds : B Unit := do
  let s ← look
  stopEach (s.brokerFeeds.map Prod.fst)

/-- `SharedDataSocket.stop`. -/
def stopSocket : B Unit := emit .stopsAll

end Socket

section Manager

variable (cfg : FeedSettings)

def backOff (k : ℕ) (broker : String) : B Unit := do
  let s ← look
  if s.running = false then emit (.returns k .shutDown)
  else emit (.setsBackoff broker ((s.reconnectBackoff.get broker).getD 0 + 1))

def afterCall (k : ℕ) (broker : String) : Except Thrown Unit → B Unit
  | .ok () => do
    emit (.setsBackoff broker 0)
    backOff k broker
  | .error .cancelled => emit (.returns k .cancelled)
  | .error (.failed e) =>
    if e.saysRunning then emit (.returns k .alreadyRunning)
    else if !e.runtime && isPermanentFeedError e then do
      emit (.popsActive broker)
      emit (.returns k .permanent)
    else backOff k broker

/-- A round of `_run_feed_once`, from the task's start or a wake to its next sleep. -/
def runFeedOnce (k : ℕ) (sup : Supervisor) : B Unit := do
  if sup.cancelled then emit (.returns k .cancelled)
  else
    let s ← look
    if s.running = false then emit (.returns k .shutDown)
    else
      emit (.tries k)
      let r ← (startBrokerFeed cfg (.sup k) sup.userId sup.broker sup.symbols).run
      afterCall k sup.broker r

def stopFeed (broker : String) : B Unit := do
  let s ← look
  match s.activeFeeds.get broker with
  | none =>
    stopBrokerFeed broker
    emit (.popsBackoff broker)
  | some k =>
    emit (.popsActive broker)
    emit (.cancels k)
    let _ : Unit ← wait (.joined k)
    stopBrokerFeed broker
    emit (.popsBackoff broker)

def supervise (userId broker : String) (symbols : List String) : B Unit := do
  emit (.setsBackoff broker 0)
  emit (.supervises broker userId symbols)

def startFeed (userId broker : String) (symbols : List String) : B Unit := do
  let s ← look
  if (s.activeFeeds.get broker).isSome then
    stopFeed broker
    supervise userId broker symbols
  else supervise userId broker symbols

def stopEachFeed : List String → B Unit
  | [] => pure ()
  | broker :: rest => do
    stopFeed broker
    stopEachFeed rest

/-- `SubscriptionManager.stop`. -/
def stopManager : B Unit := do
  emit (.runs false)
  let s ← look
  stopEachFeed (s.activeFeeds.map Prod.fst)
  stopAllFeeds

end Manager

end BrokerFeeds

inductive FeedCall
  | startBrokerFeed (userId broker : String) (symbols : List String)
  | feedRunner (f : ℕ)
  | stopBrokerFeed (broker : String)
  | stopAllFeeds
  | stopSocket
  | startManager
  | startFeed (userId broker : String) (symbols : List String)
  | runFeedOnce (k : ℕ)
  | stopFeed (broker : String)
  | stopManager

namespace FeedCall

open BrokerFeeds

def tag : FeedCall → FeedTag
  | feedRunner f => .feed f
  | runFeedOnce k => .sup k
  | _ => .api

def code (cfg : FeedSettings) : FeedCall → B Unit
  | startBrokerFeed userId broker symbols => do
    let _ ← (BrokerFeeds.startBrokerFeed cfg .direct userId broker symbols).run
  | feedRunner f => BrokerFeeds.feedRunner f
  | stopBrokerFeed broker => BrokerFeeds.stopBrokerFeed broker
  | stopAllFeeds => BrokerFeeds.stopAllFeeds
  | stopSocket => BrokerFeeds.stopSocket
  | startManager => emit (.runs true)
  | startFeed userId broker symbols => BrokerFeeds.startFeed userId broker symbols
  | runFeedOnce k => do
    let s ← look
    match s.sups[k]? with
    | none => pure ()
    | some sup => if sup.ended.isSome then pure () else BrokerFeeds.runFeedOnce cfg k sup
  | stopFeed broker => BrokerFeeds.stopFeed broker
  | stopManager => BrokerFeeds.stopManager

end FeedCall

/-- A feed task begins once; what a supervisor awaits is cancelled when `stop_feed` has
cancelled it. -/
def feedsReady : (i : FeedPoint) → BrokerFeedReply i → Feeds → Bool
  | .io (.sup k) _, r, s =>
    let r : IoEnd := r
    r ≠ .cancelled || (s.sups[k]?.any fun sup => sup.cancelled)
  | .turn f, r, s =>
    let r : Bool := r
    s.feeds[f]?.any fun t => !t.begun && r != t.cancelled
  | .stream f, r, s =>
    let r : IoEnd := r
    r ≠ .cancelled || (s.feeds[f]?.any fun t => t.cancelled)
  | .joined k, _, s => s.sups[k]?.any fun sup => sup.ended.isSome
  | _, _, _ => true

def brokerFeedSystem (cfg : FeedSettings) :
    System Feeds BrokerFeedEffect BrokerFeedReply FeedTag FeedCall where
  apply := Feeds.apply cfg
  tag := FeedCall.tag
  code := FeedCall.code cfg
  blocks a b := a = b && a ≠ .api
  ready := feedsReady
  env _ _ := false

end Trademetrix.Market
