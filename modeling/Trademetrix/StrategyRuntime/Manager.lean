import Trademetrix.Async.Pool
import Trademetrix.Risk.KillSwitch
import Trademetrix.StrategyRuntime.Models
import Trademetrix.Text

/-!
# The strategy runtime manager

The lifecycle verbs and event handlers as coroutines over the registry, the
checkpoints and the halts. A suspended `_start_running` is a frame in `starting`,
under the call it belongs to; no code reads that field.
-/

namespace Trademetrix.StrategyRuntime

open Trademetrix.Async

structure Runtime where
  registry : Dict String RuntimeRecord
  /-- The state store, by user and strategy. -/
  checkpoints : Dict (String × String) Checkpoint
  brokerStates : Dict String String
  /-- Strategies with a live task of the legacy graph runner. -/
  runningTasks : List String
  killSwitch : Risk.KillSwitch
  starting : Dict ℕ String

inductive Effect
  /-- An operator's command to one of the halts. -/
  | halt (c : Risk.Command)
  | legacyStarted (id : String)
  | legacyStopped (id : String)
  /-- The record a start works on, with its spec; the frame of call `n` begins. -/
  | prepared (n : ℕ) (spec : StrategySpec)
  /-- `restart_strategy` puts the record back to STOPPED; the frame of call `n` begins. -/
  | reset (n : ℕ) (id : String)
  | starting (id : String)
  | running (n : ℕ) (id : String)
  /-- The worker's `start` raised out of `_start_running`. -/
  | abandoned (n : ℕ)
  | halted (id : String)
  | stopped (id : String)
  | paused (id reason : String)
  | resumed (id : String)
  | restarted (id : String)
  | failed (id : String)
  | adopted (spec : StrategySpec) (restartCount : ℕ)
  | recovered (id : String) (restartCount : ℕ)
  | saved (c : Checkpoint)
  | removed (userId id : String)
  | broker (name state : String)
  /-- The process ends; a new one has empty memory. -/
  | crash
  deriving DecidableEq

inductive Await
  /-- `cache.get` of the global flag. -/
  | cacheGet
  | workerStart
  /-- A write of the state store. -/
  | store
  /-- `load_all` of the state store. -/
  | loadAll
  /-- Any other await: audit rows, a worker's stop, a cancelled legacy task. -/
  | io
  deriving DecidableEq

/-- `workerStart` and `store` answer whether they went through. -/
abbrev Reply : Await → Type
  | .cacheGet => Option String
  | .workerStart => Bool
  | .store => Bool
  | .loadAll => List Checkpoint
  | .io => Unit

abbrev Call := Proc Runtime Effect Reply

namespace Effect

def change : Effect → Option (String × (RuntimeRecord → RuntimeRecord))
  | .reset _ id => some (id, fun r => { r with state := .stopped })
  | .starting id => some (id, fun r => { r with state := .starting, worker := true })
  | .running _ id => some (id, fun r => { r with state := .running })
  | .halted id => some (id, fun r => { r with worker := false })
  | .stopped id => some (id, fun r => { r with state := .stopped, worker := false })
  | .paused id reason => some (id, fun r => { r with state := .paused, pausedReason := reason })
  | .resumed id => some (id, fun r => { r with state := .running, pausedReason := "" })
  | .restarted id => some (id, fun r => { r with restartCount := r.restartCount + 1 })
  | .failed id => some (id, fun r => { r with state := .failed, worker := false })
  | .recovered id n => some (id, fun r => { r with restartCount := max r.restartCount n + 1 })
  | _ => none

def changed (e : Effect) (d : Dict String RuntimeRecord) : Dict String RuntimeRecord :=
  match e.change with
  | none => d
  | some (id, f) => d.modify id f

def onRegistry (e : Effect) (d : Dict String RuntimeRecord) : Dict String RuntimeRecord :=
  match e with
  | .prepared _ spec =>
    match d.get spec.strategyId with
    | some r => d.set spec.strategyId { r with spec := spec }
    | none => d.set spec.strategyId ⟨spec, .created, 0, false, ""⟩
  | .adopted spec n => d.set spec.strategyId ⟨spec, .running, n, false, ""⟩
  | .crash => []
  | e => e.changed d

def onStarting (e : Effect) (d : Dict ℕ String) : Dict ℕ String :=
  match e with
  | .prepared n spec => d.set n spec.strategyId
  | .reset n id => d.set n id
  | .running n _ | .abandoned n => d.pop n
  | .crash => []
  | _ => d

def onKillSwitch (e : Effect) (k : Risk.KillSwitch) : Risk.KillSwitch :=
  match e with
  | .halt c => k.obey c
  | .crash => k.restart
  | _ => k

def onCheckpoints (e : Effect) (d : Dict (String × String) Checkpoint) :
    Dict (String × String) Checkpoint :=
  match e with
  | .saved c => d.set (c.spec.userId, c.spec.strategyId) c
  | .removed userId id => d.pop (userId, id)
  | _ => d

def onRunningTasks (e : Effect) (ids : List String) : List String :=
  match e with
  | .legacyStarted id => id :: ids
  | .legacyStopped id => ids.filter (· ≠ id)
  | .crash => []
  | _ => ids

def onBrokerStates (e : Effect) (d : Dict String String) : Dict String String :=
  match e with
  | .broker name state => d.set name state
  | .crash => []
  | _ => d

end Effect

def Runtime.apply (e : Effect) (s : Runtime) : Runtime where
  registry := e.onRegistry s.registry
  checkpoints := e.onCheckpoints s.checkpoints
  brokerStates := e.onBrokerStates s.brokerStates
  runningTasks := e.onRunningTasks s.runningTasks
  killSwitch := e.onKillSwitch s.killSwitch
  starting := e.onStarting s.starting

inductive Outcome
  | refused (code : String)
  | alreadyRunning | started | stopped | paused | resumed
  | restarted (restartCount : ℕ)
  | notFound | forbidden
  | invalidState (state : RuntimeState)
  /-- An exception leaves the verb. -/
  | raised
  | done
  deriving DecidableEq

open Proc

def save (id : String) : Call Unit := do
  let s ← look
  match s.registry.get id with
  | none => pure ()
  | some r =>
    let ok ← wait .store
    if ok then emit (.saved ⟨r.state, r.restartCount, r.pausedReason, r.spec⟩) else pure ()

def removeCheckpoint (id : String) : Call Unit := do
  let s ← look
  match s.registry.get id with
  | none => pure ()
  | some r =>
    let ok ← wait .store
    if ok then emit (.removed r.spec.userId id) else pure ()

def stopLegacy (id : String) : Call Unit := do
  let s ← look
  if id ∈ s.runningTasks then
    emit (.legacyStopped id)
    wait Await.io
  else pure ()

def haltWorker (id : String) : Call Unit := do
  let s ← look
  emit (.halted id)
  match s.registry.get id with
  | some ⟨_, _, _, true, _⟩ => wait Await.io
  | _ => pure ()
  stopLegacy id

/-- The checks of `_guard_start` on the spec alone. -/
@[irreducible] def modeRefusal (spec : StrategySpec) : Option String :=
  let mode := Text.lower (Text.strip spec.mode)
  if mode ≠ "paper" ∧ mode ≠ "live" then some "MODE_UNKNOWN"
  else if mode = "live" ∧ !spec.confirmed then some "LIVE_CONFIRMATION_REQUIRED"
  else if mode = "live" ∧ (spec.isPaper ∨ spec.broker = "" ∨ spec.broker = "paper") then
    some "MODE_NO_BROKER"
  else none

/-- `_guard_start`: why a start is refused. -/
def guardStart (spec : StrategySpec) : Call (Option String) := do
  match modeRefusal spec with
  | some code => pure (some code)
  | none =>
    let val ← wait .cacheGet
    if Risk.KillSwitch.globalKillSwitchActive val then pure (some "GLOBAL_KILL_SWITCH")
    else
      let s ← look
      if Risk.active s.killSwitch.emergencyStops spec.userId then
        pure (some "EMERGENCY_STOP_ACTIVE")
      else pure none

def startRunning (n : ℕ) (id : String) : Call Outcome := do
  stopLegacy id
  emit (.starting id)
  let ok ← wait .workerStart
  if ok then
    emit (.running n id)
    save id
    wait Await.io
    pure .started
  else
    emit (.abandoned n)
    pure .raised

def startStrategy (n : ℕ) (spec : StrategySpec) : Call Outcome := do
  let refusal ← guardStart spec
  match refusal with
  | some code => pure (.refused code)
  | none =>
    let s ← look
    match s.registry.get spec.strategyId with
    | some existing =>
      if existing.state = .starting ∨ existing.state = .running then pure .alreadyRunning
      else if canTransition existing.state .starting then
        emit (.prepared n spec)
        startRunning n spec.strategyId
      else pure .raised
    | none =>
      emit (.prepared n spec)
      startRunning n spec.strategyId

def withRecord (id userId : String) (verb : RuntimeRecord → Call Outcome) : Call Outcome := do
  let s ← look
  match s.registry.get id with
  | none => pure .notFound
  | some r =>
    if userId ≠ "" ∧ r.spec.userId ≠ userId then pure .forbidden else verb r

def stopStrategy (id userId : String) : Call Outcome :=
  withRecord id userId fun r =>
    if r.state = .stopped then pure .stopped
    else if canTransition r.state .stopped then do
      haltWorker id
      emit (.stopped id)
      removeCheckpoint id
      wait Await.io
      pure .stopped
    else pure .raised

def pauseStrategy (id userId reason : String) : Call Outcome :=
  withRecord id userId fun r =>
    if canTransition r.state .paused then do
      emit (.paused id reason)
      save id
      wait Await.io
      pure .paused
    else pure .raised

def resumeStrategy (id userId : String) : Call Outcome :=
  withRecord id userId fun r =>
    if canTransition r.state .running then do
      emit (.resumed id)
      save id
      wait Await.io
      pure .resumed
    else pure .raised

def restartStrategy (n : ℕ) (id userId : String) : Call Outcome :=
  withRecord id userId fun r =>
    if r.state ∈ [.running, .paused, .failed, .stopped] then do
      haltWorker id
      emit (.reset n id)
      let out ← startRunning n id
      if out = .raised then pure .raised
      else
        emit (.restarted id)
        save id
        let s ← look
        pure (.restarted (((s.registry.get id).map RuntimeRecord.restartCount).getD 0))
    else pure (.invalidState r.state)

def forEach (f : String → Call Outcome) : List String → Call Outcome
  | [] => pure .done
  | id :: ids => do
    let out ← f id
    if out = .raised then pure .raised else forEach f ids

/-- A loop over `list_all`, each record looked at when its turn comes. -/
def forRecords (body : RuntimeRecord → Call Outcome) : Call Outcome := do
  let s ← look
  forEach (fun id => do
    let s ← look
    match s.registry.get id with
    | none => pure .done
    | some r => body r) (s.registry.map Prod.fst)

def pauseAll (userId reason : String) : Call Outcome :=
  forRecords fun r =>
    if r.spec.userId = userId ∧ r.state = .running then
      pauseStrategy r.spec.strategyId userId reason
    else pure .done

def emergencyStop (userId strategyId : String) : Call Outcome := do
  emit (.halt (.triggerEmergencyStop (if userId = "" then "system" else userId)))
  wait Await.io
  if strategyId ≠ "" then pauseStrategy strategyId userId "emergency_stop"
  else pauseAll userId "emergency_stop"

def releaseEmergencyStop (userId : String) : Call Outcome := do
  emit (.halt (.releaseEmergencyStop (if userId = "" then "local" else userId)))
  wait Await.io
  pure .done

def onSessionOpen (n : ℕ) : Call Outcome :=
  forRecords fun r =>
    if r.spec.trigger = .marketOpen ∧ (r.state = .created ∨ r.state = .stopped) then
      startStrategy n r.spec
    else pure .done

def onSessionClose : Call Outcome :=
  forRecords fun r =>
    if r.spec.trigger = .marketClose ∧ (r.state = .running ∨ r.state = .paused) then
      stopStrategy r.spec.strategyId ""
    else pure .done

def onBrokerDisconnect (broker : String) : Call Outcome := do
  emit (.broker broker "disconnected")
  forRecords fun r =>
    if r.spec.broker = broker ∧ r.state = .running then
      pauseStrategy r.spec.strategyId "" "broker_disconnect"
    else pure .done

def onBrokerReconnect (broker : String) : Call Outcome := do
  emit (.broker broker "connected")
  forRecords fun r =>
    if r.spec.broker = broker ∧ r.pausedReason = "broker_disconnect" then
      resumeStrategy r.spec.strategyId ""
    else pure .done

def onWorkerFailed (id : String) : Call Outcome :=
  withRecord id "" fun _ => do
    emit (.failed id)
    removeCheckpoint id
    wait Await.io
    pure .done

def shutdown : Call Outcome :=
  forRecords fun r =>
    if r.state = .running ∧ r.worker then do
      haltWorker r.spec.strategyId
      pure .done
    else pure .done

/-- `recover` on one row of the store; an exception counts as an error of the row. -/
def recoverRow (n : ℕ) (row : Checkpoint) : Call Unit := do
  let s ← look
  if row.state ∈ recoverySkipStates then pure ()
  else if (s.registry.get row.spec.strategyId).isSome then pure ()
  else if row.spec.strategyId ∈ s.runningTasks then
    emit (.adopted row.spec row.restartCount)
  else
    let out ← startStrategy n row.spec
    if out = .started then
      emit (.recovered row.spec.strategyId row.restartCount)
      if row.state = .paused then
        let _ ← pauseStrategy row.spec.strategyId "" "restored_paused"
        pure ()
      else pure ()
    else pure ()

def recoverRows (n : ℕ) : List Checkpoint → Call Unit
  | [] => pure ()
  | row :: rows => do
    recoverRow n row
    recoverRows n rows

def recover (n : ℕ) : Call Outcome := do
  let rows ← wait .loadAll
  recoverRows n rows
  pure .done

inductive Verb
  | start (spec : StrategySpec)
  | stop (id userId : String)
  | pause (id userId reason : String)
  | resume (id userId : String)
  | restart (id userId : String)
  | emergencyStop (userId strategyId : String)
  | releaseEmergencyStop (userId : String)
  | pauseAll (userId reason : String)
  | sessionOpen
  | sessionClose
  | brokerDisconnect (broker : String)
  | brokerReconnect (broker : String)
  | workerFailed (id : String)
  | recover
  | shutdown

def Verb.run (n : ℕ) : Verb → Call Outcome
  | .start spec => startStrategy n spec
  | .stop id userId => stopStrategy id userId
  | .pause id userId reason => pauseStrategy id userId reason
  | .resume id userId => resumeStrategy id userId
  | .restart id userId => restartStrategy n id userId
  | .emergencyStop userId id => StrategyRuntime.emergencyStop userId id
  | .releaseEmergencyStop userId => StrategyRuntime.releaseEmergencyStop userId
  | .pauseAll userId reason => StrategyRuntime.pauseAll userId reason
  | .sessionOpen => onSessionOpen n
  | .sessionClose => onSessionClose
  | .brokerDisconnect broker => onBrokerDisconnect broker
  | .brokerReconnect broker => onBrokerReconnect broker
  | .workerFailed id => onWorkerFailed id
  | .recover => StrategyRuntime.recover n
  | .shutdown => StrategyRuntime.shutdown

def system : System Runtime Effect Reply (Option ℕ) (ℕ × Verb) where
  apply := Runtime.apply
  tag c := some c.1
  code c := do
    let _ ← c.2.run c.1
    pure ()
  blocks a b := decide (a = b ∧ a ≠ none)
  ready
    | .cacheGet, val, s => val == s.killSwitch.cacheGet
    | .loadAll, rows, s => rows == [] || rows.isPerm s.checkpoints.values
    | .workerStart, _, _ | .store, _, _ | .io, _, _ => true
  env _
    | .halt _ | .legacyStarted _ => true
    | _ => false

end Trademetrix.StrategyRuntime
