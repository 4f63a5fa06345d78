import Trademetrix.Async.Pool
import Trademetrix.Execution.Retry
import Trademetrix.Risk.KillSwitch

/-!
# The ways of an order and the halts they look at

A strategy's worker, the gate, the order manager's worker and the execution
manager, down to what each reads of the halts: the Redis key, the rows of
`risk_settings`, the cached `RiskConfig` and the emergency flags in memory. What
else they check is left to the replies. An order past the kill-switch rule of
`evaluate` is in `cleared` under its call; no code reads that field.
-/

namespace Trademetrix.Risk

open Trademetrix.Async Proc

/-- A row of `risk_settings`. -/
structure SettingsRow where
  killSwitchEnabled : Bool
  isLive : Bool
  emergencyStop : Bool
  deriving DecidableEq

structure RiskConfig where
  killSwitchEnabled : Bool
  isLive : Bool
  emergencyStop : Bool

structure ExecutionRequest where
  userId : String
  isPaper : Bool
  deriving DecidableEq

structure Trading where
  killSwitch : KillSwitch
  /-- The rows by user and strategy; a user's own row has no strategy. -/
  settings : Dict (String × Option String) SettingsRow
  /-- Whether the database answers. -/
  database : Bool
  configCache : Dict String RiskConfig
  /-- The queue of the order manager's worker. -/
  queue : List ExecutionRequest
  cleared : Dict ℕ String

inductive Effect
  | halt (c : Command)
  | database (reachable : Bool)
  /-- `POST /risk/settings`, which also writes the defaults of the fields it does not ask for. -/
  | settingsSaved (userId : String) (strategyId : Option String)
  | live (userId : String) (enabled : Bool)
  | cached (userId : String) (config : RiskConfig)
  | enqueued (req : ExecutionRequest)
  | dequeued
  /-- `KillSwitchRule` lets an order of the user pass, with this flag in the config. -/
  | cleared (n : ℕ) (userId : String) (killSwitchEnabled : Bool)
  | sent (n : ℕ) (userId : String)
  | closed (n : ℕ)
  | crash

inductive Await
  | cacheGet
  /-- A row of `risk_settings`. -/
  | settingsRow (userId : String) (strategyId : Option String)
  /-- A check or a step that is not about the halts; `false` ends the call. -/
  | check
  /-- The broker's answer: whether the order is sent once more. -/
  | brokerReply
  | io

/-- `settingsRow` is `none` when the client cannot be had, which raises; a query that
fails counts as no row. -/
abbrev Reply : Await → Type
  | .cacheGet => Option String
  | .settingsRow _ _ => Option (Option SettingsRow)
  | .check => Bool
  | .brokerReply => Bool
  | .io => Unit

abbrev Call := Proc Trading Effect Reply

namespace Trading

/-- `async_safe_single`. -/
def row (s : Trading) (userId : String) (strategyId : Option String) : Option SettingsRow :=
  if s.database then s.settings.get (userId, strategyId) else none

def writeRow (s : Trading) (userId : String) (strategyId : Option String)
    (f : SettingsRow → SettingsRow) : Trading :=
  if s.database then
    { s with
      settings := s.settings.set (userId, strategyId)
        (f ((s.settings.get (userId, strategyId)).getD ⟨false, false, false⟩)) }
  else s

def apply (e : Effect) (s : Trading) : Trading :=
  match e with
  | .halt c =>
    let s' := { s with killSwitch := s.killSwitch.obey c }
    match c with
    | .enableKillSwitch u => s'.writeRow u none fun r => { r with killSwitchEnabled := true }
    | .disableKillSwitch u => s'.writeRow u none fun r => { r with killSwitchEnabled := false }
    | _ => s'
  | .database up => { s with database := up }
  | .settingsSaved u sid =>
    s.writeRow u sid fun r => { r with killSwitchEnabled := false, isLive := false }
  | .live u b => s.writeRow u none fun r => { r with isLive := b }
  | .cached u config => { s with configCache := s.configCache.set u config }
  | .enqueued req => { s with queue := s.queue ++ [req] }
  | .dequeued => { s with queue := s.queue.tail }
  | .cleared n u _ => { s with cleared := s.cleared.set n u }
  | .sent _ _ => s
  | .closed n => { s with cleared := s.cleared.pop n }
  | .crash =>
    { s with killSwitch := s.killSwitch.restart, configCache := [], queue := [], cleared := [] }

end Trading

/-- `RiskManager._load_config`; the user's own row is the only one it looks at. -/
def loadConfig (userId : String) : Call RiskConfig := do
  let s ← look
  match s.configCache.get userId with
  | some config => pure config
  | none =>
    let row ← wait (Await.settingsRow userId none)
    let config : RiskConfig :=
      match row with
      | none => ⟨true, false, false⟩
      | some none => ⟨false, false, false⟩
      | some (some r) => ⟨r.killSwitchEnabled, r.isLive, r.emergencyStop⟩
    emit (.cached userId config)
    pure config

/-- `RiskManager.evaluate`, from the kill-switch rule on: whether the order is approved. -/
def evaluate (n : ℕ) (req : ExecutionRequest) : Call Bool := do
  let config ← loadConfig req.userId
  let val ← wait Await.cacheGet
  if KillSwitch.globalKillSwitchActive val || config.killSwitchEnabled then pure false
  else
    emit (.cleared n req.userId config.killSwitchEnabled)
    if !config.isLive && !req.isPaper then pure false
    else if config.emergencyStop then pure false
    else wait Await.check

/-- The attempts of `_execute_with_retry`, each after the limiter's or the backoff's wait. -/
def sendLoop (n : ℕ) (userId : String) : ℕ → Call Unit
  | 0 => pure ()
  | left + 1 => do
    wait Await.io
    emit (.sent n userId)
    let again ← wait Await.brokerReply
    if again then sendLoop n userId left else pure ()

def maxSends : ℕ := 2 * (Execution.maxRetries + 1)

def placeOrder (n : ℕ) (req : ExecutionRequest) : Call Unit := do
  let valid ← wait Await.check
  if valid then
    let approved ← evaluate n req
    if approved then
      let inserted ← wait Await.check
      if inserted then sendLoop n req.userId maxSends else pure ()
    else pure ()
  else pure ()
  emit (.closed n)

/-- `RiskGuard._load_settings`; `none` when it raises. -/
def loadSettings (userId : String) (strategyId : Option String) :
    Call (Option (Option SettingsRow)) := do
  match strategyId.filter fun sid => sid ≠ "" with
  | none => wait (Await.settingsRow userId none)
  | some sid =>
    let row ← wait (Await.settingsRow userId (some sid))
    match row with
    | none => pure none
    | some (some r) => pure (some (some r))
    | some none => wait (Await.settingsRow userId none)

def checkOrder (req : ExecutionRequest) (strategyId : Option String) : Call Bool := do
  let val ← wait Await.cacheGet
  if KillSwitch.globalKillSwitchActive val then pure false
  else
    let settings ← loadSettings req.userId strategyId
    match settings with
    | none => pure false
    | some row =>
      let row := row.getD ⟨false, false, false⟩
      if row.killSwitchEnabled then pure false
      else if !req.isPaper && !row.isLive then pure false
      else wait Await.check

/-- `execute_order` of the gate, up to the queue of the order manager. -/
def executeOrder (req : ExecutionRequest) (strategyId : Option String) : Call Unit := do
  let passed ← wait Await.check
  if passed then
    let allowed ← checkOrder req strategyId
    if allowed then
      wait Await.io
      emit (.enqueued req)
    else pure ()
  else pure ()

def processQueue (n : ℕ) : Call Unit := do
  let s ← look
  match s.queue with
  | [] => pure ()
  | req :: _ =>
    emit .dequeued
    let current ← wait Await.check
    if current then
      placeOrder n req
      let retry ← wait Await.check
      if retry then emit (.enqueued req) else pure ()
    else pure ()

def strategyOrder (req : ExecutionRequest) (strategyId : String) : Call Unit := do
  let val ← wait Await.cacheGet
  let s ← look
  if KillSwitch.globalKillSwitchActive val || active s.killSwitch.emergencyStops req.userId then
    pure ()
  else
    let withinLimits ← wait Await.check
    if withinLimits then executeOrder req (some strategyId) else pure ()

inductive Path
  | place (req : ExecutionRequest)
  | gate (req : ExecutionRequest) (strategyId : Option String)
  | omsWorker
  | strategy (req : ExecutionRequest) (strategyId : String)

def Path.run (n : ℕ) : Path → Call Unit
  | .place req => placeOrder n req
  | .gate req strategyId => executeOrder req strategyId
  | .omsWorker => processQueue n
  | .strategy req strategyId => strategyOrder req strategyId

def system : System Trading Effect Reply (Option ℕ) (ℕ × Path) where
  apply := Trading.apply
  tag c := some c.1
  code c := c.2.run c.1
  blocks a b := decide (a = b ∧ a ≠ none)
  ready
    | .cacheGet, val, s => val == s.killSwitch.cacheGet
    | .settingsRow userId strategyId, row, s =>
      row == none || row == some (s.row userId strategyId)
    | .check, _, _ | .brokerReply, _, _ | .io, _, _ => true
  env _
    | .halt _ | .database _ | .settingsSaved _ _ | .live _ _ => true
    | .enqueued _ => true -- an order that startup recovery finds
    | _ => false

end Trademetrix.Risk
