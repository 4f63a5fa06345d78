import Trademetrix.Cron
import Trademetrix.Dict
import Trademetrix.Text

/-!
# Strategy runtime: states, specs and records
-/

namespace Trademetrix.StrategyRuntime

inductive RuntimeState
  | created | starting | running | paused | stopped | failed | recovering | recovered
  deriving DecidableEq

inductive StrategyTrigger
  | everyTick | candleClose | everyMinute | every5Minutes | marketOpen | marketClose | cron
  deriving DecidableEq

structure StrategySpec where
  strategyId : String
  userId : String
  interval : String
  timeframes : List String
  mode : String
  isPaper : Bool
  broker : String
  confirmed : Bool
  trigger : StrategyTrigger
  warmup : Bool
  maxPositions : ℤ
  maxRiskPerTrade : ℚ
  maxDailyTrades : ℤ
  deriving DecidableEq

/-- `worker` says whether the record has one. -/
structure RuntimeRecord where
  spec : StrategySpec
  state : RuntimeState
  restartCount : ℕ
  worker : Bool
  pausedReason : String
  deriving DecidableEq

structure Checkpoint where
  state : RuntimeState
  restartCount : ℕ
  pausedReason : String
  spec : StrategySpec
  deriving DecidableEq

def transitions : RuntimeState → List RuntimeState
  | .created => [.starting, .stopped]
  | .starting => [.running, .failed, .stopped]
  | .running => [.paused, .stopped, .failed]
  | .paused => [.running, .stopped, .failed]
  | .stopped => [.starting, .failed]
  | .failed => [.starting, .stopped]
  | .recovering => [.recovered]
  | .recovered => []

def canTransition (current target : RuntimeState) : Bool := decide (target ∈ transitions current)

def recoverySkipStates : List RuntimeState := [.stopped, .failed, .created]

end Trademetrix.StrategyRuntime

/-!
# The strategy scheduler

`StrategyScheduler._tick_once` goes through the registered strategies and emits
the time events that are due; the minute of the day in which a strategy was
last found due keeps a second poll of that minute from emitting again. An
expression with a step of 0 raises and ends the pass over the strategies.
-/

namespace Trademetrix.StrategyRuntime

/-- `str.split()`. -/
def words (s : String) : List (List Char) :=
  (s.toList.splitOnP Text.isSpace).filter fun w => decide (w ≠ [])

/-- `a % step == 0`; `none` is a `ZeroDivisionError`. -/
def divides (step a : ℤ) : Option Bool := if step = 0 then none else some (decide (a % step = 0))

def field (pattern : List Char) (value : ℕ) : Option Bool :=
  if pattern = ['*'] then some true
  else if '/' ∈ pattern then
    let base := pattern.takeWhile fun c => decide (c ≠ '/')
    let step := (pattern.dropWhile fun c => decide (c ≠ '/')).drop 1
    match Text.parseInt (String.ofList step) with
    | none => some false
    | some step =>
      if base = ['*'] then divides step value
      else
        match Text.parseInt (String.ofList base) with
        | none => some false
        | some base => if base ≤ value then divides step (value - base) else some false
  else some (decide (Text.parseInt (String.ofList pattern) = some (value : ℤ)))

def cronMatches (expression : String) (dt : Cron.Moment) : Option Bool :=
  if expression = "" then some false
  else
    let parts := words expression
    if parts.length < 5 then some false
    else
      match field (parts.getD 0 []) dt.minute with
      | some true => field (parts.getD 1 []) dt.hour
      | other => other

structure TriggerSpec where
  strategyId : String
  trigger : StrategyTrigger
  cronExpression : String := ""
  deriving DecidableEq

/-- Whether the time event of a strategy is due; `none` is a `ZeroDivisionError`. -/
def TriggerSpec.due (spec : TriggerSpec) (now : Cron.Moment) : Option Bool :=
  match spec.trigger with
  | .everyMinute => some true
  | .every5Minutes => some (decide (now.minute % 5 = 0))
  | .cron => cronMatches spec.cronExpression now
  | _ => some false

structure Registered where
  specs : List TriggerSpec
  nodup : (specs.map TriggerSpec.strategyId).Nodup

inductive RouterEvent
  | sessionOpen | sessionClose
  | time (strategyId : String)
  deriving DecidableEq

structure StrategyScheduler where
  wasOpen : Option Bool := none
  lastMinute : Dict String ℕ := []

structure Poll where
  now : Cron.Moment
  isOpen : Bool
  registry : Registered

def tickSpecs (now : Cron.Moment) : Dict String ℕ → List TriggerSpec → Dict String ℕ × List String
  | marks, [] => (marks, [])
  | marks, spec :: specs =>
    match spec.due now with
    | none => (marks, [])
    | some due =>
      if due ∧ marks.get spec.strategyId ≠ some now.timeOfDay then
        let (marks, ids) := tickSpecs now (marks.set spec.strategyId now.timeOfDay) specs
        (marks, spec.strategyId :: ids)
      else tickSpecs now marks specs

namespace StrategyScheduler

def tickOnce (s : StrategyScheduler) (p : Poll) : StrategyScheduler × List RouterEvent :=
  let session :=
    match s.wasOpen with
    | some wasOpen =>
      if p.isOpen ≠ wasOpen then [if p.isOpen then RouterEvent.sessionOpen else .sessionClose] else []
    | none => []
  let (lastMinute, ids) := tickSpecs p.now s.lastMinute p.registry.specs
  ({ wasOpen := some p.isOpen, lastMinute }, session ++ ids.map .time)

def run (ps : List Poll) : StrategyScheduler × List (Cron.Moment × RouterEvent) :=
  ps.foldl (fun w p =>
    let (s, events) := w.1.tickOnce p
    (s, w.2 ++ events.map fun e => (p.now, e))) ({}, [])

end StrategyScheduler

end Trademetrix.StrategyRuntime
