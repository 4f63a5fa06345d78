import Mathlib.Logic.Function.Basic
import Trademetrix.Dict
import Trademetrix.Oms.Intent

/-!
# The risk rules that remember

Four of the rules `RiskManager.evaluate` goes through look at earlier orders: three in
the memory of the process, one in the orders of the day. What they remember carries the
number of the logical order it was written for, which no rule reads.
-/

namespace Trademetrix.RiskRules

open Execution (ExecutionRequest)
open Oms (Time seconds intentFingerprint sameIntent)

inductive RiskDecision
  | approved | warning | rejected
  deriving DecidableEq, Repr

inductive RiskRuleType
  | killSwitch | liveMode | emergencyStop | brokerOffline | marketClosed | tradingWindow
  | tradeCooldown | dailyLossLimit | dailyProfitTarget | maxTradesPerDay | maxOpenPositions
  | maxQuantity | maxExposure | maxSymbolExposure | maxCapital | maxDrawdown
  | maxOrdersPerMinute | duplicateOrder
  deriving DecidableEq, Repr

/-- `RISK_RULES`, in the order they are evaluated. -/
def riskRules : List RiskRuleType :=
  [.killSwitch, .liveMode, .emergencyStop, .brokerOffline, .marketClosed, .tradingWindow,
    .tradeCooldown, .dailyLossLimit, .dailyProfitTarget, .maxTradesPerDay, .maxOpenPositions,
    .maxQuantity, .maxExposure, .maxSymbolExposure, .maxCapital, .maxDrawdown,
    .maxOrdersPerMinute, .duplicateOrder]

structure RiskConfig where
  maxTradesPerDay : ℤ := 0
  maxOrdersPerMinute : ℤ := 30
  tradeCooldownSeconds : ℤ := 5
  deriving DecidableEq

structure RiskRuleResult where
  decision : RiskDecision := .approved
  reason : String := ""
  deriving DecidableEq

structure Stamp where
  time : Time
  order : ℕ
  deriving DecidableEq

structure Memory where
  lastTradeTime : String → Option Stamp := fun _ => none
  orderTimestamps : String → List Stamp := fun _ => []
  recentOrders : String → Dict String Stamp := fun _ => []
  intents : String → Dict String String := fun _ => []

/-- The digest of an intent and `str` of a float. -/
structure Texts where
  sha256 : String → String
  str : ℚ → String

section Evaluate

variable (texts : Texts) (m : Memory) (order : ℕ) (now : Time) (req : ExecutionRequest)
  (config : RiskConfig)

def cooldownKey : String := s!"{req.userId}:{req.broker}:{req.symbol}"

def lastTrade : Time := (m.lastTradeTime (cooldownKey req)).elim 0 Stamp.time

def tradeCooldown : RiskRuleResult × Memory :=
  if config.tradeCooldownSeconds ≤ 0 ∨ req.isPaper = true then ({}, m)
  else
    let elapsed : ℤ := (now : ℤ) - lastTrade m req
    let cooldown : ℤ := config.tradeCooldownSeconds * 1000000
    if elapsed < cooldown then
      let remaining := Text.roundHalfEven (((cooldown - elapsed : ℤ) : ℚ) / 100000) / 10
      ({ decision := .rejected
         reason := s!"Trade cooldown active for {req.symbol}. Wait {texts.str remaining}s." }, m)
    else
      ({}, { m with
        lastTradeTime := Function.update m.lastTradeTime (cooldownKey req) (some ⟨now, order⟩) })

def lastMinute (stamps : List Stamp) (now : Time) : List Stamp :=
  stamps.dropWhile fun t => t.time + seconds 60 < now

/-- `append` on a `deque(maxlen=200)`. -/
def pushBounded (stamps : List Stamp) (t : Stamp) : List Stamp :=
  (stamps ++ [t]).drop ((stamps ++ [t]).length - 200)

def maxOrdersPerMinute : RiskRuleResult × Memory :=
  if config.maxOrdersPerMinute ≤ 0 then ({}, m)
  else
    let userOrders := lastMinute (m.orderTimestamps req.userId) now
    if config.maxOrdersPerMinute ≤ userOrders.length then
      ({ decision := .rejected
         reason := s!"Order rate {userOrders.length}/min exceeds limit " ++
           s!"{config.maxOrdersPerMinute}." },
        { m with orderTimestamps := Function.update m.orderTimestamps req.userId userOrders })
    else
      ({}, { m with
        orderTimestamps :=
          Function.update m.orderTimestamps req.userId (pushBounded userOrders ⟨now, order⟩) })

def dedupKey : String :=
  s!"{req.userId}:{req.broker}:{req.symbol}:{req.side}:{req.quantity}:{req.orderType}:" ++
    texts.str req.price

def inWindow (recent : Dict String Stamp) (now : Time) : Dict String Stamp :=
  recent.filter fun p => ¬ p.2.time + seconds 60 < now

def trimmed {ν : Type} (d : Dict String ν) : Dict String ν := if 100 < d.length then d.drop 50 else d

def recognised : Bool :=
  let logicalId := Text.strip req.executionRequestId
  logicalId ≠ "" && ((m.intents req.userId).get logicalId).any fun recorded =>
    sameIntent texts.sha256 recorded req

def recordIntent : Dict String String :=
  let logicalId := Text.strip req.executionRequestId
  if logicalId = "" then m.intents req.userId
  else trimmed ((m.intents req.userId).set logicalId (intentFingerprint texts.sha256 req))

def duplicateOrder : RiskRuleResult × Memory :=
  if req.isPaper = true then ({}, m)
  else
    let recent := inWindow (m.recentOrders req.userId) now
    if recognised texts m req = true then
      ({}, { m with recentOrders := Function.update m.recentOrders req.userId recent })
    else
      let intents := Function.update m.intents req.userId (recordIntent texts m req)
      if recent.any fun p => p.1 = dedupKey texts req then
        ({ decision := .rejected
           reason :=
             "Duplicate order detected (same user/broker/symbol/side/quantity/type/price)." },
          { m with
            recentOrders := Function.update m.recentOrders req.userId recent
            intents := intents })
      else
        ({}, { m with
          recentOrders := Function.update m.recentOrders req.userId
            (trimmed (recent.set (dedupKey texts req) ⟨now, order⟩))
          intents := intents })

/-- `MaxTradesPerDayRule`, given how many orders of the day the query counts. -/
def maxTradesPerDay (count : ℕ) : RiskRuleResult :=
  if config.maxTradesPerDay ≤ 0 then {}
  else if config.maxTradesPerDay ≤ count then
    { decision := .rejected
      reason := s!"Trade count {count} exceeds daily limit {config.maxTradesPerDay}." }
  else {}

end Evaluate

def todayStart (now : Time) : Time :=
  (now + seconds 19800) / seconds 86400 * seconds 86400 - seconds 19800

def Memory.without (m : Memory) (order : ℕ) : Memory where
  lastTradeTime key := (m.lastTradeTime key).filter fun t => t.order ≠ order
  orderTimestamps user := (m.orderTimestamps user).filter fun t => t.order ≠ order
  recentOrders user := (m.recentOrders user).filter fun p => p.2.order ≠ order
  intents := m.intents

end Trademetrix.RiskRules
