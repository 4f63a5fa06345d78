import Trademetrix.Backtest.Execution

/-!
# The simulated risk engine of a backtest

Orders are checked against the simulated account; an order without a price is
checked at the last price of its symbol.
-/

namespace Trademetrix.Backtest

open Engine (OrderSide)
open Text (round2)

/-- The knobs of `BacktestRiskConfig` that the simulator reads. -/
structure BacktestRiskConfig where
  dailyLossLimit : ℚ := 0
  dailyProfitTarget : ℚ := 0
  maxTradesPerDay : ℤ := 0
  maxOpenPositions : ℤ := 10
  maxQuantity : ℤ := 0
  maxExposure : ℚ := 0
  maxSymbolExposure : ℚ := 0
  maxDrawdownPct : ℚ := 0
  maxCapital : ℚ := 0
  killSwitchEnabled : Bool := false
  emergencyStop : Bool := false
  maxRiskPerTradePct : ℚ := 0
  circuitBreaker : Bool := true

structure RiskOverrides where
  dailyLossLimit : Option ℚ := none
  dailyProfitTarget : Option ℚ := none
  maxTradesPerDay : Option ℤ := none
  maxOpenPositions : Option ℤ := none
  maxQuantity : Option ℤ := none
  maxExposure : Option ℚ := none
  maxSymbolExposure : Option ℚ := none
  maxDrawdownPct : Option ℚ := none
  maxCapital : Option ℚ := none
  killSwitchEnabled : Option Bool := none
  emergencyStop : Option Bool := none
  maxRiskPerTradePct : Option ℚ := none
  circuitBreaker : Option Bool := none

def RiskOverrides.config (o : RiskOverrides) (initialCapital : ℚ) : BacktestRiskConfig where
  dailyLossLimit := o.dailyLossLimit.getD (round2 (initialCapital * (10 / 100)))
  dailyProfitTarget := o.dailyProfitTarget.getD 0
  maxTradesPerDay := o.maxTradesPerDay.getD 0
  maxOpenPositions := o.maxOpenPositions.getD 10
  maxQuantity := o.maxQuantity.getD 0
  maxExposure := o.maxExposure.getD (round2 (initialCapital * 5))
  maxSymbolExposure := o.maxSymbolExposure.getD 0
  maxDrawdownPct := o.maxDrawdownPct.getD 25
  maxCapital := o.maxCapital.getD 0
  killSwitchEnabled := o.killSwitchEnabled.getD false
  emergencyStop := o.emergencyStop.getD false
  maxRiskPerTradePct := o.maxRiskPerTradePct.getD 0
  circuitBreaker := o.circuitBreaker.getD true

inductive RiskRuleType
  | dailyLossLimit | maxTradesPerDay | maxOpenPositions | maxQuantity | maxExposure
  | maxSymbolExposure | circuitBreaker | emergencyStop | killSwitch | maxCapital | maxDrawdown
  deriving DecidableEq, Repr

structure RiskRejection where
  symbol : String
  side : OrderSide
  quantity : ℤ
  price : ℚ
  rule : RiskRuleType
  capitalRemaining : ℚ
  riskRemaining : ℚ
  drawdown : ℚ
  exposure : ℚ
  deriving DecidableEq

structure RiskTimelinePoint where
  index : ℕ
  timestamp : String
  equity : ℚ
  exposure : ℚ
  drawdownPct : ℚ
  capitalRemaining : ℚ
  riskRemaining : ℚ
  halted : Bool
  deriving DecidableEq

structure BacktestRiskSimulator where
  config : BacktestRiskConfig
  initialCapital : ℚ
  peakEquity : ℚ
  halted : Bool := false
  accepted : ℕ := 0
  rejected : List RiskRejection := []
  timeline : List RiskTimelinePoint := []

structure AccountState where
  equity : ℚ
  pnl : ℚ
  tradeCount : ℕ
  exposure : ℚ
  openPositions : ℕ
  drawdownPct : ℚ
  capitalRemaining : ℚ
  riskRemaining : ℚ

inductive BacktestRiskCheck
  | approved (adjustedQuantity : Option ℤ)
  | rejected (rule : RiskRuleType)
  deriving DecidableEq

def noLimit : ℚ := -1

def Position.notional (p : Position) : ℚ := |(p.quantity : ℚ)| * p.avgPrice

namespace BacktestRiskSimulator

variable (r : BacktestRiskSimulator)

def accountState (b : Broker) : AccountState × BacktestRiskSimulator :=
  let equity := b.equity
  let peak := max r.peakEquity equity
  let exposure := (b.positions.values.map Position.notional).sum
  let drawdownPct := if 0 < peak then (peak - equity) / peak * 100 else 0
  let pnl := equity - r.initialCapital
  ({ equity := equity
     pnl := pnl
     tradeCount := b.trades.length
     exposure := exposure
     openPositions := (b.positions.values.filter fun p => p.quantity ≠ 0).length
     drawdownPct := max drawdownPct 0
     capitalRemaining := max (equity - exposure) 0
     riskRemaining := round2 (
       if 0 < r.config.dailyLossLimit then max (r.config.dailyLossLimit + pnl) 0 else noLimit) },
    { r with peakEquity := peak })

def isReducer (b : Broker) (symbol : String) (side : OrderSide) : Bool :=
  match side with
  | .buy => (b.positionOf symbol).quantity < 0
  | .sell => 0 < (b.positionOf symbol).quantity

def reject (order : Order) (a : AccountState) (rule : RiskRuleType) :
    BacktestRiskCheck × BacktestRiskSimulator :=
  (.rejected rule,
    { r with
      rejected := r.rejected ++ [
        { symbol := order.symbol, side := order.side, quantity := |order.quantity|
          price := Backtest.round4 order.price, rule := rule
          capitalRemaining := round2 a.capitalRemaining, riskRemaining := round2 a.riskRemaining
          drawdown := round2 a.drawdownPct, exposure := round2 a.exposure }] })

def halt : BacktestRiskSimulator := { r with halted := r.halted || r.config.circuitBreaker }

def approve (adjusted : Option ℤ) : BacktestRiskCheck × BacktestRiskSimulator :=
  (.approved adjusted, { r with accepted := r.accepted + 1 })

def capacityRule (b : Broker) (a : AccountState) (symbol : String) (quantity : ℤ) (notional : ℚ) :
    Option RiskRuleType :=
  let c := r.config
  let symbolExposure := (b.positionOf symbol).notional
  if 0 < c.maxOpenPositions ∧ c.maxOpenPositions ≤ a.openPositions then some .maxOpenPositions
  else if 0 < c.maxQuantity ∧ c.maxQuantity < quantity then some .maxQuantity
  else if 0 < c.maxCapital ∧ c.maxCapital < a.exposure + notional then some .maxCapital
  else if 0 < c.maxExposure ∧ c.maxExposure < a.exposure + notional then some .maxExposure
  else if 0 < c.maxSymbolExposure ∧ c.maxSymbolExposure < symbolExposure + notional then
    some .maxSymbolExposure
  else none

def clamped (a : AccountState) (quantity : ℤ) (price : ℚ) : Option ℤ :=
  let maxNotional := a.equity * r.config.maxRiskPerTradePct / 100
  let q := max ⌊maxNotional / price⌋ 1
  if 0 < r.config.maxRiskPerTradePct ∧ 0 < price ∧ maxNotional < quantity * price ∧ q < quantity then
    some q
  else none

def limits (b : Broker) (order : Order) (price : ℚ) (a : AccountState) (reducer : Bool) :
    BacktestRiskCheck × BacktestRiskSimulator :=
  let c := r.config
  let quantity := |order.quantity|
  if 0 < c.dailyLossLimit ∧ a.pnl ≤ -c.dailyLossLimit then r.halt.reject order a .dailyLossLimit
  else if 0 < c.maxTradesPerDay ∧ c.maxTradesPerDay ≤ a.tradeCount then
    r.reject order a .maxTradesPerDay
  else
    match if reducer then none else r.capacityRule b a order.symbol quantity (quantity * price) with
    | some rule => r.reject order a rule
    | none =>
      if 0 < c.maxDrawdownPct ∧ c.maxDrawdownPct ≤ a.drawdownPct then
        r.halt.reject order a .maxDrawdown
      else r.approve none

def checkedPrice (b : Broker) (order : Order) : ℚ :=
  if order.price ≤ 0 then (b.lastPrices.get order.symbol).getD 0 else order.price

def check (b : Broker) (order : Order) : BacktestRiskCheck × BacktestRiskSimulator :=
  let (a, r) := r.accountState b
  let price := checkedPrice b order
  if r.halted then r.reject order a .circuitBreaker
  else if r.config.killSwitchEnabled then r.reject order a .killSwitch
  else if r.config.emergencyStop then r.reject order a .emergencyStop
  else
    let reducer := isReducer b order.symbol order.side
    match if reducer then none else r.clamped a |order.quantity| price with
    | some q => r.approve (some q)
    | none => r.limits b order price a reducer

def snapshot (b : Broker) (index : ℕ) (timestamp : String) : BacktestRiskSimulator :=
  let (a, r) := r.accountState b
  { r with
    timeline := r.timeline ++ [
      { index := index, timestamp := timestamp, equity := round2 a.equity
        exposure := round2 a.exposure, drawdownPct := round2 a.drawdownPct
        capitalRemaining := round2 a.capitalRemaining, riskRemaining := round2 a.riskRemaining
        halted := r.halted }] }

section Approval

variable {r} {b : Broker} {order : Order} {price : ℚ} {a : AccountState} {reducer : Bool}
  {adjusted : Option ℤ}

theorem limits_approved_iff :
    (r.limits b order price a reducer).1 = .approved adjusted ↔
      adjusted = none ∧ ¬(0 < r.config.dailyLossLimit ∧ a.pnl ≤ -r.config.dailyLossLimit) ∧
        ¬(0 < r.config.maxTradesPerDay ∧ r.config.maxTradesPerDay ≤ a.tradeCount) ∧
        (if reducer then none
          else r.capacityRule b a order.symbol |order.quantity| (|order.quantity| * price)) = none ∧
        ¬(0 < r.config.maxDrawdownPct ∧ r.config.maxDrawdownPct ≤ a.drawdownPct) := by
  unfold limits
  dsimp only
  split
  · next hloss => simp [reject, hloss]
  · next hloss =>
    split
    · next hcount => simp [reject, hcount]
    · next hcount =>
      split
      · next rule hrule =>
        rw [hrule]
        simp [reject]
      · next hrule =>
        rw [hrule]
        split
        · next hdrawdown => simp [reject, hdrawdown]
        · next hdrawdown => simp [approve, hloss, hcount, hdrawdown, eq_comm]

theorem check_approved_iff :
    (r.check b order).1 = .approved adjusted ↔
      r.halted = false ∧ r.config.killSwitchEnabled = false ∧ r.config.emergencyStop = false ∧
        match if isReducer b order.symbol order.side then none
          else r.clamped (r.accountState b).1 |order.quantity| (checkedPrice b order) with
        | some q => adjusted = some q
        | none => ((r.accountState b).2.limits b order (checkedPrice b order) (r.accountState b).1
            (isReducer b order.symbol order.side)).1 = .approved adjusted := by
  have hr : (r.accountState b).2.halted = r.halted ∧ (r.accountState b).2.config = r.config :=
    ⟨rfl, rfl⟩
  have hclamped : (r.accountState b).2.clamped = r.clamped := rfl
  unfold check
  simp only [hr.1, hr.2, hclamped]
  cases hhalted : r.halted with
  | true => simp [reject]
  | false =>
    cases hkill : r.config.killSwitchEnabled with
    | true => simp [reject]
    | false =>
      cases hstop : r.config.emergencyStop with
      | true => simp [reject]
      | false =>
        simp only [Bool.false_eq_true, if_false, true_and]
        split
        · next q hq => simp [approve, eq_comm]
        · rfl

@[simp] theorem config_limits : (r.limits b order price a reducer).2.config = r.config := by
  unfold limits
  dsimp only
  split
  · rfl
  · split
    · rfl
    · split
      · rfl
      · split <;> rfl

@[simp] theorem config_check : (r.check b order).2.config = r.config := by
  unfold check
  dsimp only
  split
  · rfl
  · split
    · rfl
    · split
      · rfl
      · split
        · rfl
        · exact config_limits

end Approval

end BacktestRiskSimulator

end Trademetrix.Backtest
