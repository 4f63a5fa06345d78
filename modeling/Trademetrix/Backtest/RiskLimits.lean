import Mathlib.Tactic.Linarith
import Mathlib.Tactic.NormNum
import Trademetrix.Backtest.Risk

/-!
# The limits an approved order keeps

What the limits come to once an order has filled at the price it was checked at.
The capacity limits are those of the part that opens; the figures of the day are
the day's, where the check takes those of the whole run. `LimitsSkipped` is what
the way of an order through `check` leaves unchecked.
-/

namespace Trademetrix.Backtest

open Engine (OrderSide)
open BacktestRiskSimulator (isReducer checkedPrice)

structure TradingDay where
  date : String
  startEquity : ℚ

def Broker.tradesOn (b : Broker) (date : String) : ℕ :=
  (b.trades.filter fun t => String.ofList (t.exitTime.toList.take 10) = date).length

namespace BacktestRiskSimulator

variable (r : BacktestRiskSimulator) (b : Broker) (order : Order) (day : TradingDay)

section Figures

def openedBy (quantity : ℤ) : ℤ :=
  if isReducer b order.symbol order.side then max (quantity - |(b.positionOf order.symbol).quantity|) 0
  else quantity

def openedNotional (quantity : ℤ) : ℚ := openedBy b order quantity * checkedPrice b order

def symbolExposureLeft : ℚ :=
  if isReducer b order.symbol order.side then 0 else (b.positionOf order.symbol).notional

def symbolExposureAfter (quantity : ℤ) : ℚ :=
  symbolExposureLeft b order + openedNotional b order quantity

def exposureAfter (quantity : ℤ) : ℚ :=
  (r.accountState b).1.exposure - (b.positionOf order.symbol).notional +
    symbolExposureAfter b order quantity

def openPositionsAfter : ℕ :=
  (r.accountState b).1.openPositions + if (b.positionOf order.symbol).quantity = 0 then 1 else 0

def dayTradesAfter : ℕ :=
  b.tradesOn day.date + if isReducer b order.symbol order.side then 1 else 0

end Figures

structure WithinCapacity (q : ℤ) : Prop where
  openPositions : 0 < r.config.maxOpenPositions →
    r.openPositionsAfter b order ≤ r.config.maxOpenPositions
  quantity : 0 < r.config.maxQuantity → openedBy b order q ≤ r.config.maxQuantity
  capital : 0 < r.config.maxCapital → r.exposureAfter b order q ≤ r.config.maxCapital
  exposure : 0 < r.config.maxExposure → r.exposureAfter b order q ≤ r.config.maxExposure
  symbolExposure : 0 < r.config.maxSymbolExposure →
    symbolExposureAfter b order q ≤ r.config.maxSymbolExposure

structure WithinDay : Prop where
  loss : 0 < r.config.dailyLossLimit →
    -r.config.dailyLossLimit < (r.accountState b).1.equity - day.startEquity
  trades : 0 < r.config.maxTradesPerDay →
    dayTradesAfter b order day ≤ r.config.maxTradesPerDay

def WithinDrawdown : Prop :=
  0 < r.config.maxDrawdownPct → (r.accountState b).1.drawdownPct < r.config.maxDrawdownPct

def WithinBudget (quantity : ℤ) : Prop :=
  0 < r.config.maxRiskPerTradePct →
    openedNotional b order quantity ≤
      (r.accountState b).1.equity * r.config.maxRiskPerTradePct / 100

structure Trading : Prop where
  halted : r.halted = false
  killSwitch : r.config.killSwitchEnabled = false
  emergencyStop : r.config.emergencyStop = false

/-- Every limit holds once `quantity` of the order has filled. -/
structure WithinLimits (quantity : ℤ) : Prop where
  trading : r.Trading
  day : r.WithinDay b order day
  drawdown : r.WithinDrawdown b
  capacity : 0 < openedBy b order quantity → r.WithinCapacity b order quantity
  budget : r.WithinBudget b order quantity

def KeepsLimits : Prop :=
  ∀ adjusted, (r.check b order).1 = .approved adjusted →
    r.WithinLimits b order day (adjusted.getD |order.quantity|)

def sizing : Option ℤ :=
  if isReducer b order.symbol order.side then none
  else r.clamped (r.accountState b).1 |order.quantity| (checkedPrice b order)

def Refused : Prop :=
  (0 < r.config.dailyLossLimit ∧ (r.accountState b).1.pnl ≤ -r.config.dailyLossLimit) ∨
  (0 < r.config.maxTradesPerDay ∧ r.config.maxTradesPerDay ≤ (r.accountState b).1.tradeCount) ∨
  (isReducer b order.symbol order.side = false ∧
    r.capacityRule b (r.accountState b).1 order.symbol |order.quantity|
      (|order.quantity| * checkedPrice b order) ≠ none) ∨
  (0 < r.config.maxDrawdownPct ∧ r.config.maxDrawdownPct ≤ (r.accountState b).1.drawdownPct)

/-- The limits that the way of an order through the check skips hold all the same. A clamped order
skips all of them, with a budget that may not cover one unit; any order that is not refused skips
those of its day and of its size, and an order against a position the capacity of what it opens. -/
def LimitsSkipped : Prop :=
  match r.sizing b order with
  | some q =>
    r.WithinDay b order day ∧ r.WithinDrawdown b ∧ r.WithinCapacity b order q ∧
      checkedPrice b order ≤ (r.accountState b).1.equity * r.config.maxRiskPerTradePct / 100
  | none =>
    r.Refused b order ∨
      r.WithinDay b order day ∧ r.WithinBudget b order |order.quantity| ∧
        (isReducer b order.symbol order.side = true → 0 < openedBy b order |order.quantity| →
          r.WithinCapacity b order |order.quantity|)

section Approved

variable {r b order day}

theorem limits_checked_iff {adjusted : Option ℤ} :
    ((r.accountState b).2.limits b order (checkedPrice b order) (r.accountState b).1
        (isReducer b order.symbol order.side)).1 = .approved adjusted ↔
      adjusted = none ∧ ¬r.Refused b order := by
  have hrule : (r.accountState b).2.capacityRule = r.capacityRule := rfl
  have hconfig : (r.accountState b).2.config = r.config := rfl
  rw [limits_approved_iff, hrule, hconfig]
  unfold Refused
  cases hreducer : isReducer b order.symbol order.side <;> simp [not_or]

theorem withinCapacity_of_rule (hreducer : isReducer b order.symbol order.side = false)
    (h : r.capacityRule b (r.accountState b).1 order.symbol |order.quantity|
      (|order.quantity| * checkedPrice b order) = none) :
    r.WithinCapacity b order |order.quantity| := by
  have hopened : openedBy b order |order.quantity| = |order.quantity| := by
    simp [openedBy, hreducer]
  have hleft : symbolExposureLeft b order = (b.positionOf order.symbol).notional := by
    simp [symbolExposureLeft, hreducer]
  unfold capacityRule at h
  dsimp only at h
  split_ifs at h with hopen hquantity hcapital hexposure hsymbol
  constructor
  · intro hpos
    have hlt : ((r.accountState b).1.openPositions : ℤ) < r.config.maxOpenPositions :=
      not_le.mp fun hle => hopen ⟨hpos, hle⟩
    unfold openPositionsAfter
    split <;> push_cast <;> omega
  · intro hpos
    rw [hopened]
    exact not_lt.mp fun hlt => hquantity ⟨hpos, hlt⟩
  · intro hpos
    have hle := not_lt.mp fun hlt => hcapital ⟨hpos, hlt⟩
    unfold exposureAfter symbolExposureAfter openedNotional
    rw [hopened, hleft]
    linarith
  · intro hpos
    have hle := not_lt.mp fun hlt => hexposure ⟨hpos, hlt⟩
    unfold exposureAfter symbolExposureAfter openedNotional
    rw [hopened, hleft]
    linarith
  · intro hpos
    have hle := not_lt.mp fun hlt => hsymbol ⟨hpos, hlt⟩
    unfold symbolExposureAfter openedNotional
    rw [hopened, hleft]
    exact hle

theorem withinBudget_of_sizing {q : ℤ} (h : r.sizing b order = some q) :
    isReducer b order.symbol order.side = false ∧ 0 < openedBy b order q ∧
      (r.WithinBudget b order q ↔
        checkedPrice b order ≤ (r.accountState b).1.equity * r.config.maxRiskPerTradePct / 100) := by
  unfold sizing at h
  cases hreducer : isReducer b order.symbol order.side with
  | true => simp [hreducer] at h
  | false =>
    simp only [hreducer, Bool.false_eq_true, if_false] at h
    unfold clamped at h
    dsimp only at h
    split_ifs at h with hcond
    obtain ⟨hpct, hprice, -, -⟩ := hcond
    obtain rfl := Option.some.inj h
    set budget := (r.accountState b).1.equity * r.config.maxRiskPerTradePct / 100 with hbudget
    have hopened : openedBy b order (max ⌊budget / checkedPrice b order⌋ 1) =
        max ⌊budget / checkedPrice b order⌋ 1 := by
      simp [openedBy, hreducer]
    refine ⟨rfl, ?_, ?_⟩
    · rw [hopened]
      omega
    · unfold WithinBudget openedNotional
      rw [hopened, ← hbudget]
      constructor
      · intro hfits
        have hone : (1 : ℚ) ≤ ((max ⌊budget / checkedPrice b order⌋ 1 : ℤ) : ℚ) := by
          exact_mod_cast le_max_right _ _
        calc checkedPrice b order = 1 * checkedPrice b order := (one_mul _).symm
          _ ≤ _ := mul_le_mul_of_nonneg_right hone hprice.le
          _ ≤ budget := hfits hpct
      · intro hcovers _
        have hfloor : 1 ≤ ⌊budget / checkedPrice b order⌋ :=
          Int.le_floor.mpr (by rw [Int.cast_one]; exact (one_le_div hprice).mpr hcovers)
        rw [max_eq_left hfloor]
        exact (le_div_iff₀ hprice).mp (Int.floor_le _)

/-- The check keeps the limits exactly when nothing is traded or what it skips holds anyway. -/
theorem keepsLimits_iff :
    r.KeepsLimits b order day ↔ ¬r.Trading ∨ r.LimitsSkipped b order day := by
  by_cases htrading : r.Trading
  · obtain ⟨hhalted, hkill, hstop⟩ := id htrading
    have happroved : ∀ adjusted, (r.check b order).1 = .approved adjusted ↔
        match r.sizing b order with
        | some q => adjusted = some q
        | none => adjusted = none ∧ ¬r.Refused b order := by
      intro adjusted
      rw [check_approved_iff, limits_checked_iff]
      simp only [hhalted, hkill, hstop, true_and]
      rfl
    unfold KeepsLimits LimitsSkipped
    simp only [happroved, htrading, not_true_eq_false, false_or]
    cases hsizing : r.sizing b order with
    | some q =>
      obtain ⟨-, hopened, hbudget⟩ := withinBudget_of_sizing hsizing
      simp only [forall_eq, Option.getD_some]
      constructor
      · intro h
        exact ⟨h.day, h.drawdown, h.capacity hopened, hbudget.mp h.budget⟩
      · rintro ⟨hday, hdrawdown, hcapacity, hcovers⟩
        exact ⟨htrading, hday, hdrawdown, fun _ => hcapacity, hbudget.mpr hcovers⟩
    | none =>
      dsimp only
      constructor
      · intro h
        by_cases hrefused : r.Refused b order
        · exact .inl hrefused
        · have hkept := h none ⟨rfl, hrefused⟩
          exact .inr ⟨hkept.day, hkept.budget, fun _ => hkept.capacity⟩
      · rintro h _ ⟨rfl, hrefused⟩
        obtain ⟨hday, hbudget, hcapacity⟩ := h.resolve_left hrefused
        unfold Refused at hrefused
        obtain ⟨-, -, hrule, hdrawdown⟩ := by simpa only [not_or] using hrefused
        refine ⟨htrading, hday, fun hpos => not_le.mp fun hle => hdrawdown ⟨hpos, hle⟩, ?_, hbudget⟩
        intro hopened
        cases hreducer : isReducer b order.symbol order.side with
        | true => exact hcapacity hreducer hopened
        | false => exact withinCapacity_of_rule hreducer (not_not.mp fun h => hrule ⟨hreducer, h⟩)
  · refine iff_of_true (fun adjusted hadjusted => ?_) (.inl htrading)
    obtain ⟨hhalted, hkill, hstop, -⟩ := check_approved_iff.mp hadjusted
    exact absurd ⟨hhalted, hkill, hstop⟩ htrading

end Approved

/-- The day has lost 10000 with a limit of 1000; an order for 100 is clamped to 9 and approved. -/
theorem not_keepsLimits_clamped :
    let r : BacktestRiskSimulator :=
      { config := { dailyLossLimit := 1000, maxRiskPerTradePct := 1 }, initialCapital := 100000
        peakEquity := 100000 }
    let order : Order :=
      { symbol := "NIFTY", exchange := .nse, side := .buy, orderType := .limit, product := .intraday
        quantity := 100, price := 100 }
    (r.check { cash := 90000 } order).1 = .approved (some 9) ∧
      ¬r.KeepsLimits { cash := 90000 } order ⟨"2026-01-05", 100000⟩ := by
  intro r order
  have hcheck : (r.check { cash := 90000 } order).1 = .approved (some 9) := by decide +kernel
  refine ⟨hcheck, fun h => ?_⟩
  have hloss := (h _ hcheck).day.loss (by decide)
  exact absurd hloss (by decide +kernel)

end BacktestRiskSimulator

end Trademetrix.Backtest
