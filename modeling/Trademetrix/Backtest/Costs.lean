import Trademetrix.Engine.Models

/-!
# The cost model of a backtest

Charges per fill, in rationals: each is rounded to the paisa as it is computed,
and their total once more.
-/

namespace Trademetrix.Backtest

open Engine (InstrumentType OrderSide ProductType)
open Text (round2)

inductive CostSegment
  | equityDelivery | equityIntraday | futures | options
  deriving DecidableEq, Repr

structure BacktestCostConfig where
  commissionPct : ℚ := 3 / 100
  commissionMin : ℚ := 20
  brokerageFlatOptions : ℚ := 20
  sttEnabled : Bool := true
  exchangeChargesEnabled : Bool := true
  stampDutyEnabled : Bool := true
  gstEnabled : Bool := true
  sebiFeesEnabled : Bool := true
  gstRate : ℚ := 18
  sebiFeesPerCrore : ℚ := 10
  sttPctOverride : Option ℚ := none
  exchangeTcPctOverride : Option ℚ := none
  stampDutyPctOverride : Option ℚ := none

/-- `EXCHANGE_TC_RATES`, in percent. -/
def exchangeTcRate : CostSegment → ℚ
  | .equityDelivery => 297 / 100000
  | .equityIntraday => 297 / 100000
  | .futures => 173 / 100000
  | .options => 3503 / 100000

/-- `STT_RATES`, in percent. -/
def sttRate : CostSegment → ℚ
  | .equityDelivery => 1 / 10
  | .equityIntraday => 25 / 1000
  | .futures => 125 / 10000
  | .options => 1 / 10

/-- `STAMP_DUTY_RATES`, in percent. -/
def stampDutyRate : CostSegment → ℚ
  | .equityDelivery => 15 / 1000
  | .equityIntraday => 3 / 1000
  | .futures => 2 / 1000
  | .options => 3 / 1000

def crore : ℚ := 100000000

def segmentFor (instrumentType : InstrumentType) (product : ProductType) : CostSegment :=
  match instrumentType with
  | .fut => .futures
  | .opt => .options
  | .eq => if product = .delivery then .equityDelivery else .equityIntraday

structure CostEstimate where
  segment : CostSegment
  tradedValue : ℚ
  slippage : ℚ
  brokerage : ℚ
  exchangeTc : ℚ
  stt : ℚ
  stampDuty : ℚ
  gst : ℚ
  sebi : ℚ
  total : ℚ

namespace BacktestCostConfig

variable (cfg : BacktestCostConfig)

def brokerage (segment : CostSegment) (tradedValue : ℚ) : ℚ :=
  if segment = .options then round2 cfg.brokerageFlatOptions
  else round2 (max (tradedValue * cfg.commissionPct / 100) cfg.commissionMin)

def exchangeTc (segment : CostSegment) (tradedValue : ℚ) : ℚ :=
  if cfg.exchangeChargesEnabled then
    round2 (tradedValue * cfg.exchangeTcPctOverride.getD (exchangeTcRate segment) / 100)
  else 0

def stt (side : OrderSide) (segment : CostSegment) (tradedValue : ℚ) : ℚ :=
  if cfg.sttEnabled then
    let rate :=
      if segment ≠ .equityIntraday ∧ side = .buy then 0
      else cfg.sttPctOverride.getD (sttRate segment)
    round2 (tradedValue * rate / 100)
  else 0

def stampDuty (side : OrderSide) (segment : CostSegment) (tradedValue : ℚ) : ℚ :=
  if cfg.stampDutyEnabled ∧ side = .buy then
    round2 (tradedValue * cfg.stampDutyPctOverride.getD (stampDutyRate segment) / 100)
  else 0

def gst (charges : ℚ) : ℚ := if cfg.gstEnabled then round2 (charges * cfg.gstRate / 100) else 0

def sebi (tradedValue : ℚ) : ℚ :=
  if cfg.sebiFeesEnabled ∧ 0 < tradedValue then
    round2 (tradedValue / crore * cfg.sebiFeesPerCrore)
  else 0

end BacktestCostConfig

def estimateCost (side : OrderSide) (tradedValue : ℚ) (segment : CostSegment) (slippageValue : ℚ)
    (cfg : BacktestCostConfig) : CostEstimate :=
  let slippage := round2 |slippageValue|
  let brokerage := cfg.brokerage segment tradedValue
  let exchangeTc := cfg.exchangeTc segment tradedValue
  let stt := cfg.stt side segment tradedValue
  let stampDuty := cfg.stampDuty side segment tradedValue
  let gst := cfg.gst (brokerage + exchangeTc)
  let sebi := cfg.sebi tradedValue
  { segment := segment
    tradedValue := round2 tradedValue
    slippage := slippage
    brokerage := brokerage
    exchangeTc := exchangeTc
    stt := stt
    stampDuty := stampDuty
    gst := gst
    sebi := sebi
    total := round2 (slippage + brokerage + exchangeTc + stt + stampDuty + gst + sebi) }

def estimateRoundTrip (side : OrderSide) (entryValue exitValue : ℚ) (segment : CostSegment)
    (slippageEntry slippageExit : ℚ) (cfg : BacktestCostConfig) : CostEstimate :=
  let entry := estimateCost side entryValue segment slippageEntry cfg
  let exitSide := if side = .buy then OrderSide.sell else .buy
  let exitC := estimateCost exitSide exitValue segment slippageExit cfg
  { segment := segment
    tradedValue := round2 (entry.tradedValue + exitC.tradedValue)
    slippage := round2 (entry.slippage + exitC.slippage)
    brokerage := round2 (entry.brokerage + exitC.brokerage)
    exchangeTc := round2 (entry.exchangeTc + exitC.exchangeTc)
    stt := round2 (entry.stt + exitC.stt)
    stampDuty := round2 (entry.stampDuty + exitC.stampDuty)
    gst := round2 (entry.gst + exitC.gst)
    sebi := round2 (entry.sebi + exitC.sebi)
    total := round2 (entry.total + exitC.total) }

end Trademetrix.Backtest
