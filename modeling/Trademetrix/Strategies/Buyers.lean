import Mathlib.Data.Finset.Insert
import Trademetrix.Dict
import Trademetrix.Engine.Models
import Trademetrix.Strategies.Indicators

/-!
# The directional option buyers

`MomentumBreakoutBuyer`, `TrendRiderBuyer` and `HeroZero`, and the dispatch of
`BuyerBase.on_candle`, which hands a five minute candle of an open position to
`_manage` and everything else to `_on_15m`. A `Desk` is one strategy with its cached
state, restarted at any time.
-/

/-!
## What the option buyers share

`BuyerBase`: sizing by the premium, the stop that trails the premium, the time stop,
flattening, the ledger of a backtest and the state that is kept in the cache. What
`instrument_service`, the risk guard, the clock and the random generator answer while
a candle is handled is an input of the handler.
-/

namespace Trademetrix.Strategies

open Engine (OptionType OrderSide)
open Text (round2 roundHalfEven)

structure BuyerConfig where
  strategyId : String := ""
  userId : String := ""
  index : String := "NIFTY"
  capital : ℚ := 0
  orEnd : ℤ := (9 * 60 + 30) * 60 * 1000000
  lastEntry : ℤ := (14 * 60 + 30) * 60 * 1000000
  squareOff : ℤ := (15 * 60 + 40) * 60 * 1000000
  volMult : ℚ := 3 / 2
  volLookback : ℕ := 20
  itmOffsetSteps : ℤ := 0
  targetDelta : ℚ := 0
  riskPerTradePct : ℚ := 1
  maxOutlayPct : ℚ := 10
  slPct : ℚ := 30
  rrMin : ℚ := 2
  rrMax : ℚ := 5
  trailGivebackPct : ℚ := 25
  use5mExecution : Bool := true
  timeStopMin : ℚ := 30
  timeStopMinR : ℚ := 1 / 2
  maxTradesPerDay : ℤ := 2
  backtestMode : Bool := false
  backtestInitialCapital : ℚ := 100000

inductive Phase
  | buildingOr | armed | inTrade | done
  deriving DecidableEq, Repr

inductive ExitReason
  | killSwitch | squareOff | thetaTimeStop | structureInvalidation | stopLoss | trailStop | target
  | supertrendFlip | heroZeroSl | heroZeroTarget
  deriving DecidableEq, Repr

def ExitReason.value : ExitReason → String
  | killSwitch => "kill_switch"
  | squareOff => "square_off"
  | thetaTimeStop => "theta_time_stop"
  | structureInvalidation => "structure_invalidation"
  | stopLoss => "stop_loss"
  | trailStop => "trail_stop"
  | target => "target"
  | supertrendFlip => "supertrend_flip"
  | heroZeroSl => "hero_zero_sl"
  | heroZeroTarget => "hero_zero_target"

def ExitReason.Final (r : ExitReason) : Prop := r = .squareOff ∨ r = .killSwitch

instance (r : ExitReason) : Decidable r.Final := inferInstanceAs (Decidable (_ ∨ _))

/-- The exits of a `LongStraddle`. -/
inductive StraddleExit
  | killSwitch | squareOff | combinedLossCap | thetaTimeStop
  | trailStop (leg : OptionType) | stopLoss (leg : OptionType) | cutWinner (leg : OptionType)
  deriving DecidableEq, Repr

def StraddleExit.value : StraddleExit → String
  | killSwitch => "kill_switch"
  | squareOff => "square_off"
  | combinedLossCap => "combined_loss_cap"
  | thetaTimeStop => "theta_time_stop"
  | trailStop leg => leg.value ++ "_trail_stop"
  | stopLoss leg => leg.value ++ "_stop_loss"
  | cutWinner leg => leg.value ++ "_cut_winner"

inductive Tag
  | entry | heroZero | exit (reason : ExitReason) | straddle (leg : OptionType)
  | straddleExit (reason : StraddleExit)
  deriving DecidableEq, Repr

def Tag.text (strategyId : String) : Tag → String
  | entry => strategyId ++ ":entry"
  | heroZero => strategyId ++ ":hero_zero"
  | exit reason => strategyId ++ ":exit:" ++ reason.value
  | straddle .ce => strategyId ++ ":straddle:ce"
  | straddle .pe => strategyId ++ ":straddle:pe"
  | straddleExit reason => strategyId ++ ":straddle:exit:" ++ reason.value

structure Position where
  cepe : OptionType
  symbol : String
  strike : ℚ
  expiry : String
  entry : ℚ
  sl : ℚ
  target : ℚ
  r : ℚ
  lots : ℤ
  qty : ℤ
  peak : ℚ
  beArmed : Bool := false
  entryTs : Option ℤ := none
  heldMin : ℚ := 0
  rr : ℚ
  deriving DecidableEq

/-- The arguments of a call of `_place_order`. -/
structure Placed where
  symbol : String
  side : OrderSide
  qty : ℤ
  tag : Tag
  premium : Option ℚ
  deriving DecidableEq

structure BacktestTrade where
  symbol : String
  side : OrderSide
  qty : ℤ
  premium : ℚ
  cost : ℚ
  tag : Tag
  phase : Phase
  pnl : Option ℚ := none
  exitTag : Option Tag := none
  entryPremium : Option ℚ := none
  deriving DecidableEq

/-- A strategy between two candles; `orLow` is infinite until a candle lowers it. `placed` are
the orders handed to `_place_order` so far, which the code does not keep. -/
structure Buyer where
  phase : Phase := .buildingOr
  orHigh : ℚ := 0
  orLow : Option ℚ := none
  vols : List ℤ := []
  tradesToday : ℤ := 0
  tradedDirs : Finset OptionType := ∅
  lotSize : Option ℤ := none
  step : ℤ := 0
  pos : Option Position := none
  todayStr : String := ""
  fiveBuffer : List Candle := []
  currentPremium : Option ℚ := none
  candles : List Candle := []
  isExpiry : Bool := false
  backtestTrades : List BacktestTrade := []
  backtestCapital : ℚ := 0
  placed : List Placed := []
  deriving DecidableEq

/-- What is answered while a candle is handled; `expiry` is `none` when resolving it raises,
`draw` is a number of the generator between 0 and 1, `hour` that of the clock in India. -/
structure Answers where
  killSwitched : Bool := false
  ivPercentile : Option ℚ := none
  expiry : Option String := some ""
  strikes : List ℚ := []
  daysToExpiry : ℤ := 1
  optionDelta : ℚ → ℚ → ℚ → ℚ → OptionType → ℚ := fun _ _ _ _ _ => 0
  optionSymbol : String → ℚ → OptionType → String := fun _ _ _ => ""
  optionLtp : String → ℚ → OptionType → ℚ := fun _ _ _ => 0
  draw : ℚ := 0
  hour : ℤ := 0

section Sizing

variable (c : BuyerConfig) (a : Answers) (b : Buyer)

def isKillSwitched : Bool := c.userId ≠ "" && a.killSwitched

def checkIvGate : Bool := a.ivPercentile.any fun pct => 85 < pct

/-- The strike at the money, `offset` steps into it. -/
def strikeAtMoney (spot : ℚ) (cepe : OptionType) : ℚ :=
  let atm : ℚ := roundHalfEven (spot / b.step) * b.step
  let offset : ℚ := c.itmOffsetSteps * b.step
  match cepe with
  | .ce => atm - offset
  | .pe => atm + offset

def resolveStrikeByDelta (spot : ℚ) (cepe : OptionType) : Option ℚ :=
  let target := match cepe with
    | .ce => c.targetDelta
    | .pe => -c.targetDelta
  match a.strikes with
  | [] => if b.step = 0 then none else some (strikeAtMoney c b spot cepe)
  | first :: strikes =>
    let t := (max a.daysToExpiry 1 : ℤ) / (365 : ℚ)
    let sigma := match a.ivPercentile with
      | some pct => if pct = 0 then 1 / 4 else pct / 100
      | none => 1 / 4
    let diff (k : ℚ) := |a.optionDelta spot k t sigma cepe - target|
    some (strikes.foldl (fun best k => if diff k < diff best then k else best) first)

/-- `none` when it raises. -/
def resolveStrike (spot : ℚ) (cepe : OptionType) : Option ℚ :=
  if 0 < c.targetDelta then resolveStrikeByDelta c a b spot cepe
  else if b.step ≤ 0 then none
  else some (strikeAtMoney c b spot cepe)

structure Sizing where
  lots : ℤ
  qty : ℤ
  rPoints : ℚ

def Sizing.none : Sizing := ⟨0, 0, 0⟩

def premiumSize (entryPremium slPremium : ℚ) (lotSize : Option ℤ) : Sizing :=
  match lotSize with
  | .none => .none
  | some lot =>
    if lot ≤ 0 then .none
    else
      let riskPerLot := (entryPremium - slPremium) * lot
      if riskPerLot ≤ 0 then .none
      else
        let riskAmt := c.capital * c.riskPerTradePct / 100
        let maxOutlay := c.capital * c.maxOutlayPct / 100
        let maxLots := if 0 < entryPremium * lot then ⌊maxOutlay / (entryPremium * lot)⌋ else 0
        let lots := min ⌊riskAmt / riskPerLot⌋ maxLots
        if lots < 1 then .none else ⟨lots, lots * lot, entryPremium - slPremium⟩

def getRr : ℚ := round2 (c.rrMin + (c.rrMax - c.rrMin) * a.draw)

end Sizing

section Backtest

def closeLast (symbol : String) (premium : ℚ) (qty : ℤ) (tag : Tag) :
    List BacktestTrade → List BacktestTrade × Option ℚ
  | [] => ([], none)
  | t :: earlier =>
    if t.symbol = symbol ∧ t.side = .buy ∧ t.pnl = none then
      ({ t with pnl := some (round2 ((premium - t.premium) * qty)), exitTag := some tag } :: earlier,
        some t.premium)
    else
      let rest := closeLast symbol premium qty tag earlier
      (t :: rest.1, rest.2)

def recordBacktestTrade (b : Buyer) (symbol : String) (side : OrderSide) (qty : ℤ) (tag : Tag)
    (premium : Option ℚ) : Buyer :=
  let premium := premium.getD (b.currentPremium.getD 0)
  let trade : BacktestTrade :=
    { symbol := symbol, side := side, qty := qty, premium := premium, cost := premium * qty,
      tag := tag, phase := b.phase }
  match side with
  | .buy =>
    { b with
      backtestTrades := b.backtestTrades ++ [trade]
      backtestCapital := b.backtestCapital - premium * qty }
  | .sell =>
    let closed := closeLast symbol premium qty tag b.backtestTrades.reverse
    let pnl := match closed.2 with
      | some entryPremium => (premium - entryPremium) * qty
      | none => 0
    { b with
      backtestTrades := closed.1.reverse ++
        [{ trade with pnl := some (round2 pnl), entryPremium := closed.2 }]
      backtestCapital := b.backtestCapital + premium * qty }

structure BacktestResults where
  initialCapital : ℚ
  finalCapital : ℚ
  totalPnl : ℚ
  returnPct : ℚ
  totalTrades : ℕ
  winningTrades : ℕ
  losingTrades : ℕ
  winRate : ℚ

def getBacktestResults (c : BuyerConfig) (b : Buyer) : BacktestResults :=
  let totalPnl := b.backtestCapital - c.backtestInitialCapital
  let wins := b.backtestTrades.countP fun t => 0 < t.pnl.getD 0
  let losses := b.backtestTrades.countP fun t => t.pnl.getD 0 < 0
  let totalTrades := b.backtestTrades.length
  { initialCapital := c.backtestInitialCapital
    finalCapital := round2 b.backtestCapital
    totalPnl := round2 totalPnl
    returnPct :=
      if c.backtestInitialCapital = 0 then 0 else round2 (totalPnl / c.backtestInitialCapital * 100)
    totalTrades := totalTrades
    winningTrades := wins
    losingTrades := losses
    winRate := if totalTrades = 0 then 0 else round2 (wins / totalTrades * 100) }

end Backtest

section Positions

variable (c : BuyerConfig) (a : Answers) (b : Buyer)

def placeOrder (symbol : String) (side : OrderSide) (qty : ℤ) (tag : Tag) (premium : Option ℚ) :
    Buyer :=
  let b := { b with placed := b.placed ++ [⟨symbol, side, qty, tag, premium⟩] }
  if c.backtestMode then recordBacktestTrade b symbol side qty tag premium else b

def flatten (reason : ExitReason) : Buyer :=
  match b.pos with
  | none => b
  | some p =>
    let b := placeOrder c b p.symbol .sell p.qty (.exit reason) b.currentPremium
    { b with
      pos := none
      phase :=
        if reason.Final then .done
        else if b.tradesToday < c.maxTradesPerDay then .armed else .done }

def heldAndProgress (p : Position) (entryTs : ℤ) (premium : ℚ) (bar : Candle) : ℚ × ℚ :=
  ((bar.timestamp - entryTs) / 1000000 / 60,
    if 0 < p.r then (premium - p.entry) / p.r else 0)

def checkThetaTimeStop (premium : ℚ) (bar : Candle) : Buyer × Bool :=
  match b.pos with
  | none => (b, false)
  | some p =>
    match p.entryTs with
    | none => (b, false)
    | some ts =>
      let (held, progress) := heldAndProgress p ts premium bar
      ({ b with pos := some { p with heldMin := held } },
        c.timeStopMin ≤ held ∧ progress < c.timeStopMinR)

def checkStructureInvalidation (bar : Candle) : Bool :=
  match b.pos with
  | none => false
  | some p =>
    if p.beArmed then false
    else match p.cepe with
      | .ce => bar.close < b.orHigh
      | .pe => b.orLow.any fun low => low < bar.close

def Position.trail (p : Position) (premium : ℚ) : Position :=
  let p := { p with peak := max p.peak premium }
  let p := if !p.beArmed ∧ p.entry + p.r ≤ premium then { p with sl := p.entry, beArmed := true } else p
  if p.beArmed then { p with sl := max p.sl (p.peak * (1 - c.trailGivebackPct / 100)) } else p

def updateTrail (premium : ℚ) : Buyer := { b with pos := b.pos.map fun p => p.trail c premium }

/-- `vols[-vol_lookback:]` -/
def pushVolume (volume : ℤ) : Buyer :=
  let vols := b.vols ++ [volume]
  { b with vols := if c.volLookback = 0 then vols else vols.drop (vols.length - c.volLookback) }

end Positions

section Candles

def aggregate5mTo15m (first : Candle) (rest : List Candle) : Candle :=
  let last := (first :: rest).getLast (List.cons_ne_nil first rest)
  { symbol := first.symbol
    exchange := first.exchange
    interval := "15m"
    openPrice := first.openPrice
    high := rest.foldl (fun h c => max h c.high) first.high
    low := rest.foldl (fun l c => min l c.low) first.low
    close := last.close
    volume := first.volume + (rest.map Candle.volume).sum
    timestamp := last.timestamp
    oi := last.oi }

/-- The strategy after a candle and whether its state goes to the cache; a candle whose handling
raises is one that leaves the cache alone. -/
structure Turn where
  buyer : Buyer
  persists : Bool

end Candles

section State

structure SavedState where
  phase : Phase
  orHigh : ℚ
  orLow : Option ℚ
  vols : List ℤ
  tradesToday : ℤ
  tradedDirs : Finset OptionType
  lotSize : Option ℤ
  step : ℤ
  pos : Option Position
  deriving DecidableEq

def Buyer.toState (b : Buyer) : SavedState where
  phase := b.phase
  orHigh := b.orHigh
  orLow := b.orLow
  vols := b.vols
  tradesToday := b.tradesToday
  tradedDirs := b.tradedDirs
  lotSize := b.lotSize
  step := b.step
  pos := b.pos

/-- `lotSize` is the lot the instrument service resolves now. -/
def Buyer.fromState (b : Buyer) (s : SavedState) (lotSize : Option ℤ) : Buyer :=
  { b with
    phase := s.phase
    orHigh := s.orHigh
    orLow := s.orLow
    vols := s.vols
    tradesToday := s.tradesToday
    tradedDirs := s.tradedDirs
    lotSize :=
      match lotSize with
      | some lot => if lot = 0 then s.lotSize.filter (0 < ·) else some lot
      | none => s.lotSize.filter (0 < ·)
    step := s.step
    pos := s.pos }

/-- What `on_start` is answered; `strikeStep` is `none` when it raises. -/
structure Start where
  lotSize : Option ℤ
  strikeStep : Option ℤ
  todayStr : String

/-- `none` when it raises. Without a lot size the strategy is done and keeps no state. -/
def Buyer.onStart (b : Buyer) (start : Start) (cached : Option SavedState) : Option Buyer :=
  start.strikeStep.map fun step =>
    let b := { b with lotSize := start.lotSize, step := step }
    if start.lotSize.all (· = 0) then { b with phase := .done }
    else
      let b := { b with todayStr := start.todayStr }
      match cached with
      | some s => b.fromState s start.lotSize
      | none => b

end State

end Trademetrix.Strategies

namespace Trademetrix.Strategies

open Engine (OptionType)

section Entry

variable (c : BuyerConfig) (a : Answers) (b : Buyer)

def opened (tag : Tag) (p : Position) : Buyer :=
  let b := placeOrder c b p.symbol .buy p.qty tag (some p.entry)
  { b with
    pos := some p
    tradesToday := b.tradesToday + 1
    tradedDirs := insert p.cepe b.tradedDirs
    phase := .inTrade }

/-- The position bought at a premium with its stop; `none` when no lot can be paid. -/
def sized (cepe : OptionType) (strike : ℚ) (expiry : String) (p0 slPrem : ℚ) : Option Position :=
  let size := premiumSize c p0 slPrem b.lotSize
  if size.lots < 1 then none
  else
    let rr := getRr c a
    some
      { cepe := cepe, symbol := a.optionSymbol expiry strike cepe, strike := strike,
        expiry := expiry, entry := p0, sl := slPrem, target := p0 + rr * size.rPoints,
        r := size.rPoints, lots := size.lots, qty := size.qty, peak := p0, rr := rr }

/-- `_enter`; `none` when it raises, which it does before anything is changed. -/
def enter (cepe : OptionType) (spot : ℚ) : Option Buyer := do
  let expiry ← a.expiry
  let strike ← resolveStrike c a b spot cepe
  let p0 := a.optionLtp expiry strike cepe
  if p0 ≤ 0 then return b
  match sized c a b cepe strike expiry p0 (p0 * (1 - c.slPct / 100)) with
  | none => return b
  | some p => return opened c b .entry p

end Entry

/-- The start of `_manage`: when the position is open and its premium is known, the premium, and
the strategy with the time of entry and the stop brought up to date. -/
def managed (c : BuyerConfig) (a : Answers) (b : Buyer) (bar : Candle) : Buyer × Option ℚ :=
  match b.pos with
  | none => (b, none)
  | some p =>
    let b := { b with pos := some { p with entryTs := p.entryTs.or (some bar.timestamp) } }
    let prem := a.optionLtp p.expiry p.strike p.cepe
    if prem ≤ 0 then (b, none)
    else (updateTrail c { b with currentPremium := some prem } prem, some prem)

def handleSignal (c : BuyerConfig) (b : Buyer) (reason : ExitReason) : Turn :=
  ⟨flatten c b reason, true⟩

def buildOr (c : BuyerConfig) (b : Buyer) (bar : Candle) : Buyer :=
  if bar.time < c.orEnd then
    { b with
      orHigh := max b.orHigh bar.high
      orLow := some (b.orLow.elim bar.low fun low => min low bar.low) }
  else { b with phase := .armed }

namespace MomentumBreakoutBuyer

variable (c : BuyerConfig) (a : Answers) (b : Buyer) (bar : Candle)

def avgVol : ℚ := if b.vols = [] then 0 else (b.vols.sum : ℚ) / b.vols.length

def checkEntry : Option Buyer :=
  if c.maxTradesPerDay ≤ b.tradesToday then some b
  else
    if avgVol b ≤ 0 ∨ bar.volume ≤ c.volMult * avgVol b then some b
    else if b.orHigh < bar.close ∧ OptionType.ce ∉ b.tradedDirs then
      if checkIvGate a then some b else enter c a b .ce bar.close
    else if (b.orLow.all fun low => bar.close < low) ∧ OptionType.pe ∉ b.tradedDirs then
      if checkIvGate a then some b else enter c a b .pe bar.close
    else some b

def manage : Buyer :=
  match managed c a b bar with
  | (b, none) => b
  | (b, some prem) =>
    let (b, timeStop) := checkThetaTimeStop c b prem bar
    if timeStop then flatten c b .thetaTimeStop
    else if checkStructureInvalidation b bar then flatten c b .structureInvalidation
    else match b.pos with
      | none => b
      | some p =>
        if prem ≤ p.sl then flatten c b (if p.beArmed then .trailStop else .stopLoss)
        else if p.target ≤ prem then flatten c b .target
        else b

def on15m : Turn :=
  if isKillSwitched c a then handleSignal c b .killSwitch
  else if c.squareOff ≤ bar.time then handleSignal c b .squareOff
  else
    let next := match b.phase with
      | .buildingOr => some (buildOr c b bar)
      | .armed => if bar.time < c.lastEntry then checkEntry c a b bar else some b
      | .inTrade => some (manage c a b bar)
      | .done => some b
    match next with
    | none => ⟨b, false⟩
    | some b => ⟨pushVolume c b bar.volume, true⟩

end MomentumBreakoutBuyer

namespace TrendRiderBuyer

variable (c : BuyerConfig) (a : Answers) (b : Buyer) (bar : Candle)

def trendStrongAdx : ℚ := 20

def trendWeakAdx : ℚ := 20

def maxCandles : ℕ := 60

def hasIndicators : Bool := 22 ≤ b.candles.length

def checkEntry : Option Buyer :=
  if !hasIndicators b then some b
  else
    let prices := b.candles.map Candle.close
    let fast := ema prices 9
    let slow := ema prices 21
    let v := vwap (b.candles.map fun k => (k.close, (k.volume : ℚ)))
    if adx b.candles 14 < trendStrongAdx then some b
    else if checkIvGate a then some b
    else if slow < fast ∧ v < bar.close ∧ OptionType.ce ∉ b.tradedDirs then enter c a b .ce bar.close
    else if fast < slow ∧ bar.close < v ∧ OptionType.pe ∉ b.tradedDirs then enter c a b .pe bar.close
    else some b

def checkThetaTimeStop (premium : ℚ) : Buyer × Bool :=
  match b.pos with
  | none => (b, false)
  | some p =>
    match p.entryTs with
    | none => (b, false)
    | some ts =>
      let (held, progress) := heldAndProgress p ts premium bar
      let weakTrend := !hasIndicators b || adx b.candles 14 < trendWeakAdx
      ({ b with pos := some { p with heldMin := held } },
        c.timeStopMin ≤ held ∧ (progress < c.timeStopMinR ∨ weakTrend))

def flipped (cepe : OptionType) : Bool :=
  hasIndicators b &&
    match cepe with
    | .ce => !(supertrend b.candles 10 3).2
    | .pe => (supertrend b.candles 10 3).2

def manage : Buyer :=
  match managed c a b bar with
  | (b, none) => b
  | (b, some prem) =>
    let (b, timeStop) := checkThetaTimeStop c b bar prem
    if timeStop then flatten c b .thetaTimeStop
    else match b.pos with
      | none => b
      | some p =>
        if flipped b p.cepe then flatten c b .supertrendFlip
        else if prem ≤ p.sl then flatten c b (if p.beArmed then .trailStop else .stopLoss)
        else if p.target ≤ prem then flatten c b .target
        else b

def pushCandle : Buyer :=
  let candles := b.candles ++ [bar]
  { b with candles := if maxCandles < candles.length then candles.tail else candles }

def on15m : Turn :=
  if isKillSwitched c a then handleSignal c b .killSwitch
  else if c.squareOff ≤ bar.time then handleSignal c b .squareOff
  else
    let b := pushCandle b bar
    let next :=
      if b.phase = .inTrade then some (manage c a b bar)
      else if b.phase = .armed ∧ bar.time < c.lastEntry ∧ b.tradesToday < c.maxTradesPerDay then
        checkEntry c a b bar
      else some b
    match next with
    | none => ⟨b, false⟩
    | some b => ⟨if b.phase = .buildingOr then { b with phase := .armed } else b, true⟩

end TrendRiderBuyer

namespace HeroZero

variable (c : BuyerConfig) (a : Answers) (b : Buyer) (bar : Candle)

structure Candidate where
  cepe : OptionType
  strike : ℚ
  prem : ℚ

def strikes (step spot : ℚ) : List (OptionType × ℚ) :=
  let atm : ℚ := Text.roundHalfEven (spot / step) * step
  (List.range 6).flatMap fun dist => [(.ce, atm + dist * step), (.pe, atm - dist * step)]

def score (spot : ℚ) (k : Candidate) : ℚ :=
  match k.cepe with
  | .ce => if b.orHigh ≤ spot then k.prem else k.prem * (1 / 2)
  | .pe => if b.orLow.all fun low => spot ≤ low then k.prem else k.prem * (1 / 2)

def best (expiry : String) (step spot : ℚ) : Option Candidate :=
  ((strikes step spot).map fun s => (⟨s.1, s.2, a.optionLtp expiry s.2 s.1⟩ : Candidate)).foldl
    (fun found k =>
      if 5 ≤ k.prem ∧ k.prem < 100 ∧ found.all (fun f => score b spot f < score b spot k) then some k
      else found)
    none

/-- `interval` is the strike interval of the index, taken where the step is not known. -/
def checkEntry (interval : ℤ) : Option Buyer :=
  if c.maxTradesPerDay ≤ b.tradesToday then some b
  else if ¬ (9 ≤ a.hour ∧ a.hour ≤ 11) then some b
  else do
    let expiry ← a.expiry
    let spot := bar.close
    let step : ℚ := if b.step = 0 then interval else b.step
    match best a b expiry step spot with
    | none => return b
    | some k =>
      if k.cepe = .ce ∧ spot < b.orHigh then return b
      if k.cepe = .pe ∧ b.orLow.any (fun low => low < spot) then return b
      match sized c a b k.cepe k.strike expiry k.prem (k.prem * (3 / 5)) with
      | none => return b
      | some p => return opened c b .heroZero { p with lots := 10 }

def flatten (reason : ExitReason) : Buyer :=
  match b.pos with
  | none => b
  | some p =>
    let b := placeOrder c b p.symbol .sell p.qty (.exit reason) b.currentPremium
    { b with pos := none, phase := if reason.Final then .done else .armed }

def manage : Buyer :=
  match managed c a b bar with
  | (b, none) => b
  | (b, some prem) =>
    let (b, timeStop) := Strategies.checkThetaTimeStop c b prem bar
    if timeStop then flatten c b .thetaTimeStop
    else match b.pos with
      | none => b
      | some p =>
        if prem ≤ p.sl then flatten c b .heroZeroSl
        else if p.target ≤ prem then flatten c b .heroZeroTarget
        else if checkStructureInvalidation b bar then flatten c b .structureInvalidation
        else b

def on15m (interval : ℤ) : Turn :=
  if isKillSwitched c a then ⟨flatten c b .killSwitch, true⟩
  else if c.squareOff ≤ bar.time then ⟨flatten c b .squareOff, true⟩
  else if !b.isExpiry then ⟨b, false⟩
  else
    let next := match b.phase with
      | .buildingOr => some (buildOr c b bar)
      | .armed => if bar.time < c.lastEntry then checkEntry c a b bar interval else some b
      | .inTrade => some (manage c a b bar)
      | .done => some b
    match next with
    | none => ⟨b, false⟩
    | some b => ⟨pushVolume c b bar.volume, true⟩

end HeroZero

/-- The strategies; a `HeroZero` with the strike interval of its index. -/
inductive Key
  | momentumBreakoutBuyer | trendRiderBuyer | heroZero (interval : ℤ)
  deriving DecidableEq

section Dispatch

variable (key : Key) (c : BuyerConfig) (a : Answers) (b : Buyer) (candle : Candle)

def on15m : Turn :=
  match key with
  | .momentumBreakoutBuyer => MomentumBreakoutBuyer.on15m c a b candle
  | .trendRiderBuyer => TrendRiderBuyer.on15m c a b candle
  | .heroZero interval => HeroZero.on15m c a b candle interval

def manage : Buyer :=
  match key with
  | .momentumBreakoutBuyer => MomentumBreakoutBuyer.manage c a b candle
  | .trendRiderBuyer => TrendRiderBuyer.manage c a b candle
  | .heroZero _ => HeroZero.manage c a b candle

def FiveMinutes (c : BuyerConfig) (candle : Candle) : Prop :=
  c.use5mExecution ∧ candle.interval = "5m"

instance : Decidable (FiveMinutes c candle) := inferInstanceAs (Decidable (_ ∧ _))

def onCandle : Turn :=
  if FiveMinutes c candle then
    if b.phase = .inTrade then ⟨manage key c a b candle, true⟩
    else
      match b.fiveBuffer with
      | first :: second :: rest =>
        on15m key c a { b with fiveBuffer := [] } (aggregate5mTo15m first (second :: rest ++ [candle]))
      | buffer =>
        ⟨pushVolume c { b with fiveBuffer := buffer ++ [candle] } candle.volume, true⟩
  else on15m key c a b candle

end Dispatch

section Desk

structure Desk where
  buyer : Option Buyer := none
  cache : Dict String SavedState := []
  placed : List Placed := []

inductive Event
  | candle (bar : Candle) (answers : Answers) (stores : Bool)
  | restart (start : Start) (isExpiry : Bool)

def Buyer.persist (c : BuyerConfig) (b : Buyer) (stores : Bool) (cache : Dict String SavedState) :
    Dict String SavedState :=
  if b.todayStr = "" ∨ c.strategyId = "" ∨ stores = false then cache
  else cache.set b.todayStr b.toState

variable (key : Key) (c : BuyerConfig)

def Desk.step (d : Desk) : Event → Desk
  | .candle bar a stores =>
    match d.buyer with
    | none => d
    | some b =>
      let turn := onCandle key c a b bar
      { buyer := some turn.buyer
        cache := if turn.persists then turn.buyer.persist c stores d.cache else d.cache
        placed := turn.buyer.placed }
  | .restart start isExpiry =>
    let fresh : Buyer :=
      { isExpiry := isExpiry, backtestCapital := c.backtestInitialCapital, placed := d.placed }
    { d with buyer := fresh.onStart start (d.cache.get start.todayStr) }

def Desk.run (d : Desk) (es : List Event) : Desk := es.foldl (Desk.step key c) d

end Desk

end Trademetrix.Strategies
