import Trademetrix.Backtest.Costs
import Trademetrix.Backtest.Execution
import Trademetrix.Decimal
import Trademetrix.Paper.Broker

/-!
# The paper broker's fill engine

At what price an order is filled, of what quantity and with what charges. The
quotes and the draws it meets are parameters. An order is known by its
`client_order_id`.
-/

namespace Trademetrix.Paper

open Backtest (BacktestCostConfig CostEstimate estimateCost segmentFor)
open Engine (InstrumentType OrderSide OrderType)
open Text (round2)

inductive FillType
  | instant | nextTick | priceBased | volumeBased
  deriving DecidableEq, Repr

structure PaperConfig where
  slippagePct : ℚ := 1 / 100
  commissionPct : ℚ := 0
  exchangeChargesPct : ℚ := 0
  sttPct : ℚ := 0
  stampDutyPct : ℚ := 0
  enablePartialFill : Bool := false
  fillType : FillType := .instant
  minFillProbability : ℚ := 95 / 100

inductive Quote
  | dict (lastPrice ltp : Option ℚ)
  | model (lastPrice : ℚ)

/-- What the engine meets: the quote in the cache, the one a broker gives, the one in the cache
after the broker was asked, and what is drawn from 0 to 1 and from 0.1 to 0.9. -/
structure Market where
  quote : Option Quote := none
  live : Option ℚ := none
  later : Option Quote := none
  random : ℚ := 0
  uniform : ℚ := 1 / 10

structure ChargedFill extends PaperFill where
  symbol : String
  side : OrderSide
  commission : ℚ := 0
  exchangeCharges : ℚ := 0
  stt : ℚ := 0
  stampDuty : ℚ := 0
  netAmount : ℚ := 0

def quoteLastPrice : Option Quote → ℚ
  | none => 0
  | some (.dict lastPrice ltp) => if lastPrice.getD 0 = 0 then ltp.getD 0 else lastPrice.getD 0
  | some (.model lastPrice) => lastPrice

namespace PaperConfig

variable (cfg : PaperConfig) (m : Market) (order : Order)

def getFillPrice (m : Market) (order : Order) : ℚ :=
  if 0 < m.live.getD 0 then m.live.getD 0
  else if 0 < quoteLastPrice m.later then quoteLastPrice m.later
  else if 0 < order.price then order.price
  else 0

def applySlippage (order : Order) (price : ℚ) : ℚ :=
  if cfg.slippagePct ≤ 0 ∨ price ≤ 0 then price
  else
    let slippage := price * cfg.slippagePct / 100
    match order.side with
    | .buy => price + slippage
    | .sell => price - slippage

def applyPartialFill (quantity : ℤ) : ℤ :=
  if ¬cfg.enablePartialFill then quantity
  else if cfg.minFillProbability < m.random then max 1 ⌊quantity * m.uniform⌋
  else quantity

def costConfig : BacktestCostConfig where
  commissionPct := cfg.commissionPct
  commissionMin := 0
  sttPctOverride := some cfg.sttPct
  exchangeTcPctOverride := some cfg.exchangeChargesPct
  stampDutyPctOverride := some cfg.stampDutyPct
  gstEnabled := false
  sebiFeesEnabled := false

def buildFill (order : Order) (quantity : ℤ) (price : ℚ) : ChargedFill :=
  if quantity ≤ 0 ∨ price ≤ 0 then
    { orderId := order.clientOrderId, symbol := order.symbol, side := order.side }
  else
    let gross := quantity * price
    let est := estimateCost order.side gross (segmentFor order.instrumentType .intraday) 0
      cfg.costConfig
    let netAmount := match order.side with
      | .buy => gross + est.total
      | .sell => gross - est.total
    { orderId := order.clientOrderId
      symbol := order.symbol
      side := order.side
      filledQuantity := quantity
      filledPrice := round2 price
      commission := est.brokerage
      exchangeCharges := est.exchangeTc
      stt := est.stt
      stampDuty := est.stampDuty
      netAmount := round2 netAmount }

def fillFrom (price : ℚ) : ChargedFill :=
  cfg.buildFill order (cfg.applyPartialFill m order.quantity) (cfg.applySlippage order price)

def instantFill : ChargedFill := cfg.fillFrom m order (getFillPrice m order)

def nextTickFill : ChargedFill :=
  cfg.fillFrom m order
    (if 0 < quoteLastPrice m.quote then quoteLastPrice m.quote else getFillPrice m order)

/-- The price of `_price_based_fill` at the last one, if the order's are reached. -/
def reachedPrice (order : Order) (last : ℚ) : Option ℚ :=
  let trigger := order.triggerPrice.getD 0
  let stop := if order.price = 0 then last else order.price
  match order.orderType with
  | .limit =>
    match order.side with
    | .buy => if last ≤ order.price then some (min last order.price) else none
    | .sell => if order.price ≤ last then some (max last order.price) else none
  | .sl | .slm =>
    if trigger = 0 then some last
    else match order.side with
      | .buy => if trigger ≤ last then some (max last stop) else none
      | .sell => if last ≤ trigger then some (min last stop) else none
  | .market => some last

def priceBasedFill : ChargedFill :=
  let last := quoteLastPrice m.quote
  if last ≤ 0 then cfg.instantFill m order
  else match reachedPrice order last with
    | some price => cfg.fillFrom m order price
    | none => cfg.buildFill order 0 0

def volumeBasedFill : ChargedFill := cfg.instantFill m order

def simulateFill : ChargedFill :=
  match cfg.fillType with
  | .instant => cfg.instantFill m order
  | .nextTick => cfg.nextTickFill m order
  | .priceBased => cfg.priceBasedFill m order
  | .volumeBased => cfg.volumeBasedFill m order

end PaperConfig

end Trademetrix.Paper

/-!
# Limits in the two simulators

Each engine takes a price off the market or the candle, moves it by the slippage
and rounds it. The limit is respected exactly when the price that was taken, moved,
is nearest to a tick within the limit.
-/

namespace Trademetrix

open Engine (OrderSide)
open Text (round2 roundHalfEven roundHalfEven_le_iff le_roundHalfEven_iff)

def HasLimit (orderType : Engine.OrderType) : Prop := orderType = .limit ∨ orderType = .sl

def Respects (side : OrderSide) (limit price : ℚ) : Prop :=
  match side with
  | .buy => price ≤ limit
  | .sell => limit ≤ price

/-- The price is nearest to a tick within the limit, the even one of two; `scale` ticks make one. -/
def RoundsWithin (scale : ℚ) (side : OrderSide) (limit price : ℚ) : Prop :=
  match side with
  | .buy =>
    let tick := ⌊limit * scale⌋
    price * scale < tick + 1 / 2 ∨ price * scale = tick + 1 / 2 ∧ tick % 2 = 0
  | .sell =>
    let tick := ⌈limit * scale⌉
    tick - 1 / 2 < price * scale ∨ price * scale = tick - 1 / 2 ∧ tick % 2 = 0

/-- The price the slippage moves to, `pct` being no less than none. -/
def moved (side : OrderSide) (pct price : ℚ) : ℚ :=
  match side with
  | .buy => price * (1 + pct / 100)
  | .sell => price * (1 - pct / 100)

variable {scale limit price pct : ℚ} {side : OrderSide}

theorem respects_iff (hscale : 0 < scale) :
    Respects side limit (roundHalfEven (price * scale) / scale) ↔
      RoundsWithin scale side limit price := by
  cases side with
  | buy =>
    simp only [Respects, RoundsWithin]
    rw [div_le_iff₀ hscale, ← roundHalfEven_le_iff, Int.le_floor]
  | sell =>
    simp only [Respects, RoundsWithin]
    rw [le_div_iff₀ hscale, ← le_roundHalfEven_iff, Int.ceil_le]

@[simp] theorem moved_zero : moved side 0 price = price := by
  cases side <;> simp [moved]

namespace Paper.PaperConfig

variable {cfg : PaperConfig} {m : Market} {order : Order}

def offered (cfg : PaperConfig) (m : Market) (order : Order) : Option ℚ :=
  match cfg.fillType with
  | .instant | .volumeBased => some (getFillPrice m order)
  | .nextTick =>
    some (if 0 < quoteLastPrice m.quote then quoteLastPrice m.quote else getFillPrice m order)
  | .priceBased =>
    if quoteLastPrice m.quote ≤ 0 then some (getFillPrice m order)
    else reachedPrice order (quoteLastPrice m.quote)

theorem simulateFill_of_offered {price : ℚ} (h : cfg.offered m order = some price) :
    cfg.simulateFill m order = cfg.fillFrom m order price := by
  unfold offered at h
  unfold simulateFill
  cases hmode : cfg.fillType with
  | instant =>
    rw [hmode] at h
    exact congrArg (cfg.fillFrom m order) (Option.some.inj h)
  | nextTick =>
    rw [hmode] at h
    exact congrArg (cfg.fillFrom m order) (Option.some.inj h)
  | volumeBased =>
    rw [hmode] at h
    exact congrArg (cfg.fillFrom m order) (Option.some.inj h)
  | priceBased =>
    rw [hmode] at h
    dsimp only at h ⊢
    unfold priceBasedFill
    by_cases hlast : quoteLastPrice m.quote ≤ 0
    · rw [if_pos hlast] at h
      exact (if_pos hlast).trans (congrArg (cfg.fillFrom m order) (Option.some.inj h))
    · rw [if_neg hlast] at h
      exact (if_neg hlast).trans (by rw [h])

theorem simulateFill_of_not_offered (h : cfg.offered m order = none) :
    cfg.simulateFill m order = cfg.buildFill order 0 0 := by
  unfold offered at h
  unfold simulateFill
  cases hmode : cfg.fillType with
  | instant =>
    rw [hmode] at h
    cases h
  | nextTick =>
    rw [hmode] at h
    cases h
  | volumeBased =>
    rw [hmode] at h
    cases h
  | priceBased =>
    rw [hmode] at h
    dsimp only at h ⊢
    unfold priceBasedFill
    by_cases hlast : quoteLastPrice m.quote ≤ 0
    · rw [if_pos hlast] at h
      cases h
    · rw [if_neg hlast] at h
      exact (if_neg hlast).trans (by rw [h])

def KeepsLimit (cfg : PaperConfig) (m : Market) (order : Order) : Prop :=
  HasLimit order.orderType → 0 < (cfg.simulateFill m order).filledQuantity →
    Respects order.side order.price (cfg.simulateFill m order).filledPrice

def OffersWithin (cfg : PaperConfig) (m : Market) (order : Order) : Prop :=
  HasLimit order.orderType → ∀ price, cfg.offered m order = some price → 0 < price →
    0 < cfg.applyPartialFill m order.quantity →
    0 < moved order.side (max cfg.slippagePct 0) price →
    RoundsWithin 100 order.side order.price (moved order.side (max cfg.slippagePct 0) price)

theorem applySlippage_eq (hprice : 0 < price) :
    cfg.applySlippage order price = moved order.side (max cfg.slippagePct 0) price := by
  unfold applySlippage
  by_cases hpct : cfg.slippagePct ≤ 0
  · rw [if_pos (.inl hpct), max_eq_right hpct, moved_zero]
  · rw [if_neg (by push Not; exact ⟨not_le.mp hpct, hprice⟩), max_eq_left (not_le.mp hpct).le]
    unfold moved
    cases order.side <;> dsimp only <;> ring

theorem applySlippage_nonpos (hprice : price ≤ 0) : cfg.applySlippage order price = price :=
  if_pos (.inr hprice)

theorem filledQuantity_buildFill (quantity : ℤ) (price : ℚ) :
    0 < (cfg.buildFill order quantity price).filledQuantity ↔ 0 < quantity ∧ 0 < price := by
  unfold buildFill
  split
  · next h =>
    refine iff_of_false (by simp) ?_
    rintro ⟨hq, hp⟩
    rcases h with h | h
    · omega
    · exact absurd hp (not_lt.mpr h)
  · next h =>
    push Not at h
    exact iff_of_true h.1 h

theorem filledPrice_buildFill {quantity : ℤ} {price : ℚ} (hq : 0 < quantity) (hp : 0 < price) :
    (cfg.buildFill order quantity price).filledPrice = round2 price := by
  unfold buildFill
  rw [if_neg (by push Not; exact ⟨hq, hp⟩)]

theorem keepsLimit_iff : cfg.KeepsLimit m order ↔ cfg.OffersWithin m order := by
  refine imp_congr_right fun _ => ?_
  cases hoffer : cfg.offered m order with
  | none =>
    refine iff_of_true ?_ (by rintro price ⟨⟩)
    rw [simulateFill_of_not_offered hoffer]
    intro hfilled
    exact absurd ((filledQuantity_buildFill 0 0).mp hfilled).1 (lt_irrefl 0)
  | some price =>
    rw [simulateFill_of_offered hoffer, fillFrom]
    simp only [Option.some.injEq, forall_eq']
    by_cases hprice : 0 < price
    · rw [applySlippage_eq hprice]
      constructor
      · intro h _ hqty hmoved
        have hkept := h ((filledQuantity_buildFill _ _).mpr ⟨hqty, hmoved⟩)
        rw [filledPrice_buildFill hqty hmoved] at hkept
        exact (respects_iff (by norm_num)).mp hkept
      · intro h hfilled
        obtain ⟨hqty, hmoved⟩ := (filledQuantity_buildFill _ _).mp hfilled
        rw [filledPrice_buildFill hqty hmoved]
        exact (respects_iff (by norm_num)).mpr (h hprice hqty hmoved)
    · rw [applySlippage_nonpos (not_lt.mp hprice)]
      refine iff_of_true (fun hfilled => ?_) fun h => absurd h hprice
      exact absurd ((filledQuantity_buildFill _ _).mp hfilled).2 hprice

end Paper.PaperConfig

namespace Backtest.Setup

variable {s : Setup} {b : Broker} {order : Order} {candle : Candle} {drawn : ℕ}

def offered (order : Order) (candle : Candle) : Option ℚ :=
  let traded : Bool := match order.side with
    | .buy => candle.low ≤ order.price
    | .sell => order.price ≤ candle.high
  let triggered : Bool := match order.side with
    | .buy => triggerOf order ≤ candle.high
    | .sell => candle.low ≤ triggerOf order
  match order.orderType with
  | .limit =>
    if traded then
      some (match order.side with
        | .buy => min order.price candle.openPrice
        | .sell => max order.price candle.openPrice)
    else none
  | .sl =>
    if triggered ∧ traded then
      some (match order.side with
        | .buy => min (max (triggerOf order) candle.openPrice) order.price
        | .sell => max (min (triggerOf order) candle.openPrice) order.price)
    else none
  | _ => none

def slippageOf (s : Setup) (order : Order) : ℚ :=
  if order.orderType = .limit then 0 else max s.config.slippagePct 0

def Fills (result : FillResult) : Prop :=
  result.status = .filled ∨ result.status = .partiallyFilled

def KeepsLimit (s : Setup) (b : Broker) (order : Order) : Prop :=
  HasLimit order.orderType → Fills (s.simulateFill b order).1 →
    Respects order.side order.price (s.simulateFill b order).1.price

def OffersWithin (s : Setup) (b : Broker) (order : Order) : Prop :=
  HasLimit order.orderType →
    ∀ candle, s.candleAt (b.index + s.config.latencyCandles) = some candle →
      ∀ price, offered order candle = some price →
        RoundsWithin 10000 order.side order.price (moved order.side (s.slippageOf order) price)

theorem fills_fillAt (price : ℚ) (reason : String) : Fills (s.fillAt drawn order price reason).1 := by
  unfold fillAt Fills
  dsimp only
  split
  · exact .inr rfl
  · exact .inl rfl

theorem round4_round4 (x : ℚ) : round4 (round4 x) = round4 x := by
  have hcancel : round4 x * 10000 = (roundHalfEven (x * 10000) : ℚ) := by
    unfold round4
    exact div_mul_cancel₀ _ (by norm_num)
  rw [round4, hcancel, Text.roundHalfEven_intCast]
  rfl

theorem round4_slip (price : ℚ) :
    round4 (s.slip price side) = round4 (moved side (max s.config.slippagePct 0) price) := by
  unfold slip
  dsimp only
  by_cases hpct : s.config.slippagePct / 100 ≤ 0
  · have hzero : s.config.slippagePct ≤ 0 := by linarith
    rw [if_pos hpct, max_eq_right hzero, moved_zero]
  · have hpos : 0 ≤ s.config.slippagePct := by linarith
    rw [if_neg hpct, round4_round4, max_eq_left hpos]
    cases side <;> rfl

theorem limitFill_of_offered (s : Setup) (drawn : ℕ) (candle : Candle) (htype : order.orderType = .limit) :
    (∀ price, offered order candle = some price →
      s.limitFill drawn order candle = s.fillAt drawn order (round4 price) "limit") ∧
    (offered order candle = none → ¬Fills (s.limitFill drawn order candle).1) := by
  unfold offered limitFill
  rw [htype]
  cases hside : order.side with
  | buy =>
    by_cases htraded : candle.low ≤ order.price
    · simp [htraded, not_lt.mpr htraded]
    · simp [htraded, not_le.mp htraded, Fills]
  | sell =>
    by_cases htraded : order.price ≤ candle.high
    · simp [htraded, not_lt.mpr htraded]
    · simp [htraded, not_le.mp htraded, Fills]

theorem stopFill_of_offered (s : Setup) (drawn : ℕ) (candle : Candle) (htype : order.orderType = .sl) :
    (∀ price, offered order candle = some price →
      s.stopFill drawn order candle =
        s.fillAt drawn order (round4 (s.slip price order.side)) "stop") ∧
    (offered order candle = none → ¬Fills (s.stopFill drawn order candle).1) := by
  unfold offered stopFill
  rw [htype]
  cases hside : order.side with
  | buy =>
    by_cases htriggered : triggerOf order ≤ candle.high
    · by_cases htraded : candle.low ≤ order.price
      · simp [htraded, htriggered, not_lt.mpr htraded, not_lt.mpr htriggered]
      · simp [htraded, htriggered, not_le.mp htraded, not_lt.mpr htriggered, Fills]
    · simp [htriggered, not_le.mp htriggered, Fills]
  | sell =>
    by_cases htriggered : candle.low ≤ triggerOf order
    · by_cases htraded : order.price ≤ candle.high
      · simp [htraded, htriggered, not_lt.mpr htraded, not_lt.mpr htriggered]
      · simp [htraded, htriggered, not_le.mp htraded, not_lt.mpr htriggered, Fills]
    · simp [htriggered, not_le.mp htriggered, Fills]

theorem fillOn_of_offered (s : Setup) (drawn : ℕ) (candle : Candle)
    (hlimit : HasLimit order.orderType) :
    (∀ price, offered order candle = some price →
      Fills (s.fillOn drawn order (some candle)).1 ∧
        (s.fillOn drawn order (some candle)).1.price =
          round4 (moved order.side (s.slippageOf order) price)) ∧
    (offered order candle = none → ¬Fills (s.fillOn drawn order (some candle)).1) := by
  unfold fillOn slippageOf
  rcases hlimit with htype | htype
  · obtain ⟨hsome, hnone⟩ := limitFill_of_offered s drawn candle htype
    simp only [htype]
    refine ⟨fun price hprice => ?_, hnone⟩
    rw [hsome price hprice, if_pos trivial, moved_zero]
    exact ⟨fills_fillAt _ _, rfl⟩
  · obtain ⟨hsome, hnone⟩ := stopFill_of_offered s drawn candle htype
    simp only [htype]
    refine ⟨fun price hprice => ?_, hnone⟩
    rw [hsome price hprice, if_neg (by decide)]
    exact ⟨fills_fillAt _ _, round4_slip price⟩

theorem fillOn_keeps_iff (hlimit : HasLimit order.orderType) :
    (Fills (s.fillOn drawn order (some candle)).1 →
      Respects order.side order.price (s.fillOn drawn order (some candle)).1.price) ↔
    ∀ price, offered order candle = some price →
      RoundsWithin 10000 order.side order.price (moved order.side (s.slippageOf order) price) := by
  obtain ⟨hsome, hnone⟩ := fillOn_of_offered s drawn candle hlimit
  cases hoffer : offered order candle with
  | none => exact iff_of_true (fun h => absurd h (hnone hoffer)) (by rintro price ⟨⟩)
  | some price =>
    obtain ⟨hfills, hprice⟩ := hsome price hoffer
    rw [hprice]
    simp only [Option.some.injEq, forall_eq', hfills, true_imp_iff]
    exact respects_iff (by norm_num)

theorem keepsLimit_iff : s.KeepsLimit b order ↔ s.OffersWithin b order := by
  refine imp_congr_right fun hlimit => ?_
  unfold simulateFill
  cases hcandle : s.candleAt (b.index + s.config.latencyCandles) with
  | none =>
    refine iff_of_true (fun hfills => ?_) (by rintro candle ⟨⟩)
    rcases hfills with h | h <;> cases h
  | some candle =>
    simp only [Option.some.injEq, forall_eq']
    exact fillOn_keeps_iff hlimit

end Backtest.Setup

/-- In both engines an order with a limit is never filled past it exactly when what it is
offered, moved by the slippage, rounds to a tick within the limit. -/
theorem limit_protection_iff (cfg : Paper.PaperConfig) (m : Paper.Market) (order : Paper.Order)
    (s : Backtest.Setup) (b : Backtest.Broker) (order' : Backtest.Order) :
    (cfg.KeepsLimit m order ↔ cfg.OffersWithin m order) ∧
      (s.KeepsLimit b order' ↔ s.OffersWithin b order') :=
  ⟨Paper.PaperConfig.keepsLimit_iff, Backtest.Setup.keepsLimit_iff⟩

def buyAtHundred (orderType : Engine.OrderType) : Engine.NormalizedOrder where
  symbol := "SBIN"
  exchange := .nse
  side := .buy
  orderType := orderType
  product := .intraday
  quantity := 1
  price := 100

def atHundred : Backtest.Setup where
  config := { slippagePct := 1 }
  candles := [{ symbol := "SBIN", openPrice := 100, high := 102, low := 99, close := 101
                timestamp := "2026-01-05T09:15:00+05:30" }]
  random _ := 0
  elapsed _ _ := none

/-- With the settings it starts with, the paper engine buys at a hundred and ten; the backtest's
pays the slippage on top of the limit. -/
theorem limits_passed :
    ¬({} : Paper.PaperConfig).KeepsLimit { live := some 110 }
        { toNormalizedOrder := buyAtHundred .limit, createdAt := 0 } ∧
      ¬atHundred.KeepsLimit { atHundred.broker with index := 0 }
        { toNormalizedOrder := buyAtHundred .sl } := by
  constructor
  · intro h
    have hkept : (({} : Paper.PaperConfig).simulateFill { live := some 110 }
        { toNormalizedOrder := buyAtHundred .limit, createdAt := 0 }).filledPrice ≤ 100 :=
      h (.inl rfl) (by decide +kernel)
    revert hkept
    decide +kernel
  · intro h
    have hkept : (atHundred.simulateFill { atHundred.broker with index := 0 }
        { toNormalizedOrder := buyAtHundred .sl }).1.price ≤ 100 :=
      h (.inr rfl) (.inl (by decide))
    revert hkept
    decide +kernel

end Trademetrix
