import Trademetrix.AverageCost
import Trademetrix.Backtest.Accounting
import Trademetrix.Decimal
import Trademetrix.ExecutionEngine.Fifo

/-!
# The accounts of the fills of a symbol

The position of a symbol is an average-cost holding of its fills, and every trade
is charged what was charged for entering and leaving it. A fill that turns a
position is charged twice: in the trade it closes and in the entry it opens.
-/

namespace Trademetrix.Backtest

open AverageCost (Holding)
open Engine (OrderSide)
open ExecutionEngine (Hundredths hundredths_round2 hundredths_zero)
open Text (round2)

variable {s : Setup} {b : Broker} {order : Order} {result : FillResult} {pos : Position}
variable {h : Holding ℚ}

section Costs

namespace Costs

def parts (c : Costs) : ℚ := c.slippage + c.charges + c.taxes

structure Paise (c : Costs) : Prop where
  slippage : Hundredths c.slippage
  charges : Hundredths c.charges
  taxes : Hundredths c.taxes

theorem paise_empty : ({} : Costs).Paise := ⟨hundredths_zero, hundredths_zero, hundredths_zero⟩

@[simp] theorem parts_empty : ({} : Costs).parts = 0 := by simp [parts]

theorem paise_add (a c : Costs) : (a.add c).Paise :=
  ⟨hundredths_round2 _, hundredths_round2 _, hundredths_round2 _⟩

theorem parts_add {a c : Costs} (ha : a.Paise) (hc : c.Paise) :
    (a.add c).parts = a.parts + c.parts := by
  simp only [parts, add, (ha.slippage.add hc.slippage).round2, (ha.charges.add hc.charges).round2,
    (ha.taxes.add hc.taxes).round2]
  ring

end Costs

theorem CostEstimate.paise_split (cost : CostEstimate) : cost.split.Paise :=
  ⟨hundredths_round2 _, hundredths_round2 _, hundredths_round2 _⟩

theorem parts_split_costOf (s : Setup) (order : Order) (result : FillResult) :
    (s.costOf order result).split.parts = (s.costOf order result).total := by
  have hif : ∀ (p : Prop) [Decidable p] (x : ℚ), Hundredths (if p then round2 x else 0) := by
    intro p _ x
    split
    · exact hundredths_round2 x
    · exact hundredths_zero
  unfold Setup.costOf
  generalize s.config.costConfig = cfg
  generalize segmentFor order.instrumentType order.product = segment
  generalize (result.quantity * result.price : ℚ) = value
  have hslippage : Hundredths (round2 |value * s.config.slippagePct / 100|) := hundredths_round2 _
  have hbrokerage : Hundredths (cfg.brokerage segment value) := by
    unfold BacktestCostConfig.brokerage
    split <;> exact hundredths_round2 _
  have hexchange : Hundredths (cfg.exchangeTc segment value) := hif _ _
  have hstt : Hundredths (cfg.stt order.side segment value) := hif _ _
  have hstamp : Hundredths (cfg.stampDuty order.side segment value) := hif _ _
  have hgst : Hundredths (cfg.gst (cfg.brokerage segment value + cfg.exchangeTc segment value)) :=
    hif _ _
  have hsebi : Hundredths (cfg.sebi value) := hif _ _
  have hcharges := hbrokerage.add hexchange
  have htaxes := ((hstt.add hstamp).add hgst).add hsebi
  have htotal := (((((hslippage.add hbrokerage).add hexchange).add hstt).add hstamp).add hgst).add hsebi
  simp only [estimateCost, CostEstimate.split, Costs.parts]
  rw [hslippage.round2, hcharges.round2, htaxes.round2, htotal.round2]
  ring

end Costs

section Positions

def Position.pending (pos : Position) : ℚ := (pos.entryCosts.getD {}).parts

structure Position.Entered (pos : Position) : Prop where
  paise : ∀ c, pos.entryCosts = some c → c.Paise
  unheld : pos.quantity = 0 → pos.entryCosts = none
  untimed : pos.entryTime = none → pos.entryCosts = none

structure Position.Matches (pos : Position) (h : Holding ℚ) : Prop where
  quantity : pos.quantity = h.quantity
  average : pos.avgPrice * (|pos.quantity| : ℤ) = h.cost
  realised : pos.realizedPnl = h.realised
  nonneg : 0 ≤ pos.avgPrice

namespace Position

theorem Entered.getD_paise (hpos : pos.Entered) : (pos.entryCosts.getD {}).Paise := by
  cases hc : pos.entryCosts with
  | none => exact Costs.paise_empty
  | some c => exact hpos.paise c hc

theorem Matches.settled (hm : pos.Matches h) : h.Settled := by
  intro h0
  rw [← hm.average, hm.quantity, h0]
  simp

theorem Matches.mean (hm : pos.Matches h) (hq : pos.quantity ≠ 0) : pos.avgPrice = h.mean := by
  have hne : ((|h.quantity| : ℤ) : ℚ) ≠ 0 := by
    rw [← hm.quantity]
    simpa using hq
  rw [Holding.mean, ← hm.average, hm.quantity, mul_div_cancel_right₀ _ hne]

theorem Matches.basis (hm : pos.Matches h) : pos.basis = h.basis := by
  rw [Position.basis, ← Holding.mean_mul_quantity hm.settled, hm.quantity]
  by_cases hq : pos.quantity = 0
  · simp [← hm.quantity, hq]
  · rw [hm.mean hq]

variable (side : OrderSide) (qty closed : ℤ) (price pnl : ℚ) (openedAt reason : String)
  (costs : Costs)

@[simp] theorem realizedPnl_consumeEntryCosts (closed : ℤ) :
    (pos.consumeEntryCosts closed).realizedPnl = pos.realizedPnl := by
  unfold consumeEntryCosts
  dsimp only
  split <;> rfl

theorem quantity_closeBy : (pos.closeBy side qty closed price pnl openedAt reason costs).quantity =
    if closed < qty then (if side = .buy then qty - closed else -(qty - closed))
    else if side = .buy then pos.quantity + closed else pos.quantity - closed := by
  unfold closeBy
  dsimp only
  split
  · rfl
  · simp [clearEntryState]

theorem avgPrice_closeBy : (pos.closeBy side qty closed price pnl openedAt reason costs).avgPrice =
    if closed < qty then price else pos.avgPrice := by
  unfold closeBy
  dsimp only
  split
  · rfl
  · simp [clearEntryState]

theorem realizedPnl_closeBy :
    (pos.closeBy side qty closed price pnl openedAt reason costs).realizedPnl =
      pos.realizedPnl + pnl := by
  unfold closeBy
  dsimp only
  split <;> simp [clearEntryState]

theorem entryCosts_closeBy :
    (pos.closeBy side qty closed price pnl openedAt reason costs).entryCosts =
      if closed < qty then some costs else none := by
  unfold closeBy
  dsimp only
  split <;> rfl

theorem entryTime_closeBy :
    (pos.closeBy side qty closed price pnl openedAt reason costs).entryTime =
      if closed < qty then some openedAt else none := by
  unfold closeBy
  dsimp only
  split <;> rfl

end Position

end Positions

def signed (order : Order) (result : FillResult) : ℤ :=
  match order.side with
  | .buy => result.quantity
  | .sell => -result.quantity

namespace Broker

theorem takeFrom_turns (hprice : 0 ≤ result.price)
    (hm : (b.positionOf order.symbol).Matches h) (hadds : ¬b.Adds order)
    (hlt : |(b.positionOf order.symbol).quantity| < result.quantity) :
    (b.takeFrom s order result (b.positionOf order.symbol)).position.Matches
      ⟨h.quantity + signed order result, (|h.quantity + signed order result| : ℤ) * result.price,
        h.realised + h.side * (result.price - h.mean) * (|h.quantity| : ℤ)⟩ := by
  unfold Adds at hadds
  generalize b.positionOf order.symbol = pos at hm hadds hlt ⊢
  rw [Holding.side, ← hm.quantity]
  unfold takeFrom signed
  cases hside : order.side with
  | buy =>
    rw [hside] at hadds
    have hheld : pos.quantity < 0 := not_le.mp hadds
    have hmean := hm.mean hheld.ne
    rw [abs_of_neg hheld] at hlt ⊢
    have hclosed : min result.quantity (-pos.quantity) = -pos.quantity := min_eq_right hlt.le
    rw [Int.sign_eq_neg_one_of_neg hheld]
    dsimp only
    rw [hclosed]
    constructor
    · simp only [Position.quantity_closeBy, if_pos hlt, if_true]
      ring
    · simp only [Position.avgPrice_closeBy, Position.quantity_closeBy, if_pos hlt, if_true]
      rw [show result.quantity - -pos.quantity = pos.quantity + result.quantity by ring]
      ring
    · simp only [Position.realizedPnl_closeBy, hm.realised, hmean]
      push_cast
      ring
    · rw [Position.avgPrice_closeBy, if_pos hlt]
      exact hprice
  | sell =>
    rw [hside] at hadds
    have hheld : 0 < pos.quantity := not_le.mp hadds
    have hmean := hm.mean hheld.ne'
    rw [abs_of_pos hheld] at hlt ⊢
    have hclosed : min result.quantity pos.quantity = pos.quantity := min_eq_right hlt.le
    rw [Int.sign_eq_one_of_pos hheld]
    dsimp only
    rw [hclosed]
    constructor
    · simp only [Position.quantity_closeBy, if_pos hlt, reduceCtorEq, if_false]
      ring
    · simp only [Position.avgPrice_closeBy, Position.quantity_closeBy, if_pos hlt, reduceCtorEq,
        if_false]
      rw [show -(result.quantity - pos.quantity) = pos.quantity + -result.quantity by ring]
      ring
    · simp only [Position.realizedPnl_closeBy, hm.realised, hmean]
      push_cast
      ring
    · rw [Position.avgPrice_closeBy, if_pos hlt]
      exact hprice

theorem takeFrom_closes (hm : (b.positionOf order.symbol).Matches h) (hadds : ¬b.Adds order)
    (hle : result.quantity ≤ |(b.positionOf order.symbol).quantity|) :
    (b.takeFrom s order result (b.positionOf order.symbol)).position.Matches
      ⟨h.quantity + signed order result, h.cost - result.quantity * h.mean,
        h.realised + h.side * (result.price - h.mean) * result.quantity⟩ := by
  unfold Adds at hadds
  generalize b.positionOf order.symbol = pos at hm hadds hle ⊢
  have haverage := hm.average
  rw [Holding.side, ← hm.quantity]
  unfold takeFrom signed
  cases hside : order.side with
  | buy =>
    rw [hside] at hadds
    have hheld : pos.quantity < 0 := not_le.mp hadds
    have hmean := hm.mean hheld.ne
    rw [abs_of_neg hheld] at hle haverage ⊢
    have hclosed : min result.quantity (-pos.quantity) = result.quantity := min_eq_left hle
    have habs : |pos.quantity + result.quantity| = -pos.quantity - result.quantity := by
      rw [abs_of_nonpos (by omega)]
      ring
    rw [Int.sign_eq_neg_one_of_neg hheld]
    dsimp only
    rw [hclosed]
    constructor
    · simp only [Position.quantity_closeBy, lt_irrefl, if_false, if_true]
    · simp only [Position.avgPrice_closeBy, Position.quantity_closeBy, lt_irrefl, if_false, if_true,
        habs]
      rw [← haverage, ← hmean]
      push_cast
      ring
    · simp only [Position.realizedPnl_closeBy, hm.realised, hmean]
      push_cast
      ring
    · rw [Position.avgPrice_closeBy, if_neg (lt_irrefl _)]
      exact hm.nonneg
  | sell =>
    rw [hside] at hadds
    have hheld : 0 < pos.quantity := not_le.mp hadds
    have hmean := hm.mean hheld.ne'
    rw [abs_of_pos hheld] at hle haverage ⊢
    have hclosed : min result.quantity pos.quantity = result.quantity := min_eq_left hle
    have habs : |pos.quantity - result.quantity| = pos.quantity - result.quantity :=
      abs_of_nonneg (by omega)
    rw [Int.sign_eq_one_of_pos hheld]
    dsimp only
    rw [hclosed]
    constructor
    · simp only [Position.quantity_closeBy, lt_irrefl, reduceCtorEq, if_false]
      ring
    · simp only [Position.avgPrice_closeBy, Position.quantity_closeBy, lt_irrefl, reduceCtorEq,
        if_false, habs]
      rw [← haverage, ← hmean]
      push_cast
      ring
    · simp only [Position.realizedPnl_closeBy, hm.realised, hmean]
      push_cast
      ring
    · rw [Position.avgPrice_closeBy, if_neg (lt_irrefl _)]
      exact hm.nonneg

section Turns

variable (hqty : 0 < result.quantity) (hprice : 0 ≤ result.price)
include hqty

theorem abs_signed : |signed order result| = result.quantity := by
  unfold signed
  cases order.side with
  | buy => exact abs_of_pos hqty
  | sell => rw [abs_neg, abs_of_pos hqty]

theorem adds_iff (hm : (b.positionOf order.symbol).Matches h) :
    b.Adds order ↔ h.Adds (signed order result) := by
  unfold Adds Holding.Adds signed
  rw [hm.quantity]
  cases order.side with
  | buy => exact (mul_nonneg_iff_of_pos_right hqty).symm
  | sell =>
    rw [mul_neg, neg_nonneg]
    exact ⟨fun hle => mul_nonpos_of_nonpos_of_nonneg hle hqty.le,
      fun hle => nonpos_of_mul_nonpos_left hle hqty⟩

include hprice in
theorem addTo_matches (hm : (b.positionOf order.symbol).Matches h) (hadds : b.Adds order) :
    (b.addTo s order result (b.positionOf order.symbol)).position.Matches
      (h.fill (signed order result) result.price) := by
  have hfill : h.fill (signed order result) result.price =
      ⟨h.quantity + signed order result, h.cost + result.quantity * result.price, h.realised⟩ := by
    rw [Holding.fill, if_pos ((adds_iff hqty hm).mp hadds), abs_signed hqty]
  rw [hfill]
  unfold Adds at hadds
  generalize b.positionOf order.symbol = pos at hm hadds ⊢
  have haverage := hm.average
  unfold addTo signed
  cases hside : order.side with
  | buy =>
    rw [hside] at hadds
    have hheld : 0 ≤ pos.quantity := hadds
    have hsum : 0 ≤ pos.quantity + result.quantity := by omega
    have hmul := div_max_mul (x := pos.avgPrice * pos.quantity + result.price * result.quantity) hsum
      fun h0 => absurd h0 (by omega)
    push_cast at hmul
    rw [abs_of_nonneg hheld] at haverage
    constructor
    · simp only [Position.noteEntry, hm.quantity]
    · simp only [Position.noteEntry, abs_of_nonneg hsum]
      push_cast
      linear_combination hmul + haverage
    · exact hm.realised
    · have hq : (0 : ℚ) ≤ pos.quantity := by exact_mod_cast hheld
      have hr : (0 : ℚ) ≤ result.quantity := by exact_mod_cast hqty.le
      exact div_nonneg (add_nonneg (mul_nonneg hm.nonneg hq) (mul_nonneg hprice hr))
        (by exact_mod_cast zero_le_one.trans (le_max_left (1 : ℤ) _))
  | sell =>
    rw [hside] at hadds
    have hheld : pos.quantity ≤ 0 := hadds
    have hsum : 0 ≤ -pos.quantity + result.quantity := by omega
    have hmul := div_max_mul
      (x := |pos.avgPrice| * |(pos.quantity : ℚ)| + result.price * result.quantity) hsum
      fun h0 => absurd h0 (by omega)
    have hcast : |(pos.quantity : ℚ)| = -(pos.quantity : ℚ) :=
      abs_of_nonpos (by exact_mod_cast hheld)
    have habs : |pos.quantity - result.quantity| = -pos.quantity + result.quantity := by
      rw [abs_of_nonpos (by omega)]
      ring
    push_cast at hmul
    rw [abs_of_nonpos hheld] at haverage
    push_cast at haverage
    rw [hcast, abs_of_nonneg hm.nonneg] at hmul
    constructor
    · simp only [Position.noteEntry, hm.quantity]
      ring
    · simp only [Position.noteEntry, habs]
      push_cast
      rw [hcast, abs_of_nonneg hm.nonneg]
      linear_combination hmul + haverage
    · exact hm.realised
    · have hr : (0 : ℚ) ≤ result.quantity := by exact_mod_cast hqty.le
      exact div_nonneg (add_nonneg (mul_nonneg (abs_nonneg _)
        (by exact_mod_cast abs_nonneg pos.quantity)) (mul_nonneg hprice hr))
        (by exact_mod_cast zero_le_one.trans (le_max_left (1 : ℤ) _))

theorem turns_iff (hm : (b.positionOf order.symbol).Matches h) (hadds : ¬b.Adds order) :
    h.Turns (signed order result) ↔ |(b.positionOf order.symbol).quantity| < result.quantity := by
  rw [Holding.Turns, abs_signed hqty, hm.quantity]
  exact and_iff_right (not_le.mp (mt (adds_iff hqty hm).mpr hadds))

include hprice in
theorem turn_matches (hm : (b.positionOf order.symbol).Matches h) :
    (b.turn s order result).position.Matches (h.fill (signed order result) result.price) := by
  by_cases hadds : b.Adds order
  · rw [turn_of_adds hadds]
    exact addTo_matches hqty hprice hm hadds
  · rw [turn_of_not_adds hadds, Holding.fill, if_neg (mt (adds_iff hqty hm).mpr hadds),
      abs_signed hqty]
    by_cases hturns : h.Turns (signed order result)
    · rw [if_pos hturns]
      exact takeFrom_turns hprice hm hadds ((turns_iff hqty hm hadds).mp hturns)
    · rw [if_neg hturns]
      exact takeFrom_closes hm hadds (not_lt.mp (mt (turns_iff hqty hm hadds).mpr hturns))

end Turns

def chargedTo (turn : Turn) : ℚ := (turn.trade.map Trade.costTotal).getD 0

theorem costTotal_tradeOf {symbol : String} {side : OrderSide} {entry exitPrice : ℚ} {qty : ℤ}
    {pnl : ℚ} {entryTime entryReason exitReason : String} {entryCosts : Option Costs}
    {exitCosts : Costs} (hentry : (entryCosts.getD {}).Paise) (hexit : exitCosts.Paise) :
    (b.tradeOf s symbol side entry exitPrice qty pnl entryTime entryReason exitReason entryCosts
      exitCosts).costTotal = (entryCosts.getD {}).parts + exitCosts.parts := by
  have hs := hentry.slippage.add hexit.slippage
  have hc := hentry.charges.add hexit.charges
  have ht := hentry.taxes.add hexit.taxes
  simp only [tradeOf, Costs.parts, hs.round2, hc.round2, ht.round2, ((hs.add hc).add ht).round2]
  ring

theorem addTo_costs (hqty : 0 < result.quantity) (he : (b.positionOf order.symbol).Entered)
    (hadds : b.Adds order) :
    (b.addTo s order result (b.positionOf order.symbol)).position.Entered ∧
      chargedTo (b.addTo s order result (b.positionOf order.symbol)) +
          (b.addTo s order result (b.positionOf order.symbol)).position.pending =
        (b.positionOf order.symbol).pending + (s.costOf order result).total := by
  have hparts := parts_split_costOf s order result
  have hpaise := (s.costOf order result).paise_split
  unfold Adds at hadds
  generalize b.positionOf order.symbol = pos at he hadds ⊢
  -- what an opening fill finds is an empty entry
  have hnote : ∀ (q : ℤ) (avg : ℚ) (opening : Bool) (openedAt : String), q ≠ 0 →
      (opening = true → pos.entryCosts = none) →
      (({ pos with quantity := q, avgPrice := avg }).noteEntry openedAt order.reason opening
        (s.costOf order result).split result.quantity).Entered ∧
      (({ pos with quantity := q, avgPrice := avg }).noteEntry openedAt order.reason opening
        (s.costOf order result).split result.quantity).pending =
          pos.pending + (s.costOf order result).total := by
    intro q avg opening openedAt hq hopening
    cases opening with
    | true =>
      refine ⟨⟨?_, fun h0 => absurd h0 hq, by simp [Position.noteEntry]⟩, ?_⟩
      · simp only [Position.noteEntry, if_true, Option.some.injEq, forall_eq']
        exact hpaise
      · simp only [Position.pending, Position.noteEntry, hopening rfl, if_true, Option.getD_some,
          Option.getD_none, hparts, Costs.parts_empty, zero_add]
    | false =>
      refine ⟨⟨?_, fun h0 => absurd h0 hq, by simp [Position.noteEntry]⟩, ?_⟩
      · simp only [Position.noteEntry, Bool.false_eq_true, if_false, Option.some.injEq, forall_eq']
        exact Costs.paise_add _ _
      · simp only [Position.pending, Position.noteEntry, Bool.false_eq_true, if_false,
          Option.getD_some]
        rw [Costs.parts_add he.getD_paise hpaise, hparts]
  unfold addTo chargedTo
  cases hside : order.side with
  | buy =>
    rw [hside] at hadds
    have hheld : 0 ≤ pos.quantity := hadds
    obtain ⟨hentered, hpending⟩ := hnote (pos.quantity + result.quantity)
      ((pos.avgPrice * pos.quantity + result.price * result.quantity) /
        max 1 (pos.quantity + result.quantity)) (decide (pos.quantity = 0))
      ((b.lastTimes.get order.symbol).getD "") (by omega)
      (fun h0 => he.unheld (of_decide_eq_true h0))
    refine ⟨by exact_mod_cast hentered, ?_⟩
    simp only [Option.map_none, Option.getD_none, zero_add]
    exact_mod_cast hpending
  | sell =>
    rw [hside] at hadds
    have hheld : pos.quantity ≤ 0 := hadds
    obtain ⟨hentered, hpending⟩ := hnote (pos.quantity - result.quantity)
      ((|pos.avgPrice| * |pos.quantity| + result.price * result.quantity) /
        max 1 (|pos.quantity| + result.quantity)) pos.entryTime.isNone
      ((b.lastTimes.get order.symbol).getD "") (by omega)
      (fun h0 => he.untimed (Option.isNone_iff_eq_none.mp h0))
    refine ⟨by exact_mod_cast hentered, ?_⟩
    simp only [Option.map_none, Option.getD_none, zero_add]
    exact_mod_cast hpending

theorem takeFrom_costs (he : (b.positionOf order.symbol).Entered) :
    (b.takeFrom s order result (b.positionOf order.symbol)).position.Entered ∧
      chargedTo (b.takeFrom s order result (b.positionOf order.symbol)) +
          (b.takeFrom s order result (b.positionOf order.symbol)).position.pending =
        (b.positionOf order.symbol).pending + (s.costOf order result).total +
          if |(b.positionOf order.symbol).quantity| < result.quantity then
            (s.costOf order result).total
          else 0 := by
  have hparts := parts_split_costOf s order result
  have hpaise := (s.costOf order result).paise_split
  generalize b.positionOf order.symbol = pos at he ⊢
  have hclosed : min result.quantity |pos.quantity| < result.quantity ↔
      |pos.quantity| < result.quantity := by
    rw [min_lt_iff]
    simp
  constructor
  · constructor
    · intro c hc
      simp only [takeFrom, Position.entryCosts_closeBy] at hc
      split at hc
      · rw [← Option.some.inj hc]
        exact hpaise
      · cases hc
    · intro h0
      simp only [takeFrom, Position.quantity_closeBy, Position.entryCosts_closeBy] at h0 ⊢
      split at h0
      · split at h0 <;> omega
      · next hle => rw [if_neg hle]
    · intro h0
      simp only [takeFrom, Position.entryTime_closeBy, Position.entryCosts_closeBy] at h0 ⊢
      split at h0
      · cases h0
      · next hle => rw [if_neg hle]
  · simp only [chargedTo, takeFrom, Option.map_some, Option.getD_some, Position.pending,
      Position.entryCosts_closeBy, costTotal_tradeOf he.getD_paise hpaise, hclosed]
    split
    · rw [Option.getD_some, hparts]
    · rw [Option.getD_none, hparts]
      simp

theorem turn_costs (hqty : 0 < result.quantity) (hm : (b.positionOf order.symbol).Matches h)
    (he : (b.positionOf order.symbol).Entered) :
    (b.turn s order result).position.Entered ∧
      chargedTo (b.turn s order result) + (b.turn s order result).position.pending =
        (b.positionOf order.symbol).pending + (s.costOf order result).total +
          if h.Turns (signed order result) then (s.costOf order result).total else 0 := by
  by_cases hadds : b.Adds order
  · have hnot : ¬h.Turns (signed order result) :=
      fun hturns => hturns.1.not_ge ((adds_iff hqty hm).mp hadds)
    rw [turn_of_adds hadds, if_neg hnot, add_zero]
    exact addTo_costs hqty he hadds
  · rw [turn_of_not_adds hadds]
    simp only [turns_iff hqty hm hadds]
    exact takeFrom_costs he

end Broker

section Listed

theorem round4_nonneg {x : ℚ} (hx : 0 ≤ x) : 0 ≤ round4 x := by
  have hround : 0 ≤ Text.roundHalfEven (x * 10000) := by
    refine Text.le_roundHalfEven_iff.mpr (.inl ?_)
    push_cast
    linarith only [hx]
  exact div_nonneg (by exact_mod_cast hround) (by norm_num)

theorem slip_nonneg (hslip : s.config.slippagePct ≤ 100) {price : ℚ} (hprice : 0 ≤ price)
    (side : OrderSide) : 0 ≤ s.slip price side := by
  unfold Setup.slip
  dsimp only
  split
  · exact hprice
  · next hpct =>
    have hpos : 0 < s.config.slippagePct / 100 := not_le.mp hpct
    refine round4_nonneg ?_
    split
    · exact mul_nonneg hprice (by linarith)
    · exact mul_nonneg hprice (by linarith)

theorem fillAt_listed {drawn : ℕ} {price : ℚ} {reason : String} (hqty : 0 < order.quantity)
    (hprice : 0 ≤ price) :
    0 < (s.fillAt drawn order price reason).1.quantity ∧
      0 ≤ (s.fillAt drawn order price reason).1.price := by
  refine ⟨?_, hprice⟩
  simp only [Setup.fillAt, Setup.maybePartial]
  split
  · exact hqty
  · split
    · exact zero_lt_one.trans_le (le_max_left _ _)
    · exact hqty

theorem stopFill_listed (hslip : s.config.slippagePct ≤ 100) (hqty : 0 < order.quantity)
    (hlimit : 0 ≤ order.price) (htrigger : 0 ≤ Setup.triggerOf order) {candle : Candle}
    (hopen : 0 ≤ candle.openPrice) (drawn : ℕ)
    (hfilled : (s.stopFill drawn order candle).1.status ≠ .pending) :
    0 < (s.stopFill drawn order candle).1.quantity ∧
      0 ≤ (s.stopFill drawn order candle).1.price := by
  unfold Setup.stopFill at hfilled ⊢
  dsimp only at hfilled ⊢
  split_ifs at hfilled ⊢ with huntouched hsl hmissed
  · simp at hfilled
  · simp at hfilled
  · refine fillAt_listed hqty (round4_nonneg (slip_nonneg hslip ?_ _))
    cases order.side with
    | buy => exact le_min (hopen.trans (le_max_right _ _)) hlimit
    | sell => exact hlimit.trans (le_max_right _ _)
  · refine fillAt_listed hqty (round4_nonneg (slip_nonneg hslip ?_ _))
    cases order.side with
    | buy => exact hopen.trans (le_max_right _ _)
    | sell => exact le_min htrigger hopen

theorem fillOn_listed (hslip : s.config.slippagePct ≤ 100) (hqty : 0 < order.quantity)
    (hlimit : 0 ≤ order.price) (htrigger : 0 ≤ Setup.triggerOf order) {candle : Candle}
    (hopen : 0 ≤ candle.openPrice) (hclose : 0 ≤ candle.close) (drawn : ℕ)
    (hfilled : (s.fillOn drawn order (some candle)).1.status ≠ .pending ∧
      (s.fillOn drawn order (some candle)).1.status ≠ .rejected) :
    0 < (s.fillOn drawn order (some candle)).1.quantity ∧
      0 ≤ (s.fillOn drawn order (some candle)).1.price := by
  unfold Setup.fillOn at hfilled ⊢
  cases htype : order.orderType with
  | market =>
    rw [htype] at hfilled
    dsimp only [Setup.marketFill] at hfilled ⊢
    split_ifs at hfilled ⊢ with hnone
    · simp at hfilled
    · exact fillAt_listed hqty (slip_nonneg hslip hclose _)
  | limit =>
    rw [htype] at hfilled
    dsimp only [Setup.limitFill] at hfilled ⊢
    split_ifs at hfilled ⊢ with hmissed
    · simp at hfilled
    · refine fillAt_listed hqty (round4_nonneg ?_)
      cases order.side with
      | buy => exact le_min hlimit hopen
      | sell => exact hlimit.trans (le_max_left _ _)
  | sl =>
    rw [htype] at hfilled
    exact stopFill_listed hslip hqty hlimit htrigger hopen drawn hfilled.1
  | slm =>
    rw [htype] at hfilled
    exact stopFill_listed hslip hqty hlimit htrigger hopen drawn hfilled.1

end Listed

section Runs

def BookEvent.Listed : BookEvent → Prop
  | .fill _ result => 0 < result.quantity ∧ 0 ≤ result.price
  | .close _ => True

instance (e : BookEvent) : Decidable e.Listed := by
  cases e <;> unfold BookEvent.Listed <;> infer_instance

variable (symbol : String)

def BookEvent.fillOf : BookEvent → Option (ℤ × ℚ)
  | .fill order result =>
    if order.symbol = symbol then some (signed order result, result.price) else none
  | .close _ => none

def fillsOf (es : List BookEvent) : List (ℤ × ℚ) := es.filterMap (BookEvent.fillOf symbol)

def BookEvent.valueOn (side : OrderSide) : BookEvent → ℚ
  | .fill order result =>
    if order.symbol = symbol ∧ order.side = side then result.quantity * result.price else 0
  | .close _ => 0

def tradedValue (side : OrderSide) (es : List BookEvent) : ℚ :=
  (es.map (BookEvent.valueOn symbol side)).sum

def BookEvent.charges (s : Setup) : BookEvent → ℚ
  | .fill order result => if order.symbol = symbol then (s.costOf order result).total else 0
  | .close _ => 0

def chargesOf (s : Setup) (es : List BookEvent) : ℚ := (es.map (BookEvent.charges symbol s)).sum

def turningCharges (s : Setup) : Holding ℚ → List BookEvent → ℚ
  | _, [] => 0
  | h, .close _ :: es => turningCharges s h es
  | h, .fill order result :: es =>
    if order.symbol = symbol then
      (if h.Turns (signed order result) then (s.costOf order result).total else 0) +
        turningCharges s (h.fill (signed order result) result.price) es
    else turningCharges s h es

def Broker.attributed (b : Broker) : ℚ :=
  ((b.trades.filter fun t => t.symbol = symbol).map Trade.costTotal).sum

def Broker.Recorded (b : Broker) : Prop :=
  |(b.trades.map Trade.pnl).sum - b.realized| ≤ b.trades.length / 200

structure FillsConserved (s : Setup) (es : List BookEvent) : Prop where
  value : tradedValue symbol .sell es - tradedValue symbol .buy es =
    ((s.booked es).positionOf symbol).realizedPnl -
      ((s.booked es).positionOf symbol).quantity * ((s.booked es).positionOf symbol).avgPrice
  average : ((s.booked es).positionOf symbol).Matches (Holding.empty.fills (fillsOf symbol es))
  recorded : (s.booked es).Recorded
  costs : ((s.booked es).positionOf symbol).quantity = 0 →
    (s.booked es).attributed symbol = chargesOf symbol s es

variable {symbol}

theorem fillsOf_fill (order : Order) (result : FillResult) (es : List BookEvent) :
    fillsOf symbol (.fill order result :: es) =
      if order.symbol = symbol then (signed order result, result.price) :: fillsOf symbol es
      else fillsOf symbol es := by
  by_cases hsymbol : order.symbol = symbol <;> simp [fillsOf, BookEvent.fillOf, hsymbol]

theorem positionOf_applyFill :
    (b.applyFill s order result).positionOf symbol =
      if order.symbol = symbol then (b.turn s order result).position else b.positionOf symbol := by
  simp only [Broker.positionOf, Broker.applyFill, Dict.get_set, eq_comm (a := symbol)]
  split <;> rfl

theorem turn_trade (s : Setup) (b : Broker) (order : Order) (result : FillResult) :
    match (b.turn s order result).trade with
    | some t => t.symbol = order.symbol ∧ t.pnl = round2 (b.turn s order result).pnl
    | none => (b.turn s order result).pnl = 0 := by
  by_cases hadds : b.Adds order
  · rw [Broker.turn_of_adds hadds]
    unfold Broker.addTo
    cases order.side <;> rfl
  · rw [Broker.turn_of_not_adds hadds]
    exact ⟨rfl, rfl⟩

theorem attributed_applyFill :
    (b.applyFill s order result).attributed symbol = b.attributed symbol +
      if order.symbol = symbol then Broker.chargedTo (b.turn s order result) else 0 := by
  have htrade := turn_trade s b order result
  simp only [Broker.attributed, Broker.applyFill, Broker.chargedTo, List.filter_append,
    List.map_append, List.sum_append]
  cases ht : (b.turn s order result).trade with
  | none => simp
  | some t =>
    rw [ht] at htrade
    by_cases hsymbol : order.symbol = symbol <;> simp [htrade.1, hsymbol]

theorem recorded_applyFill (hb : b.Recorded) (order : Order) (result : FillResult) :
    (b.applyFill s order result).Recorded := by
  have htrade := turn_trade s b order result
  unfold Broker.Recorded at hb ⊢
  simp only [Broker.applyFill, List.map_append, List.sum_append, List.length_append]
  cases ht : (b.turn s order result).trade with
  | none =>
    rw [ht] at htrade
    simpa [show (b.turn s order result).pnl = 0 from htrade] using hb
  | some t =>
    rw [ht] at htrade
    have hround := abs_le.mp (Text.abs_round2_sub_le (b.turn s order result).pnl)
    have hold := abs_le.mp hb
    simp only [Option.toList_some, List.map_cons, List.map_nil, List.sum_cons, List.sum_nil,
      List.length_cons, List.length_nil, htrade.2]
    push_cast
    rw [abs_le]
    constructor <;> linarith [hround.1, hround.2, hold.1, hold.2]

theorem recorded_booked (s : Setup) (es : List BookEvent) : (s.booked es).Recorded := by
  induction es using List.reverseRecOn with
  | nil => simp [Broker.Recorded, Setup.booked, Setup.broker]
  | append_singleton es e ih =>
    rw [Setup.booked, List.foldl_append]
    cases e with
    | fill order result => exact recorded_applyFill ih order result
    | close candle => exact ih

theorem tradedValue_sub (es : List BookEvent) :
    tradedValue symbol .sell es - tradedValue symbol .buy es =
      -((fillsOf symbol es).map fun x => (x.1 : ℚ) * x.2).sum := by
  induction es with
  | nil => simp [tradedValue, fillsOf]
  | cons e es ih =>
    simp only [tradedValue, List.map_cons, List.sum_cons] at ih ⊢
    cases e with
    | close candle =>
      have hfills : fillsOf symbol (.close candle :: es) = fillsOf symbol es := rfl
      rw [hfills, ← ih]
      simp [BookEvent.valueOn]
    | fill order result =>
      rw [fillsOf_fill]
      by_cases hsymbol : order.symbol = symbol
      · rw [if_pos hsymbol, List.map_cons, List.sum_cons]
        cases hside : order.side with
        | buy =>
          simp only [BookEvent.valueOn, signed, hsymbol, hside, true_and, reduceCtorEq, if_false,
            if_true]
          linear_combination ih
        | sell =>
          simp only [BookEvent.valueOn, signed, hsymbol, hside, true_and, reduceCtorEq, if_false,
            if_true]
          push_cast
          linear_combination ih
      · rw [if_neg hsymbol]
        simpa [BookEvent.valueOn, hsymbol] using ih

theorem accounts_run {es : List BookEvent} (hes : ∀ e ∈ es, e.Listed)
    (hm : (b.positionOf symbol).Matches h) (he : (b.positionOf symbol).Entered) :
    ((es.foldl (BookEvent.on s) b).positionOf symbol).Matches (h.fills (fillsOf symbol es)) ∧
      ((es.foldl (BookEvent.on s) b).positionOf symbol).Entered ∧
      (es.foldl (BookEvent.on s) b).attributed symbol +
          ((es.foldl (BookEvent.on s) b).positionOf symbol).pending =
        b.attributed symbol + (b.positionOf symbol).pending + chargesOf symbol s es +
          turningCharges symbol s h es := by
  induction es generalizing b h with
  | nil => exact ⟨hm, he, by simp [chargesOf, turningCharges]⟩
  | cons e es ih =>
    have hrest : ∀ e ∈ es, e.Listed := fun e he => hes e (List.mem_cons_of_mem _ he)
    cases e with
    | close candle =>
      obtain ⟨hm', he', hcosts⟩ := ih (b := b.markTo candle) hrest hm he
      refine ⟨hm', he', hcosts.trans ?_⟩
      simp only [chargesOf, BookEvent.charges, turningCharges, List.map_cons, List.sum_cons, zero_add]
      rfl
    | fill order result =>
      obtain ⟨hqty, hprice⟩ : 0 < result.quantity ∧ 0 ≤ result.price := hes _ List.mem_cons_self
      have hattributed := @attributed_applyFill s b order result symbol
      have hposition := @positionOf_applyFill s b order result symbol
      by_cases hsymbol : order.symbol = symbol
      · rw [if_pos hsymbol] at hattributed hposition
        have hm₀ : (b.positionOf order.symbol).Matches h := by rwa [hsymbol]
        have he₀ : (b.positionOf order.symbol).Entered := by rwa [hsymbol]
        obtain ⟨hentered, hturn⟩ := Broker.turn_costs (s := s) hqty hm₀ he₀
        obtain ⟨hm', he', hcosts⟩ := ih (b := b.applyFill s order result)
          (h := h.fill (signed order result) result.price) hrest
          (by rw [hposition]; exact Broker.turn_matches hqty hprice hm₀)
          (by rw [hposition]; exact hentered)
        rw [fillsOf_fill, if_pos hsymbol]
        refine ⟨hm', he', ?_⟩
        rw [hattributed, hposition] at hcosts
        rw [hsymbol] at hturn
        rw [List.foldl_cons, BookEvent.on, hcosts]
        simp only [chargesOf, BookEvent.charges, turningCharges, List.map_cons, List.sum_cons, hsymbol, if_true]
        linear_combination hturn
      · rw [if_neg hsymbol] at hattributed hposition
        obtain ⟨hm', he', hcosts⟩ := ih (b := b.applyFill s order result) (h := h) hrest
          (by rwa [hposition]) (by rwa [hposition])
        rw [fillsOf_fill, if_neg hsymbol]
        refine ⟨hm', he', ?_⟩
        rw [hattributed, hposition, add_zero] at hcosts
        rw [List.foldl_cons, BookEvent.on, hcosts]
        simp only [chargesOf, BookEvent.charges, turningCharges, List.map_cons, List.sum_cons, hsymbol, if_false,
          zero_add]

/-- The books of a symbol are in order exactly when, with nothing held, no fill that turned the
position was charged. -/
theorem fillsConserved_iff {es : List BookEvent} (hes : ∀ e ∈ es, e.Listed) :
    FillsConserved symbol s es ↔
      ((Holding.empty.fills (fillsOf symbol es)).quantity = 0 →
        turningCharges symbol s Holding.empty es = 0) := by
  have hstart : s.broker.positionOf symbol = {} := rfl
  have hm₀ : ({} : Position).Matches Holding.empty := ⟨rfl, by simp [Holding.empty], rfl, le_rfl⟩
  have he₀ : ({} : Position).Entered := ⟨by simp, fun _ => rfl, fun _ => rfl⟩
  obtain ⟨hm, he, hcosts⟩ := accounts_run (s := s) (b := s.broker) hes (by rwa [hstart]) (by rwa [hstart])
  rw [hstart] at hcosts
  have hbasis := (Holding.basis_fills Holding.settled_empty (fillsOf symbol es)).2
  have hzero : (Holding.empty : Holding ℚ).basis = 0 ∧ (Holding.empty : Holding ℚ).realised = 0 :=
    ⟨by simp [Holding.basis, Holding.empty], rfl⟩
  have hflat : ((s.booked es).positionOf symbol).quantity = 0 →
      ((s.booked es).positionOf symbol).pending = 0 := by
    intro h0
    simp [Position.pending, (show ((s.booked es).positionOf symbol).Entered from he).unheld h0]
  have hstate : s.broker.attributed symbol + ({} : Position).pending = 0 := by
    simp [Broker.attributed, Setup.broker, Position.pending]
  constructor
  · intro hconserved hq
    have hqty : ((s.booked es).positionOf symbol).quantity = 0 := hm.quantity.trans hq
    have hsum := hconserved.costs hqty
    have hpending := hflat hqty
    simp only [Setup.booked] at hsum hpending
    linarith
  · intro hturned
    refine ⟨?_, hm, recorded_booked s es, fun hqty => ?_⟩
    · have hsame : ((s.booked es).positionOf symbol).basis =
          (Holding.empty.fills (fillsOf symbol es)).basis := Position.Matches.basis hm
      have hrealised : ((s.booked es).positionOf symbol).realizedPnl =
          (Holding.empty.fills (fillsOf symbol es)).realised := hm.realised
      rw [tradedValue_sub, hrealised, mul_comm, ← Position.basis, hsame]
      linarith [hzero.1, hzero.2]
    · have hpending := hflat hqty
      have hq := hturned (hm.quantity.symm.trans hqty)
      simp only [Setup.booked] at hpending ⊢
      linarith

def turnedPosition : List BookEvent :=
  [.fill buyTen { price := 100, quantity := 10, status := .filled },
    .fill { buyTen with side := .sell, quantity := 20 }
      { price := 100, quantity := 20, status := .filled },
    .fill buyTen { price := 100, quantity := 10, status := .filled }]

/-- The position is flat in the end, and the charges of the sale are on both trades. -/
theorem turnedPosition_not_conserved :
    (∀ e ∈ turnedPosition, e.Listed) ∧
      ((oneCandle.booked turnedPosition).positionOf "RELIANCE").quantity = 0 ∧
      (oneCandle.booked turnedPosition).attributed "RELIANCE" =
        chargesOf "RELIANCE" oneCandle turnedPosition + 2417 / 100 ∧
      ¬FillsConserved "RELIANCE" oneCandle turnedPosition := by
  have hflat : ((oneCandle.booked turnedPosition).positionOf "RELIANCE").quantity = 0 := by
    decide
  have htwice : (oneCandle.booked turnedPosition).attributed "RELIANCE" =
      chargesOf "RELIANCE" oneCandle turnedPosition + 2417 / 100 := by decide +kernel
  refine ⟨by decide, hflat, htwice, fun h => ?_⟩
  have hsame := h.costs hflat
  linarith

theorem fillsConserved_iff_turnedPosition :
    FillsConserved "RELIANCE" oneCandle turnedPosition ↔
      ((Holding.empty.fills (fillsOf "RELIANCE" turnedPosition)).quantity = 0 →
        turningCharges "RELIANCE" oneCandle Holding.empty turnedPosition = 0) :=
  fillsConserved_iff (by decide)

end Runs

end Trademetrix.Backtest
