import Mathlib.Tactic.FieldSimp
import Mathlib.Tactic.Linarith
import Mathlib.Tactic.LinearCombination
import Trademetrix.Backtest.Execution

/-!
# The accounts of a backtest

What the broker's equity is after any sequence of fills and candle closes, and
what it should be. The cash is the capital with the realised P&L, less the
charges and less what the positions held were bought for.
-/

namespace Trademetrix.Backtest

open Engine (OrderSide)

variable {s : Setup} {b : Broker} {order : Order} {result : FillResult} {pos : Position}

namespace Position

def basis (pos : Position) : ℚ := pos.avgPrice * pos.quantity

@[simp] theorem basis_noteEntry (openedAt reason : String) (opening : Bool) (costs : Costs)
    (qty : ℤ) : (pos.noteEntry openedAt reason opening costs qty).basis = pos.basis := rfl

@[simp] theorem basis_clearEntryState : pos.clearEntryState.basis = pos.basis := rfl

@[simp] theorem avgPrice_consumeEntryCosts (closed : ℤ) :
    (pos.consumeEntryCosts closed).avgPrice = pos.avgPrice := by
  unfold consumeEntryCosts
  dsimp only
  split <;> rfl

@[simp] theorem quantity_consumeEntryCosts (closed : ℤ) :
    (pos.consumeEntryCosts closed).quantity = pos.quantity := by
  unfold consumeEntryCosts
  dsimp only
  split <;> rfl

theorem basis_closeBy_buy (qty closed : ℤ) (price pnl : ℚ) (openedAt reason : String)
    (costs : Costs) :
    (pos.closeBy .buy qty closed price pnl openedAt reason costs).basis =
      if closed < qty then price * (qty - closed) else pos.avgPrice * (pos.quantity + closed) := by
  unfold closeBy
  by_cases h : closed < qty <;> simp [h, basis, clearEntryState]

theorem basis_closeBy_sell (qty closed : ℤ) (price pnl : ℚ) (openedAt reason : String)
    (costs : Costs) :
    (pos.closeBy .sell qty closed price pnl openedAt reason costs).basis =
      if closed < qty then -(price * (qty - closed)) else pos.avgPrice * (pos.quantity - closed) := by
  unfold closeBy
  by_cases h : closed < qty
  · simp [h, basis]
    ring
  · simp [h, basis, clearEntryState]

end Position

namespace Broker

def Adds (b : Broker) (order : Order) : Prop :=
  match order.side with
  | .buy => 0 ≤ (b.positionOf order.symbol).quantity
  | .sell => (b.positionOf order.symbol).quantity ≤ 0

instance (b : Broker) (order : Order) : Decidable (b.Adds order) := by
  unfold Adds
  cases order.side <;> infer_instance

def misaveraged (s : Setup) (b : Broker) (order : Order) (result : FillResult) : ℚ :=
  let pos := b.positionOf order.symbol
  if b.Adds order then
    pos.basis + outlay order result - (b.addTo s order result pos).position.basis
  else 0

theorem turn_of_adds (h : b.Adds order) :
    b.turn s order result = b.addTo s order result (b.positionOf order.symbol) := by
  unfold turn
  unfold Adds at h
  cases hside : order.side with
  | buy =>
    rw [hside] at h
    exact if_pos h
  | sell =>
    rw [hside] at h
    exact if_pos h

theorem turn_of_not_adds (h : ¬b.Adds order) :
    b.turn s order result = b.takeFrom s order result (b.positionOf order.symbol) := by
  unfold turn
  unfold Adds at h
  cases hside : order.side with
  | buy =>
    rw [hside] at h
    exact if_neg h
  | sell =>
    rw [hside] at h
    exact if_neg h

theorem takeFrom_basis (h : match order.side with | .buy => pos.quantity < 0 | .sell => 0 < pos.quantity) :
    (b.takeFrom s order result pos).position.basis =
      pos.basis + outlay order result + (b.takeFrom s order result pos).pnl := by
  unfold takeFrom outlay
  cases hside : order.side with
  | buy =>
    rw [hside] at h
    have hlt : pos.quantity < 0 := h
    dsimp only
    rw [Position.basis_closeBy_buy, Position.basis, abs_of_neg hlt]
    split
    · next hmore =>
      have hclosed : min result.quantity (-pos.quantity) = -pos.quantity := by omega
      rw [hclosed]
      push_cast
      ring
    · next hless =>
      have hclosed : min result.quantity (-pos.quantity) = result.quantity := by omega
      rw [hclosed]
      ring
  | sell =>
    rw [hside] at h
    have hlt : 0 < pos.quantity := h
    dsimp only
    rw [Position.basis_closeBy_sell, Position.basis, abs_of_pos hlt]
    split
    · next hmore =>
      have hclosed : min result.quantity pos.quantity = pos.quantity := by omega
      rw [hclosed]
      ring
    · next hless =>
      have hclosed : min result.quantity pos.quantity = result.quantity := by omega
      rw [hclosed]
      ring

theorem turn_basis (s : Setup) (b : Broker) (order : Order) (result : FillResult) :
    (b.turn s order result).position.basis + b.misaveraged s order result =
      (b.positionOf order.symbol).basis + outlay order result + (b.turn s order result).pnl := by
  unfold misaveraged
  by_cases h : b.Adds order
  · rw [turn_of_adds h, if_pos h]
    have hpnl : (b.addTo s order result (b.positionOf order.symbol)).pnl = 0 := by
      unfold addTo
      cases order.side <;> rfl
    rw [hpnl]
    ring
  · rw [turn_of_not_adds h, if_neg h, add_zero]
    refine takeFrom_basis ?_
    unfold Adds at h
    cases hside : order.side with
    | buy =>
      rw [hside] at h
      exact not_le.mp h
    | sell =>
      rw [hside] at h
      exact not_le.mp h

theorem div_max_mul {x : ℚ} {n : ℤ} (hn : 0 ≤ n) (hx : n = 0 → x = 0) :
    x / max 1 (n : ℚ) * n = x := by
  rcases hn.eq_or_lt with h0 | hpos
  · rw [hx h0.symm]
    ring
  · have hone : (1 : ℚ) ≤ n := by exact_mod_cast hpos
    rw [max_eq_right hone, div_mul_cancel₀]
    linarith

/-- The average is right for a fill of a quantity that is not negative, unless it sells into a
short whose average price is negative. -/
theorem misaveraged_eq_zero (hqty : 0 ≤ result.quantity)
    (hshort : order.side = .sell → 0 ≤ (b.positionOf order.symbol).avgPrice) :
    b.misaveraged s order result = 0 := by
  unfold misaveraged
  split
  · next h =>
    unfold Adds at h
    unfold addTo outlay
    generalize hpos : b.positionOf order.symbol = pos at h hshort ⊢
    cases hside : order.side with
    | buy =>
      rw [hside] at h
      have hheld : 0 ≤ pos.quantity := h
      simp only [Position.basis_noteEntry]
      have hmul := div_max_mul (x := pos.avgPrice * pos.quantity + result.price * result.quantity)
        (n := pos.quantity + result.quantity) (by omega) fun h0 => by
          have hq : pos.quantity = 0 := by omega
          have hr : result.quantity = 0 := by omega
          simp [hq, hr]
      push_cast at hmul
      simp only [Position.basis]
      push_cast
      linear_combination -hmul
    | sell =>
      rw [hside] at h
      have hheld : pos.quantity ≤ 0 := h
      simp only [Position.basis_noteEntry]
      have hmul := div_max_mul
        (x := |pos.avgPrice| * |(pos.quantity : ℚ)| + result.price * result.quantity)
        (n := |pos.quantity| + result.quantity) (by positivity) fun h0 => by
          have hq : pos.quantity = 0 := by
            rw [abs_of_nonpos hheld] at h0
            omega
          have hr : result.quantity = 0 := by
            rw [abs_of_nonpos hheld] at h0
            omega
          simp [hq, hr]
      have hcast : |(pos.quantity : ℚ)| = -(pos.quantity : ℚ) :=
        abs_of_nonpos (by exact_mod_cast hheld)
      push_cast at hmul
      rw [hcast, abs_of_nonneg (hshort hside)] at hmul
      simp only [Position.basis]
      push_cast
      rw [hcast, abs_of_nonneg (hshort hside)]
      linear_combination hmul
  · rfl

def basis (b : Broker) : ℚ := (b.positions.values.map Position.basis).sum

end Broker

inductive BookEvent
  | fill (order : Order) (result : FillResult)
  | close (candle : Candle)

def BookEvent.on (s : Setup) (b : Broker) : BookEvent → Broker
  | .fill order result => b.applyFill s order result
  | .close candle => b.markTo candle

namespace Setup

variable (s : Setup)

def booked (es : List BookEvent) : Broker := es.foldl (BookEvent.on s) s.broker

def sumAlong (f : Broker → BookEvent → ℚ) : Broker → List BookEvent → ℚ
  | _, [] => 0
  | b, e :: es => f b e + sumAlong f (e.on s b) es

/-- The slippage a fill is charged although its price is slipped. A LIMIT order fills at a price
without slippage. -/
def doubledBy : BookEvent → ℚ
  | .fill order result =>
    if order.orderType ≠ .limit ∧ 0 < s.config.slippagePct then (s.costOf order result).slippage
    else 0
  | .close _ => 0

def doubled (es : List BookEvent) : ℚ := s.sumAlong (fun _ => s.doubledBy) s.broker es

def misaveragedBy (b : Broker) : BookEvent → ℚ
  | .fill order result => b.misaveraged s order result
  | .close _ => 0

def misaveraged (es : List BookEvent) : ℚ := s.sumAlong s.misaveragedBy s.broker es

/-- What the equity should be: the capital with the P&L, realised and not, less the charges with
slippage counted once. -/
def accountValue (es : List BookEvent) : ℚ :=
  let b := s.booked es
  s.config.initialCapital + b.realized + b.totalUnrealised - (b.totalCosts - s.doubled es)

end Setup

/-- The cash with what the positions were bought for, and with what was charged, is the capital
with the realised P&L; `x` is what the averages miss. -/
structure Booked (s : Setup) (x : ℚ) (b : Broker) : Prop where
  keys : (b.positions.map Prod.fst).Nodup
  cash : b.cash + b.basis + b.totalCosts + x = s.config.initialCapital + b.realized

theorem booked_start (s : Setup) : Booked s 0 s.broker where
  keys := List.nodup_nil
  cash := by simp [Setup.broker, Broker.basis, Dict.values]

theorem Booked.fill {x : ℚ} (h : Booked s x b) (order : Order) (result : FillResult) :
    Booked s (x + b.misaveraged s order result) (b.applyFill s order result) where
  keys := Dict.nodup_keys_set h.keys _ _
  cash := by
    have hbasis : (b.applyFill s order result).basis =
        b.basis + (b.turn s order result).position.basis - (b.positionOf order.symbol).basis := by
      have hold : ((b.positions.get order.symbol).map Position.basis).getD 0 =
          (b.positionOf order.symbol).basis := by
        unfold Broker.positionOf
        cases b.positions.get order.symbol <;> simp [Position.basis]
      rw [← hold]
      exact Dict.sum_set h.keys Position.basis order.symbol _
    have hturn := Broker.turn_basis s b order result
    have hcash := h.cash
    rw [hbasis]
    simp only [Broker.applyFill]
    linear_combination hturn + hcash

theorem Booked.close {x : ℚ} (h : Booked s x b) (candle : Candle) : Booked s x (b.markTo candle) :=
  ⟨h.keys, h.cash⟩

theorem Booked.events {x : ℚ} (h : Booked s x b) (es : List BookEvent) :
    Booked s (x + s.sumAlong s.misaveragedBy b es) (es.foldl (BookEvent.on s) b) := by
  induction es generalizing x b with
  | nil => simpa [Setup.sumAlong] using h
  | cons e es ih =>
    have hstep : Booked s (x + s.misaveragedBy b e) (e.on s b) := by
      cases e with
      | fill order result => exact h.fill order result
      | close candle => simpa [Setup.misaveragedBy, BookEvent.on] using h.close candle
    simpa only [Setup.sumAlong, List.foldl_cons, add_assoc] using ih hstep

theorem equity_eq (s : Setup) (es : List BookEvent) :
    (s.booked es).equity =
      s.accountValue es - ((s.booked es).basis + s.doubled es + s.misaveraged es) := by
  have h := (booked_start s).events es
  simp only [Setup.accountValue, Broker.equity, Setup.misaveraged]
  have hcash := h.cash
  simp only [Setup.booked] at hcash ⊢
  linear_combination hcash

/-- After any sequence of fills and closes the equity is what it should be exactly when what the
positions were bought for and what slippage was charged on slipped prices (and what the averages
miss) come to nothing. -/
theorem equity_accounts_iff (s : Setup) (es : List BookEvent) :
    (s.booked es).equity = s.accountValue es ↔
      (s.booked es).basis + s.doubled es + s.misaveraged es = 0 := by
  rw [equity_eq, sub_eq_self]

def buyTen : Order where
  symbol := "RELIANCE"
  exchange := .nse
  side := .buy
  orderType := .market
  product := .intraday
  quantity := 10

def oneCandle : Setup where
  config := {}
  candles := [{ symbol := "RELIANCE", openPrice := 100, high := 100, low := 100, close := 100
                timestamp := "2026-01-05T09:15:00+05:30" }]
  random _ := 0
  elapsed _ _ := none

/-- Ten shares are bought at the price they are marked at: the equity falls by what they cost
and not by the charges alone. -/
theorem buyTen_loses_basis :
    ((((oneCandle.broker.onCandle oneCandle 0).placeOrder oneCandle buyTen).2).equity =
      (oneCandle.booked (oneCandle.candles.map .close ++
        [.fill buyTen { price := 100, quantity := 10, status := .filled, reason := "market" }])).equity) ∧
      ¬ ∀ es, (oneCandle.booked es).equity = oneCandle.accountValue es := by
  refine ⟨by decide +kernel, fun h => ?_⟩
  exact absurd (h [.fill buyTen { price := 100, quantity := 10, status := .filled }])
    (by decide +kernel)

inductive BrokerOp
  | candle (i : ℤ)
  | place (order : Order)
  | modify (id : ℕ) (changes : Broker.Changes)
  | cancel (id : ℕ)

def BrokerOp.on (s : Setup) (b : Broker) : BrokerOp → Broker
  | .candle i => b.onCandle s i
  | .place order => (b.placeOrder s order).2
  | .modify id changes => b.modifyOrder id changes
  | .cancel id => b.cancelOrder id

structure SameBooks (b b' : Broker) : Prop where
  positions : b.positions = b'.positions
  lastPrices : b.lastPrices = b'.lastPrices
  lastTimes : b.lastTimes = b'.lastTimes
  cash : b.cash = b'.cash
  totalCosts : b.totalCosts = b'.totalCosts
  totalSlippage : b.totalSlippage = b'.totalSlippage
  realized : b.realized = b'.realized

namespace SameBooks

variable {b' : Broker}

theorem refl (b : Broker) : SameBooks b b := ⟨rfl, rfl, rfl, rfl, rfl, rfl, rfl⟩

theorem equity (h : SameBooks b b') : b.equity = b'.equity := by
  have hunreal : b.unrealised = b'.unrealised := by
    funext symbol
    unfold Broker.unrealised
    rw [h.positions, h.lastPrices]
  rw [Broker.equity, Broker.equity, Broker.totalUnrealised, Broker.totalUnrealised, hunreal,
    h.positions, h.cash]

theorem positionOf (h : SameBooks b b') (symbol : String) :
    b.positionOf symbol = b'.positionOf symbol := by
  rw [Broker.positionOf, Broker.positionOf, h.positions]

theorem turn (h : SameBooks b b') (s : Setup) (order : Order) (result : FillResult) :
    (b.turn s order result).position = (b'.turn s order result).position ∧
      (b.turn s order result).pnl = (b'.turn s order result).pnl := by
  have hadds : b.Adds order ↔ b'.Adds order := by rw [Broker.Adds, Broker.Adds, h.positionOf]
  by_cases hadd : b.Adds order
  · rw [Broker.turn_of_adds hadd, Broker.turn_of_adds (hadds.mp hadd), h.positionOf]
    unfold Broker.addTo
    rw [h.lastTimes]
    exact ⟨rfl, rfl⟩
  · rw [Broker.turn_of_not_adds hadd, Broker.turn_of_not_adds (mt hadds.mpr hadd), h.positionOf]
    unfold Broker.takeFrom
    rw [h.lastTimes]
    exact ⟨rfl, rfl⟩

theorem fill (h : SameBooks b b') (s : Setup) (order : Order) (result : FillResult) :
    SameBooks (b.applyFill s order result) (b'.applyFill s order result) := by
  obtain ⟨hposition, hpnl⟩ := h.turn s order result
  constructor <;>
    simp only [Broker.applyFill, h.positions, h.lastPrices, h.lastTimes, h.cash, h.totalCosts,
      h.totalSlippage, h.realized, hposition, hpnl]

theorem close (h : SameBooks b b') (candle : Candle) :
    SameBooks (b.markTo candle) (b'.markTo candle) := by
  constructor <;>
    simp only [Broker.markTo, h.positions, h.lastPrices, h.lastTimes, h.cash, h.totalCosts,
      h.totalSlippage, h.realized]

end SameBooks

def Follows (s : Setup) (b : Broker) : Prop := ∃ es, SameBooks b (s.booked es)

namespace Follows

theorem fill (h : Follows s b) (order : Order) (result : FillResult) :
    Follows s (b.applyFill s order result) := by
  obtain ⟨es, hes⟩ := h
  refine ⟨es ++ [.fill order result], ?_⟩
  rw [Setup.booked, List.foldl_append]
  exact hes.fill s order result

theorem close (h : Follows s b) (candle : Candle) : Follows s (b.markTo candle) := by
  obtain ⟨es, hes⟩ := h
  refine ⟨es ++ [.close candle], ?_⟩
  rw [Setup.booked, List.foldl_append]
  exact hes.close candle

theorem frame (h : Follows s b) (index : ℤ) (drawn : ℕ) (orders : Dict ℕ OrderEntry) (n : ℕ) :
    Follows s { b with index := index, drawn := drawn, orders := orders, orderCounter := n } := by
  obtain ⟨es, hes⟩ := h
  exact ⟨es, ⟨hes.positions, hes.lastPrices, hes.lastTimes, hes.cash, hes.totalCosts,
    hes.totalSlippage, hes.realized⟩⟩

theorem onOrder (h : Follows s b) (id : ℕ) (f : OrderEntry → OrderEntry) :
    Follows s (b.onOrder id f) := h.frame b.index b.drawn _ b.orderCounter

theorem retry (h : Follows s b) (id : ℕ) : Follows s (b.retry s id) := by
  unfold Broker.retry
  split
  · exact h
  · next entry _ =>
    split
    · exact h
    · split
      · exact h.onOrder id _
      · have hdrawn := h.frame b.index (s.simulateFill b entry.order).2 b.orders b.orderCounter
        dsimp only
        split
        · exact (hdrawn.fill _ _).onOrder id _
        · exact (hdrawn.fill _ _).onOrder id _
        · exact hdrawn

theorem retries (h : Follows s b) (ids : List ℕ) : Follows s (ids.foldl (Broker.retry s) b) := by
  induction ids generalizing b with
  | nil => exact h
  | cons id ids ih => exact ih (h.retry id)

theorem onCandle (h : Follows s b) (i : ℤ) : Follows s (b.onCandle s i) := by
  have hretried := (h.frame i b.drawn b.orders b.orderCounter).retries (b.orders.map Prod.fst)
  unfold Broker.onCandle
  dsimp only
  split
  · exact hretried.close _
  · exact hretried

theorem placeOrder (h : Follows s b) (order : Order) : Follows s (b.placeOrder s order).2 := by
  have hdrawn := h.frame b.index (s.simulateFill b order).2 b.orders (b.orderCounter + 1)
  unfold Broker.placeOrder
  dsimp only
  split
  · exact hdrawn
  · exact hdrawn.frame _ _ _ _
  · exact (hdrawn.fill _ _).frame _ _ _ _

theorem op (h : Follows s b) (o : BrokerOp) : Follows s (o.on s b) := by
  cases o with
  | candle i => exact h.onCandle i
  | place order => exact h.placeOrder order
  | modify id changes => exact h.onOrder id _
  | cancel id => exact h.onOrder id _

end Follows

theorem follows_run (s : Setup) (ops : List BrokerOp) :
    Follows s (ops.foldl (BrokerOp.on s) s.broker) := by
  induction ops using List.reverseRecOn with
  | nil => exact ⟨[], SameBooks.refl _⟩
  | append_singleton ops o ih =>
    rw [List.foldl_append]
    exact ih.op o

theorem equity_run (s : Setup) (ops : List BrokerOp) :
    ∃ es, (ops.foldl (BrokerOp.on s) s.broker).equity =
      s.accountValue es - ((s.booked es).basis + s.doubled es + s.misaveraged es) := by
  obtain ⟨es, hes⟩ := follows_run s ops
  exact ⟨es, hes.equity.trans (equity_eq s es)⟩

end Trademetrix.Backtest
