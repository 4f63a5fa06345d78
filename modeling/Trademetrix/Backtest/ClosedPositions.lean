import Trademetrix.Backtest.DriverParity
import Trademetrix.Backtest.FillAccounts

/-!
# The closing of a run

What the closing orders of a run leave open. They are filled like all others, at
the last candle: with a latency they wait for a candle that does not come, and a
partial fill leaves a rest.
-/

namespace Trademetrix.Backtest

open Engine (OrderSide)
open Text (round2)

variable {s : Setup} {b : Broker} {symbol : String}

def Broker.held (b : Broker) (symbol : String) : ℤ := (b.positionOf symbol).quantity

def Setup.Cuts (s : Setup) (drawn : ℕ) (quantity : ℤ) : Prop :=
  0 < s.config.partialFillProbability ∧ 1 < quantity ∧
    s.random drawn < s.config.partialFillProbability

/-- The next `n` numbers drawn cut no fill. -/
def Setup.Whole (s : Setup) (drawn n : ℕ) : Prop :=
  s.config.partialFillProbability ≤ 0 ∨
    ∀ i < n, s.config.partialFillProbability ≤ s.random (drawn + i)

/-- What `random()` draws. -/
def UnitDraws (random : ℕ → ℚ) : Prop := ∀ k, 0 ≤ random k ∧ random k < 1

section Draws

theorem maybePartial_whole {drawn : ℕ} {order : Order} (h : ¬s.Cuts drawn order.quantity) :
    s.maybePartial drawn order = (order.quantity, false,
      if 0 < s.config.partialFillProbability ∧ 1 < order.quantity then drawn + 1 else drawn) := by
  unfold Setup.Cuts at h
  unfold Setup.maybePartial
  dsimp only
  by_cases hskip : s.config.partialFillProbability ≤ 0 ∨ order.quantity ≤ 1
  · have hnot : ¬(0 < s.config.partialFillProbability ∧ 1 < order.quantity) := by
      rintro ⟨hprob, hqty⟩
      rcases hskip with hskip | hskip
      · exact absurd hprob (not_lt.mpr hskip)
      · omega
    rw [if_pos hskip, if_neg hnot]
  · obtain ⟨hprob, hqty⟩ := not_or.mp hskip
    have hdraws : 0 < s.config.partialFillProbability ∧ 1 < order.quantity :=
      ⟨not_le.mp hprob, not_le.mp hqty⟩
    rw [if_neg hskip, if_neg fun hlt => h ⟨hdraws.1, hdraws.2, hlt⟩, if_pos hdraws]

theorem maybePartial_cut (hrandom : UnitDraws s.random) {drawn : ℕ} {order : Order}
    (h : s.Cuts drawn order.quantity) :
    ∃ qty n, s.maybePartial drawn order = (qty, true, n) ∧ 0 < qty ∧ qty < order.quantity := by
  obtain ⟨hprob, hqty, hdraw⟩ := h
  have hskip : ¬(s.config.partialFillProbability ≤ 0 ∨ order.quantity ≤ 1) :=
    not_or.mpr ⟨not_le.mpr hprob, not_le.mpr hqty⟩
  refine ⟨_, _, by rw [Setup.maybePartial, if_neg hskip, if_pos hdraw], by omega, ?_⟩
  have hpos : (0 : ℚ) < order.quantity := by exact_mod_cast (by omega : 0 < order.quantity)
  have hfloor : ⌊(order.quantity : ℚ) * (3 / 10 + (1 - 3 / 10) * s.random (drawn + 1))⌋ <
      order.quantity := by
    rw [Int.floor_lt]
    calc (order.quantity : ℚ) * (3 / 10 + (1 - 3 / 10) * s.random (drawn + 1))
        < order.quantity * 1 := by
          refine mul_lt_mul_of_pos_left ?_ hpos
          linarith [(hrandom (drawn + 1)).2]
      _ = order.quantity := mul_one _
  omega

theorem whole_succ {drawn n : ℕ} (h : s.config.partialFillProbability ≤ s.random drawn) :
    s.Whole drawn (n + 1) ↔ s.Whole (drawn + 1) n := by
  unfold Setup.Whole
  refine or_congr_right ⟨fun hall i hi => ?_, fun hall i hi => ?_⟩
  · rw [add_assoc, add_comm 1 i]
    exact hall (i + 1) (by omega)
  · cases i with
    | zero => exact h
    | succ i =>
      rw [add_comm i 1, ← add_assoc]
      exact hall i (by omega)

end Draws

section Closing

/-- One round of the loop of `_close_open_positions`. -/
def Broker.closeOut (s : Setup) (b : Broker) (symbol : String) : Broker :=
  if b.held symbol = 0 then b
  else (b.placeOrder s (Run.closeOrder symbol (b.held symbol))).2

theorem closeOpenPositions_eq (s : Setup) (b : Broker) :
    Run.closeOpenPositions s b = (b.positions.map Prod.fst).foldl (Broker.closeOut s) b := rfl

namespace Broker

@[simp] theorem index_closeOut : (b.closeOut s symbol).index = b.index := by
  unfold closeOut
  split
  · rfl
  · exact index_placeOrder _

theorem held_placeOrder_ne {order : Order} (h : order.symbol ≠ symbol) :
    (b.placeOrder s order).2.held symbol = b.held symbol := by
  unfold placeOrder
  dsimp only
  split
  · rfl
  · rfl
  · exact congrArg Position.quantity (positionOf_applyFill.trans (if_neg h))

theorem held_closeOut_ne {other : String} (h : other ≠ symbol) :
    (b.closeOut s other).held symbol = b.held symbol := by
  unfold closeOut
  split
  · rfl
  · exact held_placeOrder_ne h

theorem held_closeOuts {symbols : List String} (h : symbol ∉ symbols) :
    (symbols.foldl (closeOut s) b).held symbol = b.held symbol := by
  induction symbols generalizing b with
  | nil => rfl
  | cons other symbols ih =>
    rw [List.mem_cons, not_or] at h
    rw [List.foldl_cons, ih h.2, held_closeOut_ne (Ne.symm h.1)]

theorem closeOut_late (h : s.candleAt (b.index + s.config.latencyCandles) = none) :
    (b.closeOut s symbol).positions = b.positions := by
  unfold closeOut
  split
  · rfl
  · have hfill : s.simulateFill b (Run.closeOrder symbol (b.held symbol)) =
        ({ reason := "no candle at evaluation index" }, b.drawn) := by
      rw [Setup.simulateFill, h]
      rfl
    unfold placeOrder
    rw [hfill]
    rfl

theorem closeOuts_late (h : s.candleAt (b.index + s.config.latencyCandles) = none)
    (symbols : List String) : (symbols.foldl (closeOut s) b).positions = b.positions := by
  induction symbols generalizing b with
  | nil => rfl
  | cons symbol symbols ih =>
    rw [List.foldl_cons, ih (by rwa [index_closeOut]), closeOut_late h]

theorem held_applyFill_close {result : FillResult} (hheld : b.held symbol ≠ 0)
    (hqty : result.quantity ≤ |b.held symbol|) :
    |(b.applyFill s (Run.closeOrder symbol (b.held symbol)) result).held symbol| =
      |b.held symbol| - result.quantity := by
  have hposition : (b.applyFill s (Run.closeOrder symbol (b.held symbol)) result).positionOf symbol =
      (b.turn s (Run.closeOrder symbol (b.held symbol)) result).position :=
    positionOf_applyFill.trans (if_pos rfl)
  have hadds : ¬b.Adds (Run.closeOrder symbol (b.held symbol)) := by
    unfold held at hheld ⊢
    unfold Adds Run.closeOrder
    dsimp only
    by_cases hpos : 0 < (b.positionOf symbol).quantity <;> simp only [hpos, if_true, if_false] <;> omega
  have hleft : ((b.turn s (Run.closeOrder symbol (b.held symbol)) result).position).quantity =
      if 0 < b.held symbol then b.held symbol - result.quantity
      else b.held symbol + result.quantity := by
    rw [turn_of_not_adds hadds]
    unfold takeFrom
    dsimp only
    rw [Position.quantity_closeBy]
    have hsymbol : b.positionOf (Run.closeOrder symbol (b.held symbol)).symbol =
        b.positionOf symbol := rfl
    rw [hsymbol, ← held, min_eq_left hqty, if_neg (lt_irrefl _)]
    unfold Run.closeOrder
    dsimp only
    by_cases hpos : 0 < b.held symbol <;> simp [hpos]
  rw [held, hposition, hleft]
  split
  · next hpos =>
    rw [abs_of_pos hpos] at hqty ⊢
    exact abs_of_nonneg (by omega)
  · next hpos =>
    have hneg : b.held symbol < 0 := by omega
    rw [abs_of_neg hneg] at hqty ⊢
    rw [abs_of_nonpos (by omega)]
    ring

theorem marketFill_drawn {candle : Candle} {order : Order} {drawn n : ℕ} {qty : ℤ} {partly : Bool}
    (hdraw : s.maybePartial drawn order = (qty, partly, n)) (hpos : 0 < qty) :
    s.marketFill drawn order candle =
      ({ price := s.slip candle.close order.side, quantity := qty,
         status := if partly then .partiallyFilled else .filled, reason := "market" }, n) := by
  simp only [Setup.marketFill, Setup.fillAt, hdraw]
  rw [if_neg (not_le.mpr hpos)]

theorem closeOut_filled {candle : Candle} {qty : ℤ} {partly : Bool} {n : ℕ}
    (hcandle : s.candleAt (b.index + s.config.latencyCandles) = some candle)
    (hheld : b.held symbol ≠ 0)
    (hdraw : s.maybePartial b.drawn (Run.closeOrder symbol (b.held symbol)) = (qty, partly, n))
    (hpos : 0 < qty) (hqty : qty ≤ |b.held symbol|) :
    |(b.closeOut s symbol).held symbol| = |b.held symbol| - qty ∧
      (b.closeOut s symbol).drawn = n := by
  have hfill : s.simulateFill b (Run.closeOrder symbol (b.held symbol)) =
      ({ price := s.slip candle.close (Run.closeOrder symbol (b.held symbol)).side, quantity := qty,
         status := if partly then .partiallyFilled else .filled, reason := "market" }, n) := by
    rw [Setup.simulateFill, hcandle]
    exact marketFill_drawn hdraw hpos
  rw [closeOut, if_neg hheld]
  unfold placeOrder
  dsimp only
  rw [hfill]
  cases partly with
  | false =>
    refine ⟨?_, rfl⟩
    exact held_applyFill_close (b := { b with orderCounter := b.orderCounter + 1, drawn := n }) hheld hqty
  | true =>
    refine ⟨?_, rfl⟩
    exact held_applyFill_close (b := { b with orderCounter := b.orderCounter + 1, drawn := n }) hheld hqty

theorem closeOuts_iff (hrandom : UnitDraws s.random) {candle : Candle}
    (hcandle : s.candleAt (b.index + s.config.latencyCandles) = some candle)
    {symbols : List String} (hsymbols : symbols.Nodup) :
    (∀ symbol ∈ symbols, (symbols.foldl (closeOut s) b).held symbol = 0) ↔
      s.Whole b.drawn (symbols.filter fun symbol => 1 < |b.held symbol|).length := by
  induction symbols generalizing b with
  | nil => simp [Setup.Whole]
  | cons symbol symbols ih =>
    obtain ⟨hnot, hrest⟩ := List.nodup_cons.mp hsymbols
    have hheld : ((symbol :: symbols).foldl (closeOut s) b).held symbol =
        (b.closeOut s symbol).held symbol := held_closeOuts hnot
    have hsame : (symbols.filter fun x => 1 < |(b.closeOut s symbol).held x|) =
        symbols.filter fun x => 1 < |b.held x| := by
      refine List.filter_congr fun x hx => ?_
      have hne : symbol ≠ x := fun heq => hnot (heq ▸ hx)
      rw [held_closeOut_ne hne]
    have ih' := ih (b := b.closeOut s symbol) (by rwa [index_closeOut]) hrest
    rw [hsame] at ih'
    rw [List.forall_mem_cons, hheld, List.foldl_cons, ih']
    by_cases hzero : b.held symbol = 0
    · have hstay : b.closeOut s symbol = b := if_pos hzero
      rw [hstay, List.filter_cons, hzero]
      simp
    · have hqty : (Run.closeOrder symbol (b.held symbol)).quantity = |b.held symbol| := rfl
      by_cases hcut : s.Cuts b.drawn |b.held symbol|
      · -- what the cut leaves stays open, and the draw is below the probability
        rw [← hqty] at hcut
        obtain ⟨qty, n, hdraw, hpos, hlt⟩ := maybePartial_cut hrandom hcut
        rw [hqty] at hlt
        obtain ⟨hleft, -⟩ := closeOut_filled hcandle hzero hdraw hpos hlt.le
        have hopen : (b.closeOut s symbol).held symbol ≠ 0 := by
          intro h0
          rw [h0, abs_zero] at hleft
          omega
        have hnotWhole : ¬s.Whole b.drawn
            ((symbol :: symbols).filter fun x => 1 < |b.held x|).length := by
          have hbig : 1 < |b.held symbol| := hcut.2.1
          rw [List.filter_cons, if_pos (by simpa using hbig), List.length_cons]
          rintro (hprob | hall)
          · exact absurd hcut.1 (not_lt.mpr hprob)
          · exact absurd hcut.2.2 (not_lt.mpr (hall 0 (Nat.succ_pos _)))
        exact iff_of_false (fun h => hopen h.1) hnotWhole
      · have hwhole : ¬s.Cuts b.drawn (Run.closeOrder symbol (b.held symbol)).quantity := hcut
        have hdraw := maybePartial_whole hwhole
        rw [hqty] at hdraw
        obtain ⟨hleft, hdrawn⟩ := closeOut_filled hcandle hzero hdraw (abs_pos.mpr hzero) le_rfl
        have hclosed : (b.closeOut s symbol).held symbol = 0 := by
          rw [sub_self] at hleft
          exact abs_eq_zero.mp hleft
        rw [hdrawn, List.filter_cons]
        simp only [hclosed, true_and]
        by_cases hprob : s.config.partialFillProbability ≤ 0
        · exact iff_of_true (Or.inl hprob) (Or.inl hprob)
        · by_cases hbig : 1 < |b.held symbol|
          · have hle : s.config.partialFillProbability ≤ s.random b.drawn := by
              by_contra hlt
              exact hcut ⟨not_le.mp hprob, hbig, not_le.mp hlt⟩
            simp only [hbig, not_le.mp hprob, and_self, if_true, decide_true, List.length_cons]
            exact (whole_succ hle).symm
          · simp only [hbig, and_false, if_false, decide_false, Bool.false_eq_true]

/-- The orders at the end of a run close what is open: nothing is, or there is no latency and no
draw cuts one of them. An order for a single unit is not drawn for. -/
def Closes (s : Setup) (b : Broker) : Prop :=
  (∀ symbol, b.held symbol = 0) ∨ s.config.latencyCandles = 0 ∧
    s.Whole b.drawn (b.positions.values.filter fun p => 1 < |p.quantity|).length

theorem length_values_filter (hkeys : (b.positions.map Prod.fst).Nodup) :
    ((b.positions.map Prod.fst).filter fun symbol => 1 < |b.held symbol|).length =
      (b.positions.values.filter fun p => 1 < |p.quantity|).length := by
  rw [Dict.values, List.filter_map, List.filter_map, List.length_map, List.length_map]
  refine congrArg List.length (List.filter_congr fun e he => ?_)
  have hget : b.positions.get e.1 = some e.2 := Dict.get_of_mem hkeys he
  simp [held, positionOf, hget]

theorem held_of_not_mem (h : symbol ∉ b.positions.map Prod.fst) : b.held symbol = 0 := by
  rw [held, positionOf, Dict.get_eq_none.mpr h]
  rfl

theorem closeOpenPositions_iff (hrandom : UnitDraws s.random)
    (hkeys : (b.positions.map Prod.fst).Nodup) (hindex : b.index = (s.candles.length : ℤ) - 1)
    (hne : s.candles ≠ []) :
    (∀ symbol, (Run.closeOpenPositions s b).held symbol = 0) ↔ b.Closes s := by
  have hlen : 0 < s.candles.length := List.length_pos_iff.mpr hne
  rw [closeOpenPositions_eq]
  by_cases hlat : s.config.latencyCandles = 0
  · obtain ⟨candle, hcandle⟩ : ∃ candle,
        s.candleAt (b.index + s.config.latencyCandles) = some candle := by
      rw [hindex, hlat, Nat.cast_zero, add_zero, Setup.candleAt, if_pos (by omega)]
      exact ⟨_, List.getElem?_eq_getElem (by omega)⟩
    have hall : (∀ symbol, ((b.positions.map Prod.fst).foldl (closeOut s) b).held symbol = 0) ↔
        ∀ symbol ∈ b.positions.map Prod.fst,
          ((b.positions.map Prod.fst).foldl (closeOut s) b).held symbol = 0 := by
      refine ⟨fun h symbol _ => h symbol, fun h symbol => ?_⟩
      by_cases hmem : symbol ∈ b.positions.map Prod.fst
      · exact h symbol hmem
      · rw [held_closeOuts hmem, held_of_not_mem hmem]
    rw [hall, closeOuts_iff hrandom hcandle hkeys, length_values_filter hkeys]
    constructor
    · exact fun h => Or.inr ⟨hlat, h⟩
    · rintro (hflat | ⟨-, hwhole⟩)
      · -- of what is flat none is of more than one unit
        rw [← length_values_filter hkeys]
        refine Or.inr fun i hi => ?_
        simp [hflat] at hi
      · exact hwhole
  · have hnone : s.candleAt (b.index + s.config.latencyCandles) = none := by
      rw [hindex, Setup.candleAt, if_pos (by omega)]
      exact List.getElem?_eq_none (by omega)
    have hsame := closeOuts_late hnone (b.positions.map Prod.fst)
    have hheld : ∀ symbol,
        ((b.positions.map Prod.fst).foldl (closeOut s) b).held symbol = b.held symbol := by
      intro symbol
      rw [held, positionOf, hsame]
      rfl
    simp only [hheld, Closes, hlat, false_and, or_false]

theorem equity_of_flat (h : ∀ symbol, b.held symbol = 0) : b.equity = b.cash := by
  have hunreal : ∀ symbol, b.unrealised symbol = 0 := by
    intro symbol
    have hsymbol := h symbol
    unfold held positionOf at hsymbol
    unfold unrealised
    cases hpos : b.positions.get symbol with
    | none => rfl
    | some p =>
      rw [hpos] at hsymbol
      exact if_pos hsymbol
  have hsum : b.totalUnrealised = 0 := by
    rw [totalUnrealised, List.sum_eq_zero]
    intro x hx
    obtain ⟨symbol, -, rfl⟩ := List.mem_map.mp hx
    exact hunreal symbol
  rw [equity, hsum, add_zero]

end Broker

end Closing

section Runs

structure Account.At (s : Setup) (i : ℤ) (a : Account) : Prop where
  follows : Follows s a.broker
  index : a.broker.index = i

namespace Account

variable {a : Account} {i : ℤ}

theorem At.place (h : a.At s i) (order : Order) : (a.place s order).At s i :=
  ⟨h.follows.placeOrder order, (index_place order).trans h.index⟩

theorem At.placeViaBroker (h : a.At s i) (reason : String) (order : Order) :
    (a.placeViaBroker s reason order).At s i := by
  unfold Account.placeViaBroker
  dsimp only
  split
  · exact h.place _
  · split
    · exact ⟨h.follows, h.index⟩
    · refine At.place ?_ _
      exact ⟨h.follows, h.index⟩
    · refine At.place ?_ _
      exact ⟨h.follows, h.index⟩

theorem At.replayOrder (h : a.At s i) (reason : String) (order : Order) :
    (a.replayOrder s reason order).At s i := by
  unfold Account.replayOrder
  dsimp only
  split
  · exact h.place _
  · split
    · exact ⟨h.follows, h.index⟩
    · refine At.place ?_ _
      exact ⟨h.follows, h.index⟩
    · refine At.place ?_ _
      exact ⟨h.follows, h.index⟩

theorem At.all {f : Account → Order → Account} (hf : ∀ a order, At s i a → At s i (f a order))
    (h : a.At s i) (orders : List Order) : (orders.foldl f a).At s i := by
  induction orders generalizing a with
  | nil => exact h
  | cons order orders ih => exact ih (hf a order h)

theorem At.onCandle (h : Follows s a.broker) (i : ℕ) : (a.onCandle s i).At s i :=
  ⟨h.onCandle i, Broker.index_onCandle⟩

theorem At.noteRisk (h : a.At s i) (j : ℕ) (timestamp : String) : (a.noteRisk j timestamp).At s i :=
  ⟨h.follows, h.index⟩

end Account

inductive Driver
  | max | replay | fast
  deriving DecidableEq

namespace Run

variable {σ : Type} {t : Run σ} {st : Strategy σ} {clock : Clock} {p q : Progress σ} {d : Driver}

def runBy (t : Run σ) (clock : Clock) : Driver → Result
  | .max => t.runMax clock
  | .replay => t.runReplay clock
  | .fast => t.fastRun clock

def stepBy (t : Run σ) (clock : Clock) (d : Driver) (s : Setup) (st : Strategy σ) :
    Progress σ → ℕ → Candle → Option (Progress σ) :=
  match d with
  | .replay => t.replayStep s st clock
  | _ => t.fastStep s st clock

def lastStampBy (d : Driver) (candles : List Candle) : String :=
  match d with
  | .fast => (candles.getLast?.map Candle.timestamp).getD ""
  | _ => ""

def tradesBy (t : Run σ) (d : Driver) (p : Progress σ) : List Trade :=
  match d with
  | .fast => p.account.broker.trades
  | _ => t.tradesOrBuilt p

/-- A driver's progress when it is through with the candles; `none` if it raises. -/
def looped (t : Run σ) (clock : Clock) (d : Driver) (st : Strategy σ) (candles : List Candle) :
    Option (Progress σ) :=
  (st.onStart st.init).bind fun x =>
    loop (t.stepBy clock d (t.setup candles) st) 0 candles
      { strategy := x, account := t.account candles }

/-- A driver's progress when the run is finished; `none` if it raises. -/
def finished (t : Run σ) (clock : Clock) (d : Driver) (st : Strategy σ) (candles : List Candle) :
    Option (Progress σ) :=
  (t.looped clock d st candles).bind
    (t.finish (t.setup candles) st clock (lastStampBy d candles) candles.length)

theorem drive_of_finished {step : Setup → Strategy σ → Progress σ → ℕ → Candle → Option (Progress σ)}
    {lastStamp : List Candle → String} {tradesOf : Progress σ → List Trade} {candles : List Candle}
    (hst : t.strategy = some st) (hcandles : t.candles = some candles) (hne : candles ≠ [])
    (hrun : ((st.onStart st.init).bind fun x =>
      loop (step (t.setup candles) st) 0 candles
        { strategy := x, account := t.account candles }).bind
          (t.finish (t.setup candles) st clock (lastStamp candles) candles.length) = some p) :
    t.drive step clock lastStamp tradesOf =
      { completed := true
        report := calculate t.iso p.snapshots t.config.initialCapital (tradesOf p) } := by
  rw [Option.bind_assoc] at hrun
  unfold drive
  rw [hst, hcandles]
  dsimp only
  rw [if_neg hne]
  simp only [Option.bind_eq_bind]
  rw [hrun]

theorem runBy_of_finished {candles : List Candle} (hst : t.strategy = some st)
    (hcandles : t.candles = some candles) (hne : candles ≠ [])
    (h : t.finished clock d st candles = some p) :
    t.runBy clock d =
      { completed := true
        report := calculate t.iso p.snapshots t.config.initialCapital (t.tradesBy d p) } := by
  cases d with
  | max => exact drive_of_finished hst hcandles hne h
  | replay => exact drive_of_finished hst hcandles hne h
  | fast => exact drive_of_finished hst hcandles hne h

theorem fastStep_at {i : ℕ} {raw : Candle} (hp : Follows s p.account.broker)
    (h : t.fastStep s st clock p i raw = some q) : q.account.At s i := by
  unfold fastStep at h
  dsimp only at h
  split at h
  · cases h
  · split at h
    · cases h
    · cases h
      exact Account.At.noteRisk
        (Account.At.all (fun a order ha => ha.placeViaBroker _ order) (Account.At.onCandle hp i) _) _ _

theorem replayStep_at {i : ℕ} {raw : Candle} (hp : Follows s p.account.broker)
    (h : t.replayStep s st clock p i raw = some q) : q.account.At s i := by
  have hcandle := (Account.At.onCandle hp i).noteRisk i raw.timestamp
  unfold replayStep at h
  dsimp only at h
  split at h
  · cases h
  · cases h
    dsimp only
    split
    · exact hcandle
    · exact Account.At.all (fun a order ha => ha.replayOrder _ order) hcandle _

theorem stepBy_at {i : ℕ} {raw : Candle} (hp : Follows s p.account.broker)
    (h : t.stepBy clock d s st p i raw = some q) : q.account.At s i := by
  cases d with
  | max => exact fastStep_at hp h
  | replay => exact replayStep_at hp h
  | fast => exact fastStep_at hp h

theorem loop_at {raws : List Candle} {raw : Candle} {i : ℕ} (hp : Follows s p.account.broker)
    (h : loop (t.stepBy clock d s st) i (raw :: raws) p = some q) :
    q.account.At s (i + raws.length : ℕ) := by
  induction raws generalizing i p raw with
  | nil =>
    obtain ⟨q', hstep, hrest⟩ := Option.bind_eq_some_iff.mp h
    cases hrest
    exact stepBy_at hp hstep
  | cons next raws ih =>
    obtain ⟨q', hstep, hrest⟩ := Option.bind_eq_some_iff.mp h
    have hat := ih (stepBy_at hp hstep).follows hrest
    rwa [List.length_cons, add_comm raws.length, ← add_assoc]

theorem looped_at {candles : List Candle} (hne : candles ≠ [])
    (h : t.looped clock d st candles = some q) :
    q.account.At (t.setup candles) ((candles.length : ℤ) - 1) := by
  obtain ⟨x, -, hloop⟩ := Option.bind_eq_some_iff.mp h
  cases candles with
  | nil => exact absurd rfl hne
  | cons raw raws =>
    have hat := loop_at (s := t.setup (raw :: raws)) ⟨[], SameBooks.refl _⟩ hloop
    have hlast : (((raw :: raws).length : ℤ) - 1) = ((0 + raws.length : ℕ) : ℤ) := by simp
    rwa [hlast]

theorem finish_closes {s : Setup} {stamp : String} {n : ℕ} (hclose : t.config.closePositionsOnEnd = true)
    (h : t.finish s st clock stamp n q = some p) :
    p.account.broker = closeOpenPositions s q.account.broker ∧
      ∃ snaps snap, p.snapshots = snaps ++ [snap] ∧ snap.equity = p.account.broker.equity := by
  unfold finish at h
  split at h
  · cases h
  · rw [if_pos hclose] at h
    cases h
    exact ⟨rfl, _, _, rfl, rfl⟩

theorem endEquity_append (iso : String → Option Stamp) (snaps : List Snapshot) (snap : Snapshot)
    (capital : ℚ) (trades : List Trade) :
    (calculate iso (snaps ++ [snap]) capital trades).endEquity = round2 snap.equity := by
  simp [calculate, equityCurve]

def EndsClosed (t : Run σ) (clock : Clock) (d : Driver) : Prop :=
  ∀ st candles p, t.strategy = some st → t.candles = some candles → candles ≠ [] →
    t.finished clock d st candles = some p →
      (∀ symbol, p.account.broker.held symbol = 0) ∧
        p.account.broker.equity = p.account.broker.cash ∧
        (t.runBy clock d).report.endEquity = round2 p.account.broker.cash

/-- A run that closes at the end ends closed exactly when its closing orders close what is open
after the last candle. -/
theorem endsClosed_iff (hrandom : UnitDraws t.random) (hclose : t.config.closePositionsOnEnd = true) :
    t.EndsClosed clock d ↔
      ∀ st candles q, t.strategy = some st → t.candles = some candles → candles ≠ [] →
        t.looped clock d st candles = some q → st.onStop q.strategy ≠ none →
          q.account.broker.Closes (t.setup candles) := by
  have hiff : ∀ {st candles q}, candles ≠ [] → t.looped clock d st candles = some q →
      ((∀ symbol, (closeOpenPositions (t.setup candles) q.account.broker).held symbol = 0) ↔
        q.account.broker.Closes (t.setup candles)) := by
    intro st candles q hne hq
    have hat := looped_at hne hq
    obtain ⟨es, hes⟩ := hat.follows
    refine Broker.closeOpenPositions_iff hrandom ?_ hat.index hne
    rw [hes.positions]
    exact ((booked_start _).events es).keys
  constructor
  · intro h st candles q hst hcandles hne hq hstop
    obtain ⟨p, hp⟩ := Option.ne_none_iff_exists'.mp
      (finish_ne_none t (t.setup candles) clock (lastStampBy d candles) candles.length hstop)
    have hfinished : t.finished clock d st candles = some p := by
      rw [finished, hq]
      exact hp
    rw [← hiff hne hq, ← (finish_closes hclose hp).1]
    exact (h st candles p hst hcandles hne hfinished).1
  · intro h st candles p hst hcandles hne hp
    obtain ⟨q, hq, hfinish⟩ := Option.bind_eq_some_iff.mp hp
    obtain ⟨hbroker, snaps, snap, hsnaps, hequity⟩ := finish_closes hclose hfinish
    have hflat : ∀ symbol, p.account.broker.held symbol = 0 := by
      rw [hbroker, hiff hne hq]
      exact h st candles q hst hcandles hne hq (finish_eq_some hfinish).1
    have hcash := Broker.equity_of_flat hflat
    refine ⟨hflat, hcash, ?_⟩
    rw [runBy_of_finished hst hcandles hne hp, hsnaps, endEquity_append, hequity, hcash]

def twoBuys (config : BacktestConfig) : Run Unit :=
  { plainRun config with
    strategy := some buyer
    candles := some [flatCandle 100, flatCandle 100] }

/-- With a latency the closing order waits for a third candle; with partial fills one of the two
bought is left. -/
theorem twoBuys_left_open :
    ¬(twoBuys { latencyCandles := 1 }).EndsClosed (fun _ => "") .max ∧
      ¬(twoBuys { partialFillProbability := 1 / 2 }).EndsClosed (fun _ => "") .max := by
  have hheld : ∀ config ∈ [({ latencyCandles := 1 } : BacktestConfig),
      { partialFillProbability := 1 / 2 }],
      ((twoBuys config).finished (fun _ => "") .max buyer [flatCandle 100, flatCandle 100]).map
        (fun p => p.account.broker.held buyOne.symbol) = some 1 := by
    decide +kernel
  have hopen : ∀ config, ((twoBuys config).finished (fun _ => "") .max buyer
      [flatCandle 100, flatCandle 100]).map (fun p => p.account.broker.held buyOne.symbol) = some 1 →
      ¬(twoBuys config).EndsClosed (fun _ => "") .max := by
    intro config hone h
    obtain ⟨p, hp, hheld⟩ := Option.map_eq_some_iff.mp hone
    have hflat := (h _ _ p rfl rfl (by simp) hp).1 buyOne.symbol
    omega
  exact ⟨hopen _ (hheld _ (by simp)), hopen _ (hheld _ (by simp))⟩

theorem endsClosed_iff_twoBuys :
    (twoBuys {}).EndsClosed (fun _ => "") .max ↔
      ∀ st candles q, (twoBuys {}).strategy = some st → (twoBuys {}).candles = some candles →
        candles ≠ [] → (twoBuys {}).looped (fun _ => "") .max st candles = some q →
          st.onStop q.strategy ≠ none → q.account.broker.Closes ((twoBuys {}).setup candles) :=
  endsClosed_iff (fun _ => ⟨le_rfl, zero_lt_one⟩) rfl

end Run

end Runs

end Trademetrix.Backtest
