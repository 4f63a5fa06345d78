import Mathlib.Tactic.Linarith
import Mathlib.Tactic.NormNum
import Trademetrix.Backtest.Manager
import Trademetrix.Decimal

/-!
# What a run knows of later candles

Two runs of one strategy over series that agree up to a candle. Every fill is
simulated against the candle `latency_candles` ahead of the one processed, so
what the broker has done after candle `n` depends on the candles up to
`n + latency_candles`, and on those beyond `n` as soon as there is a latency.
-/

namespace Trademetrix.Backtest

open Engine (OrderSide)

variable {s : Setup} {c : List Candle} {b : Broker} {i : ℤ}

def Setup.withCandles (s : Setup) (c : List Candle) : Setup := { s with candles := c }

def Agrees (s : Setup) (c : List Candle) (i : ℤ) : Prop :=
  s.candleAt i = (s.withCandles c).candleAt i

structure AgreesAt (s : Setup) (c : List Candle) (i : ℤ) : Prop where
  here : Agrees s c i
  ahead : Agrees s c (i + s.config.latencyCandles)

namespace Broker

theorem simulateFill_agrees (h : Agrees s c (b.index + s.config.latencyCandles)) (order : Order) :
    s.simulateFill b order = (s.withCandles c).simulateFill b order :=
  congrArg (s.fillOn b.drawn order) h

@[simp] theorem index_retry (id : ℕ) : (b.retry s id).index = b.index := by
  unfold retry
  split
  · rfl
  · split
    · rfl
    · split
      · rfl
      · dsimp only
        split <;> rfl

@[simp] theorem index_placeOrder (order : Order) : (b.placeOrder s order).2.index = b.index := by
  unfold placeOrder
  dsimp only
  split <;> rfl

theorem retry_agrees (h : Agrees s c (b.index + s.config.latencyCandles)) (id : ℕ) :
    b.retry s id = b.retry (s.withCandles c) id := by
  unfold retry
  cases b.orders.get id with
  | none => rfl
  | some entry =>
    dsimp only
    rw [simulateFill_agrees h]
    rfl

theorem retries_agree (h : Agrees s c (b.index + s.config.latencyCandles)) (ids : List ℕ) :
    ids.foldl (retry s) b = ids.foldl (retry (s.withCandles c)) b := by
  induction ids generalizing b with
  | nil => rfl
  | cons id ids ih =>
    rw [List.foldl_cons, List.foldl_cons, ← retry_agrees h id]
    exact ih (by rwa [index_retry])

@[simp] theorem index_retries (ids : List ℕ) : (ids.foldl (retry s) b).index = b.index := by
  induction ids generalizing b with
  | nil => rfl
  | cons id ids ih => rw [List.foldl_cons, ih, index_retry]

theorem onCandle_agrees (h : AgreesAt s c i) : b.onCandle s i = b.onCandle (s.withCandles c) i := by
  unfold onCandle
  dsimp only
  rw [retries_agree h.ahead, h.here]

@[simp] theorem index_onCandle : (b.onCandle s i).index = i := by
  unfold onCandle
  dsimp only
  split
  · simp [markTo]
  · simp

theorem placeOrder_agrees (h : Agrees s c (b.index + s.config.latencyCandles)) (order : Order) :
    b.placeOrder s order = b.placeOrder (s.withCandles c) order := by
  unfold placeOrder
  rw [simulateFill_agrees h]
  rfl

end Broker

namespace Account

variable {a : Account}

theorem index_place (order : Order) : (a.place s order).broker.index = a.broker.index :=
  Broker.index_placeOrder order

theorem place_agrees (h : Agrees s c (a.broker.index + s.config.latencyCandles)) (order : Order) :
    a.place s order = a.place (s.withCandles c) order := by
  unfold place
  rw [Broker.placeOrder_agrees h]

theorem index_placeViaBroker (reason : String) (order : Order) :
    (a.placeViaBroker s reason order).broker.index = a.broker.index := by
  unfold placeViaBroker
  dsimp only
  split
  · exact index_place _
  · split
    · rfl
    · exact index_place _
    · exact index_place _

theorem placeViaBroker_agrees (h : Agrees s c (a.broker.index + s.config.latencyCandles))
    (reason : String) (order : Order) :
    a.placeViaBroker s reason order = a.placeViaBroker (s.withCandles c) reason order := by
  unfold placeViaBroker
  dsimp only
  split
  · exact place_agrees h _
  · split
    · rfl
    · refine place_agrees ?_ _
      exact h
    · refine place_agrees ?_ _
      exact h

theorem placeAll_agrees (h : Agrees s c (a.broker.index + s.config.latencyCandles)) (reason : String)
    (orders : List Order) :
    orders.foldl (placeViaBroker s reason) a =
      orders.foldl (placeViaBroker (s.withCandles c) reason) a := by
  induction orders generalizing a with
  | nil => rfl
  | cons order orders ih =>
    rw [List.foldl_cons, List.foldl_cons, ← placeViaBroker_agrees h]
    exact ih (by rwa [index_placeViaBroker])

end Account

namespace Run

variable {σ : Type} {t : Run σ} {st : Strategy σ} {clock : Clock} {p : Progress σ}

theorem fastStep_agrees {i : ℕ} (h : AgreesAt s c i) (raw : Candle) :
    t.fastStep s st clock p i raw = t.fastStep (s.withCandles c) st clock p i raw := by
  have hcandle : p.account.onCandle s i = p.account.onCandle (s.withCandles c) i := by
    unfold Account.onCandle
    rw [Broker.onCandle_agrees h]
  have hahead : Agrees s c
      ((p.account.onCandle s i).broker.index + s.config.latencyCandles) := by
    rw [Account.onCandle, Broker.index_onCandle]
    exact h.ahead
  unfold fastStep
  dsimp only
  rw [← hcandle]
  split
  · rfl
  · split
    · rfl
    · rw [Account.placeAll_agrees hahead]

theorem loop_congr {f g : Progress σ → ℕ → Candle → Option (Progress σ)} {I : Progress σ → Prop}
    {raws : List Candle} {i : ℕ} (hp : I p)
    (h : ∀ (q : Progress σ) (k : ℕ) (raw : Candle), I q → i ≤ k → k < i + raws.length →
      f q k raw = g q k raw ∧ ∀ q', f q k raw = some q' → I q') :
    loop f i raws p = loop g i raws p := by
  induction raws generalizing i p with
  | nil => rfl
  | cons raw raws ih =>
    obtain ⟨heq, hkeep⟩ := h p i raw hp le_rfl (by simp)
    rw [loop, loop, ← heq]
    refine Option.bind_congr fun q hq => ih (hkeep q hq) fun q' k raw' hq' hik hk => ?_
    refine h q' k raw' hq' (by omega) ?_
    rw [List.length_cons]
    omega

theorem loop_agrees {raws : List Candle} {i : ℕ}
    (h : ∀ k : ℕ, i ≤ k → k < i + raws.length → AgreesAt s c k) :
    loop (t.fastStep s st clock) i raws p = loop (t.fastStep (s.withCandles c) st clock) i raws p :=
  loop_congr (I := fun _ => True) trivial fun _ k raw _ hik hk =>
    ⟨fastStep_agrees (h k hik hk) raw, fun _ _ => trivial⟩

end Run

structure Observation where
  positions : Dict String Position
  cash : ℚ
  equity : ℚ
  lastPrices : Dict String ℚ
  trades : List Trade
  statuses : List (ℕ × EntryStatus)

def Broker.observe (b : Broker) : Observation where
  positions := b.positions
  cash := b.cash
  equity := b.equity
  lastPrices := b.lastPrices
  trades := b.trades
  statuses := b.orders.map fun (e : ℕ × OrderEntry) => (e.1, e.2.status)

/-- What is seen once the `n`-th candle of a series is processed; `none` if the run failed by
then. -/
def Run.observedAfter {σ : Type} (t : Run σ) (st : Strategy σ) (start : σ) (clock : Clock)
    (candles : List Candle) (n : ℕ) : Option Observation :=
  (Run.loop (t.fastStep (t.setup candles) st clock) 0 (candles.take (n + 1))
    { strategy := start, account := t.account candles }).map fun p => p.account.broker.observe

/-- Series that agree on the candles up to the `n`-th look the same after it. -/
def NoLookAhead (config : BacktestConfig) : Prop :=
  ∀ (σ : Type) (t : Run σ) (st : Strategy σ) (start : σ) (clock : Clock)
    (candles candles' : List Candle) (n : ℕ),
    t.config = config → n < candles.length → n < candles'.length →
      candles.take (n + 1) = candles'.take (n + 1) →
        t.observedAfter st start clock candles n = t.observedAfter st start clock candles' n

theorem agrees_of_take {σ : Type} {t : Run σ} {candles candles' : List Candle} {n k : ℕ}
    (h : candles.take n = candles'.take n) (hk : k < n) :
    Agrees (t.setup candles) candles' k := by
  have hget : candles[k]? = candles'[k]? := by
    rw [← List.getElem?_take_of_lt hk, h, List.getElem?_take_of_lt hk]
  unfold Agrees Setup.candleAt
  rw [if_pos (Int.natCast_nonneg k), if_pos (Int.natCast_nonneg k)]
  exact hget

theorem observedAfter_agrees {σ : Type} (t : Run σ) (st : Strategy σ) (start : σ) (clock : Clock)
    {candles candles' : List Candle} {n : ℕ}
    (h : candles.take (n + 1 + t.config.latencyCandles) =
      candles'.take (n + 1 + t.config.latencyCandles)) :
    t.observedAfter st start clock candles n = t.observedAfter st start clock candles' n := by
  have hprefix : candles.take (n + 1) = candles'.take (n + 1) := by
    have htake := congrArg (List.take (n + 1)) h
    simpa [List.take_take] using htake
  have hat : ∀ k : ℕ, 0 ≤ k → k < 0 + (candles.take (n + 1)).length →
      AgreesAt (t.setup candles) candles' k := by
    intro k _ hk
    have hkn : k < n + 1 := by
      rw [List.length_take] at hk
      omega
    refine ⟨agrees_of_take h (by omega), ?_⟩
    exact_mod_cast agrees_of_take (t := t) h
      (k := k + t.config.latencyCandles) (by omega)
  unfold Run.observedAfter
  rw [Run.loop_agrees hat, hprefix]
  rfl

section Stopped

def BacktestConfig.Stopped (config : BacktestConfig) : Prop :=
  config.riskEnabled = true ∧ ((config.risk.config config.initialCapital).killSwitchEnabled = true ∨
    (config.risk.config config.initialCapital).emergencyStop = true)

structure Account.Idle (a : Account) : Prop where
  orders : a.broker.orders = []
  risk : ∃ r, a.risk = some r ∧
    (r.config.killSwitchEnabled = true ∨ r.config.emergencyStop = true)

namespace Account

variable {a : Account}

theorem placeViaBroker_idle (h : a.Idle) (reason : String) (order : Order) :
    a.placeViaBroker s reason order = a.placeViaBroker (s.withCandles c) reason order ∧
      (a.placeViaBroker s reason order).Idle := by
  obtain ⟨r, hr, hstop⟩ := h.risk
  unfold placeViaBroker
  dsimp only
  rw [hr]
  dsimp only
  generalize (if reason ≠ "" then { order with reason := reason } else order : Order) = order
  cases hcheck : (r.check a.broker order).1 with
  | approved adjusted =>
    obtain ⟨-, hkill, hemergency, -⟩ := BacktestRiskSimulator.check_approved_iff.mp hcheck
    rw [hkill, hemergency] at hstop
    simp at hstop
  | rejected rule =>
    exact ⟨rfl, h.orders, _, rfl, by rwa [BacktestRiskSimulator.config_check]⟩

theorem placeAll_idle (h : a.Idle) (reason : String) (orders : List Order) :
    orders.foldl (placeViaBroker s reason) a =
        orders.foldl (placeViaBroker (s.withCandles c) reason) a ∧
      (orders.foldl (placeViaBroker s reason) a).Idle := by
  induction orders generalizing a with
  | nil => exact ⟨rfl, h⟩
  | cons order orders ih =>
    obtain ⟨heq, hidle⟩ := placeViaBroker_idle (s := s) (c := c) h reason order
    rw [List.foldl_cons, List.foldl_cons, ← heq]
    exact ih hidle

theorem onCandle_idle (h : a.Idle) {i : ℕ} (hi : Agrees s c i) :
    a.onCandle s i = a.onCandle (s.withCandles c) i ∧ (a.onCandle s i).Idle := by
  have hstep : ∀ s' : Setup, a.broker.onCandle s' i =
      (s'.candleAt i).elim { a.broker with index := i }
        ({ a.broker with index := i } : Broker).markTo := by
    intro s'
    simp only [Broker.onCandle, h.orders, List.map_nil, List.foldl_nil]
    cases s'.candleAt i with
    | none => rfl
    | some candle => rfl
  constructor
  · unfold onCandle
    rw [hstep, hstep, hi]
  · refine ⟨?_, h.risk⟩
    unfold onCandle
    rw [hstep]
    cases s.candleAt i with
    | none => exact h.orders
    | some candle => exact h.orders

theorem noteRisk_idle (h : a.Idle) (i : ℕ) (timestamp : String) : (a.noteRisk i timestamp).Idle := by
  obtain ⟨r, hr, hstop⟩ := h.risk
  refine ⟨h.orders, r.snapshot a.broker i timestamp, ?_, hstop⟩
  simp [noteRisk, hr]

end Account

namespace Run

variable {σ : Type} {t : Run σ} {st : Strategy σ} {clock : Clock} {p q : Progress σ}

theorem fastStep_idle {i : ℕ} (hp : p.account.Idle) (h : Agrees s c i) (raw : Candle) :
    t.fastStep s st clock p i raw = t.fastStep (s.withCandles c) st clock p i raw ∧
      ∀ q, t.fastStep s st clock p i raw = some q → q.account.Idle := by
  obtain ⟨hcandle, hidle⟩ := Account.onCandle_idle hp h
  unfold fastStep
  dsimp only
  rw [← hcandle]
  split
  · exact ⟨rfl, by simp⟩
  · split
    · exact ⟨rfl, by simp⟩
    · next strategy signal _ =>
      obtain ⟨hplaced, hafter⟩ := Account.placeAll_idle (s := s) (c := c) hidle signal.reason
        signal.orders
      rw [← hplaced]
      refine ⟨rfl, fun q hq => ?_⟩
      cases hq
      exact Account.noteRisk_idle hafter _ _

theorem loop_idle {raws : List Candle} {i : ℕ} (hp : p.account.Idle)
    (h : ∀ k : ℕ, i ≤ k → k < i + raws.length → Agrees s c k) :
    loop (t.fastStep s st clock) i raws p = loop (t.fastStep (s.withCandles c) st clock) i raws p :=
  loop_congr (I := fun q => q.account.Idle) hp fun _ k raw hq hik hk =>
    fastStep_idle hq (h k hik hk) raw

theorem account_idle (h : t.config.Stopped) (candles : List Candle) : (t.account candles).Idle := by
  refine ⟨rfl, ?_⟩
  unfold account
  rw [if_pos h.1]
  exact ⟨_, rfl, h.2⟩

end Run

theorem observedAfter_stopped {σ : Type} {t : Run σ} (hstop : t.config.Stopped) (st : Strategy σ)
    (start : σ) (clock : Clock) {candles candles' : List Candle} {n : ℕ}
    (h : candles.take (n + 1) = candles'.take (n + 1)) :
    t.observedAfter st start clock candles n = t.observedAfter st start clock candles' n := by
  have hat : ∀ k : ℕ, 0 ≤ k → k < 0 + (candles.take (n + 1)).length →
      Agrees (t.setup candles) candles' k := by
    intro k _ hk
    refine agrees_of_take h ?_
    rw [List.length_take] at hk
    omega
  unfold Run.observedAfter
  rw [Run.loop_idle (Run.account_idle hstop candles) hat, h]
  rfl

end Stopped

section Latency

theorem slip_ne (s : Setup) : s.slip 100 .buy ≠ s.slip 200 .buy := by
  unfold Setup.slip
  dsimp only
  split
  · norm_num
  · next hpct =>
    have hpos : 0 < s.config.slippagePct / 100 := not_le.mp hpct
    simp only [if_true]
    unfold round4
    intro heq
    have h₁ := abs_le.mp (Text.abs_roundHalfEven_sub_le (100 * (1 + s.config.slippagePct / 100) * 10000))
    have h₂ := abs_le.mp (Text.abs_roundHalfEven_sub_le (200 * (1 + s.config.slippagePct / 100) * 10000))
    have heq' := (div_left_inj' (by norm_num : (10000 : ℚ) ≠ 0)).mp heq
    rw [heq'] at h₁
    linarith [h₁.1, h₁.2, h₂.1, h₂.2]

def buyOne : Order where
  symbol := "NIFTY24000CE"
  exchange := .nse
  side := .buy
  orderType := .market
  product := .intraday
  quantity := 1

def buyer : Strategy Unit where
  init := ()
  onStart := some
  onCandle _ _ := ((), some { orders := [buyOne] })
  onStop := some

def flatCandle (price : ℚ) : Candle where
  symbol := "NIFTY"
  openPrice := price
  high := price
  low := price
  close := price
  timestamp := "2026-01-05T09:15:00+05:30"

def plainRun (config : BacktestConfig) : Run Unit where
  config := config
  strategy := none
  candles := none
  random _ := 0
  elapsed _ _ := none
  fromisoformat _ := some ⟨"2026-01", "2026-01-05"⟩

def lateCandle (latency : ℕ) (price : ℚ) : List Candle :=
  List.replicate latency (flatCandle 100) ++ [flatCandle price]

theorem check_fresh {r : BacktestRiskSimulator} {b : Broker} {order : Order}
    (hhalted : r.halted = false) (hkill : r.config.killSwitchEnabled = false)
    (hstop : r.config.emergencyStop = false) (hpositions : b.positions = [])
    (hcash : b.cash = r.initialCapital) (hpeak : r.peakEquity = r.initialCapital)
    (htrades : b.trades = []) (hprice : order.price ≤ 0)
    (hlast : b.lastPrices.get order.symbol = none) (hquantity : order.quantity = 1) :
    (r.check b order).1 = .approved none := by
  have hreducer : BacktestRiskSimulator.isReducer b order.symbol order.side = false := by
    have hpos : b.positionOf order.symbol = {} := by
      rw [Broker.positionOf, hpositions]
      rfl
    unfold BacktestRiskSimulator.isReducer
    rw [hpos]
    cases order.side <;> decide
  have hzero : BacktestRiskSimulator.checkedPrice b order = 0 := by
    rw [BacktestRiskSimulator.checkedPrice, if_pos hprice, hlast]
    rfl
  have hclamped : r.clamped (r.accountState b).1 |order.quantity| 0 = none := by
    simp [BacktestRiskSimulator.clamped]
  have hstate : (r.accountState b).1.pnl = 0 ∧ (r.accountState b).1.tradeCount = 0 ∧
      (r.accountState b).1.drawdownPct = 0 ∧ (r.accountState b).1.exposure = 0 ∧
      (r.accountState b).1.openPositions = 0 := by
    simp [BacktestRiskSimulator.accountState, Broker.equity, Broker.totalUnrealised, Dict.values,
      hpositions, hcash, hpeak, htrades]
  obtain ⟨hpnl, hcount, hdrawdown, hexposure, hopen⟩ := hstate
  have hcapacity : (r.accountState b).2.capacityRule b (r.accountState b).1 order.symbol
      |order.quantity| (|order.quantity| * 0) = none := by
    have hnotional : (b.positionOf order.symbol).notional = 0 := by
      simp [Broker.positionOf, hpositions, Dict.get, Position.notional]
    unfold BacktestRiskSimulator.capacityRule
    rw [hquantity]
    simp only [hopen, hexposure, hnotional, abs_one, mul_zero, add_zero]
    rw [if_neg (by push_cast; omega), if_neg (by omega), if_neg (fun h => h.1.not_gt h.2),
      if_neg (fun h => h.1.not_gt h.2), if_neg (fun h => h.1.not_gt h.2)]
  rw [BacktestRiskSimulator.check_approved_iff]
  refine ⟨hhalted, hkill, hstop, ?_⟩
  rw [hreducer, hzero]
  simp only [Bool.false_eq_true, if_false]
  rw [hclamped]
  refine BacktestRiskSimulator.limits_approved_iff.mpr ⟨rfl, ?_, ?_, hcapacity, ?_⟩
  · rw [hpnl]
    intro h
    linarith [h.1, h.2]
  · rw [hcount]
    push_cast
    omega
  · rw [hdrawdown]
    exact fun h => h.1.not_ge h.2

theorem placeViaBroker_fresh {config : BacktestConfig} (hrun : ¬config.Stopped)
    (candles : List Candle) (i : ℕ) {candle : Candle}
    (hcandle : ((plainRun config).setup candles).candleAt i = some candle)
    (hsymbol : candle.symbol ≠ buyOne.symbol) :
    ((((plainRun config).account candles).onCandle ((plainRun config).setup candles) i).placeViaBroker
        ((plainRun config).setup candles) "" buyOne).broker =
      (((((plainRun config).account candles).onCandle ((plainRun config).setup candles)
        i).broker.placeOrder ((plainRun config).setup candles) buyOne)).2 := by
  have hbroker : (((plainRun config).account candles).onCandle ((plainRun config).setup candles)
      i).broker = ({ ((plainRun config).setup candles).broker with index := i } : Broker).markTo
        candle := by
    simp only [Account.onCandle, Broker.onCandle, Run.account, Setup.broker, List.map_nil,
      List.foldl_nil, hcandle]
  unfold Account.placeViaBroker
  simp only [ne_eq, not_true_eq_false, if_false]
  cases hr : (((plainRun config).account candles).onCandle ((plainRun config).setup candles) i).risk with
  | none => rfl
  | some r =>
    have hrisk : config.riskEnabled = true ∧
        { config := config.risk.config config.initialCapital, initialCapital := config.initialCapital
          peakEquity := config.initialCapital } = r := by
      have hsome : (if config.riskEnabled = true then
          some { config := config.risk.config config.initialCapital
                 initialCapital := config.initialCapital, peakEquity := config.initialCapital }
        else none) = some r := hr
      rwa [Option.ite_none_right_eq_some, Option.some.injEq] at hsome
    obtain ⟨henabled, rfl⟩ := hrisk
    have hoff : ¬((config.risk.config config.initialCapital).killSwitchEnabled = true ∨
        (config.risk.config config.initialCapital).emergencyStop = true) :=
      fun h => hrun ⟨henabled, h⟩
    obtain ⟨hkill, hstop⟩ := not_or.mp hoff
    dsimp only
    rw [check_fresh rfl (Bool.eq_false_iff.mpr hkill) (Bool.eq_false_iff.mpr hstop)
      (by rw [hbroker]; rfl) (by rw [hbroker]; rfl) rfl (by rw [hbroker]; rfl) le_rfl ?_ rfl]
    · rfl
    · rw [hbroker, Broker.markTo, Dict.get_set, if_neg (Ne.symm hsymbol)]
      rfl

theorem placeOrder_lastPrice (b : Broker) (candle : Candle)
    (h : s.candleAt (b.index + s.config.latencyCandles) = some candle) :
    (b.placeOrder s buyOne).2.lastPrices.get buyOne.symbol = some (s.slip candle.close .buy) := by
  have hfill : s.simulateFill b buyOne =
      ({ price := s.slip candle.close .buy, quantity := 1, status := .filled, reason := "market" },
        b.drawn) := by
    unfold Setup.simulateFill
    rw [h]
    simp [Setup.fillOn, Setup.marketFill, Setup.fillAt, Setup.maybePartial, buyOne]
  unfold Broker.placeOrder
  rw [hfill]
  simp [Broker.book, Broker.applyFill, Dict.get_set, buyOne]

theorem observedAfter_late {config : BacktestConfig} (hrun : ¬config.Stopped) (price : ℚ)
    (h : config.latencyCandles ≠ 0) :
    ((plainRun config).observedAfter buyer () (fun _ => "") (lateCandle config.latencyCandles price)
      0).map (fun o => o.lastPrices.get buyOne.symbol) =
        some (some (((plainRun config).setup []).slip price .buy)) := by
  obtain ⟨l, hl⟩ := Nat.exists_eq_succ_of_ne_zero h
  have htake : (lateCandle config.latencyCandles price).take (0 + 1) = [flatCandle 100] := by
    rw [hl]
    rfl
  have hfirst : ((plainRun config).setup (lateCandle config.latencyCandles price)).candleAt (0 : ℕ) =
      some (flatCandle 100) := by
    rw [hl]
    rfl
  have hlate : ((plainRun config).setup (lateCandle config.latencyCandles price)).candleAt
      (0 + config.latencyCandles) = some (flatCandle price) := by
    simp [Setup.candleAt, Run.setup, lateCandle]
  have hconverts : (plainRun config).converts (flatCandle 100) = true := rfl
  unfold Run.observedAfter
  rw [htake]
  simp only [Run.loop, Run.fastStep, buyer, hconverts, Bool.true_eq_false, if_false,
    List.foldl_cons, List.foldl_nil, Option.bind_some, Option.map_some, Run.collect,
    Account.noteRisk, Broker.observe, Option.some.injEq]
  rw [placeViaBroker_fresh hrun _ 0 hfirst (by decide), placeOrder_lastPrice _ (flatCandle price)]
  · rfl
  · rw [Account.onCandle, Broker.index_onCandle]
    exact hlate

/-- A configuration keeps later candles out of sight exactly when it has no latency, or lets no
order through. -/
theorem noLookAhead_iff (config : BacktestConfig) :
    NoLookAhead config ↔ config.latencyCandles = 0 ∨ config.Stopped := by
  constructor
  · intro h
    by_contra hnot
    obtain ⟨hlat, hrun⟩ := not_or.mp hnot
    have hsame := h Unit (plainRun config) buyer () (fun _ => "")
      (lateCandle config.latencyCandles 100) (lateCandle config.latencyCandles 200) 0 rfl
      (by simp [lateCandle]) (by simp [lateCandle]) (by
        obtain ⟨l, hl⟩ := Nat.exists_eq_succ_of_ne_zero hlat
        rw [hl]
        rfl)
    have hprice := congrArg (Option.map fun o : Observation => o.lastPrices.get buyOne.symbol) hsame
    rw [observedAfter_late hrun 100 hlat, observedAfter_late hrun 200 hlat] at hprice
    exact slip_ne _ (Option.some.inj (Option.some.inj hprice))
  · rintro (hlat | hstop) σ t st start clock candles candles' n hconfig _ _ htake
    · refine observedAfter_agrees t st start clock ?_
      rw [hconfig, hlat]
      exact htake
    · exact observedAfter_stopped (by rwa [hconfig]) st start clock htake

/-- With one candle of latency the cash after the first candle tells what the second closes at. -/
theorem latencyOne_looksAhead : ¬NoLookAhead { latencyCandles := 1 } := by
  intro h
  have hsame := h Unit (plainRun { latencyCandles := 1 }) buyer () (fun _ => "")
    [flatCandle 100, flatCandle 100] [flatCandle 100, flatCandle 200] 0 rfl (by decide) (by decide)
    rfl
  have hcash := congrArg (Option.map Observation.cash) hsame
  exact absurd hcash (by decide +kernel)

end Latency

end Trademetrix.Backtest
