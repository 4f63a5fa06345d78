import Mathlib.Algebra.BigOperators.Group.List.Basic
import Mathlib.Data.List.Dedup
import Trademetrix.BrokerConnect.Engine

/-!
# The risk guard and the orders it counts

`SupabaseOrderStore.record` writes the attempts of the engine into the orders table,
with statuses such as `FILLED` and `PLACED`; `RiskSettingsGuard.check` counts the rows
in `open`, `pending` or `partial`, of which it has written none. The guard adds the
daily and the total profit of a run, and takes any settings row of the user.
-/

namespace Trademetrix.BrokerConnect

namespace ResultStatus

def value : ResultStatus → String
  | placed => "placed"
  | rejected => "rejected"
  | skippedNoConn => "skipped_no_conn"
  | skippedExpired => "skipped_expired"
  | skippedKilled => "skipped_killed"
  | skippedDuplicate => "skipped_duplicate"
  | riskBlocked => "risk_blocked"
  | sizedZero => "sized_zero"
  | error => "error"

end ResultStatus

structure OrderRow where
  userId : String
  broker : String
  symbol : String
  product : Product
  side : Side
  quantity : ℤ
  status : String
  isPaper : Bool
  deriving DecidableEq

/-- An attempt that is recorded; `stored` says whether its insert succeeds. -/
structure Attempt where
  intent : OrderIntent
  result : ExecutionResult
  mode : Mode
  stored : Bool := true

def orderStatus (result : ExecutionResult) (mode : Mode) : String :=
  match result.status with
  | .placed => if mode = .paper then "FILLED" else "PLACED"
  | .rejected => "REJECTED"
  | status => Text.upper status.value

def Attempt.row (a : Attempt) : OrderRow where
  userId := a.intent.userId
  broker := a.intent.broker
  symbol := a.intent.brokerSymbol
  product := a.intent.product
  side := a.intent.side
  quantity := a.intent.qty
  status := orderStatus a.result a.mode
  isPaper := a.mode = .paper

/-- `SupabaseOrderStore.record`; an insert that fails is only logged. -/
def record (rows : List OrderRow) (a : Attempt) : List OrderRow :=
  if a.stored then rows ++ [a.row] else rows

def recorded (history : List Attempt) : List OrderRow := history.foldl record []

/-- A row of `risk_settings`; that of the user as a whole has no strategy. -/
structure SettingsRow where
  userId : String
  strategyId : Option String := none
  maxCapital : Option ℚ := none
  maxPositionSize : Option ℚ := none
  maxOpenPositions : Option ℤ := none
  maxDailyLoss : Option ℚ := none
  killSwitchEnabled : Bool := false
  deriving DecidableEq

/-- A row of `strategy_runs`. The total of a run is with that of the day. -/
structure StrategyRun where
  userId : String
  status : String
  dailyPnl : Option ℚ := none
  totalPnl : Option ℚ := none

structure GuardTables where
  settings : List SettingsRow
  runs : List StrategyRun
  orders : List OrderRow

section Guard

variable (t : GuardTables) (profile : UserTradingProfile) (intent : OrderIntent)

/-- `.eq("user_id", ..).limit(1)`, without a filter on the strategy. -/
def settingsOf (userId : String) : Option SettingsRow :=
  t.settings.find? fun row => row.userId = userId

def liveRuns (userId : String) : List StrategyRun :=
  t.runs.filter fun run => run.userId = userId ∧ run.status ∈ ["running", "open"]

/-- `today_pnl`, of both columns. -/
def todayPnl (userId : String) : ℚ :=
  ((liveRuns t userId).map fun run => run.dailyPnl.getD 0 + run.totalPnl.getD 0).sum

def countedStatuses : List String := ["open", "pending", "partial"]

def openPos (userId : String) : ℕ :=
  t.orders.countP fun row => row.userId = userId ∧ row.status ∈ countedStatuses

def notional : ℚ := intent.qty * intent.estPrice

def Reached {K : Type} [Zero K] (limit : Option K) (reaches : K → Prop) : Prop :=
  ∃ x ∈ limit, x ≠ 0 ∧ reaches x

instance {K : Type} [Zero K] [DecidableEq K] (limit : Option K) (reaches : K → Prop)
    [DecidablePred reaches] : Decidable (Reached limit reaches) :=
  inferInstanceAs (Decidable (∃ x ∈ limit, _))

def check : Bool × Option String :=
  match settingsOf t profile.userId with
  | none => (true, none)
  | some rk =>
    if rk.killSwitchEnabled then (false, some "kill_switch_enabled")
    else if Reached rk.maxPositionSize fun x => x < notional intent then
      (false, some "max_position_size_exceeded")
    else if Reached rk.maxCapital fun x => x < notional intent then
      (false, some "max_capital_exceeded")
    else if Reached rk.maxDailyLoss fun x => todayPnl t profile.userId ≤ -x then
      (false, some "max_daily_loss_hit")
    else if Reached rk.maxOpenPositions fun x => x ≤ openPos t profile.userId then
      (false, some "max_open_positions")
    else (true, none)

end Guard

end Trademetrix.BrokerConnect

namespace Trademetrix.BrokerConnect

section Positions

variable (rows : List OrderRow) (userId : String)

def accepted : List OrderRow :=
  rows.filter fun row => row.userId = userId ∧ row.status ∈ ["FILLED", "PLACED"]

def OrderRow.position (row : OrderRow) : String × String × Product := (row.broker, row.symbol, row.product)

def OrderRow.signed (row : OrderRow) : ℤ :=
  match row.side with
  | .buy => row.quantity
  | .sell => -row.quantity

def netQuantity (k : String × String × Product) : ℤ :=
  (((accepted rows userId).filter fun row => row.position = k).map OrderRow.signed).sum

def openPositions : ℕ :=
  (((accepted rows userId).map OrderRow.position).dedup.filter fun k =>
    netQuantity rows userId k ≠ 0).length

end Positions

variable (t : GuardTables) (history : List Attempt) (profile : UserTradingProfile)
  (intent : OrderIntent)

def dailyLoss (userId : String) : ℚ := -((liveRuns t userId).map fun run => run.dailyPnl.getD 0).sum

def userLevel (userId : String) : Option SettingsRow :=
  t.settings.find? fun row => row.userId = userId ∧ row.strategyId = none

structure Enforces : Prop where
  row : ∀ u ∈ userLevel t profile.userId, settingsOf t profile.userId = some u
  positions : (check { t with orders := recorded history } profile intent).1 = true →
    ∀ u ∈ userLevel t profile.userId,
      ¬Reached u.maxOpenPositions fun x => x ≤ openPositions (recorded history) profile.userId
  loss : (check { t with orders := recorded history } profile intent).1 = true →
    ∀ u ∈ userLevel t profile.userId, ¬Reached u.maxDailyLoss fun x => x ≤ dailyLoss t profile.userId

/-- An order is stopped by what the guard can see: the kill switch, its size, the profit of both
columns, or a limit of less than no position. -/
def Stopped (u : SettingsRow) : Prop :=
  u.killSwitchEnabled = true ∨ (Reached u.maxPositionSize fun x => x < notional intent) ∨
    (Reached u.maxCapital fun x => x < notional intent) ∨
    (Reached u.maxDailyLoss fun x => todayPnl t profile.userId ≤ -x) ∨
    Reached u.maxOpenPositions fun x => x < 0

/-- The user's own settings come before those of the strategies, and an order is stopped, or no
limit is reached: neither that of the positions nor that of the loss. -/
def WithinLimits : Prop :=
  ∀ u ∈ userLevel t profile.userId, settingsOf t profile.userId = some u ∧
    (Stopped t profile intent u ∨
      (¬Reached u.maxOpenPositions fun x => x ≤ openPositions (recorded history) profile.userId) ∧
        ¬Reached u.maxDailyLoss fun x => x ≤ dailyLoss t profile.userId)

variable {t history profile intent}

theorem recorded_eq (history : List Attempt) :
    recorded history = (history.filter Attempt.stored).map Attempt.row := by
  have hrows : ∀ rows, history.foldl record rows =
      rows ++ (history.filter Attempt.stored).map Attempt.row := by
    induction history with
    | nil => exact fun rows => (List.append_nil rows).symm
    | cons a history ih =>
      intro rows
      rw [List.foldl_cons, ih, record, List.filter_cons]
      split
      · rw [List.append_assoc, List.singleton_append, List.map_cons]
      · rfl
  exact hrows []

theorem orderStatus_not_counted (result : ExecutionResult) (mode : Mode) :
    orderStatus result mode ∉ countedStatuses := by
  unfold orderStatus
  cases mode <;> cases result.status <;> decide

theorem openPos_recorded (userId : String) : openPos { t with orders := recorded history } userId = 0 := by
  unfold openPos
  rw [List.countP_eq_zero]
  intro row hrow
  dsimp only at hrow
  rw [recorded_eq] at hrow
  obtain ⟨a, -, rfl⟩ := List.mem_map.mp hrow
  have hstatus : a.row.status ∉ countedStatuses := orderStatus_not_counted a.result a.mode
  simp [hstatus]

theorem check_recorded_iff :
    (check { t with orders := recorded history } profile intent).1 = true ↔
      ∀ u ∈ settingsOf t profile.userId, ¬Stopped t profile intent u := by
  have hsettings : settingsOf { t with orders := recorded history } profile.userId =
      settingsOf t profile.userId := rfl
  unfold check
  rw [hsettings, openPos_recorded]
  cases settingsOf t profile.userId with
  | none => simp
  | some u =>
    have hopen : (Reached u.maxOpenPositions fun x => x ≤ ((0 : ℕ) : ℤ)) ↔
        Reached u.maxOpenPositions fun x => x < 0 :=
      exists_congr fun x => and_congr_right fun _ => and_congr_right fun hx => by omega
    simp only [Option.mem_def, Option.some.injEq, forall_eq', Stopped, not_or, ← hopen]
    split
    · next h => simp [h]
    · split
      · next h => simp [h]
      · split
        · next h => simp [h]
        · split
          · next h =>
            exact iff_of_false Bool.false_ne_true fun hnot => hnot.2.2.2.1 h
          · split
            · next h => exact iff_of_false Bool.false_ne_true fun hnot => hnot.2.2.2.2 h
            · next hkill hsize hcapital hloss hpositions =>
              exact iff_of_true rfl ⟨hkill, hsize, hcapital, hloss, hpositions⟩

/-- The guard does what it is for just if the limits are not reached where it lets an order through. -/
theorem enforces_iff (t : GuardTables) (history : List Attempt) (profile : UserTradingProfile)
    (intent : OrderIntent) :
    Enforces t history profile intent ↔ WithinLimits t history profile intent := by
  constructor
  · intro h u hu
    have hrow := h.row u hu
    refine ⟨hrow, or_iff_not_imp_left.mpr fun hstopped => ?_⟩
    have hallowed : (check { t with orders := recorded history } profile intent).1 = true := by
      refine check_recorded_iff.mpr fun u' hu' => ?_
      rw [hrow] at hu'
      rwa [← Option.some.inj hu']
    exact ⟨h.positions hallowed u hu, h.loss hallowed u hu⟩
  · intro h
    have hlimits : (check { t with orders := recorded history } profile intent).1 = true →
        ∀ u ∈ userLevel t profile.userId,
          (¬Reached u.maxOpenPositions fun x => x ≤ openPositions (recorded history) profile.userId) ∧
            ¬Reached u.maxDailyLoss fun x => x ≤ dailyLoss t profile.userId := by
      intro hallowed u hu
      obtain ⟨hrow, hstopped | hwithin⟩ := h u hu
      · exact absurd hstopped (check_recorded_iff.mp hallowed u hrow)
      · exact hwithin
    exact ⟨fun u hu => (h u hu).1, fun hallowed u hu => (hlimits hallowed u hu).1,
      fun hallowed u hu => (hlimits hallowed u hu).2⟩

section Counterexample

def buyNifty : OrderIntent where
  userId := "u1"
  broker := "fyers"
  brokerSymbol := "NSE:NIFTY26OCTFUT"
  side := .buy
  qty := 75
  orderType := .mkt
  product := .intraday
  estPrice := 24000

/-- A filled paper order makes a position, of at most one; a loss of 1500 passes a limit of 1000 for
the total profit of the run; and the settings of a strategy stand for those of the user. -/
theorem limits_not_enforced :
    ¬Enforces
      { settings := [{ userId := "u1", maxOpenPositions := some 1 }], runs := [], orders := [] }
      [{ intent := buyNifty, result := { userId := "u1", broker := "fyers", status := .placed }
         mode := .paper }]
      { userId := "u1" } { buyNifty with brokerSymbol := "NSE:BANKNIFTY26OCTFUT" } ∧
    ¬Enforces
      { settings := [{ userId := "u1", maxDailyLoss := some 1000 }]
        runs := [⟨"u1", "running", some (-1500), some 5000⟩]
        orders := [] }
      [] { userId := "u1" } buyNifty ∧
    ¬Enforces
      { settings := [{ userId := "u1", strategyId := some "s1" },
          { userId := "u1", killSwitchEnabled := true }]
        runs := []
        orders := [] }
      [] { userId := "u1" } buyNifty := by
  refine ⟨fun h => ?_, fun h => ?_, fun h => ?_⟩
  · exact h.positions (by decide) _ rfl ⟨1, rfl, by decide, by decide⟩
  · exact h.loss (by decide +kernel) _ rfl ⟨1000, rfl, by decide, by decide +kernel⟩
  · have hrow := h.row _ rfl
    revert hrow
    decide

end Counterexample

end Trademetrix.BrokerConnect
