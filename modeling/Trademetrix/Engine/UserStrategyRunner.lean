import Trademetrix.Cron
import Trademetrix.Engine.StrategyCompiler

/-!
# The server-side square-off of user strategies

`UserStrategyRunner._check_square_off` goes through the active strategies, takes
the mark of the day for each whose exit time has passed, and hands its open legs
to `handle_square_off`. An exception leaves the loop over the strategies and is
logged by `_run_loop`. Times are IST.
-/

namespace Trademetrix.Engine

open Execution (OrderResult)

/-- `days_of_week` as the store gives it. -/
inductive RawDays
  | text (days : String)
  | list (days : List ℤ)
  | other
  deriving DecidableEq

/-- `none` is a `ValueError`, of a digit that is no number. -/
def RawDays.days : RawDays → Option (List ℤ)
  | .text days =>
    let fields := (days.toList.filter fun c => decide (c ≠ '[' ∧ c ≠ ']')).splitOn ','
    let stripped := fields.map fun d => Text.strip (String.ofList d)
    (stripped.filter Text.isDigit).mapM Text.parseInt
  | .list days => some days
  | .other => some [1, 2, 3, 4, 5]

/-- A row of the active strategies: what the runner reads of it, what it was compiled against when
it was deployed, and which of its legs are open. -/
structure ActiveRow where
  id : String
  userId : String
  exitTime : String
  days : RawDays
  strategy : UserStrategy
  deployed : MarketData
  isOpen : ℕ → Bool

/-- A poll: the active strategies, whether the reads and the cache answer, and the replies to the
orders of a strategy's legs. -/
structure RunnerPoll where
  now : Cron.Moment
  active : List ActiveRow
  reads : Bool := true
  readsLegs : String → Bool := fun _ => true
  cacheUp : Bool := true
  replies : String → ℤ → Except String OrderResult := fun _ _ => .error ""

/-- What `_get_open_legs` makes of a leg. -/
structure LegInfo where
  legOrder : ℤ
  symbol : String
  side : String
  quantity : ℤ

structure SquareOffOrder where
  day : Day
  strategyId : String
  legOrder : ℤ
  order : NormalizedOrder
  success : Bool

structure UserStrategyRunner where
  marked : List (String × String × Day) := []
  squaredOff : List (String × String × ℤ) := []
  placed : List SquareOffOrder := []

inductive RunnerError
  | unboundLocal | value

def isoweekday (d : Day) : ℤ := ((d.weekday + 6) % 7 + 1 : ℕ)

def utcDay (m : Cron.Moment) : Day := ⟨(m.index - 330) / Cron.minutesPerDay⟩

def buildSquareOffOrder (strategyId userId : String) (leg : LegInfo) : NormalizedOrder where
  symbol := leg.symbol
  exchange := .nfo
  side := if Text.lower leg.side = "buy" then .sell else .buy
  orderType := .market
  product := .intraday
  quantity := leg.quantity
  price := 0
  strategyId := some strategyId
  userId := userId
  source := "leg_control"
  isPaper := false

/-- `_get_open_legs`. Its own import of `resolve_lot_size` makes that a local name of the function,
which the line before the import reads: with a leg to look at it raises, and the code after that is
never reached. -/
def getOpenLegs (p : RunnerPoll) (row : ActiveRow) : Except RunnerError (List LegInfo) :=
  if p.readsLegs row.id = false then .ok []
  else if row.strategy.legs = [] then .ok []
  else .error .unboundLocal

namespace UserStrategyRunner

/-- `cache.set_nx` on the mark of the day: whether it was set. -/
def markSquaredOffToday (p : RunnerPoll) (w : UserStrategyRunner) (row : ActiveRow) :
    UserStrategyRunner × Bool :=
  let key := (row.userId, row.id, utcDay p.now)
  if p.cacheUp ∧ key ∉ w.marked then ({ w with marked := key :: w.marked }, true) else (w, false)

def handleSquareOff (p : RunnerPoll) (row : ActiveRow) :
    UserStrategyRunner → List LegInfo → UserStrategyRunner
  | w, [] => w
  | w, leg :: legs =>
    if (row.userId, row.id, leg.legOrder) ∈ w.squaredOff then handleSquareOff p row w legs
    else
      let success :=
        match p.replies row.id leg.legOrder with
        | .ok result => result.success
        | .error _ => false
      let order := buildSquareOffOrder row.id row.userId leg
      handleSquareOff p row
        { w with
          squaredOff := (row.userId, row.id, leg.legOrder) :: w.squaredOff
          placed := w.placed ++ [⟨p.now.day, row.id, leg.legOrder, order, success⟩] } legs

def Due (p : RunnerPoll) (row : ActiveRow) (days : List ℤ) : Prop :=
  row.exitTime ≠ "" ∧ isoweekday p.now.day ∈ days ∧ ¬ p.now.clockText < row.exitTime

instance (p : RunnerPoll) (row : ActiveRow) (days : List ℤ) : Decidable (Due p row days) :=
  inferInstanceAs (Decidable (_ ∧ _))

def checkRow (p : RunnerPoll) (w : UserStrategyRunner) (row : ActiveRow) :
    UserStrategyRunner × Except RunnerError Unit :=
  match row.days.days with
  | none => (w, .error .value)
  | some days =>
    if Due p row days then
      match w.markSquaredOffToday p row with
      | (w, false) => (w, .ok ())
      | (w, true) =>
        match getOpenLegs p row with
        | .error e => (w, .error e)
        | .ok legs => (w.handleSquareOff p row legs, .ok ())
    else (w, .ok ())

def checkRows (p : RunnerPoll) : UserStrategyRunner → List ActiveRow → UserStrategyRunner
  | w, [] => w
  | w, row :: rows =>
    match w.checkRow p row with
    | (w, .ok _) => checkRows p w rows
    | (w, .error _) => w

def checkSquareOff (w : UserStrategyRunner) (p : RunnerPoll) : UserStrategyRunner :=
  w.checkRows p (if p.reads then p.active else [])

def run (ps : List RunnerPoll) : UserStrategyRunner := ps.foldl checkSquareOff {}

end UserStrategyRunner

def openLegs (floatRepr : ℚ → String) (row : ActiveRow) : List (UserStrategyLeg × NormalizedOrder) :=
  match compileUserStrategy floatRepr row.strategy row.deployed with
  | .error _ => []
  | .ok plan =>
    ((plan.legs.zip plan.orders).mapIdx fun i x => (i, x)).filterMap fun x =>
      if row.isOpen x.1 then some x.2 else none

def Closes (opened x : NormalizedOrder) : Prop :=
  x.side ≠ opened.side ∧ x.symbol = opened.symbol ∧ x.quantity = opened.quantity

open UserStrategyRunner

/-- At every poll, each open leg of a strategy that is due was closed that day or gets an order that
closes it; and of a leg's orders of a day at most one succeeds. -/
structure SquaresOff (floatRepr : ℚ → String) (ps : List RunnerPoll) : Prop where
  attempted : ∀ before p after, ps = before ++ p :: after →
    ∀ row ∈ p.active, ∀ days ∈ row.days.days, Due p row days → ∀ leg ∈ openLegs floatRepr row,
      (∃ x ∈ (run before).placed, x.success ∧ x.day = p.now.day ∧ x.strategyId = row.id ∧
          Closes leg.2 x.order) ∨
        ∃ x ∈ (run (before ++ [p])).placed.drop (run before).placed.length,
          x.strategyId = row.id ∧ Closes leg.2 x.order
  once : ∀ strategyId legOrder day,
    ((run ps).placed.filter fun x => x.success ∧ x.day = day ∧ x.strategyId = strategyId ∧
      x.legOrder = legOrder).length ≤ 1

def NothingDue (floatRepr : ℚ → String) (ps : List RunnerPoll) : Prop :=
  ∀ p ∈ ps, ∀ row ∈ p.active, ∀ days ∈ row.days.days, Due p row days → openLegs floatRepr row = []

section Runs

variable {p : RunnerPoll} {w : UserStrategyRunner} {row : ActiveRow}

theorem getOpenLegs_eq_ok {legs : List LegInfo} (h : getOpenLegs p row = .ok legs) : legs = [] := by
  rw [getOpenLegs] at h
  split at h
  · exact (Except.ok.inj h).symm
  · split at h
    · exact (Except.ok.inj h).symm
    · cases h

theorem placed_markSquaredOffToday (row : ActiveRow) : (w.markSquaredOffToday p row).1.placed = w.placed := by
  rw [markSquaredOffToday]
  split <;> rfl

theorem placed_checkRow (row : ActiveRow) : (w.checkRow p row).1.placed = w.placed := by
  rw [checkRow]
  cases row.days.days with
  | none => rfl
  | some days =>
    dsimp only
    split
    · have hmark := placed_markSquaredOffToday (p := p) (w := w) row
      generalize w.markSquaredOffToday p row = marked at hmark ⊢
      obtain ⟨w', set⟩ := marked
      cases set with
      | false => exact hmark
      | true =>
        cases hlegs : getOpenLegs p row with
        | error e => exact hmark
        | ok legs =>
          rw [getOpenLegs_eq_ok hlegs]
          exact hmark
    · rfl

theorem placed_checkRows (rows : List ActiveRow) : (w.checkRows p rows).placed = w.placed := by
  induction rows generalizing w with
  | nil => rfl
  | cons row rows ih =>
    have hrow := placed_checkRow (p := p) (w := w) row
    rw [checkRows]
    generalize w.checkRow p row = out at hrow ⊢
    obtain ⟨w', result⟩ := out
    cases result with
    | error e => exact hrow
    | ok u => exact ih.trans hrow

theorem placed_run (ps : List RunnerPoll) : (run ps).placed = [] := by
  induction ps using List.reverseRecOn with
  | nil => rfl
  | append_singleton ps p ih =>
    rw [run, List.foldl_concat, ← run]
    exact (placed_checkRows _).trans ih

end Runs

/-- The open legs are squared off exactly in the runs that never find one due. -/
theorem squaresOff_iff (floatRepr : ℚ → String) (ps : List RunnerPoll) :
    SquaresOff floatRepr ps ↔ NothingDue floatRepr ps := by
  constructor
  · intro h p hp row hrow days hdays hdue
    obtain ⟨before, after, rfl⟩ := List.append_of_mem hp
    refine List.eq_nil_iff_forall_not_mem.mpr fun leg hleg => ?_
    rcases h.attempted before p after rfl row hrow days hdays hdue leg hleg with
      ⟨x, hx, -⟩ | ⟨x, hx, -⟩
    · simp [placed_run] at hx
    · simp [placed_run] at hx
  · intro h
    refine ⟨?_, fun strategyId legOrder day => by simp [placed_run]⟩
    intro before p after hps row hrow days hdays hdue leg hleg
    rw [h p (by simp [hps]) row hrow days hdays hdue] at hleg
    exact absurd hleg List.not_mem_nil

def shortCall : ActiveRow where
  id := "s1"
  userId := "u1"
  exitTime := "15:15"
  days := .list [1, 2, 3, 4, 5]
  strategy :=
    { id := "s1", name := "Short call", indexSymbol := "NIFTY", entryTime := "09:20"
      exitTime := "15:15"
      legs := [{ legOrder := 1, segment := .options, position := .sell, optionType := some .ce
                 expiry := .weekly, strikeCriteria := .atmOffset, strikeValue := 0 }] }
  deployed := { today := ⟨730427⟩, spot := 24010, chain := some [⟨24000, {}, {}⟩], lotSize := some 75 }
  isOpen _ := true

def mondayPoll : RunnerPoll where
  now := ⟨730427 * 1440 + 915⟩
  active := [shortCall]

/-- The poll marks the strategy as squared off and places no order. -/
theorem shortCall_not_squaredOff :
    ¬ SquaresOff (fun _ => "") [mondayPoll] ∧
      (run [mondayPoll]).marked = [("u1", "s1", ⟨730427⟩)] ∧ (run [mondayPoll]).placed = [] := by
  refine ⟨fun h => ?_, by decide, placed_run _⟩
  have hopen : openLegs (fun _ => "") shortCall ≠ [] := by decide
  obtain ⟨leg, hleg⟩ := List.exists_mem_of_ne_nil _ hopen
  rcases h.attempted [] mondayPoll [] rfl shortCall (List.mem_singleton_self _) [1, 2, 3, 4, 5] rfl
    (by decide) leg hleg with ⟨x, hx, -⟩ | ⟨x, hx, -⟩
  · simp [placed_run] at hx
  · simp [placed_run] at hx

end Trademetrix.Engine
