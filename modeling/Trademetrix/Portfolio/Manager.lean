import Trademetrix.Dict
import Trademetrix.Engine.Models
import Trademetrix.Text

/-!
# The portfolio manager

`PortfolioManager.refresh` on the state of one user at one broker, and what the
broker adapter gives it. Times are left out, and so is whose state it is. The
rows of `positions_snapshot` and the P&L of the day's fills are parameters.
-/

namespace Trademetrix.Portfolio

open Engine (Exchange NormalizedOrder)
open Text (round2)

inductive SyncStatus
  | synced | pending | failed | drifted
  deriving DecidableEq, Repr

structure PortfolioPosition where
  symbol : String
  exchange : Exchange := .nse
  quantity : ℤ
  buyQuantity : ℤ := 0
  sellQuantity : ℤ := 0
  averageBuyPrice : ℚ := 0
  averageSellPrice : ℚ := 0
  lastPrice : ℚ := 0
  unrealisedPnl : ℚ := 0
  realisedPnl : ℚ := 0
  m2m : ℚ := 0
  product : String := "INTRADAY"
  multiplier : ℚ := 1
  deriving DecidableEq

structure BrokerHolding where
  symbol : String
  exchange : Exchange := .nse
  quantity : ℤ
  t1Quantity : ℤ := 0
  averagePrice : ℚ := 0
  currentPrice : ℚ := 0
  pnl : ℚ := 0
  deriving DecidableEq

structure PortfolioHolding extends BrokerHolding where
  costPrice : ℚ := 0
  deriving DecidableEq

structure Funds where
  totalMargin : ℚ := 0
  usedMargin : ℚ := 0
  availableMargin : ℚ := 0
  payin : ℚ := 0
  payout : ℚ := 0
  deriving DecidableEq

structure PortfolioFunds extends Funds where
  collateral : ℚ := 0
  m2mUnrealised : ℚ := 0
  deriving DecidableEq

structure PortfolioPnL where
  realisedPnl : ℚ := 0
  unrealisedPnl : ℚ := 0
  dailyPnl : ℚ := 0
  overallPnl : ℚ := 0
  dayStartEquity : ℚ := 0
  currentEquity : ℚ := 0
  peakEquity : ℚ := 0
  drawdownPct : ℚ := 0
  deriving DecidableEq

structure BrokerSyncStatus where
  positions : SyncStatus := .pending
  holdings : SyncStatus := .pending
  funds : SyncStatus := .pending
  orders : SyncStatus := .pending
  errorMessage : String := ""
  deriving DecidableEq

structure OutOfSync where
  symbol : String
  brokerQty : ℤ
  dbQty : ℤ
  difference : ℤ
  deriving DecidableEq

structure ReconciliationResult where
  localPositions : ℕ := 0
  brokerPositions : ℕ := 0
  missingOrders : List String := []
  ghostPositions : List String := []
  outOfSyncQuantities : List OutOfSync := []
  driftDetected : Bool := false
  deriving DecidableEq

structure PortfolioState where
  positions : Dict String PortfolioPosition := []
  holdings : Dict String PortfolioHolding := []
  funds : PortfolioFunds := {}
  pnl : PortfolioPnL := {}
  orders : List NormalizedOrder := []
  syncStatus : BrokerSyncStatus := {}
  reconciliation : ReconciliationResult := {}
  deriving DecidableEq

inductive Event
  | positionOpened (symbol : String) (quantity : ℤ)
  | positionClosed (symbol : String) (prevQuantity : ℤ)
  | positionUpdated (symbol : String) (quantity prevQuantity : ℤ)
  | holdingUpdated | marginUpdated | pnlUpdated | portfolioUpdated
  deriving DecidableEq

def quantityEvent (symbol : String) (prevQty qty : ℤ) : List Event :=
  if qty ≠ 0 ∧ prevQty = 0 then [.positionOpened symbol qty]
  else if qty = 0 ∧ prevQty ≠ 0 then [.positionClosed symbol prevQty]
  else if qty ≠ prevQty then [.positionUpdated symbol qty prevQty]
  else []

namespace PortfolioState

variable (state : PortfolioState)

/-- One turn of the first loop of `_sync_positions`. -/
def syncPosition (acc : Dict String PortfolioPosition × List Event) (bp : PortfolioPosition) :
    Dict String PortfolioPosition × List Event :=
  let prevQty := ((acc.1.get bp.symbol).map PortfolioPosition.quantity).getD 0
  (acc.1.set bp.symbol bp, acc.2 ++ quantityEvent bp.symbol prevQty bp.quantity)

def dropPosition (acc : Dict String PortfolioPosition × List Event) (symbol : String) :
    Dict String PortfolioPosition × List Event :=
  (acc.1.pop symbol, acc.2 ++ match acc.1.get symbol with
    | some pos => if pos.quantity ≠ 0 then [.positionClosed symbol pos.quantity] else []
    | none => [])

def syncPositions (brokerPositions : List PortfolioPosition) : PortfolioState × List Event :=
  let reported := brokerPositions.map PortfolioPosition.symbol
  let closed := (state.positions.map Prod.fst).filter fun symbol => symbol ∉ reported
  let acc := closed.foldl dropPosition (brokerPositions.foldl syncPosition (state.positions, []))
  ({ state with positions := acc.1 }, acc.2)

def syncHoldings (brokerHoldings : List BrokerHolding) : PortfolioState × List Event :=
  ({ state with
      holdings := state.holdings.update (brokerHoldings.map fun bh =>
        (bh.symbol, { toBrokerHolding := bh, costPrice := bh.averagePrice })) },
    [.holdingUpdated])

def syncFunds (funds : Funds) : PortfolioState × List Event :=
  ({ state with
      funds := { toFunds := funds
                 m2mUnrealised := (state.positions.values.map PortfolioPosition.unrealisedPnl).sum } },
    [.marginUpdated])

/-- `_reconcile`, against the symbols and quantities of the snapshot's rows. -/
def reconcile (dbPositions : List (String × ℤ)) : PortfolioState :=
  let synced := state.positions.map Prod.fst
  let ghosts := synced.filter fun sym => sym ∉ dbPositions.map Prod.fst
  let missing := ((dbPositions.map Prod.fst).filter fun sym => sym ∉ synced).dedup
  let outOfSync := dbPositions.filterMap fun dp =>
    (state.positions.get dp.1).bind fun bp =>
      if |bp.quantity| ≠ |dp.2| then some ⟨dp.1, bp.quantity, |dp.2|, |bp.quantity| - |dp.2|⟩ else none
  let drift : Bool := ghosts ≠ [] ∨ missing ≠ [] ∨ outOfSync ≠ []
  { state with
    syncStatus := if drift then { state.syncStatus with positions := .drifted } else state.syncStatus
    reconciliation :=
      { localPositions := state.positions.length
        brokerPositions := state.positions.length
        missingOrders := missing
        ghostPositions := ghosts
        outOfSyncQuantities := outOfSync
        driftDetected := drift } }

def computePnl (todayFilledPnl : ℚ) : PortfolioState × List Event :=
  let realised := (state.positions.values.map PortfolioPosition.realisedPnl).sum
  let unrealised := (state.positions.values.map PortfolioPosition.unrealisedPnl).sum
  let equity := round2 (state.funds.totalMargin + unrealised)
  let peak := max equity state.pnl.peakEquity
  ({ state with
      pnl :=
        { realisedPnl := round2 realised
          unrealisedPnl := round2 unrealised
          dailyPnl := round2 (realised + todayFilledPnl)
          overallPnl := round2 (realised + unrealised)
          currentEquity := equity
          dayStartEquity := if state.pnl.dayStartEquity = 0 then equity else state.pnl.dayStartEquity
          peakEquity := peak
          drawdownPct := if 0 < peak then round2 (max 0 ((peak - equity) / peak * 100)) else 0 } },
    [.pnlUpdated])

end PortfolioState

/-- What a broker gives when it is asked: `none` is an exception. -/
structure BrokerReply where
  positions : Option (List PortfolioPosition)
  holdings : Option (List BrokerHolding)
  funds : Option Funds
  orders : Option (List NormalizedOrder)

/-- What `asyncio.gather` collects: an exception is its text. -/
structure Gathered where
  positions : Except String (List PortfolioPosition)
  holdings : Except String (List BrokerHolding)
  funds : Except String Funds
  orders : Except String (List NormalizedOrder)

/-- `BrokerExecutionAdapter.get_positions` and its siblings. An adapter without a session, and a
broker that raises, give nothing. -/
def adapterAnswers (authenticated : Bool) (reply : BrokerReply) : Gathered where
  positions := .ok (if authenticated then reply.positions.getD [] else [])
  holdings := .ok (if authenticated then reply.holdings.getD [] else [])
  funds := .ok (if authenticated then reply.funds.getD {} else {})
  orders := .ok (if authenticated then reply.orders.getD [] else [])

/-- What a refresh meets. `adapter` is the one that could be connected, with whether it has a
session; the rest is what is read after the broker has been asked. -/
structure Surroundings where
  adapter : Option Bool
  reply : BrokerReply
  dbPositions : List (String × ℤ) := []
  todayFilledPnl : ℚ := 0

namespace PortfolioState

variable (state : PortfolioState)

def takePositions : Except String (List PortfolioPosition) → PortfolioState × List Event
  | .error message =>
    ({ state with syncStatus :=
        { state.syncStatus with positions := .failed, errorMessage := message } }, [])
  | .ok brokerPositions =>
    let synced := state.syncPositions brokerPositions
    ({ synced.1 with syncStatus := { synced.1.syncStatus with positions := .synced } }, synced.2)

def takeHoldings : Except String (List BrokerHolding) → PortfolioState × List Event
  | .error _ => ({ state with syncStatus := { state.syncStatus with holdings := .failed } }, [])
  | .ok brokerHoldings =>
    let synced := state.syncHoldings brokerHoldings
    ({ synced.1 with syncStatus := { synced.1.syncStatus with holdings := .synced } }, synced.2)

def takeFunds : Except String Funds → PortfolioState × List Event
  | .error _ => ({ state with syncStatus := { state.syncStatus with funds := .failed } }, [])
  | .ok funds =>
    let synced := state.syncFunds funds
    ({ synced.1 with syncStatus := { synced.1.syncStatus with funds := .synced } }, synced.2)

def takeOrders : Except String (List NormalizedOrder) → PortfolioState
  | .error _ => { state with syncStatus := { state.syncStatus with orders := .failed } }
  | .ok orders =>
    { state with orders := orders, syncStatus := { state.syncStatus with orders := .synced } }

/-- `refresh`, with the events it publishes. -/
def refresh (around : Surroundings) : PortfolioState × List Event :=
  match around.adapter with
  | none =>
    ({ state with syncStatus :=
        { state.syncStatus with
          positions := .failed, errorMessage := "Broker adapter not available" } }, [])
  | some authenticated =>
    let gathered := adapterAnswers authenticated around.reply
    let positions := state.takePositions gathered.positions
    let holdings := positions.1.takeHoldings gathered.holdings
    let funds := holdings.1.takeFunds gathered.funds
    let orders := funds.1.takeOrders gathered.orders
    let pnl := (orders.reconcile around.dbPositions).computePnl around.todayFilledPnl
    (pnl.1, positions.2 ++ holdings.2 ++ funds.2 ++ pnl.2 ++ [.portfolioUpdated])

end PortfolioState

end Trademetrix.Portfolio

namespace Trademetrix.Portfolio

variable {state : PortfolioState} {around : Surroundings}

def Surroundings.PositionsFailed (around : Surroundings) : Prop :=
  around.adapter ≠ some true ∨ around.reply.positions = none

def Event.IsClosed : Event → Prop
  | .positionClosed _ _ => True
  | _ => False

namespace PortfolioState

theorem fst_foldl_dropPosition (symbols : List String)
    (acc : Dict String PortfolioPosition × List Event) :
    (symbols.foldl dropPosition acc).1 = acc.1.filter fun p => p.1 ∉ symbols := by
  induction symbols generalizing acc with
  | nil => simp
  | cons symbol symbols ih =>
    rw [List.foldl_cons, ih]
    simp only [dropPosition, Dict.pop, List.filter_filter]
    refine List.filter_congr fun p _ => ?_
    simp [Bool.and_comm]

theorem fst_foldl_syncPosition (bps : List PortfolioPosition)
    (acc : Dict String PortfolioPosition × List Event) :
    (bps.foldl syncPosition acc).1 = acc.1.update (bps.map fun bp => (bp.symbol, bp)) := by
  induction bps generalizing acc with
  | nil => rfl
  | cons bp bps ih => exact ih _

theorem positions_syncPositions (bps : List PortfolioPosition) :
    (state.syncPositions bps).1.positions =
      (state.positions.update (bps.map fun bp => (bp.symbol, bp))).filter fun p =>
        p.1 ∉ (state.positions.map Prod.fst).filter fun q =>
          q ∉ bps.map PortfolioPosition.symbol := by
  rw [← fst_foldl_syncPosition bps (state.positions, []), ← fst_foldl_dropPosition]
  rfl

theorem mem_keys_syncPositions (bps : List PortfolioPosition) (symbol : String) :
    symbol ∈ (state.syncPositions bps).1.positions.map Prod.fst ↔
      symbol ∈ bps.map PortfolioPosition.symbol := by
  have hkeys (q : String) :
      q ∈ (state.positions.update (bps.map fun bp => (bp.symbol, bp))).map Prod.fst ↔
        q ∈ state.positions.map Prod.fst ∨ q ∈ bps.map PortfolioPosition.symbol := by
    rw [Dict.mem_keys_update, List.map_map]
    rfl
  rw [positions_syncPositions]
  constructor
  · intro hmem
    obtain ⟨p, hp, rfl⟩ := List.mem_map.mp hmem
    obtain ⟨hp, hkept⟩ := List.mem_filter.mp hp
    by_contra hnew
    have hold := ((hkeys p.1).mp (List.mem_map_of_mem hp)).resolve_right hnew
    exact of_decide_eq_true hkept (List.mem_filter.mpr ⟨hold, decide_eq_true hnew⟩)
  · intro hmem
    obtain ⟨p, hp, rfl⟩ := List.mem_map.mp ((hkeys symbol).mpr (.inr hmem))
    refine List.mem_map.mpr ⟨p, List.mem_filter.mpr ⟨hp, decide_eq_true fun hclosed => ?_⟩, rfl⟩
    exact of_decide_eq_true (List.mem_filter.mp hclosed).2 hmem

theorem syncPositions_nil : (state.syncPositions []).1.positions = [] := by
  refine List.eq_nil_iff_forall_not_mem.mpr fun p hp => ?_
  exact absurd ((mem_keys_syncPositions [] p.1).mp (List.mem_map_of_mem hp)) (by simp)

theorem mem_keys_syncHoldings (bhs : List BrokerHolding) (symbol : String) :
    symbol ∈ (state.syncHoldings bhs).1.holdings.map Prod.fst ↔
      symbol ∈ state.holdings.map Prod.fst ∨ symbol ∈ bhs.map BrokerHolding.symbol := by
  unfold syncHoldings
  rw [Dict.mem_keys_update, List.map_map]
  rfl

theorem positions_refresh {authenticated : Bool} (h : around.adapter = some authenticated) :
    (state.refresh around).1.positions =
      (state.syncPositions
        (if authenticated then around.reply.positions.getD [] else [])).1.positions := by
  unfold refresh
  rw [h]
  rfl

theorem holdings_refresh {authenticated : Bool} (h : around.adapter = some authenticated) :
    (state.refresh around).1.holdings =
      (state.syncHoldings
        (if authenticated then around.reply.holdings.getD [] else [])).1.holdings := by
  unfold refresh
  rw [h]
  rfl

theorem events_refresh {authenticated : Bool} (h : around.adapter = some authenticated) :
    (state.refresh around).2 =
      (state.syncPositions (if authenticated then around.reply.positions.getD [] else [])).2 ++
        [.holdingUpdated] ++ [.marginUpdated] ++ [.pnlUpdated] ++ [.portfolioUpdated] := by
  unfold refresh
  rw [h]
  rfl

theorem refresh_of_no_adapter (state : PortfolioState) (h : around.adapter = none) :
    (state.refresh around).1.positions = state.positions ∧ (state.refresh around).2 = [] := by
  unfold refresh
  rw [h]
  exact ⟨rfl, rfl⟩

/-- A failed fetch keeps the positions and closes none; a refresh that got both leaves the
positions and the holdings that were reported. -/
structure Reliable (state : PortfolioState) (around : Surroundings) : Prop where
  failed : around.PositionsFailed →
    (state.refresh around).1.positions = state.positions ∧
      ∀ e ∈ (state.refresh around).2, ¬e.IsClosed
  positions : ∀ bps, around.adapter = some true → around.reply.positions = some bps →
    ∀ symbol, symbol ∈ (state.refresh around).1.positions.map Prod.fst ↔
      symbol ∈ bps.map PortfolioPosition.symbol
  holdings : ∀ bhs, around.adapter = some true → around.reply.holdings = some bhs →
    ∀ symbol, symbol ∈ (state.refresh around).1.holdings.map Prod.fst ↔
      symbol ∈ bhs.map BrokerHolding.symbol

structure Covered (state : PortfolioState) (around : Surroundings) : Prop where
  failed : around.PositionsFailed → around.adapter ≠ none → state.positions = []
  holdings : ∀ bhs, around.adapter = some true → around.reply.holdings = some bhs →
    ∀ symbol ∈ state.holdings.map Prod.fst, symbol ∈ bhs.map BrokerHolding.symbol

theorem positions_of_failed (state : PortfolioState) (hfailed : around.PositionsFailed)
    (hadapter : around.adapter ≠ none) :
    (state.refresh around).1.positions = (state.syncPositions []).1.positions ∧
      (state.refresh around).2 = (state.syncPositions []).2 ++
        [.holdingUpdated] ++ [.marginUpdated] ++ [.pnlUpdated] ++ [.portfolioUpdated] := by
  obtain ⟨authenticated, hauth⟩ := Option.ne_none_iff_exists'.mp hadapter
  have hreported : (if authenticated then around.reply.positions.getD [] else []) = [] := by
    rcases hfailed with h | h
    · have hfalse : authenticated = false := by
        rw [hauth] at h
        simpa using h
      rw [hfalse]
      rfl
    · rw [h]
      cases authenticated <;> rfl
  rw [positions_refresh hauth, events_refresh hauth, hreported]
  exact ⟨rfl, rfl⟩

/-- A refresh does what it should exactly when a failed fetch finds no position to lose and each
holding is reported again. -/
theorem reliable_iff (state : PortfolioState) (around : Surroundings) :
    state.Reliable around ↔ state.Covered around := by
  constructor
  · intro h
    refine ⟨fun hfailed hadapter => ?_, fun bhs hadapter hbhs symbol hsymbol => ?_⟩
    · rw [← (h.failed hfailed).1, (positions_of_failed state hfailed hadapter).1, syncPositions_nil]
    · refine (h.holdings bhs hadapter hbhs symbol).mp ?_
      rw [holdings_refresh hadapter]
      exact (mem_keys_syncHoldings _ symbol).mpr (.inl hsymbol)
  · intro h
    refine ⟨fun hfailed => ?_, fun bps hadapter hbps symbol => ?_,
      fun bhs hadapter hbhs symbol => ?_⟩
    · by_cases hadapter : around.adapter = none
      · obtain ⟨hkept, hevents⟩ := refresh_of_no_adapter state hadapter
        exact ⟨hkept, by simp [hevents]⟩
      · obtain ⟨hafter, hevents⟩ := positions_of_failed state hfailed hadapter
        have hempty := h.failed hfailed hadapter
        have hquiet : (state.syncPositions []).2 = [] := by
          unfold syncPositions
          rw [hempty]
          rfl
        refine ⟨by rw [hafter, syncPositions_nil, hempty], ?_⟩
        rw [hevents, hquiet]
        simp [Event.IsClosed]
    · rw [positions_refresh hadapter, hbps]
      exact mem_keys_syncPositions bps symbol
    · rw [holdings_refresh hadapter, hbhs]
      refine (mem_keys_syncHoldings bhs symbol).trans ⟨?_, .inr⟩
      rintro (hold | hnew)
      · exact h.holdings bhs hadapter hbhs symbol hold
      · exact hnew

/-- Ten shares are held, and the broker cannot be reached. -/
theorem not_reliable_outage :
    ¬({ positions := [("SBIN", { symbol := "SBIN", quantity := 10 })] } : PortfolioState).Reliable
        { adapter := some true
          reply := { positions := none, holdings := none, funds := none, orders := none } } ∧
      ¬({ holdings := [("SBIN", { symbol := "SBIN", quantity := 10 })] } : PortfolioState).Reliable
        { adapter := some true
          reply := { positions := some [], holdings := some [], funds := none, orders := none } } := by
  constructor
  · intro h
    have hkept := (h.failed (.inr rfl)).1
    revert hkept
    decide
  · intro h
    have hsold := (h.holdings [] rfl rfl "SBIN").mp (by decide)
    cases hsold

end PortfolioState

end Trademetrix.Portfolio
