import Trademetrix.Decimal
import Trademetrix.ExecutionEngine.Persistence
import Trademetrix.Run

/-!
# The figures of an account

What a revaluation makes of an account, along any run of fills, marks and days.
Equity, peak and drawdown follow the positions. The day's starting equity never
moves: the account is dated before its date is looked at.
-/

namespace Trademetrix.ExecutionEngine

namespace EngineState

variable (s : EngineState)

def revalues (s : EngineState) : Action → Option (String × String)
  | .dispatch =>
    match s.queue with
    | [] => none
    | event :: _ => if event.domain = .position then some (event.userId, event.broker) else none
  | _ => none

def accountOf (userId broker : String) : PnLAccount :=
  (s.accounts.get (accountKey userId broker)).getD { userId := userId, broker := broker }

def own (userId broker : String) : List EnginePosition :=
  s.book.positions.values.filter fun p => p.userId = userId ∧ (broker = "" ∨ p.broker = broker)

def strange (userId broker : String) : List EnginePosition :=
  (getPositions userId broker s.book.positions).filter fun p =>
    ¬(p.userId = userId ∧ (broker = "" ∨ p.broker = broker))

end EngineState

def pnl (positions : List EnginePosition) : ℚ :=
  (positions.map EnginePosition.realisedPnl).sum + (positions.map EnginePosition.unrealisedPnl).sum

structure Dated extends EngineState where
  days : Dict String String := []

namespace Dated

def step (d : Dated) (a : Action) : Dated where
  toEngineState := d.toEngineState.step a
  days := match d.revalues a with
    | some (userId, broker) => d.days.set (accountKey userId broker) d.today
    | none => d.days

def NewDay (d : Dated) (userId broker : String) : Prop :=
  ∃ day, d.days.get (accountKey userId broker) = some day ∧ day ≠ d.today

/-- What is to hold of an account that a step revalues. The drawdown is recorded as a percentage of
the peak. -/
structure Revalued (d : Dated) (userId broker : String) (after : Dated) : Prop where
  equity : (after.accountOf userId broker).currentEquity =
    (after.accountOf userId broker).initialCapital + pnl (after.own userId broker)
  drawdown : (after.accountOf userId broker).drawdownPct =
    Text.round2 (((after.accountOf userId broker).peakEquity -
      (after.accountOf userId broker).currentEquity) /
        (after.accountOf userId broker).peakEquity * 100)
  nonneg : 0 ≤ (after.accountOf userId broker).drawdownPct
  day : d.NewDay userId broker →
    (after.accountOf userId broker).dayStartEquity = (d.accountOf userId broker).currentEquity

/-- What is to hold of a step: of the account it revalues, and of every account that its equity is
not above its peak. -/
structure Follows (d : Dated) (a : Action) : Prop where
  revalued : ∀ userId broker, d.revalues a = some (userId, broker) →
    Revalued d userId broker (d.step a)
  peak : ∀ userId broker, ((d.step a).accountOf userId broker).currentEquity ≤
    ((d.step a).accountOf userId broker).peakEquity

/-- Under it it does: nobody else's P&L is counted, and an account that is revalued on a new day
was left with the capital it began with. -/
def Unmoved (d : Dated) (a : Action) : Prop :=
  ∀ userId broker, d.revalues a = some (userId, broker) →
    pnl (d.strange userId broker) = 0 ∧
      (d.NewDay userId broker → (d.accountOf userId broker).currentEquity =
        (d.accountOf userId broker).initialCapital)

end Dated

structure PnLAccount.Kept (account : PnLAccount) : Prop where
  capital : account.initialCapital = 500000
  dayStart : account.dayStartEquity = 500000
  peak : account.currentEquity ≤ account.peakEquity
  start : 500000 ≤ account.peakEquity

structure EnginePosition.Paise (position : EnginePosition) : Prop where
  realised : Hundredths position.realisedPnl
  unrealised : Hundredths position.unrealisedPnl

structure EngineState.WellKept (s : EngineState) : Prop where
  filed : s.Filed
  paise : ∀ p ∈ s.book.positions.values, p.Paise
  kept : ∀ userId broker, (s.accountOf userId broker).Kept

theorem round2_nonneg {x : ℚ} (h : 0 ≤ x) : 0 ≤ Text.round2 x := by
  have hround : 0 ≤ Text.roundHalfEven (x * 100) := by
    refine (Text.le_roundHalfEven_iff).mpr (.inl ?_)
    push_cast
    linarith only [h]
  exact div_nonneg (by exact_mod_cast hround) (by norm_num)

theorem hundredths_unrealizedPnl (fifo : FifoLots) (price : ℚ) :
    Hundredths (fifo.unrealizedPnl price) := by
  unfold FifoLots.unrealizedPnl
  split
  · exact hundredths_zero
  · exact hundredths_round2 _

section Paise

theorem paise_syncPosition (event : ExecutionEngineEvent) {position : Option EnginePosition}
    (fifo : FifoLots) (realized : ℚ) (h : ∀ p, position = some p → p.Paise) :
    (syncPosition event position fifo realized).Paise := by
  refine ⟨hundredths_round2 _, ?_⟩
  have hbase : Hundredths (basePosition event position).unrealisedPnl := by
    cases position with
    | none => exact hundredths_zero
    | some p => exact (h p rfl).unrealised
  simp only [syncPosition]
  split
  · exact hundredths_unrealizedPnl _ _
  · exact hbase

theorem paise_markedPosition (userId broker : String) (prices : Dict String ℚ)
    (fifos : Dict String FifoLots) (key : String) {position : EnginePosition} (h : position.Paise) :
    (markedPosition userId broker prices fifos key position).Paise := by
  unfold markedPosition
  split
  · exact h
  · unfold markPosition
    split
    · exact ⟨h.realised, h.unrealised⟩
    · exact ⟨h.realised, hundredths_unrealizedPnl _ _⟩

theorem paise_onTradeEvent {book : PositionBook} (h : ∀ p ∈ book.positions.values, p.Paise)
    (event : ExecutionEngineEvent) :
    ∀ p ∈ (onTradeEvent event book).1.positions.values, p.Paise := by
  rcases onTradeEvent_book event book with heq | ⟨fifo, heq⟩ | ⟨fifo, realized, heq⟩
  · rw [heq]
    exact h
  · rw [heq]
    exact h
  · rw [heq]
    intro p hp
    obtain ⟨q, hq, rfl⟩ := List.mem_map.mp hp
    rcases Dict.mem_set hq with rfl | hold
    · refine paise_syncPosition event fifo realized fun p hget => h p ?_
      exact List.mem_map_of_mem (Dict.mem_of_get hget)
    · exact h q.2 (List.mem_map_of_mem hold)

end Paise

section Totals

variable {s : EngineState}

theorem pnl_filter (q : EnginePosition → Bool) (positions : List EnginePosition) :
    pnl positions = pnl (positions.filter q) + pnl (positions.filter fun p => !q p) := by
  induction positions with
  | nil => simp [pnl]
  | cons p positions ih =>
    simp only [pnl, List.map_cons, List.sum_cons] at ih ⊢
    cases hq : q p
    · simp only [List.filter_cons, hq, Bool.not_false, if_true, Bool.false_eq_true, if_false,
        List.map_cons, List.sum_cons]
      linear_combination ih
    · simp only [List.filter_cons, hq, Bool.not_true, if_true, Bool.false_eq_true, if_false,
        List.map_cons, List.sum_cons]
      linear_combination ih

theorem startsWith_own {position : EnginePosition} {userId broker : String}
    (h : position.userId = userId ∧ (broker = "" ∨ position.broker = broker)) :
    Text.startsWith position.key (positionPrefix userId broker) = true := by
  obtain ⟨rfl, hbroker⟩ := h
  unfold positionPrefix
  by_cases hempty : broker = ""
  · rw [if_pos hempty]
    exact positionKey_startsWith _ _ _
  · rw [if_neg hempty, ← hbroker.resolve_left hempty]
    have hkey : position.key =
        (position.userId ++ ":" ++ position.broker ++ ":") ++ position.symbol := rfl
    rw [hkey]
    exact startsWith_append _ _

theorem pnl_getPositions (h : s.Filed) (userId broker : String) :
    pnl (getPositions userId broker s.book.positions) =
      pnl (s.own userId broker) + pnl (s.strange userId broker) := by
  rw [pnl_filter (fun p => p.userId = userId ∧ (broker = "" ∨ p.broker = broker))]
  have hown : (getPositions userId broker s.book.positions).filter
      (fun p => p.userId = userId ∧ (broker = "" ∨ p.broker = broker)) = s.own userId broker := by
    simp only [getPositions, EngineState.own, Dict.values, List.filter_map, List.filter_filter]
    refine congrArg (List.map Prod.snd) (List.filter_congr fun p hp => ?_)
    have hkey := h.position_key (Dict.get_of_mem h.positions hp)
    rw [Bool.and_eq_left_iff_imp]
    intro hown
    rw [hkey]
    exact startsWith_own (by simpa using hown)
  rw [hown]
  congr 2
  simp [EngineState.strange]

theorem aggregatePnl_eq (h : ∀ p ∈ s.book.positions.values, p.Paise) (userId broker : String) :
    aggregatePnl userId broker s.book.positions =
      (((getPositions userId broker s.book.positions).map EnginePosition.realisedPnl).sum,
        ((getPositions userId broker s.book.positions).map EnginePosition.unrealisedPnl).sum) := by
  have hrows : ∀ p ∈ getPositions userId broker s.book.positions, p.Paise := by
    intro p hp
    obtain ⟨q, hq, rfl⟩ := List.mem_map.mp hp
    exact h q.2 (List.mem_map_of_mem (List.mem_of_mem_filter hq))
  simp only [aggregatePnl]
  rw [Hundredths.round2 (Hundredths.sum fun x hx => ?_),
    Hundredths.round2 (Hundredths.sum fun x hx => ?_)]
  · obtain ⟨p, hp, rfl⟩ := List.mem_map.mp hx
    exact (hrows p hp).unrealised
  · obtain ⟨p, hp, rfl⟩ := List.mem_map.mp hx
    exact (hrows p hp).realised

theorem totals_eq (h : s.WellKept) (userId broker : String) :
    (aggregatePnl userId broker s.book.positions).1 +
        (aggregatePnl userId broker s.book.positions).2 =
      pnl (s.own userId broker) + pnl (s.strange userId broker) := by
  rw [← pnl_getPositions h.filed, aggregatePnl_eq h.paise]
  rfl

end Totals

section Accounts

variable {s : EngineState}

theorem accountOf_set (account : PnLAccount) (userId broker userId' broker' : String) :
    { s with accounts := s.accounts.set (accountKey userId broker) account }.accountOf
        userId' broker' =
      if accountKey userId' broker' = accountKey userId broker then account
      else s.accountOf userId' broker' := by
  unfold EngineState.accountOf
  rw [Dict.get_set]
  split <;> rfl

theorem PnLAccount.Kept.new (userId broker : String) :
    PnLAccount.Kept { userId := userId, broker := broker } :=
  ⟨rfl, rfl, le_refl _, le_refl _⟩

theorem recompute_dayStart (today : String) (totals : ℚ × ℚ) {account : PnLAccount}
    (h : account.dayDate = today) :
    (account.recompute today totals).dayStartEquity = account.dayStartEquity := by
  simp [PnLAccount.recompute, h]

theorem PnLAccount.Kept.recompute {account : PnLAccount} (h : account.Kept) {today : String}
    (hday : account.dayDate = today) (totals : ℚ × ℚ) : (account.recompute today totals).Kept := by
  refine ⟨h.capital, ?_, ?_, ?_⟩
  · rw [recompute_dayStart today totals hday]
    exact h.dayStart
  · exact le_max_left _ _
  · exact h.start.trans (le_max_right _ _)

theorem recompute_drawdownPct {account : PnLAccount} (h : account.Kept) {today : String}
    (hday : account.dayDate = today) (totals : ℚ × ℚ) {after : PnLAccount}
    (hafter : after = account.recompute today totals) :
    after.drawdownPct =
        Text.round2 ((after.peakEquity - after.currentEquity) / after.peakEquity * 100) ∧
      0 ≤ after.drawdownPct := by
  have hkept : after.Kept := by
    rw [hafter]
    exact h.recompute hday totals
  have hpeak : 0 < after.peakEquity := by linarith only [hkept.start]
  have hfall : 0 ≤ (after.peakEquity - after.currentEquity) / after.peakEquity * 100 :=
    mul_nonneg (div_nonneg (sub_nonneg.mpr hkept.peak) hpeak.le) (by norm_num)
  have hdrawdown : after.drawdownPct =
      if 0 < after.peakEquity then
        Text.round2 (max 0 ((after.peakEquity - after.currentEquity) / after.peakEquity * 100))
      else account.drawdownPct := by
    rw [hafter]
    rfl
  rw [if_pos hpeak, max_eq_right hfall] at hdrawdown
  refine ⟨hdrawdown, ?_⟩
  rw [hdrawdown]
  exact round2_nonneg hfall

theorem kept_set (h : s.WellKept) {account : PnLAccount} (haccount : account.Kept)
    (userId broker userId' broker' : String) :
    ({ s with accounts := s.accounts.set (accountKey userId broker) account }.accountOf
      userId' broker').Kept := by
  rw [accountOf_set]
  split
  · exact haccount
  · exact h.kept userId' broker'

theorem kept_ensureAccount (h : s.WellKept) (userId broker : String) :
    (ensureAccount s.today userId broker s.accounts).Kept := by
  have hkept := h.kept userId broker
  exact ⟨hkept.capital, hkept.dayStart, hkept.peak, hkept.start⟩

end Accounts

section Steps

variable {s : EngineState}

theorem wellKept_start (today : String) : ({ today := today } : EngineState).WellKept :=
  ⟨filed_start today, fun p hp => absurd hp (by simp [Dict.values]),
    fun userId broker => PnLAccount.Kept.new userId broker⟩

theorem wellKept_queued (h : s.WellKept) (queue : List ExecutionEngineEvent)
    (ledger : TradeLedger) : { s with queue := queue, ledger := ledger }.WellKept :=
  ⟨⟨h.filed.positions, h.filed.fifos, h.filed.accounts, h.filed.position_key,
    h.filed.account_key⟩, h.paise, h.kept⟩

theorem wellKept_handle (h : s.WellKept) (event : ExecutionEngineEvent) :
    (s.handle event).WellKept := by
  unfold EngineState.handle
  cases event.domain with
  | order =>
    simp only [EngineState.onOrderEvent]
    split
    · exact h
    · exact wellKept_queued h _ _
  | trade =>
    exact ⟨filed_publish (filed_onTradeEvent h.filed event) _, paise_onTradeEvent h.paise event,
      h.kept⟩
  | position =>
    exact ⟨filed_recompute h.filed _ _, h.paise,
      kept_set h ((kept_ensureAccount h event.userId event.broker).recompute rfl _) _ _⟩
  | portfolio =>
    simp only [EngineState.onPortfolioEvent]
    split
    · exact h
    · exact wellKept_queued h _ _
  | execution | risk => exact h

theorem paise_mark (h : s.WellKept) (userId broker : String) (prices : Dict String ℚ) :
    ∀ p ∈ (markToMarket userId broker prices s.book).1.positions.values, p.Paise := by
  intro p hp
  simp only [markToMarket, Dict.values, List.map_map, List.mem_map, Function.comp] at hp
  obtain ⟨q, hq, rfl⟩ := hp
  exact paise_markedPosition userId broker prices _ _ (h.paise q.2 (List.mem_map_of_mem hq))

theorem wellKept_step (h : s.WellKept) (action : Action) : (s.step action).WellKept := by
  have hfiled := filed_step h.filed action
  cases action with
  | legacy | outcome | order => exact ⟨hfiled, h.paise, h.kept⟩
  | dispatch =>
    cases hq : s.queue with
    | nil =>
      rw [dispatch_idle hq]
      exact h
    | cons event queue =>
      simp only [EngineState.step, EngineState.dispatch, hq]
      exact wellKept_handle (wellKept_queued h queue s.ledger) event
  | mark userId broker prices => exact ⟨hfiled, paise_mark h userId broker prices, h.kept⟩
  | account userId broker =>
    exact ⟨hfiled, h.paise, kept_set h (kept_ensureAccount h userId broker) _ _⟩
  | day today => exact ⟨hfiled, h.paise, h.kept⟩

theorem revalues_cases {action : Action} {userId broker : String}
    (h : s.revalues action = some (userId, broker)) :
    (s.step action).book = s.book ∧
      (s.step action).accountOf userId broker =
        (ensureAccount s.today userId broker s.accounts).recompute s.today
          (aggregatePnl userId broker s.book.positions) := by
  cases action with
  | dispatch =>
    cases hq : s.queue with
    | nil => simp [EngineState.revalues, hq] at h
    | cons event queue =>
      simp only [EngineState.revalues, hq, Option.ite_none_right_eq_some, Option.some.injEq,
        Prod.mk.injEq] at h
      obtain ⟨hdomain, rfl, rfl⟩ := h
      simp only [EngineState.step, EngineState.dispatch, hq, EngineState.handle, hdomain]
      refine ⟨rfl, ?_⟩
      exact (accountOf_set (s := s) _ _ _ _ _).trans (if_pos rfl)
  | _ => cases h

end Steps

namespace Dated

variable {d : Dated} {a : Action}

theorem currentEquity_step (h : d.WellKept) {userId broker : String}
    (ha : d.revalues a = some (userId, broker)) :
    ((d.step a).accountOf userId broker).currentEquity =
      500000 + (pnl (d.own userId broker) + pnl (d.strange userId broker)) := by
  obtain ⟨-, haccount⟩ := revalues_cases ha
  have hcapital := (kept_ensureAccount h userId broker).capital
  have hround : Hundredths (500000 + (aggregatePnl userId broker d.book.positions).1 +
      (aggregatePnl userId broker d.book.positions).2) :=
    (Hundredths.add ⟨50000000, by norm_num⟩ (hundredths_round2 _)).add (hundredths_round2 _)
  rw [← totals_eq h, ← add_assoc, ← hround.round2, ← hcapital]
  exact congrArg PnLAccount.currentEquity haccount

theorem revalued_iff (h : d.WellKept) {userId broker : String}
    (ha : d.revalues a = some (userId, broker)) :
    Revalued d userId broker (d.step a) ↔ pnl (d.strange userId broker) = 0 ∧
      (d.NewDay userId broker → (d.accountOf userId broker).currentEquity =
        (d.accountOf userId broker).initialCapital) := by
  have hafter : ((d.step a).accountOf userId broker).Kept :=
    (wellKept_step h a).kept userId broker
  have hequity := currentEquity_step h ha
  have hown : (d.step a).own userId broker = d.own userId broker := by
    unfold EngineState.own
    rw [show (d.step a).book = d.book from (revalues_cases ha).1]
  have hcapital := (h.kept userId broker).capital
  constructor
  · intro hrevalued
    have hexact := hrevalued.equity
    rw [hequity, hafter.capital, hown] at hexact
    refine ⟨by linarith only [hexact], fun hday => ?_⟩
    rw [← hrevalued.day hday, hafter.dayStart, hcapital]
  · rintro ⟨hstrange, hday⟩
    obtain ⟨hdrawdown, hnonneg⟩ :=
      recompute_drawdownPct (kept_ensureAccount h userId broker) rfl _ (revalues_cases ha).2
    refine ⟨?_, hdrawdown, hnonneg, fun hnew => ?_⟩
    · rw [hequity, hafter.capital, hown, hstrange, add_zero]
    · rw [hafter.dayStart, hday hnew, hcapital]

theorem follows_iff (h : d.WellKept) : d.Follows a ↔ d.Unmoved a := by
  constructor
  · intro hfollows userId broker ha
    exact (revalued_iff h ha).mp (hfollows.revalued userId broker ha)
  · intro hunmoved
    refine ⟨fun userId broker ha => (revalued_iff h ha).mpr (hunmoved userId broker ha), ?_⟩
    intro userId broker
    exact ((wellKept_step h a).kept userId broker).peak

/-- The figures of every account are as they should be, along a run, if and only if no account is
revalued from the P&L of others, nor on a new day with another equity than it began with. -/
theorem follows_run_iff (today : String) (actions : List Action) :
    Trademetrix.Along Dated.step Follows { today := today } actions ↔
      Trademetrix.Along Dated.step Unmoved { today := today } actions :=
  Along.congr (I := fun d : Dated => d.WellKept) (fun _ a h _ => wellKept_step h a)
    (fun _ _ h => follows_iff h) (wellKept_start today)

/-- Ten bought and marked up on one day leave a profit; the next day, marked again, starts from the
capital. -/
theorem not_follows : ¬ ∀ today actions,
    Trademetrix.Along Dated.step Follows { today := today } actions := by
  intro h
  have hrun := h "2026-07-30"
    ((bought "paper" "P-1" :: List.replicate 6 Action.dispatch) ++
      [.mark "u" "paper" [("NIFTY", 120)], .dispatch, .day "2026-07-31",
        .mark "u" "paper" [("NIFTY", 130)], .dispatch] ++ [.dispatch])
  obtain ⟨-, hlast, -⟩ := Along.append.mp hrun
  have hday := (hlast.revalued "u" "paper" (by decide)).day
    ⟨"2026-07-30", by decide, by decide⟩
  exact absurd hday (by decide +kernel)

end Dated

end Trademetrix.ExecutionEngine
