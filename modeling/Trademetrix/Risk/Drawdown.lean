import Mathlib.Tactic.FieldSimp
import Trademetrix.Risk.DailyPnl
import Trademetrix.Risk.Rules

/-!
# Drawdown and the rules that read it

`get_drawdown` takes for the peak the initial capital, what the settings store as the limit, or
the equity of the moment; no earlier equity is kept. Queries that fail count as no rows.
-/

namespace Trademetrix.Drawdown

open DailyPnl (OrderRow computeDailyPnlFifo matchQueue sellSymbols)
open RiskRules (RiskDecision RiskRuleResult)

/-- One filled order in the loop of `get_drawdown`; sells take the buys before them. -/
def fill (d : DailyPnl.Day) (o : OrderRow) : DailyPnl.Day :=
  if o.filledOr ≤ 0 then d
  else
    match o.side with
    | .buy =>
      { d with buyQueue :=
          Function.update d.buyQueue o.symbol (d.buyQueue o.symbol ++ [⟨o.filledOr, o.price⟩]) }
    | .sell =>
      let (queue, _, pnl) := matchQueue o.price (d.buyQueue o.symbol) o.filledOr d.pnl
      { buyQueue := Function.update d.buyQueue o.symbol queue, pnl := pnl }

def runningPnl (rows : List OrderRow) : ℚ := (rows.foldl fill {}).pnl

/-- What is read of `risk_settings`. -/
structure SettingsRow where
  maxDrawdownPct : Option ℚ

/-- The replies to the three queries of `get_drawdown`: filled orders, the unrealised profits of
the positions, and the settings of the user. -/
structure Replies where
  orders : Option (List OrderRow)
  positions : Option (List (Option ℚ))
  settings : Option (Option SettingsRow)

def unrealizedPnl (positions : List (Option ℚ)) : Option ℚ := (positions.mapM id).map List.sum

def storedPeak : Option SettingsRow → Option ℚ
  | some row => row.maxDrawdownPct
  | none => some 0

def peakEquity (initialCapital stored currentEquity : ℚ) : ℚ :=
  max (if 0 < stored then max initialCapital stored else initialCapital) currentEquity

def drawdownOf (peak currentEquity : ℚ) : ℚ :=
  if peak ≤ 0 then 0 else max 0 ((peak - currentEquity) / peak * 100)

/-- `get_drawdown`: failed queries are no rows, and an exception is 0. -/
def getDrawdown (initialCapital : ℚ) (r : Replies) : ℚ :=
  match unrealizedPnl (r.positions.getD []), storedPeak (r.settings.getD none) with
  | some unrealized, some stored =>
    let currentEquity := initialCapital + runningPnl (r.orders.getD []) + unrealized
    drawdownOf (peakEquity initialCapital stored currentEquity) currentEquity
  | _, _ => 0

section Rules

variable (fixed : ℕ → ℚ → String)

/-- `MaxDrawdownRule`, where `fixed` prints a number of decimals. -/
def maxDrawdownRule (maxDrawdownPct : ℚ) (r : Replies) : RiskRuleResult :=
  if maxDrawdownPct ≤ 0 then {}
  else if maxDrawdownPct ≤ getDrawdown 100000 r then
    { decision := .rejected
      reason := s!"Drawdown {fixed 1 (getDrawdown 100000 r)}% exceeds limit " ++
        s!"{fixed 1 maxDrawdownPct}%." }
  else {}

def dailyLossLimitRule (dailyLossLimit : ℚ) (filled hist : Option (List OrderRow)) :
    RiskRuleResult :=
  if dailyLossLimit ≤ 0 then {}
  else if computeDailyPnlFifo filled hist ≤ -dailyLossLimit then
    { decision := .rejected
      reason := s!"Daily loss {fixed 2 (computeDailyPnlFifo filled hist)} exceeds limit " ++
        s!"{fixed 2 dailyLossLimit}." }
  else {}

end Rules

structure Moment where
  maxDrawdownPct : ℚ
  dailyLossLimit : ℚ
  replies : Replies
  filled : Option (List OrderRow)
  hist : Option (List OrderRow)

def Replies.equity (r : Replies) : Option ℚ :=
  match r.orders, r.positions.bind unrealizedPnl, r.settings.bind storedPeak with
  | some orders, some unrealized, some _ => some (100000 + runningPnl orders + unrealized)
  | _, _, _ => none

/-- The daily profit needs the orders of the day and, where something was sold, earlier buys. -/
def Moment.lossRead (m : Moment) : Prop :=
  ∃ rows, m.filled = some rows ∧ (sellSymbols rows ≠ [] → m.hist ≠ none)

def withPeak (peak : Option ℚ) (equity : ℚ) : ℚ := peak.elim equity (max · equity)

def observe (peak : Option ℚ) (m : Moment) : Option ℚ :=
  match m.replies.equity with
  | some equity => some (withPeak peak equity)
  | none => peak

/-- The drawdown is the distance from the running peak in percent of it, and a rule whose data
cannot be read rejects. -/
structure Law (fixed : ℕ → ℚ → String) (peak : Option ℚ) (m : Moment) : Prop where
  value : ∀ e ∈ m.replies.equity,
    getDrawdown 100000 m.replies = (withPeak peak e - e) / withPeak peak e * 100
  drawdownClosed : m.replies.equity = none → 0 < m.maxDrawdownPct →
    (maxDrawdownRule fixed m.maxDrawdownPct m.replies).decision = .rejected
  lossClosed : ¬ m.lossRead → 0 < m.dailyLossLimit →
    (dailyLossLimitRule fixed m.dailyLossLimit m.filled m.hist).decision = .rejected

/-- The peak that is taken is the running peak, or the equity is 0; and where something cannot be
read, what can be read already reaches the limit. -/
structure Met (peak : Option ℚ) (m : Moment) : Prop where
  value : ∀ e ∈ m.replies.equity, ∀ stored ∈ storedPeak (m.replies.settings.getD none),
    peakEquity 100000 stored e = withPeak peak e ∨ e = 0 ∧ withPeak peak e ≠ 0
  drawdownClosed : m.replies.equity = none → 0 < m.maxDrawdownPct →
    ∃ unrealized stored, unrealizedPnl (m.replies.positions.getD []) = some unrealized ∧
      storedPeak (m.replies.settings.getD none) = some stored ∧
      m.maxDrawdownPct ≤
        drawdownOf
          (peakEquity 100000 stored
            (100000 + runningPnl (m.replies.orders.getD []) + unrealized))
          (100000 + runningPnl (m.replies.orders.getD []) + unrealized)
  lossClosed : ¬ m.lossRead → 0 < m.dailyLossLimit →
    m.filled ≠ none ∧ computeDailyPnlFifo m.filled (some []) ≤ -m.dailyLossLimit

variable {fixed : ℕ → ℚ → String} {peak : Option ℚ} {m : Moment} {r : Replies} {e stored p k : ℚ}

theorem peakEquity_ge : e ≤ peakEquity 100000 stored e := le_max_right _ _

theorem peakEquity_pos : 0 < peakEquity 100000 stored e := by
  unfold peakEquity
  refine lt_max_of_lt_left ?_
  split_ifs
  · exact lt_max_of_lt_left (by norm_num)
  · norm_num

theorem drawdownOf_eq (hp : 0 < p) (he : e ≤ p) : drawdownOf p e = (p - e) / p * 100 := by
  have hnonneg : 0 ≤ (p - e) / p * 100 :=
    mul_nonneg (div_nonneg (sub_nonneg.mpr he) hp.le) (by norm_num)
  rw [drawdownOf, if_neg (not_le_of_gt hp), max_eq_right hnonneg]

theorem drawdown_eq_iff (hp : 0 < p) (hk : e ≤ k) :
    (p - e) / p * 100 = (k - e) / k * 100 ↔ p = k ∨ e = 0 ∧ k ≠ 0 := by
  by_cases hzero : k = 0
  · subst hzero
    have hpos : 0 < (p - e) / p * 100 := mul_pos (div_pos (by linarith) hp) (by norm_num)
    rw [div_zero, zero_mul]
    exact iff_of_false hpos.ne' fun h => h.elim hp.ne' fun h => h.2 rfl
  · have hcross : (p - e) / p * 100 - (k - e) / k * 100 = e * (p - k) * 100 / (p * k) := by
      field_simp
      ring
    rw [← sub_eq_zero, hcross, div_eq_zero_iff]
    have hpk : p * k ≠ 0 := mul_ne_zero hp.ne' hzero
    constructor
    · intro h
      rcases mul_eq_zero.mp ((mul_eq_zero.mp (h.resolve_right hpk)).resolve_right (by norm_num))
        with he | hsame
      · exact .inr ⟨he, hzero⟩
      · exact .inl (sub_eq_zero.mp hsame)
    · rintro (rfl | ⟨rfl, -⟩)
      · exact .inl (by ring)
      · exact .inl (by ring)

theorem getDrawdown_of_equity (he : r.equity = some e) :
    ∃ stored, storedPeak (r.settings.getD none) = some stored ∧
      getDrawdown 100000 r =
        (peakEquity 100000 stored e - e) / peakEquity 100000 stored e * 100 := by
  unfold Replies.equity at he
  split at he
  · next orders unrealized stored horders hunrealized hstored =>
    obtain ⟨rows, hpositions, hsum⟩ := Option.bind_eq_some_iff.mp hunrealized
    obtain ⟨row, hsettings, hrow⟩ := Option.bind_eq_some_iff.mp hstored
    obtain rfl := Option.some.inj he
    refine ⟨stored, by rw [hsettings]; exact hrow, ?_⟩
    unfold getDrawdown
    rw [horders, hpositions, hsettings, Option.getD_some, Option.getD_some, Option.getD_some,
      hsum, hrow]
    exact drawdownOf_eq peakEquity_pos peakEquity_ge
  · exact absurd he (Option.some_ne_none e).symm

theorem le_withPeak : e ≤ withPeak peak e := by
  cases peak with
  | none => exact le_refl e
  | some p => exact le_max_right p e

theorem value_iff :
    (∀ e ∈ m.replies.equity,
        getDrawdown 100000 m.replies = (withPeak peak e - e) / withPeak peak e * 100) ↔
      ∀ e ∈ m.replies.equity, ∀ stored ∈ storedPeak (m.replies.settings.getD none),
        peakEquity 100000 stored e = withPeak peak e ∨ e = 0 ∧ withPeak peak e ≠ 0 := by
  refine forall₂_congr fun e he => ?_
  obtain ⟨stored, hstored, hvalue⟩ := getDrawdown_of_equity he
  rw [hvalue, hstored, drawdown_eq_iff peakEquity_pos le_withPeak]
  simp only [Option.mem_some_iff, forall_eq']

theorem maxDrawdownRule_rejects (hlimit : 0 < m.maxDrawdownPct) :
    (maxDrawdownRule fixed m.maxDrawdownPct m.replies).decision = .rejected ↔
      m.maxDrawdownPct ≤ getDrawdown 100000 m.replies := by
  unfold maxDrawdownRule
  rw [if_neg (not_le_of_gt hlimit)]
  split_ifs with h
  · exact iff_of_true rfl h
  · exact iff_of_false (by decide) h

theorem le_getDrawdown (hlimit : 0 < m.maxDrawdownPct) :
    m.maxDrawdownPct ≤ getDrawdown 100000 r ↔
      ∃ unrealized stored, unrealizedPnl (r.positions.getD []) = some unrealized ∧
        storedPeak (r.settings.getD none) = some stored ∧
        m.maxDrawdownPct ≤
          drawdownOf (peakEquity 100000 stored (100000 + runningPnl (r.orders.getD []) + unrealized))
            (100000 + runningPnl (r.orders.getD []) + unrealized) := by
  unfold getDrawdown
  cases unrealizedPnl (r.positions.getD []) with
  | none =>
    exact iff_of_false (not_le_of_gt hlimit) fun ⟨_, _, h, _⟩ =>
      absurd h.symm (Option.some_ne_none _)
  | some unrealized =>
    cases storedPeak (r.settings.getD none) with
    | none =>
      exact iff_of_false (not_le_of_gt hlimit) fun ⟨_, _, _, h, _⟩ =>
        absurd h.symm (Option.some_ne_none _)
    | some stored => simp

theorem dailyLossLimitRule_rejects (hlimit : 0 < m.dailyLossLimit) (hread : ¬ m.lossRead) :
    (dailyLossLimitRule fixed m.dailyLossLimit m.filled m.hist).decision = .rejected ↔
      m.filled ≠ none ∧ computeDailyPnlFifo m.filled (some []) ≤ -m.dailyLossLimit := by
  have hrule : (dailyLossLimitRule fixed m.dailyLossLimit m.filled m.hist).decision = .rejected ↔
      computeDailyPnlFifo m.filled m.hist ≤ -m.dailyLossLimit := by
    unfold dailyLossLimitRule
    rw [if_neg (not_le_of_gt hlimit)]
    split_ifs with h
    · exact iff_of_true rfl h
    · exact iff_of_false (by decide) h
  rw [hrule]
  cases hfilled : m.filled with
  | none =>
    have hzero : computeDailyPnlFifo none m.hist = 0 := rfl
    rw [hzero]
    exact iff_of_false (by linarith) fun h => h.1 rfl
  | some rows =>
    have hnone : m.hist = none := by
      by_contra hsome
      exact hread ⟨rows, hfilled, fun _ => hsome⟩
    rw [hnone]
    exact ⟨fun h => ⟨Option.some_ne_none rows, h⟩, fun h => h.2⟩

theorem law_iff_met : Law fixed peak m ↔ Met peak m := by
  constructor
  · intro h
    exact
      { value := value_iff.mp h.value
        drawdownClosed := fun hnone hlimit =>
          (le_getDrawdown hlimit).mp
            ((maxDrawdownRule_rejects hlimit).mp (h.drawdownClosed hnone hlimit))
        lossClosed := fun hread hlimit =>
          (dailyLossLimitRule_rejects hlimit hread).mp (h.lossClosed hread hlimit) }
  · intro h
    exact
      { value := value_iff.mpr h.value
        drawdownClosed := fun hnone hlimit =>
          (maxDrawdownRule_rejects hlimit).mpr
            ((le_getDrawdown hlimit).mpr (h.drawdownClosed hnone hlimit))
        lossClosed := fun hread hlimit =>
          (dailyLossLimitRule_rejects hlimit hread).mpr (h.lossClosed hread hlimit) }

/-- Over every sequence of observations the drawdown is that from the running peak, and missing
data rejects, exactly when each moment meets the condition. -/
theorem drawdown_from_running_peak_iff (fixed : ℕ → ℚ → String) (ms : List Moment) :
    Along observe (Law fixed) none ms ↔ Along observe Met none ms :=
  ⟨Along.mono fun _ _ => law_iff_met.mp, Along.mono fun _ _ => law_iff_met.mpr⟩

def observed (unrealized : ℚ) : Moment where
  maxDrawdownPct := 20
  dailyLossLimit := 5000
  replies := ⟨some [], some [some unrealized], some (some ⟨some 20⟩)⟩
  filled := some []
  hist := some []

def unread : Moment :=
  { observed 0 with replies := ⟨none, some [], some (some ⟨some 20⟩)⟩, filled := none }

/-- An equity of 150000 after one of 200000 shows no drawdown, and rules that cannot read the
orders approve. -/
theorem drawdown_forgotten :
    getDrawdown 100000 (observed 50000).replies = 0 ∧
      ∀ fixed, ¬ Along observe (Law fixed) none [observed 100000, observed 50000] ∧
        ¬ Law fixed none unread := by
  have hvalue : getDrawdown 100000 (observed 50000).replies = 0 := by decide +kernel
  have hequity : (observed 50000).replies.equity = some 150000 := by decide +kernel
  have hpeak : observe none (observed 100000) = some 200000 := by decide +kernel
  refine ⟨hvalue, fun fixed => ⟨fun h => ?_, fun h => ?_⟩⟩
  · have hlaw := h.2.1.value 150000 hequity
    rw [hpeak, hvalue] at hlaw
    norm_num [withPeak] at hlaw
  · have hmet := (law_iff_met.mp h).lossClosed
      (fun ⟨rows, hrows, _⟩ => absurd hrows.symm (Option.some_ne_none rows))
      (by norm_num [unread, observed])
    exact hmet.1 rfl

end Trademetrix.Drawdown
