import Mathlib.Algebra.Order.BigOperators.GroupWithZero.List
import Mathlib.Tactic.FieldSimp
import Trademetrix.Backtest.Execution
import Trademetrix.Decimal

/-!
# Splits and bonuses

`apply_corporate_actions` divides the prices of a candle by the factors of the actions
after it, to four decimals. A day begins at midnight in UTC for it, and the factor is
the second number of the ratio by the first, of a bonus too. What it is for is told
by the days of the exchange and by the shares that one share becomes.
-/

namespace Trademetrix.Backtest

/-- A row of `corporate_actions`; the day is counted from 1 January 1970. -/
structure CorporateAction where
  symbol : String
  action : String
  exDate : ℤ
  ratio : String := ""
  dividendAmount : ℚ := 0
  deriving DecidableEq

/-- `normalizeTs` is `_normalize_ts` in microseconds from 1 January 1970, and `float` reads a number;
a text that is none makes it raise. -/
structure Readers where
  normalizeTs : String → ℤ
  float : String → Option ℚ

def dayLength : ℤ := 86400000000

def ratioOf (rd : Readers) (ratio : String) : Option (ℚ × ℚ) :=
  match ratio.toList.splitOn ':' with
  | [old, new] =>
    match rd.float (String.ofList new), rd.float (String.ofList old) with
    | some new, some old => some (old, new)
    | _, _ => none
  | _ => none

/-- `_action_factor`; a `ValueError` and a `ZeroDivisionError` are passed over. -/
def actionFactor (rd : Readers) (a : CorporateAction) : ℚ :=
  if Text.upper a.action = "SPLIT" ∨ Text.upper a.action = "BONUS" then
    match ratioOf rd a.ratio with
    | some (old, new) => if old = 0 then 1 else new / old
    | none => 1
  else 1

def factorAt (rd : Readers) (actions : List CorporateAction) (ts : ℤ) : ℚ :=
  actions.foldl (fun factor a => if ts < a.exDate * dayLength then factor * actionFactor rd a else factor) 1

def Candle.divided (c : Candle) (n : ℚ) : Candle :=
  { c with
    openPrice := round4 (c.openPrice / n)
    high := round4 (c.high / n)
    low := round4 (c.low / n)
    close := round4 (c.close / n) }

def adjustedBy (factor : ℚ) (c : Candle) : Option Candle :=
  if factor = 1 then some c else if factor = 0 then none else some (c.divided factor)

/-- `apply_corporate_actions`, with the actions that are returned as applied. -/
def applyCorporateActions (rd : Readers) (candles : List Candle) (actions : List CorporateAction) :
    Option (List Candle × List CorporateAction) :=
  if actions = [] then some (candles, [])
  else
    (candles.mapM fun c => adjustedBy (factorAt rd actions (rd.normalizeTs c.timestamp)) c).map
      fun adjusted => (adjusted, actions)

end Trademetrix.Backtest

/-!
# Shares

The candles before an action are those of an earlier day of the exchange; one share
becomes as many as the ratio says: the new ones by the old in a split, and the old
with those given for them in a bonus.
-/

namespace Trademetrix.Backtest

def exchangeOffset : ℤ := 19800000000

def localDate (ts : ℤ) : ℤ := (ts + exchangeOffset) / dayLength

/-- What one share becomes; nothing is known of an action with any other ratio than of two positive
numbers. -/
def sharesOf (rd : Readers) (a : CorporateAction) : ℚ :=
  match ratioOf rd a.ratio with
  | some (x, y) =>
    if 0 < x ∧ 0 < y then
      if Text.upper a.action = "SPLIT" then y / x
      else if Text.upper a.action = "BONUS" then (x + y) / y
      else 1
    else 1
  | none => 1

def sharesAt (rd : Readers) (actions : List CorporateAction) (ts : ℤ) : ℚ :=
  ((actions.filter fun a => localDate ts < a.exDate).map (sharesOf rd)).prod

def Candle.atShares (c : Candle) (n : ℚ) : Candle := if n = 1 then c else c.divided n

def AdjustsByShares (rd : Readers) (stamps : List String) (actions : List CorporateAction) : Prop :=
  ∀ candles : List Candle, candles.map Candle.timestamp = stamps →
    (applyCorporateActions rd candles actions).map Prod.fst =
      some (candles.map fun c => c.atShares (sharesAt rd actions (rd.normalizeTs c.timestamp)))

variable {rd : Readers} {actions : List CorporateAction} {stamps : List String}

section Shares

theorem sharesOf_pos (a : CorporateAction) : 0 < sharesOf rd a := by
  unfold sharesOf
  split
  · next x y hratio =>
    split
    · next hpos =>
      split
      · exact div_pos hpos.2 hpos.1
      · split
        · exact div_pos (add_pos hpos.1 hpos.2) hpos.2
        · exact one_pos
    · exact one_pos
  · exact one_pos

theorem sharesAt_pos (ts : ℤ) : 0 < sharesAt rd actions ts := by
  refine List.prod_pos fun n hn => ?_
  obtain ⟨a, -, rfl⟩ := List.mem_map.mp hn
  exact sharesOf_pos a

theorem sharesAt_nil (ts : ℤ) : sharesAt rd [] ts = 1 := rfl

theorem sharesAt_perm {others : List CorporateAction} (h : actions.Perm others) (ts : ℤ) :
    sharesAt rd actions ts = sharesAt rd others ts :=
  ((h.filter _).map _).prod_eq

end Shares

section Rounding

theorem abs_round4_sub_le (x : ℚ) : |round4 x - x| ≤ 1 / 20000 := by
  have h := abs_le.mp (Text.abs_roundHalfEven_sub_le (x * 10000))
  unfold round4
  rw [abs_le]
  constructor <;> linarith [h.1, h.2]

def priceBy (factor p : ℚ) : ℚ := if factor = 1 then p else round4 (p / factor)

theorem abs_priceBy_sub_le (factor p : ℚ) : |priceBy factor p - p / factor| ≤ 1 / 20000 := by
  unfold priceBy
  split
  · next h => norm_num [h]
  · exact abs_round4_sub_le _

theorem factor_eq {f n : ℚ} (h : ∀ p, priceBy f p = priceBy n p) : f = n := by
  have hclose : ∀ p, |p / f - p / n| ≤ 1 / 10000 := by
    intro p
    have hpf := abs_le.mp (abs_priceBy_sub_le f p)
    have hpn := abs_le.mp (abs_priceBy_sub_le n p)
    rw [h p] at hpf
    rw [abs_le]
    constructor <;> linarith [hpf.1, hpf.2, hpn.1, hpn.2]
  by_contra hne
  have hdiff : 1 / f - 1 / n ≠ 0 := by
    rw [sub_ne_zero]
    exact fun heq => hne (by simpa using heq)
  have hone := hclose (1 / (1 / f - 1 / n))
  have hvalue : 1 / (1 / f - 1 / n) / f - 1 / (1 / f - 1 / n) / n = 1 := by
    calc 1 / (1 / f - 1 / n) / f - 1 / (1 / f - 1 / n) / n
        = 1 / (1 / f - 1 / n) * (1 / f - 1 / n) := by ring
      _ = 1 := one_div_mul_cancel hdiff
  rw [hvalue] at hone
  norm_num at hone

end Rounding

section Adjustment

theorem mapM_eq_some_map {α β : Type} {f : α → Option β} {g : α → β} {xs : List α} :
    xs.mapM f = some (xs.map g) ↔ ∀ x ∈ xs, f x = some (g x) := by
  induction xs with
  | nil => simp
  | cons x xs ih =>
    rw [List.mapM_cons, List.forall_mem_cons, ← ih]
    cases f x with
    | none => simp
    | some y => cases xs.mapM f <;> simp

theorem adjustedBy_eq (c : Candle) {n : ℚ} (hn : n ≠ 0) : adjustedBy n c = some (c.atShares n) := by
  unfold adjustedBy Candle.atShares
  rw [if_neg hn]
  split <;> rfl

def evenCandle (p : ℚ) (timestamp : String) : Candle :=
  { symbol := "", openPrice := p, high := p, low := p, close := p, timestamp }

theorem close_adjustedBy {f p : ℚ} {timestamp : String} {c : Candle}
    (h : adjustedBy f (evenCandle p timestamp) = some c) : c.close = priceBy f p := by
  unfold adjustedBy at h
  unfold priceBy
  split at h
  · next hone =>
    obtain rfl := Option.some.inj h
    rw [if_pos hone]
    rfl
  · next hone =>
    split at h
    · cases h
    · obtain rfl := Option.some.inj h
      rw [if_neg hone]
      rfl

theorem close_atShares (n p : ℚ) (timestamp : String) :
    ((evenCandle p timestamp).atShares n).close = priceBy n p := by
  unfold Candle.atShares priceBy
  split <;> rfl

theorem adjustedBy_iff {f n : ℚ} (hn : n ≠ 0) (timestamp : String) :
    (∀ p, adjustedBy f (evenCandle p timestamp) = some ((evenCandle p timestamp).atShares n)) ↔ f = n := by
  constructor
  · intro h
    refine factor_eq fun p => ?_
    rw [← close_adjustedBy (h p), close_atShares]
  · rintro rfl p
    exact adjustedBy_eq _ hn

theorem factorAt_eq (rd : Readers) (actions : List CorporateAction) (ts : ℤ) :
    factorAt rd actions ts =
      ((actions.filter fun a => ts < a.exDate * dayLength).map (actionFactor rd)).prod := by
  have hfold : ∀ x : ℚ, actions.foldl (fun factor a =>
      if ts < a.exDate * dayLength then factor * actionFactor rd a else factor) x =
      x * ((actions.filter fun a => ts < a.exDate * dayLength).map (actionFactor rd)).prod := by
    induction actions with
    | nil => exact fun x => (mul_one x).symm
    | cons a actions ih =>
      intro x
      rw [List.foldl_cons, ih, List.filter_cons]
      split
      · next hlt => rw [if_pos (decide_eq_true hlt), List.map_cons, List.prod_cons, mul_assoc]
      · next hlt => rw [if_neg (by simpa using hlt)]
  rw [factorAt, hfold, one_mul]

theorem apply_eq_iff {candles : List Candle} :
    (applyCorporateActions rd candles actions).map Prod.fst =
        some (candles.map fun c => c.atShares (sharesAt rd actions (rd.normalizeTs c.timestamp))) ↔
      ∀ c ∈ candles, adjustedBy (factorAt rd actions (rd.normalizeTs c.timestamp)) c =
        some (c.atShares (sharesAt rd actions (rd.normalizeTs c.timestamp))) := by
  by_cases hnil : actions = []
  · subst hnil
    refine iff_of_true ?_ fun c _ => ?_
    · simp [applyCorporateActions, Candle.atShares, sharesAt_nil]
    · exact adjustedBy_eq c one_ne_zero
  · rw [applyCorporateActions, if_neg hnil, Option.map_map, ← mapM_eq_some_map]
    exact Eq.congr (congrFun Option.map_id _) rfl

/-- Candles are adjusted by the shares just if at the time of each the ratios of the actions after
it, with the days begun in UTC, come to the number of shares. -/
theorem adjustsByShares_iff (rd : Readers) (stamps : List String) (actions : List CorporateAction) :
    AdjustsByShares rd stamps actions ↔
      ∀ t ∈ stamps, ((actions.filter fun a => rd.normalizeTs t < a.exDate * dayLength).map
        (actionFactor rd)).prod = sharesAt rd actions (rd.normalizeTs t) := by
  have hpos : ∀ t, sharesAt rd actions (rd.normalizeTs t) ≠ 0 := fun t => (sharesAt_pos _).ne'
  simp only [← factorAt_eq]
  constructor
  · intro h t ht
    refine (adjustedBy_iff (hpos t) t).mp fun p => ?_
    have hflat := h (stamps.map (evenCandle p)) (by rw [List.map_map]; exact List.map_id' _)
    exact apply_eq_iff.mp hflat (evenCandle p t) (List.mem_map_of_mem ht)
  · intro h candles hstamps
    refine apply_eq_iff.mpr fun c hc => ?_
    have hstamp : c.timestamp ∈ stamps := hstamps ▸ List.mem_map_of_mem hc
    rw [h c.timestamp hstamp]
    exact adjustedBy_eq c (hpos _)

theorem adjustsByShares_of_splits (hshares : ∀ a ∈ actions, actionFactor rd a = sharesOf rd a)
    (hdays : ∀ t ∈ stamps, ∀ a ∈ actions,
      rd.normalizeTs t < a.exDate * dayLength ↔ localDate (rd.normalizeTs t) < a.exDate) :
    AdjustsByShares rd stamps actions := by
  rw [adjustsByShares_iff]
  intro t ht
  have hlater : (actions.filter fun a => rd.normalizeTs t < a.exDate * dayLength) =
      actions.filter fun a => localDate (rd.normalizeTs t) < a.exDate :=
    List.filter_congr fun a ha => decide_eq_decide.mpr (hdays t ht a ha)
  rw [sharesAt, hlater]
  exact congrArg List.prod (List.map_congr_left fun a ha => hshares a (List.mem_of_mem_filter ha))

end Adjustment

section Counterexample

def indianReaders : Readers where
  normalizeTs t := if t = "2026-08-13T09:15:00+05:30" then 1786592700000000 else 1786645800000000
  float text := (Text.parseInt text).map Int.cast

def bonusOneToOne : CorporateAction :=
  { symbol := "TCS", action := "BONUS", exDate := 20679, ratio := "1:1" }

def splitOneToTwo : CorporateAction :=
  { symbol := "TCS", action := "SPLIT", exDate := 20679, ratio := "1:2" }

/-- A bonus of one share for each leaves the prices as they were before, and a split on 14 August 2026
halves the price of that day when its candle begins at midnight in India. -/
theorem bonus_not_adjusted :
    ¬AdjustsByShares indianReaders ["2026-08-13T09:15:00+05:30"] [bonusOneToOne] ∧
    ¬AdjustsByShares indianReaders ["2026-08-14T00:00:00+05:30"] [splitOneToTwo] := by
  constructor <;> intro h
  · have hflat := h [evenCandle 100 "2026-08-13T09:15:00+05:30"] rfl
    revert hflat
    decide +kernel
  · have hflat := h [evenCandle 100 "2026-08-14T00:00:00+05:30"] rfl
    revert hflat
    decide +kernel

end Counterexample

end Trademetrix.Backtest

namespace Trademetrix.Backtest

def minute : ℤ := 60000000

def endsWith (s ending : String) : Bool := ending.toList <:+ s.toList

/-- `_interval_minutes`; fifteen when there is no number. -/
def intervalMinutes (interval : String) : ℤ :=
  let s := Text.strip (Text.lower interval)
  let number (unit : String) : Option ℤ := Text.parseInt (Text.replace s unit "")
  let minutes : Option ℤ :=
    if endsWith s "min" then number "min"
    else if endsWith s "h" then (number "h").map (· * 60)
    else if endsWith s "d" then (number "d").map (· * 1440)
    else if endsWith s "m" then number "m"
    else Text.parseInt s
  minutes.getD 15

def intervalLength (interval : String) : ℤ := intervalMinutes interval * minute

/-- `_in_range`, of a candle of the time and the interval. -/
def inRange (ts : ℤ) (interval : String) (startDt endDt : ℤ) : Bool :=
  startDt - intervalLength interval ≤ ts ∧ ts ≤ endDt + intervalLength interval

example : intervalMinutes "15m" = 15 ∧ intervalMinutes "1d" = 1440 ∧ intervalMinutes "D" = 15 := by decide

end Trademetrix.Backtest
