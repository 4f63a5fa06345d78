import Mathlib.Data.List.MinMax
import Trademetrix.Backtest.DriverParity
import Trademetrix.Folds

/-!
# The parameter optimizer

Walk-forward validation over `_fast_run`. The candles of a run
come from the loader's cache, so all runs of an optimization have the same. The
strategy a set of parameters sets up and the text of a failed run are parameters;
the ratios that take a square root are left out of the metrics.
-/

namespace Trademetrix.Backtest

open Text (round2)

section Slices

/-- `xs[a:b]`. -/
def sliced {α : Type} (slice : Option (ℕ × ℕ)) (xs : List α) : List α :=
  match slice with
  | none => xs
  | some (a, b) => (xs.take b).drop a

variable {σ : Type} (t : Run σ)

def Run.finishSlice (s : Setup) (st : Strategy σ) (clock : Clock) (candles : List Candle)
    (p : Progress σ) : Option (Progress σ) :=
  match candles.getLast? with
  | none => (st.onStop p.strategy).map fun x => { p with strategy := x }
  | some last => t.finish s st clock last.timestamp candles.length p

/-- `_fast_run`, over a slice of the candles: the report and the number of candles; `none` if the
run fails. -/
def Run.sliceRun (clock : Clock) (slice : Option (ℕ × ℕ)) : Option (BacktestReport × ℕ) :=
  match t.strategy, t.candles with
  | some st, some loaded =>
    if loaded = [] then none
    else
      let candles := sliced slice loaded
      let s := t.setup candles
      do
        let x ← st.onStart st.init
        let p ← Run.loop (t.fastStep s st clock) 0 candles
          { strategy := x, account := t.account candles }
        let p ← t.finishSlice s st clock candles p
        some (calculate t.iso p.snapshots t.config.initialCapital p.account.broker.trades,
          candles.length)
  | _, _ => none

end Slices

/-- `_metrics_from_result`. -/
structure Metrics where
  netPnl : ℚ
  returnPct : ℚ
  winRate : ℚ
  totalTrades : ℕ
  profitFactor : ℚ
  maxDrawdownPct : ℚ
  expectancy : ℚ
  endEquity : ℚ
  deriving DecidableEq

/-- The metrics of a report, with what `_compute_trade_stats` makes of its trades. -/
def BacktestReport.metrics (r : BacktestReport) : Metrics :=
  let n := r.trades.length
  let winning := r.trades.filter fun t => 0 < t.pnl
  let losing := r.trades.filter fun t => t.pnl ≤ 0
  let grossProfit := round2 (winning.map Trade.pnl).sum
  let grossLoss := round2 |(losing.map Trade.pnl).sum|
  let netPnl := if n = 0 then 0 else round2 (grossProfit - grossLoss)
  { netPnl := netPnl
    returnPct := r.returnPct
    winRate := if n = 0 then 0 else round2 ((winning.length : ℚ) / n * 100)
    totalTrades := n
    profitFactor := if n ≠ 0 ∧ 0 < grossLoss then round2 (grossProfit / grossLoss) else 0
    maxDrawdownPct := r.maxDrawdownPct
    expectancy := if n = 0 then 0 else round2 (netPnl / n)
    endEquity := r.endEquity }

abbrev Params (V : Type) := Dict String V

structure OptimizationSpec (V : Type) where
  strategyParams : Params V := []
  symbol : String := "NIFTY"
  initialCapital : ℚ := 100000
  paramRanges : Dict String (List V) := []
  windows : ℤ := 6
  maxCombos : ℤ := 512
  closePositionsOnEnd : Bool := true

structure ComboResult (V : Type) where
  params : Params V := []
  metrics : Option Metrics := none
  error : String := ""

structure OptimizationResult (V : Type) where
  combosTotal : ℤ := 0
  combosCompleted : ℕ := 0
  results : List (ComboResult V) := []
  best : Option (Params V × Metrics) := none

/-- What an optimization is given: `strategyOf` is the strategy set up with parameters, if that does
not raise, `failure` the error of a run that fails and `number` the number of a window as a value. -/
structure Optimizer (σ V : Type) where
  spec : OptimizationSpec V
  strategyOf : Params V → Option (Strategy σ)
  candles : Option (List Candle)
  random : ℕ → ℚ
  elapsed : String → String → Option ℚ
  fromisoformat : String → Option Stamp
  clock : Clock
  failure : Params V → Option (ℕ × ℕ) → String
  number : ℕ → V

/-- `itertools.product`, as dictionaries. -/
def product {V : Type} : Dict String (List V) → List (Params V)
  | [] => [[]]
  | (key, values) :: ranges => values.flatMap fun v => (product ranges).map fun p => (key, v) :: p

/-- `max` by net P&L; the first of equals. -/
def bestOf {V : Type} (scored : List (Params V × Metrics)) : Option (Params V × Metrics) :=
  scored.argmax fun r => r.2.netPnl

namespace Optimizer

variable {σ V : Type} (o : Optimizer σ V)

/-- The run of `_config`. -/
def run (params : Params V) : Run σ where
  config :=
    { symbol := o.spec.symbol
      initialCapital := o.spec.initialCapital
      closePositionsOnEnd := o.spec.closePositionsOnEnd }
  strategy := o.strategyOf (Dict.update o.spec.strategyParams params)
  candles := o.candles
  random := o.random
  elapsed := o.elapsed
  fromisoformat := o.fromisoformat

def fastRun (params : Params V) (slice : Option (ℕ × ℕ)) : Option (BacktestReport × ℕ) :=
  (o.run params).sliceRun o.clock slice

def metrics (params : Params V) (slice : Option (ℕ × ℕ)) : Option Metrics :=
  (o.fastRun params slice).map fun r => r.1.metrics

def runCombo (params : Params V) (slice : Option (ℕ × ℕ)) : ComboResult V where
  params := params
  metrics := o.metrics params slice
  error := if (o.metrics params slice).isSome then "" else o.failure params slice

def ranges : Dict String (List V) := o.spec.paramRanges.filter fun e => !e.2.isEmpty

def combos : Except String (List (Params V)) :=
  let combos := product o.ranges
  if o.ranges.isEmpty then .ok [[]]
  else if o.spec.maxCombos < combos.length then
    .error ("Too many parameter combinations (" ++ toString combos.length ++ " > " ++
      toString o.spec.maxCombos ++ ")")
  else .ok combos

def best (results : List (ComboResult V)) : Option (Params V × Metrics) :=
  bestOf (results.filterMap fun r => if r.error = "" then r.metrics.map fun m => (r.params, m) else none)

section WalkForward

def testSlice (total windows i : ℕ) : ℕ × ℕ :=
  let fold := total / windows
  (i * fold, if i < windows - 1 then (i + 1) * fold else total)

def trainSlice (total windows i : ℕ) : ℕ × ℕ :=
  let fold := total / windows
  ((testSlice total windows i).1 - fold, (testSlice total windows i).1)

def chosen (combos : List (Params V)) (slice : ℕ × ℕ) : Option (Params V × Metrics) :=
  bestOf (combos.filterMap fun params => (o.metrics params (some slice)).map fun m => (params, m))

/-- One round of the loop of `_walk_forward`. -/
def window (combos : List (Params V)) (total windows i : ℕ) : ComboResult V :=
  match o.chosen combos (trainSlice total windows i) with
  | none => { error := "No train window results" }
  | some (params, _) =>
    { o.runCombo params (some (testSlice total windows i)) with
      params := Dict.update [("window", o.number i)] params }

/-- `_walk_forward`. A number of windows below zero makes no round of the loop. -/
def walkForward : Except String (OptimizationResult V) :=
  if o.spec.paramRanges.isEmpty then .error "walk_forward requires param_ranges"
  else
    match o.fastRun [] none with
    | none => .error ("Probe run failed: " ++ o.failure [] none)
    | some (_, total) =>
      if (total : ℤ) < o.spec.windows * 2 then .error "Not enough candles for walk-forward windows"
      else if o.spec.windows = 0 then .error "integer division or modulo by zero"
      else do
        let combos ← o.combos
        let windows := o.spec.windows.toNat
        let results := (List.range windows).map (o.window combos total windows)
        return { combosTotal := o.spec.windows, combosCompleted := windows, results := results
                 best := best results }

end WalkForward

end Optimizer

end Trademetrix.Backtest

/-!
# Walk-forward validation

The windows partition the candles, and each but the first is tested with
parameters that are best on the window before it. Before the first there are no
candles, but a run over none has metrics too.
-/

namespace Trademetrix.Backtest

open Folds (Within)

section Best

variable {V : Type} {scored : List (Params V × Metrics)} {r : Params V × Metrics}

theorem bestOf_eq_none : bestOf scored = none ↔ scored = [] := List.argmax_eq_none

theorem bestOf_spec (h : bestOf scored = some r) :
    r ∈ scored ∧ ∀ q ∈ scored, q.2.netPnl ≤ r.2.netPnl := by
  have hmem : r ∈ scored.argmax fun r => r.2.netPnl := h
  exact ⟨List.argmax_mem hmem, fun q hq => List.le_of_mem_argmax (f := fun r => r.2.netPnl) hq hmem⟩

end Best

namespace Optimizer

variable {σ V : Type} {o : Optimizer σ V} {combos : List (Params V)} {i : ℕ}

def total (o : Optimizer σ V) : ℕ := (o.candles.getD []).length

def windows (o : Optimizer σ V) : ℕ := o.spec.windows.toNat

def tests (o : Optimizer σ V) (i : ℕ) : ℕ × ℕ := testSlice o.total o.windows i

def trains (o : Optimizer σ V) (i : ℕ) : ℕ × ℕ := trainSlice o.total o.windows i

def candlesOf (o : Optimizer σ V) (slice : ℕ × ℕ) : List Candle :=
  sliced (some slice) (o.candles.getD [])

def RunsIdle (o : Optimizer σ V) (params : Params V) : Prop :=
  ∃ st x y, o.strategyOf (Dict.update o.spec.strategyParams params) = some st ∧
    st.onStart st.init = some x ∧ st.onStop x = some y

theorem mem_chosen {p : Params V} {m : Metrics} {slice : ℕ × ℕ}
    (h : o.chosen combos slice = some (p, m)) :
    p ∈ combos ∧ o.metrics p (some slice) = some m ∧
      ∀ q ∈ combos, ∀ m', o.metrics q (some slice) = some m' → m'.netPnl ≤ m.netPnl := by
  obtain ⟨hmem, hmax⟩ := bestOf_spec h
  obtain ⟨q, hq, hscored⟩ := List.mem_filterMap.mp hmem
  obtain ⟨m', hm', heq⟩ := Option.map_eq_some_iff.mp hscored
  cases heq
  refine ⟨hq, hm', fun q' hq' m'' hm'' => hmax (q', m'') ?_⟩
  exact List.mem_filterMap.mpr ⟨q', hq', by rw [hm'']; rfl⟩

theorem chosen_eq_none {slice : ℕ × ℕ} :
    o.chosen combos slice = none ↔ ∀ p ∈ combos, o.metrics p (some slice) = none := by
  rw [chosen, bestOf_eq_none, List.filterMap_eq_nil_iff]
  simp

theorem sliced_zero {α : Type} (xs : List α) : sliced (some (0, 0)) xs = [] := by simp [sliced]

theorem metrics_idle (hcandles : o.candles.getD [] ≠ []) (p : Params V) :
    o.metrics p (some (0, 0)) = none ↔ ¬o.RunsIdle p := by
  obtain ⟨loaded, hloaded⟩ : ∃ loaded, o.candles = some loaded := by
    cases hc : o.candles with
    | none => simp [hc] at hcandles
    | some loaded => exact ⟨loaded, rfl⟩
  have hne : loaded ≠ [] := by simpa [hloaded] using hcandles
  have hrun : (o.run p).candles = some loaded := hloaded
  have hst : (o.run p).strategy = o.strategyOf (Dict.update o.spec.strategyParams p) := rfl
  unfold metrics fastRun Run.sliceRun RunsIdle
  rw [hrun, hst, Option.map_eq_none_iff]
  cases o.strategyOf (Dict.update o.spec.strategyParams p) with
  | none => simp
  | some st =>
    simp only [hne, if_false, sliced_zero, Run.finishSlice, List.getLast?_nil, Run.loop, Option.bind_eq_bind,
      Option.some.injEq, exists_and_left, exists_eq_left', not_exists, not_and]
    cases st.onStart st.init with
    | none => simp
    | some x =>
      simp only [Option.bind_some, Option.some.injEq, forall_eq']
      cases st.onStop x <;> simp

theorem total_of_probe {r : BacktestReport} {n : ℕ} (h : o.fastRun [] none = some (r, n)) :
    n = o.total ∧ o.candles.getD [] ≠ [] := by
  unfold fastRun Run.sliceRun at h
  split at h
  · next st loaded hst hcandles =>
    have hloaded : o.candles = some loaded := hcandles
    split at h
    · cases h
    · next hne =>
      simp only [sliced, Option.bind_eq_bind, Option.bind_eq_some_iff, Option.some.injEq,
        Prod.mk.injEq] at h
      obtain ⟨x, -, p, -, q, -, -, rfl⟩ := h
      rw [total, hloaded]
      exact ⟨rfl, hne⟩
  · cases h

theorem walkForward_eq_ok {out : OptimizationResult V} (h : o.walkForward = .ok out) :
    o.candles.getD [] ≠ [] ∧ o.spec.windows * 2 ≤ o.total ∧ o.spec.windows ≠ 0 ∧
      ∃ combos, o.combos = .ok combos ∧
        out.results = (List.range o.windows).map (o.window combos o.total o.windows) := by
  unfold walkForward at h
  split at h
  · cases h
  · split at h
    · cases h
    · next r n hprobe =>
      obtain ⟨rfl, hcandles⟩ := total_of_probe hprobe
      split at h
      · cases h
      · next henough =>
        split at h
        · cases h
        · next hzero =>
          cases hcombos : o.combos with
          | error e =>
            rw [hcombos] at h
            cases h
          | ok combos =>
            rw [hcombos] at h
            cases h
            exact ⟨hcandles, not_lt.mp henough, hzero, combos, rfl, rfl⟩

/-- The outcome `out` of a walk-forward over the grid `combos`: the windows partition the candles;
the parameters a window is tested with are best on the candles of the window before it; and a window
with no candles before it is reported as such. -/
structure Valid (o : Optimizer σ V) (combos : List (Params V)) (out : OptimizationResult V) : Prop where
  partition : ∀ k < o.total, ∃! i, i < o.windows ∧ Within (o.tests i) k
  within : ∀ i < o.windows, (o.tests i).2 ≤ o.total
  maximises : ∀ i < o.windows, ∀ p m, o.chosen combos (o.trains i) = some (p, m) → 0 < i →
    o.candlesOf (o.tests (i - 1)) ≠ [] ∧ p ∈ combos ∧ o.metrics p (some (o.tests (i - 1))) = some m ∧
      ∀ q ∈ combos, ∀ m', o.metrics q (some (o.tests (i - 1))) = some m' → m'.netPnl ≤ m.netPnl
  reported : ∀ i < o.windows, o.candlesOf (o.trains i) = [] →
    o.chosen combos (o.trains i) = none ∧
      (out.results[i]?.map fun r => r.error) = some "No train window results"

theorem trains_zero : o.trains 0 = (0, 0) := Folds.before_zero _ _

theorem trains_succ (hi : i + 1 < o.windows) : o.trains (i + 1) = o.tests i := Folds.before_succ hi

theorem candlesOf_ne_nil (hlen : 0 < o.total / o.windows) (hi : i < o.windows) :
    o.candlesOf (o.tests i) ≠ [] := by
  have hlt : (o.tests i).1 < (o.tests i).2 := Folds.fold_nonempty hi hlen
  have hle : (o.tests i).2 ≤ o.total := Folds.fold_snd_le hi
  intro hnil
  have hlength := congrArg List.length hnil
  simp only [candlesOf, sliced, List.length_drop, List.length_take, List.length_nil] at hlength
  unfold total at hle
  omega

theorem window_of_chosen_none (h : o.chosen combos (o.trains i) = none) :
    (o.window combos o.total o.windows i).error = "No train window results" := by
  have h' : o.chosen combos (trainSlice o.total o.windows i) = none := h
  rw [window, h']

def twoWindows : Optimizer Unit ℤ where
  spec := { paramRanges := [("fast_period", [5, 10])], windows := 2 }
  strategyOf _ := some buyer
  candles := some (List.replicate 4 (flatCandle 100))
  random _ := 0
  elapsed _ _ := none
  fromisoformat _ := some ⟨"2026-01", "2026-01-05"⟩
  clock _ := ""
  failure _ _ := ""
  number i := i

def twoWindowsGrid : List (Params ℤ) := [[("fast_period", 5)], [("fast_period", 10)]]

end Optimizer

end Trademetrix.Backtest
