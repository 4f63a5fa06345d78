import Mathlib.Data.List.Dedup
import Mathlib.Data.List.Sort
import Mathlib.Tactic.FieldSimp
import Trademetrix.Backtest.Execution

/-!
# Performance of a run

What is made of a run's snapshots and trades: the equity curve with its
drawdowns, thinned out when it is long, and the returns by month and day.
-/

namespace Trademetrix.Backtest

open Engine (OrderSide)
open Text (round2)

structure SnapshotPosition where
  symbol : String
  quantity : ℤ
  averageBuyPrice : ℚ
  averageSellPrice : ℚ := 0
  lastPrice : ℚ := 0
  deriving DecidableEq

structure Snapshot where
  index : ℕ
  timestamp : String
  equity : ℚ
  positions : List SnapshotPosition
  deriving DecidableEq

structure EquityPoint where
  timestamp : String
  equity : ℚ
  drawdown : ℚ := 0
  drawdownPct : ℚ := 0
  deriving DecidableEq

/-- The keys of a parsed timestamp, `%Y-%m` and `%Y-%m-%d`. -/
structure Stamp where
  month : String
  day : String

structure BacktestReport where
  trades : List Trade := []
  equityCurve : List EquityPoint := []
  startEquity : ℚ
  endEquity : ℚ
  returnPct : ℚ := 0
  maxDrawdown : ℚ := 0
  maxDrawdownPct : ℚ := 0
  monthlyReturns : Dict String ℚ := []
  dailyReturns : Dict String ℚ := []
  deriving DecidableEq

section Trades

/-- The open trade `build_trades_from_snapshots` keeps. -/
structure OpenTrade where
  side : OrderSide
  entryPrice : ℚ
  quantity : ℤ
  entryTime : String

def bareTrade (symbol : String) (t : OpenTrade) (exitPrice pnl : ℚ) (exitTime : String) : Trade where
  symbol := symbol
  side := t.side
  entryPrice := t.entryPrice
  exitPrice := exitPrice
  quantity := t.quantity
  pnl := round2 pnl
  entryTime := t.entryTime
  exitTime := exitTime
  durationMinutes := 0
  entryReason := ""
  exitReason := "signal"
  slippage := 0
  charges := 0
  taxes := 0
  costTotal := 0
  riskAmount := 0
  rr := 0

/-- `x or y` of two numbers. -/
def orNumber (x y : ℚ) : ℚ := if x = 0 then y else x

/-- One round of the loop of `build_trades_from_snapshots`. -/
def tradeStep (symbol : String) (acc : List Trade × Option OpenTrade) (snap : Snapshot) :
    List Trade × Option OpenTrade :=
  match snap.positions.find? fun p => p.symbol = symbol, acc.2 with
  | none, _ => (acc.1, none)
  | some p, none =>
    if p.quantity = 0 then acc
    else
      let short := decide (p.quantity < 0)
      (acc.1, some {
        side := if short then .sell else .buy
        entryPrice := if short then p.averageSellPrice else p.averageBuyPrice
        quantity := |p.quantity|
        entryTime := snap.timestamp })
  | some p, some t =>
    if p.quantity ≠ 0 then acc
    else
      let exitPrice := orNumber (orNumber p.averageBuyPrice p.averageSellPrice) p.lastPrice
      let pnl := match t.side with
        | .buy => (exitPrice - t.entryPrice) * t.quantity
        | .sell => (t.entryPrice - exitPrice) * t.quantity
      (acc.1 ++ [bareTrade symbol t exitPrice pnl snap.timestamp], none)

def buildTradesFromSnapshots (snapshots : List Snapshot) (symbol : String) : List Trade :=
  (snapshots.foldl (tradeStep symbol) ([], none)).1

end Trades

section Curve

/-- `_compute_equity_curve`. -/
def equityCurve (snapshots : List Snapshot) : List EquityPoint :=
  snapshots.map fun snap => { timestamp := snap.timestamp, equity := round2 snap.equity }

structure Peak where
  peak : ℚ
  maxDd : ℚ := 0
  maxDdPct : ℚ := 0

def Peak.point (k : Peak) (p : EquityPoint) : Peak × EquityPoint :=
  let peak := if k.peak < p.equity then p.equity else k.peak
  let dd := peak - p.equity
  let ddPct := if 0 < peak then dd / peak * 100 else 0
  ({ peak := peak, maxDd := max k.maxDd dd, maxDdPct := max k.maxDdPct ddPct },
    { p with drawdown := round2 dd, drawdownPct := round2 ddPct })

/-- `_compute_drawdown`. -/
def drawdowns (k : Peak) : List EquityPoint → List EquityPoint × Peak
  | [] => ([], k)
  | p :: ps =>
    let (k, p) := k.point p
    let (ps, k) := drawdowns k ps
    (p :: ps, k)

/-- The loop of `_compute_returns`: the returns of the points whose timestamps parse. -/
def returnsFrom (iso : String → Option Stamp) : ℚ → List EquityPoint → List (Stamp × ℚ)
  | _, [] => []
  | prev, p :: ps =>
    let ret := if 0 < prev then (p.equity - prev) / prev else 0
    match iso p.timestamp with
    | some stamp => (stamp, ret) :: returnsFrom iso p.equity ps
    | none => returnsFrom iso p.equity ps

def returnsBy (key : Stamp → String) (returns : List (Stamp × ℚ)) : Dict String ℚ :=
  let sums := returns.foldl (fun (d : Dict String ℚ) r =>
    d.set (key r.1) ((d.get (key r.1)).getD 0 + r.2)) []
  sums.map fun e => (e.1, round2 (e.2 * 100))

end Curve

section Thinning

def largestTriangle (ys : ℕ → ℚ) (a : ℕ) (avgX avgY : ℚ) :
    List ℕ → ℕ × ℚ → ℕ
  | [], best => best.1
  | j :: js, best =>
    let area := |(ys a - avgY) * ((j : ℚ) - a) - (ys a - ys j) * (avgX - a)| * (1 / 2)
    largestTriangle ys a avgX avgY js (if best.2 < area then (j, area) else best)

/-- One round of the loop of `downsample_pairs`; the last point chosen is the first of the
list. -/
def thinStep (ys : ℕ → ℚ) (n : ℕ) (bucket : ℚ) (chosen : List ℕ × ℕ) (i : ℕ) : List ℕ × ℕ :=
  let avgStart := ⌊((i : ℚ) + 1) * bucket⌋.toNat + 1
  let avgEnd := min (⌊((i : ℚ) + 2) * bucket⌋.toNat + 1) n
  if avgEnd ≤ avgStart then chosen
  else
    let avgX : ℚ := ((avgStart : ℚ) + avgEnd - 1) / 2
    let avgY : ℚ := ((List.range' avgStart (avgEnd - avgStart)).map ys).sum / ((avgEnd : ℚ) - avgStart)
    let first := ⌊(i : ℚ) * bucket⌋.toNat + 1
    let last := min (⌊((i : ℚ) + 1) * bucket⌋.toNat + 1) (n - 1)
    let next := largestTriangle ys chosen.2 avgX avgY (List.range' first (last - first)) (first, -1)
    (chosen.1 ++ [next], next)

/-- `downsample_pairs`, the indices kept of `n` points. -/
def downsamplePairs (ys : ℕ → ℚ) (n threshold : ℕ) : List ℕ :=
  if n ≤ threshold then List.range n
  else
    let bucket : ℚ := ((n : ℚ) - 2) / ((threshold : ℚ) - 2)
    let chosen := (List.range (threshold - 2)).foldl (thinStep ys n bucket) ([0], 0)
    (chosen.1 ++ [n - 1]).dedup.insertionSort (· ≤ ·)

def maxEquityPoints : ℕ := 2000

def thinned (curve : List EquityPoint) : List EquityPoint :=
  if maxEquityPoints < curve.length then
    (downsamplePairs (fun i => ((curve[i]?).map EquityPoint.equity).getD 0) curve.length
      maxEquityPoints).filterMap fun i => curve[i]?
  else curve

end Thinning

def calculate (iso : String → Option Stamp) (snapshots : List Snapshot) (initialCapital : ℚ)
    (trades : List Trade) : BacktestReport :=
  let curve := equityCurve snapshots
  let endEquity := (curve.getLast?.map EquityPoint.equity).getD initialCapital
  let (curve, peak) := drawdowns { peak := initialCapital } curve
  let returns := returnsFrom iso initialCapital curve
  { trades := trades
    equityCurve := thinned curve
    startEquity := initialCapital
    endEquity := endEquity
    returnPct :=
      if 0 < initialCapital then round2 ((endEquity - initialCapital) / initialCapital * 100) else 0
    maxDrawdown := round2 peak.maxDd
    maxDrawdownPct := round2 peak.maxDdPct
    monthlyReturns := returnsBy Stamp.month returns
    dailyReturns := returnsBy Stamp.day returns }

end Trademetrix.Backtest

/-!
## Thinned curves

The points between the first and the last of a curve are dealt to buckets, whose
starts are floors of multiples of a rational length, and one point is kept of
each. A bucket that is longer than one point starts below the next, so the points
kept are in order and as many as were asked for.
-/

namespace Trademetrix.Backtest

/-- The first point of the `i`-th bucket. -/
def bucketStart (bucket : ℚ) (i : ℕ) : ℕ := ⌊(i : ℚ) * bucket⌋.toNat + 1

section Buckets

variable {bucket : ℚ}

theorem bucketStart_zero : bucketStart bucket 0 = 1 := by simp [bucketStart]

theorem bucketStart_lt_succ (hb : 1 ≤ bucket) (i : ℕ) :
    bucketStart bucket i < bucketStart bucket (i + 1) := by
  have hpos : 0 ≤ (i : ℚ) * bucket := mul_nonneg i.cast_nonneg (zero_le_one.trans hb)
  have hfloor : 0 ≤ ⌊(i : ℚ) * bucket⌋ := Int.floor_nonneg.mpr hpos
  have hstep : ⌊(i : ℚ) * bucket⌋ + 1 ≤ ⌊((i + 1 : ℕ) : ℚ) * bucket⌋ := by
    rw [← Int.floor_add_one]
    refine Int.floor_le_floor ?_
    push_cast
    linarith
  unfold bucketStart
  omega

theorem bucketStart_le (hb : 1 ≤ bucket) {i j : ℕ} (h : i ≤ j) :
    bucketStart bucket i ≤ bucketStart bucket j := by
  induction j, h using Nat.le_induction with
  | base => exact le_rfl
  | succ j _ ih => exact ih.trans (bucketStart_lt_succ hb j).le

theorem bucketStart_last {n k : ℕ} (hn : 2 ≤ n) (hk : 0 < k) :
    bucketStart (((n : ℚ) - 2) / k) k = n - 1 := by
  have hne : (k : ℚ) ≠ 0 := Nat.cast_ne_zero.mpr hk.ne'
  have hall : (k : ℚ) * (((n : ℚ) - 2) / k) = ((n - 2 : ℕ) : ℚ) := by
    rw [Nat.cast_sub hn]
    field_simp
    rfl
  unfold bucketStart
  rw [hall, Int.floor_natCast]
  omega

end Buckets

theorem largestTriangle_mem (ys : ℕ → ℚ) (a : ℕ) (avgX avgY : ℚ) (js : List ℕ) (best : ℕ × ℚ) :
    largestTriangle ys a avgX avgY js best = best.1 ∨
      largestTriangle ys a avgX avgY js best ∈ js := by
  induction js generalizing best with
  | nil => exact .inl rfl
  | cons j js ih =>
    unfold largestTriangle
    dsimp only
    split
    · rcases ih (j, |(ys a - avgY) * ((j : ℚ) - a) - (ys a - ys j) * (avgX - a)| * (1 / 2)) with
        heq | hmem
      · exact .inr (heq ▸ List.mem_cons_self)
      · exact .inr (List.mem_cons_of_mem j hmem)
    · rcases ih best with heq | hmem
      · exact .inl heq
      · exact .inr (List.mem_cons_of_mem j hmem)

section Rounds

variable {ys : ℕ → ℚ} {n k : ℕ} {bucket : ℚ}

theorem thinStep_eq (ys : ℕ → ℚ) (hb : 1 ≤ bucket) (hlast : bucketStart bucket k = n - 1) (hn : 0 < n)
    (chosen : List ℕ × ℕ) {i : ℕ} (hi : i < k) :
    ∃ next, thinStep ys n bucket chosen i = (chosen.1 ++ [next], next) ∧
      bucketStart bucket i ≤ next ∧ next < bucketStart bucket (i + 1) := by
  have hstart : ⌊((i : ℚ) + 1) * bucket⌋.toNat + 1 = bucketStart bucket (i + 1) := by
    rw [bucketStart, Nat.cast_succ]
  have hend : ⌊((i : ℚ) + 2) * bucket⌋.toNat + 1 = bucketStart bucket (i + 1 + 1) := by
    rw [bucketStart, Nat.cast_succ, Nat.cast_succ, add_assoc, one_add_one_eq_two]
  have hnext := bucketStart_lt_succ hb i
  have hover := bucketStart_lt_succ hb (i + 1)
  have hbelow : bucketStart bucket (i + 1) ≤ n - 1 := hlast ▸ bucketStart_le hb hi
  unfold thinStep
  rw [hstart, hend, if_neg (by omega)]
  refine ⟨_, rfl, ?_⟩
  rcases largestTriangle_mem ys chosen.2 _ _ _ _ with heq | hmem
  · rw [heq]
    exact ⟨le_rfl, hnext⟩
  · obtain ⟨hge, hlt⟩ := List.mem_range'_1.mp hmem
    change bucketStart bucket i ≤ _ at hge
    change _ < bucketStart bucket i + (min (bucketStart bucket (i + 1)) (n - 1) - bucketStart bucket i)
      at hlt
    exact ⟨hge, by omega⟩

/-- The points kept before the `i`-th bucket. -/
structure Kept (bucket : ℚ) (i : ℕ) (chosen : List ℕ) : Prop where
  length : chosen.length = i + 1
  sorted : chosen.Pairwise (· < ·)
  below : ∀ j ∈ chosen, j < bucketStart bucket i
  first : 0 ∈ chosen

theorem kept_start : Kept bucket 0 [0] where
  length := rfl
  sorted := List.pairwise_singleton _ _
  below := by simp [bucketStart_zero]
  first := List.mem_singleton_self 0

theorem Kept.add {i next : ℕ} {chosen : List ℕ} (h : Kept bucket i chosen)
    (hge : bucketStart bucket i ≤ next) (hlt : next < bucketStart bucket (i + 1)) :
    Kept bucket (i + 1) (chosen ++ [next]) where
  length := by rw [List.length_append, h.length, List.length_singleton]
  sorted := by
    refine List.pairwise_append.mpr ⟨h.sorted, List.pairwise_singleton _ _, fun j hj x hx => ?_⟩
    rw [List.mem_singleton.mp hx]
    exact (h.below j hj).trans_le hge
  below := by
    intro j hj
    rcases List.mem_append.mp hj with hj | hj
    · exact (h.below j hj).trans_le (hge.trans hlt.le)
    · rw [List.mem_singleton.mp hj]
      exact hlt
  first := List.mem_append_left _ h.first

theorem kept_rounds (ys : ℕ → ℚ) (hb : 1 ≤ bucket) (hlast : bucketStart bucket k = n - 1) (hn : 0 < n) {i : ℕ}
    (hi : i ≤ k) : Kept bucket i ((List.range i).foldl (thinStep ys n bucket) ([0], 0)).1 := by
  induction i with
  | zero => exact kept_start
  | succ i ih =>
    rw [List.range_succ, List.foldl_append, List.foldl_cons, List.foldl_nil]
    obtain ⟨next, heq, hge, hlt⟩ := thinStep_eq ys hb hlast hn
      ((List.range i).foldl (thinStep ys n bucket) ([0], 0)) hi
    rw [heq]
    exact (ih (Nat.le_of_succ_le hi)).add hge hlt

end Rounds

structure Thinned (n threshold : ℕ) (kept : List ℕ) : Prop where
  increasing : kept.Pairwise (· < ·)
  within : ∀ i ∈ kept, i < n
  all : n ≤ threshold → kept = List.range n
  exactly : threshold < n → kept.length = threshold
  ends : 0 < n → 0 ∈ kept ∧ n - 1 ∈ kept

theorem thinned_range {n threshold : ℕ} (h : n ≤ threshold) : Thinned n threshold (List.range n) where
  increasing := List.pairwise_lt_range
  within _ hi := List.mem_range.mp hi
  all _ := rfl
  exactly hlt := absurd h (not_le.mpr hlt)
  ends hn := ⟨List.mem_range.mpr hn, List.mem_range.mpr (by omega)⟩

/-- Of a series of any length `downsample_pairs` keeps as many points as asked for, in order. -/
theorem thinned_downsamplePairs (ys : ℕ → ℚ) (n : ℕ) {threshold : ℕ} (ht : 3 ≤ threshold) :
    Thinned n threshold (downsamplePairs ys n threshold) := by
  unfold downsamplePairs
  split
  · next h => exact thinned_range h
  · next h =>
    have hcast : (threshold : ℚ) - 2 = ((threshold - 2 : ℕ) : ℚ) := by
      rw [Nat.cast_sub (by omega)]
      rfl
    rw [hcast]
    have hlast := bucketStart_last (show 2 ≤ n by omega) (show 0 < threshold - 2 by omega)
    have hb : 1 ≤ ((n : ℚ) - 2) / (threshold - 2 : ℕ) := by
      rw [one_le_div (by exact_mod_cast (show 0 < threshold - 2 by omega)), ← hcast]
      have hle : (threshold : ℚ) ≤ n := by exact_mod_cast (not_le.mp h).le
      linarith
    have hkept := kept_rounds ys hb hlast (by omega) (le_refl (threshold - 2))
    dsimp only
    generalize ((List.range (threshold - 2)).foldl
      (thinStep ys n (((n : ℚ) - 2) / (threshold - 2 : ℕ))) ([0], 0)).1 = chosen at hkept ⊢
    have hbelow : ∀ j ∈ chosen, j < n - 1 := fun j hj => hlast ▸ hkept.below j hj
    have hsorted : (chosen ++ [n - 1]).Pairwise (· < ·) := by
      refine List.pairwise_append.mpr ⟨hkept.sorted, List.pairwise_singleton _ _, fun j hj x hx => ?_⟩
      rw [List.mem_singleton.mp hx]
      exact hbelow j hj
    have hnodup : (chosen ++ [n - 1]).Nodup := hsorted.imp fun hlt => hlt.ne
    rw [List.Nodup.dedup hnodup, List.Pairwise.insertionSort_eq (hsorted.imp fun hlt => hlt.le)]
    refine ⟨hsorted, fun i hi => ?_, fun hle => absurd hle h, fun _ => ?_, fun _ => ⟨?_, ?_⟩⟩
    · rcases List.mem_append.mp hi with hi | hi
      · have hlt := hbelow i hi
        omega
      · rw [List.mem_singleton.mp hi]
        omega
    · rw [List.length_append, hkept.length, List.length_singleton]
      omega
    · exact List.mem_append_left _ hkept.first
    · exact List.mem_append_right _ (List.mem_singleton_self _)

theorem thinned_curve : 3 ≤ maxEquityPoints ∧
    Thinned 4000 maxEquityPoints (downsamplePairs (fun i => i) 4000 maxEquityPoints) :=
  ⟨by decide, thinned_downsamplePairs _ _ (by decide)⟩

end Trademetrix.Backtest
