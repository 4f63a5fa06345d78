import Mathlib.Data.List.Sort
import Mathlib.Data.List.Nodup
import Mathlib.Data.List.Chain
import Trademetrix.Backtest.CorporateActions
import Trademetrix.Keyed

/-!
# Continuous futures

`_stitch` puts the series of the monthly contracts together. A contract goes out from
where the one before it ends, its prices scaled by a factor that each contract changes
by the last close of the one before over its own first, which is weeks earlier when
the series overlap. The first contract is left as it is.
-/

namespace Trademetrix.Backtest

/-- A candle of a contract. The UTC texts by which the candles are sorted in the end are in the order
of the times. -/
structure Bar where
  ts : ℤ
  interval : String := "15m"
  openPrice : ℚ
  high : ℚ
  low : ℚ
  close : ℚ
  deriving DecidableEq

structure ContractSeries where
  candles : List Bar
  nonempty : candles ≠ []
  increasing : candles.Pairwise fun a b => a.ts < b.ts

namespace ContractSeries

variable (c : ContractSeries)

def first : Bar := c.candles.head c.nonempty

def last : Bar := c.candles.getLast c.nonempty

end ContractSeries

def Bar.scaled (b : Bar) (adj : ℚ) : Bar :=
  if adj = 1 then b
  else
    { b with
      openPrice := round4 (b.openPrice * adj)
      high := round4 (b.high * adj)
      low := round4 (b.low * adj)
      close := round4 (b.close * adj) }

structure Roll where
  contract : ContractSeries
  adj : ℚ
  taken : List Bar

def Closes (old new : ContractSeries) : Prop := 0 < new.first.close ∧ 0 < old.last.close

instance (old new : ContractSeries) : Decidable (Closes old new) := inferInstanceAs (Decidable (_ ∧ _))

def rollRatio (old new : ContractSeries) : ℚ := if Closes old new then old.last.close / new.first.close else 1

def rollsFrom (prev : ContractSeries) (adj : ℚ) : List ContractSeries → List Roll
  | [] => []
  | new :: rest =>
    let adj' := adj * rollRatio prev new
    ⟨new, adj', new.candles.filter fun b => prev.last.ts < b.ts⟩ :: rollsFrom new adj' rest

def byContract (segments : List ContractSeries) : List ContractSeries :=
  segments.insertionSort fun a b => a.first.ts ≤ b.first.ts

def rolls (startDt : ℤ) (segments : List ContractSeries) : List Roll :=
  match byContract segments with
  | [] => []
  | c :: rest => ⟨c, 1, c.candles.filter fun b => startDt ≤ b.ts⟩ :: rollsFrom c 1 rest

def rollDatesFrom (prev : ContractSeries) (adj : ℚ) : List ContractSeries → List (ℤ × ℚ)
  | [] => []
  | new :: rest =>
    let adj' := adj * rollRatio prev new
    let later := rollDatesFrom new adj' rest
    if Closes prev new then (prev.last.ts / dayLength, Text.roundHalfEven (adj' * 1000000) / 1000000) :: later
    else later

def rollDates (segments : List ContractSeries) : List (ℤ × ℚ) :=
  match byContract segments with
  | [] => []
  | c :: rest => rollDatesFrom c 1 rest

structure StitchedBar where
  bar : Bar
  rollDates : Option (List (ℤ × ℚ)) := none
  deriving DecidableEq

def noteRolls (dates : List (ℤ × ℚ)) : List Bar → List StitchedBar
  | [] => []
  | [b] => [⟨b, some dates⟩]
  | b :: c :: bars => ⟨b, none⟩ :: noteRolls dates (c :: bars)

/-- The margin of `_trim_range`, of the interval of the first candle. -/
def trimMargin (bars : List Bar) : ℤ :=
  match bars with
  | [] => 0
  | b :: _ => intervalLength b.interval

def stitched (startDt : ℤ) (segments : List ContractSeries) : List Bar :=
  ((rolls startDt segments).flatMap fun r => r.taken.map fun b => b.scaled r.adj).insertionSort
    fun a b => a.ts ≤ b.ts

def stitch (segments : List ContractSeries) (startDt endDt : ℤ) : List StitchedBar :=
  let out := stitched startDt segments
  let margin := trimMargin out
  (noteRolls (rollDates segments) out).filter fun b =>
    inRange b.bar.ts b.bar.interval (startDt - margin) (endDt + margin)

end Trademetrix.Backtest

/-!
# Back-adjustment

A back-adjusted series leaves the newest contract as it is, and at the last candle of
a contract the scaled closes of it and of the next are the same. With the code's
factors this asks that the contracts open at the closes they have at the roll, and
that the ratios come to one.
-/

namespace Trademetrix.Backtest

/-- The result is in order, the factor of the newest contract is one, and at each roll the factors
are in the ratio of the closes of the two contracts at that time. -/
structure BackAdjusted (segments : List ContractSeries) (startDt endDt : ℤ) : Prop where
  increasing : (stitch segments startDt endDt).Pairwise fun a b => a.bar.ts < b.bar.ts
  newest : ∀ r ∈ (rolls startDt segments).getLast?, r.adj = 1
  atRolls : (rolls startDt segments).IsChain fun old new =>
    ∀ b ∈ new.contract.candles, b.ts = old.contract.last.ts →
      new.adj * b.close = old.adj * old.contract.last.close

def isWithin (segments : List ContractSeries) (startDt endDt : ℤ) (b : Bar) : Bool :=
  inRange b.ts b.interval (startDt - trimMargin (stitched startDt segments))
    (endDt + trimMargin (stitched startDt segments))

def ratios : List ContractSeries → ℚ
  | old :: new :: rest => rollRatio old new * ratios (new :: rest)
  | _ => 1

/-- No time is taken of two contracts, the ratios come to one, and at the end of a contract the next
has the close it began with. -/
structure LevelRolls (segments : List ContractSeries) (startDt endDt : ℤ) : Prop where
  apart : (rolls startDt segments).Pairwise fun r r' => ∀ a ∈ r.taken, ∀ b ∈ r'.taken,
    isWithin segments startDt endDt a → isWithin segments startDt endDt b → a.ts ≠ b.ts
  level : ratios (byContract segments) = 1
  met : (byContract segments).IsChain fun old new => ∀ b ∈ new.candles, b.ts = old.last.ts →
    b.close = if Closes old new then new.first.close else old.last.close

variable {segments : List ContractSeries} {startDt endDt : ℤ} {prev old new : ContractSeries} {adj : ℚ}
  {rest : List ContractSeries} {taken : List Bar}

section Factors

theorem rollRatio_pos (old new : ContractSeries) : 0 < rollRatio old new := by
  unfold rollRatio
  split
  · next h => exact div_pos h.2 h.1
  · exact one_pos

theorem scaled_close_iff (hadj : adj ≠ 0) (x : ℚ) :
    adj * rollRatio old new * x = adj * old.last.close ↔
      x = if Closes old new then new.first.close else old.last.close := by
  rw [mul_assoc, mul_right_inj' hadj, rollRatio]
  split
  · next h =>
    have hold : old.last.close ≠ 0 := h.2.ne'
    have hnew : new.first.close ≠ 0 := h.1.ne'
    rw [div_mul_eq_mul_div, div_eq_iff hnew, mul_right_inj' hold]
  · rw [one_mul]

theorem last_adj (prev : ContractSeries) (adj : ℚ) (taken : List Bar) (rest : List ContractSeries) :
    (((⟨prev, adj, taken⟩ : Roll) :: rollsFrom prev adj rest).getLast?).map Roll.adj =
      some (adj * ratios (prev :: rest)) := by
  induction rest generalizing prev adj taken with
  | nil => simp [rollsFrom, ratios]
  | cons new rest ih =>
    rw [rollsFrom, List.getLast?_cons_cons, ih, ratios, mul_assoc]

theorem newest_iff :
    (∀ r ∈ (rolls startDt segments).getLast?, r.adj = 1) ↔ ratios (byContract segments) = 1 := by
  unfold rolls
  cases byContract segments with
  | nil => simp [ratios]
  | cons c rest =>
    have hlast := last_adj c 1 (c.candles.filter fun b => startDt ≤ b.ts) rest
    rw [one_mul] at hlast
    obtain ⟨r, hr, hadj⟩ := Option.map_eq_some_iff.mp hlast
    simp only [hr, Option.mem_def, Option.some.injEq, forall_eq', hadj]

theorem rollsFrom_isChain_iff (hadj : adj ≠ 0) :
    ((⟨prev, adj, taken⟩ : Roll) :: rollsFrom prev adj rest).IsChain (fun old new =>
        ∀ b ∈ new.contract.candles, b.ts = old.contract.last.ts →
          new.adj * b.close = old.adj * old.contract.last.close) ↔
      (prev :: rest).IsChain fun old new => ∀ b ∈ new.candles, b.ts = old.last.ts →
        b.close = if Closes old new then new.first.close else old.last.close := by
  induction rest generalizing prev adj taken with
  | nil => simp [rollsFrom]
  | cons new rest ih =>
    rw [rollsFrom, List.isChain_cons_cons, List.isChain_cons_cons,
      ih (mul_ne_zero hadj (rollRatio_pos prev new).ne')]
    simp only [scaled_close_iff hadj]

theorem atRolls_iff :
    (rolls startDt segments).IsChain (fun old new => ∀ b ∈ new.contract.candles,
        b.ts = old.contract.last.ts → new.adj * b.close = old.adj * old.contract.last.close) ↔
      (byContract segments).IsChain fun old new => ∀ b ∈ new.candles, b.ts = old.last.ts →
        b.close = if Closes old new then new.first.close else old.last.close := by
  unfold rolls
  cases byContract segments with
  | nil => simp
  | cons c rest => exact rollsFrom_isChain_iff one_ne_zero

end Factors

section Times

theorem Bar.scaled_ts (b : Bar) (adj : ℚ) : (b.scaled adj).ts = b.ts := by
  unfold scaled
  split <;> rfl

theorem Bar.scaled_interval (b : Bar) (adj : ℚ) : (b.scaled adj).interval = b.interval := by
  unfold scaled
  split <;> rfl

theorem map_bar_noteRolls (dates : List (ℤ × ℚ)) (bars : List Bar) :
    (noteRolls dates bars).map StitchedBar.bar = bars := by
  induction bars with
  | nil => rfl
  | cons b bars ih =>
    cases bars with
    | nil => rfl
    | cons c bars => rw [noteRolls, List.map_cons, ih]

theorem taken_increasing {r : Roll} (hr : r ∈ rolls startDt segments) :
    r.taken.Pairwise fun a b => a.ts < b.ts := by
  have hfrom : ∀ (prev : ContractSeries) (adj : ℚ) (rest : List ContractSeries),
      ∀ r ∈ rollsFrom prev adj rest, r.taken.Pairwise fun a b => a.ts < b.ts := by
    intro prev adj rest
    induction rest generalizing prev adj with
    | nil => simp [rollsFrom]
    | cons new rest ih =>
      rw [rollsFrom, List.forall_mem_cons]
      exact ⟨new.increasing.filter _, ih new _⟩
  unfold rolls at hr
  split at hr
  · cases hr
  · next c rest _ =>
    obtain rfl | hr := List.mem_cons.mp hr
    · exact c.increasing.filter _
    · exact hfrom c 1 rest r hr

theorem isWithin_scaled (b : Bar) (adj : ℚ) :
    isWithin segments startDt endDt (b.scaled adj) = isWithin segments startDt endDt b := by
  rw [isWithin, isWithin, Bar.scaled_ts, Bar.scaled_interval]

def Roll.times (segments : List ContractSeries) (startDt endDt : ℤ) (r : Roll) : List ℤ :=
  (r.taken.filter (isWithin segments startDt endDt)).map Bar.ts

theorem map_bar_stitch : (stitch segments startDt endDt).map StitchedBar.bar =
    (stitched startDt segments).filter (isWithin segments startDt endDt) := by
  rw [← map_bar_noteRolls (rollDates segments) (stitched startDt segments), List.filter_map]
  rfl

theorem map_ts_stitch :
    ((stitch segments startDt endDt).map fun b => b.bar.ts).Perm
      ((rolls startDt segments).flatMap (Roll.times segments startDt endDt)) := by
  have hbars : ((stitch segments startDt endDt).map fun b => b.bar.ts) =
      ((stitched startDt segments).filter (isWithin segments startDt endDt)).map Bar.ts := by
    rw [← map_bar_stitch, List.map_map]
    rfl
  have hscaled : ∀ r : Roll, ((r.taken.map fun b => b.scaled r.adj).filter
      (isWithin segments startDt endDt)).map Bar.ts = r.times segments startDt endDt := by
    intro r
    rw [List.filter_map, List.map_map, Roll.times]
    have hfilter : isWithin segments startDt endDt ∘ (fun b : Bar => b.scaled r.adj) =
        isWithin segments startDt endDt := funext fun b => isWithin_scaled b r.adj
    rw [hfilter]
    exact List.map_congr_left fun b _ => b.scaled_ts r.adj
  rw [hbars]
  refine (((List.perm_insertionSort _ _).filter _).map _).trans ?_
  rw [List.filter_flatMap, List.map_flatMap]
  simp only [hscaled]
  exact List.Perm.refl _

theorem stitch_ordered : (stitch segments startDt endDt).Pairwise fun a b => a.bar.ts ≤ b.bar.ts := by
  have hsorted : ((stitch segments startDt endDt).map StitchedBar.bar).Pairwise fun a b => a.ts ≤ b.ts := by
    rw [map_bar_stitch]
    exact (List.pairwise_insertionSort (fun a b : Bar => a.ts ≤ b.ts) _).filter _
  rw [List.pairwise_map] at hsorted
  exact hsorted

theorem increasing_iff :
    (stitch segments startDt endDt).Pairwise (fun a b => a.bar.ts < b.bar.ts) ↔
      (rolls startDt segments).Pairwise fun r r' => ∀ a ∈ r.taken, ∀ b ∈ r'.taken,
        isWithin segments startDt endDt a → isWithin segments startDt endDt b → a.ts ≠ b.ts := by
  rw [pairwise_lt_iff_nodup stitch_ordered, map_ts_stitch.nodup_iff, List.nodup_flatMap]
  have hnodup : ∀ r ∈ rolls startDt segments, (r.times segments startDt endDt).Nodup := by
    intro r hr
    have hlt := (taken_increasing hr).filter (isWithin segments startDt endDt)
    exact (pairwise_lt_iff_nodup (hlt.imp le_of_lt)).mp hlt
  rw [and_iff_right hnodup]
  refine Iff.of_eq (congrArg (List.Pairwise · _) (funext₂ fun r r' => propext ?_))
  simp only [Function.onFun, List.disjoint_left, Roll.times, List.mem_map, List.mem_filter]
  constructor
  · intro h a ha b hb hina hinb heq
    exact h ⟨a, ⟨ha, hina⟩, rfl⟩ ⟨b, ⟨hb, hinb⟩, heq.symm⟩
  · rintro h t ⟨a, ⟨ha, hina⟩, rfl⟩ ⟨b, ⟨hb, hinb⟩, heq⟩
    exact h a ha b hb hina hinb heq.symm

end Times

/-- The stitched series is back-adjusted just if the rolls are level. -/
theorem backAdjusted_iff (segments : List ContractSeries) (startDt endDt : ℤ) :
    BackAdjusted segments startDt endDt ↔ LevelRolls segments startDt endDt where
  mp h := ⟨increasing_iff.mp h.increasing, newest_iff.mp h.newest, atRolls_iff.mp h.atRolls⟩
  mpr h := ⟨increasing_iff.mpr h.apart, newest_iff.mpr h.level, atRolls_iff.mpr h.met⟩

section Counterexample

def dailyBar (day : ℤ) (price : ℚ) : Bar :=
  { ts := day * dayLength, interval := "1d", openPrice := price, high := price, low := price, close := price }

def august : ContractSeries where
  candles := [dailyBar 20690 100, dailyBar 20691 110, dailyBar 20692 120]
  nonempty := by simp
  increasing := by decide

def september : ContractSeries where
  candles := [dailyBar 20691 220, dailyBar 20692 240, dailyBar 20693 250]
  nonempty := by simp
  increasing := by decide

def short : ContractSeries where
  candles := [dailyBar 20691 100]
  nonempty := by simp
  increasing := by decide

/-- The factor of the newer contract is 6/11, of the close of the 20692nd day over that of the day
before; and after a shorter contract the times of the two longer ones come twice. -/
theorem overlap_not_backAdjusted :
    ¬BackAdjusted [august, september] (20690 * dayLength) (20700 * dayLength) ∧
    ¬BackAdjusted [august, short, september] (20690 * dayLength) (20700 * dayLength) := by
  constructor <;> intro h
  · have hnewest := h.newest
    revert hnewest
    decide +kernel
  · have hincreasing := h.increasing
    revert hincreasing
    decide +kernel

end Counterexample

end Trademetrix.Backtest
