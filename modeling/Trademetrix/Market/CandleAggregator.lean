import Mathlib.Algebra.Order.Field.Rat
import Mathlib.Data.Int.Notation
import Mathlib.Data.List.Sort
import Mathlib.Order.Bounds.Basic
import Trademetrix.Calendar
import Trademetrix.Turns

/-!
# The candle aggregator

`CandleAggregator` gathers ticks into candles. A tick of another period, later or earlier, closes
the candle at hand and opens one of its own. Of a timestamp only the whole seconds matter.
-/

namespace Trademetrix.Market

structure AggregatedTick where
  seconds : ℕ
  lastPrice : ℚ
  volume : ℤ := 0
  oi : ℤ := 0

/-- `start` is the moment that `timestamp` names; a `low` that is `none` is infinite. -/
structure AggregatedCandle where
  symbol : String
  interval : String
  start : ℕ
  timestamp : String
  open_ : ℚ
  high : ℚ
  low : Option ℚ
  close : ℚ
  volume : ℤ
  oi : ℤ
  deriving DecidableEq

/-- `CANDLE_INTERVAL_SECONDS.get(interval, 900)` -/
def candleIntervalSeconds (interval : String) : ℕ :=
  if interval = "1m" then 60
  else if interval = "5m" then 300
  else if interval = "15m" then 900
  else if interval = "30m" then 1800
  else if interval = "60m" then 3600
  else 900

structure CandleAggregator where
  symbol : String
  intervalSeconds : ℕ
  open_ : ℚ := 0
  high : ℚ := 0
  low : Option ℚ := none
  close : ℚ := 0
  volume : ℤ := 0
  oi : ℤ := 0
  periodStart : ℕ := 0
  count : ℕ := 0

namespace CandleAggregator

def new (symbol interval : String) : CandleAggregator :=
  { symbol, intervalSeconds := candleIntervalSeconds interval }

def buildCandle (a : CandleAggregator) : AggregatedCandle where
  symbol := a.symbol
  interval :=
    if 60 ≤ a.intervalSeconds then toString (a.intervalSeconds / 60) ++ "m"
    else toString a.intervalSeconds ++ "s"
  start := a.periodStart
  timestamp := isoUtc a.periodStart
  open_ := a.open_
  high := a.high
  low := a.low
  close := a.close
  volume := a.volume
  oi := a.oi

def addTick (a : CandleAggregator) (tick : AggregatedTick) :
    CandleAggregator × Option AggregatedCandle :=
  let period := tick.seconds / a.intervalSeconds * a.intervalSeconds
  let a := if a.periodStart = 0 then { a with periodStart := period, open_ := tick.lastPrice } else a
  if period ≠ a.periodStart then
    ({ a with
      periodStart := period
      open_ := tick.lastPrice
      high := tick.lastPrice
      low := some tick.lastPrice
      close := tick.lastPrice
      volume := tick.volume
      oi := tick.oi
      count := 1 }, some a.buildCandle)
  else
    ({ a with
      high := max a.high tick.lastPrice
      low := some (match a.low with
        | some low => min low tick.lastPrice
        | none => tick.lastPrice)
      close := tick.lastPrice
      volume := a.volume + tick.volume
      oi := if tick.oi ≠ 0 then tick.oi else a.oi
      count := a.count + 1 }, none)

end CandleAggregator

end Trademetrix.Market

/-!
# The ticks of a candle

A candle is closed by the first tick of another period. Beside it stand here the
ticks that were handed over for it; they are those of its period as long as the
periods that are closed come one after another, each once, and after the first.
-/

namespace Trademetrix.Market

def AggregatedTick.period (n : ℕ) (tick : AggregatedTick) : ℕ := tick.seconds / n * n

structure AggregatedCandle.Sums (c : AggregatedCandle) (ts : List AggregatedTick) : Prop where
  open_ : (ts.map AggregatedTick.lastPrice).head? = some c.open_
  high : IsGreatest {x | x ∈ ts.map AggregatedTick.lastPrice} c.high
  low : ∃ low, c.low = some low ∧ IsLeast {x | x ∈ ts.map AggregatedTick.lastPrice} low
  close : (ts.map AggregatedTick.lastPrice).getLast? = some c.close
  volume : c.volume = (ts.map AggregatedTick.volume).sum

namespace CandleAggregator

/-- The candles that ticks close, each with the ticks handed over since the one before; `batch` are
those handed over already. -/
def candles (a : CandleAggregator) (batch : List AggregatedTick) :
    List AggregatedTick → List (AggregatedCandle × List AggregatedTick)
  | [] => []
  | tick :: ticks =>
    match a.addTick tick with
    | (a, none) => candles a (batch ++ [tick]) ticks
    | (a, some c) => (c, batch) :: candles a [tick] ticks

structure Groups (n : ℕ) (ticks : List AggregatedTick)
    (out : List (AggregatedCandle × List AggregatedTick)) : Prop where
  increasing : (out.map fun x => x.1.start).Pairwise (· < ·)
  sums : ∀ x ∈ out, x.1.Sums (ticks.filter fun t => t.period n = x.1.start)
  exact : ∀ x ∈ out, x.2 = ticks.filter fun t => t.period n = x.1.start
  once : ∀ p, Passed (AggregatedTick.period n) ticks p →
    (out.flatMap Prod.snd).filter (fun t => t.period n = p) = ticks.filter fun t => t.period n = p

def periods (n : ℕ) (ticks : List AggregatedTick) : List ℕ :=
  keys (AggregatedTick.period n) (turns (AggregatedTick.period n) ticks)

def closedPeriods (n : ℕ) (ticks : List AggregatedTick) : List ℕ :=
  keys (AggregatedTick.period n) (turns (AggregatedTick.period n) ticks).dropLast

/-- No period is closed after a later one, the first one of 1970 is not closed, and none comes up
twice. -/
def InTurn (n : ℕ) (ticks : List AggregatedTick) : Prop :=
  (closedPeriods n ticks).Pairwise (· < ·) ∧ 0 ∉ closedPeriods n ticks ∧ (periods n ticks).Nodup

def taken (a : CandleAggregator) (tick : AggregatedTick) : CandleAggregator :=
  { a with
    high := max a.high tick.lastPrice
    low := some (match a.low with
      | some low => min low tick.lastPrice
      | none => tick.lastPrice)
    close := tick.lastPrice
    volume := a.volume + tick.volume
    oi := if tick.oi ≠ 0 then tick.oi else a.oi
    count := a.count + 1 }

def opened (a : CandleAggregator) (tick : AggregatedTick) : CandleAggregator :=
  { a with
    periodStart := tick.period a.intervalSeconds
    open_ := tick.lastPrice
    high := tick.lastPrice
    low := some tick.lastPrice
    close := tick.lastPrice
    volume := tick.volume
    oi := tick.oi
    count := 1 }

variable {n p : ℕ} {a : CandleAggregator} {batch ticks : List AggregatedTick} {tick : AggregatedTick}

theorem addTick_same (h : a.periodStart ≠ 0) (hp : tick.period a.intervalSeconds = a.periodStart) :
    a.addTick tick = (a.taken tick, none) := by
  rw [AggregatedTick.period] at hp
  unfold addTick
  dsimp only
  rw [if_neg h, if_neg (not_not.mpr hp)]
  rfl

theorem addTick_other (h : a.periodStart ≠ 0) (hp : tick.period a.intervalSeconds ≠ a.periodStart) :
    a.addTick tick = (a.opened tick, some a.buildCandle) := by
  rw [AggregatedTick.period] at hp
  simp [addTick, h, hp, opened, AggregatedTick.period]

theorem addTick_first (h : a.periodStart = 0) :
    a.addTick tick = (taken { a with
      periodStart := tick.period a.intervalSeconds, open_ := tick.lastPrice } tick, none) := by
  unfold addTick
  dsimp only
  rw [if_pos h, if_neg (not_not.mpr rfl)]
  rfl

theorem start_ne_zero (a : CandleAggregator) (batch ticks : List AggregatedTick) :
    ∀ x ∈ a.candles batch ticks, x.1.start ≠ 0 := by
  induction ticks generalizing a batch with
  | nil => exact List.forall_mem_nil _
  | cons tick ticks ih =>
    by_cases h : a.periodStart = 0
    · rw [candles, addTick_first h]
      exact ih _ _
    · by_cases hp : tick.period a.intervalSeconds = a.periodStart
      · rw [candles, addTick_same h hp]
        exact ih _ _
      · rw [candles, addTick_other h hp]
        exact List.forall_mem_cons.mpr ⟨h, ih _ _⟩

section Holding

structure Holds (n p : ℕ) (a : CandleAggregator) (batch : List AggregatedTick) : Prop where
  interval : a.intervalSeconds = n
  start : a.periodStart = p
  ticks : ∀ t ∈ batch, t.period n = p
  sums : a.buildCandle.Sums batch

theorem Holds.ne_nil (h : Holds n p a batch) : batch ≠ [] := by
  rintro rfl
  have hopen := h.sums.open_
  simp at hopen

theorem holds_opened (a : CandleAggregator) (tick : AggregatedTick) :
    Holds a.intervalSeconds (tick.period a.intervalSeconds) (a.opened tick) [tick] where
  interval := rfl
  start := rfl
  ticks := by simp
  sums :=
    { open_ := rfl
      high := by simp [buildCandle, opened]
      low := ⟨tick.lastPrice, rfl, by simp⟩
      close := rfl
      volume := by simp [buildCandle, opened] }

theorem holds_first (symbol interval : String) (hprice : 0 < tick.lastPrice) :
    Holds (candleIntervalSeconds interval) (tick.period (candleIntervalSeconds interval))
      (taken { new symbol interval with
        periodStart := tick.period (candleIntervalSeconds interval)
        open_ := tick.lastPrice } tick) [tick] where
  interval := rfl
  start := rfl
  ticks := by simp
  sums :=
    { open_ := rfl
      high := by simp [buildCandle, taken, new, max_eq_right hprice.le]
      low := ⟨tick.lastPrice, rfl, by simp⟩
      close := rfl
      volume := by simp [buildCandle, taken, new] }

theorem prices_append (batch : List AggregatedTick) (tick : AggregatedTick) :
    {x | x ∈ (batch ++ [tick]).map AggregatedTick.lastPrice} =
      insert tick.lastPrice {x | x ∈ batch.map AggregatedTick.lastPrice} := by
  ext x
  simp only [List.map_append, List.mem_append, List.map_cons, List.map_nil, List.mem_singleton,
    Set.mem_ofPred_eq, Set.mem_insert_iff, or_comm]

theorem Holds.taken (h : Holds n p a batch) (htick : tick.period n = p) :
    Holds n p (a.taken tick) (batch ++ [tick]) where
  interval := h.interval
  start := h.start
  ticks t ht := by
    rcases List.mem_append.mp ht with ht | ht
    · exact h.ticks t ht
    · exact List.mem_singleton.mp ht ▸ htick
  sums :=
    { open_ := by
        rw [List.map_append, List.head?_append, h.sums.open_]
        rfl
      high := by
        rw [prices_append]
        change IsGreatest _ (max a.high tick.lastPrice)
        rw [max_comm]
        exact h.sums.high.insert tick.lastPrice
      low := by
        obtain ⟨low, hlow, hleast⟩ := h.sums.low
        refine ⟨min low tick.lastPrice, ?_, ?_⟩
        · change a.low = some low at hlow
          simp only [buildCandle, CandleAggregator.taken, hlow]
        · rw [prices_append, min_comm]
          exact hleast.insert tick.lastPrice
      close := by simp [buildCandle, CandleAggregator.taken]
      volume := by
        have hvolume := h.sums.volume
        simp only [buildCandle, CandleAggregator.taken, List.map_append, List.sum_append, List.map_cons,
          List.map_nil, List.sum_singleton] at hvolume ⊢
        rw [hvolume] }

theorem candles_zero (h : a.periodStart = 0) (hticks : ∀ t ∈ ticks, t.period a.intervalSeconds = 0)
    (batch : List AggregatedTick) : a.candles batch ticks = [] := by
  induction ticks generalizing a batch with
  | nil => rfl
  | cons tick ticks ih =>
    obtain ⟨htick, hrest⟩ := List.forall_mem_cons.mp hticks
    have hnext : (taken { a with
        periodStart := tick.period a.intervalSeconds, open_ := tick.lastPrice } tick).periodStart = 0 := htick
    rw [candles, addTick_first h]
    exact ih hnext hrest _

theorem Holds.candles (h : Holds n p a batch)
    (hzero : 0 ∉ closedPeriods n (batch ++ ticks)) :
    (a.candles batch ticks).map Prod.snd = (turns (AggregatedTick.period n) (batch ++ ticks)).dropLast ∧
      ∀ x ∈ a.candles batch ticks, x.1.Sums x.2 ∧ ∀ t ∈ x.2, t.period n = x.1.start := by
  induction ticks generalizing a batch p with
  | nil =>
    rw [List.append_nil, turns_of_forall_key h.ne_nil h.ticks]
    exact ⟨rfl, List.forall_mem_nil _⟩
  | cons tick ticks ih =>
    by_cases hp : p = 0
    · -- the batch is of the period at 0, and so is all that follows
      subst hp
      have hall : ∀ t ∈ tick :: ticks, t.period n = 0 := by
        by_contra hother
        push Not at hother
        obtain ⟨t, ht, hne⟩ := hother
        obtain ⟨first, hfirst⟩ := List.exists_mem_of_ne_nil batch h.ne_nil
        exact hzero (passed_iff.mp ⟨batch, tick :: ticks, rfl, ⟨first, hfirst, h.ticks first hfirst⟩, t, ht, hne⟩)
      have hturns : turns (AggregatedTick.period n) (batch ++ tick :: ticks) = [batch ++ tick :: ticks] := by
        refine turns_of_forall_key (k := 0) (by simp) fun t ht => ?_
        exact (List.mem_append.mp ht).elim (h.ticks t) (hall t)
      rw [hturns, candles_zero h.start (h.interval ▸ hall)]
      exact ⟨rfl, List.forall_mem_nil _⟩
    · have hstart : a.periodStart ≠ 0 := h.start ▸ hp
      by_cases htick : tick.period n = p
      · have hsame : tick.period a.intervalSeconds = a.periodStart := by
          rw [h.interval, h.start, htick]
        rw [CandleAggregator.candles, addTick_same hstart hsame]
        have hsplit : batch ++ tick :: ticks = (batch ++ [tick]) ++ ticks := by simp
        rw [hsplit] at hzero ⊢
        exact ih (h.taken htick) hzero
      · have hother : tick.period a.intervalSeconds ≠ a.periodStart := by
          rw [h.interval, h.start]
          exact htick
        have hopened : Holds n (tick.period n) (a.opened tick) [tick] := h.interval ▸ holds_opened a tick
        rw [CandleAggregator.candles, addTick_other hstart hother]
        rw [closedPeriods] at hzero
        rw [turns_append_cons h.ne_nil h.ticks htick, List.dropLast_cons_of_ne_nil (turns_ne_nil _ _)]
          at hzero ⊢
        rw [keys_cons h.ne_nil h.ticks, List.mem_cons, not_or] at hzero
        obtain ⟨hbatches, hsums⟩ := ih hopened hzero.2
        refine ⟨congrArg (batch :: ·) hbatches, List.forall_mem_cons.mpr ⟨⟨h.sums, ?_⟩, hsums⟩⟩
        intro t ht
        exact (h.ticks t ht).trans h.start.symm

end Holding

section Grouping

variable {symbol interval : String}

theorem candles_new (symbol : String) (hprice : ∀ t ∈ ticks, 0 < t.lastPrice)
    (hzero : 0 ∉ closedPeriods (candleIntervalSeconds interval) ticks) :
    ((new symbol interval).candles [] ticks).map Prod.snd =
        (turns (AggregatedTick.period (candleIntervalSeconds interval)) ticks).dropLast ∧
      ∀ x ∈ (new symbol interval).candles [] ticks,
        x.1.Sums x.2 ∧ ∀ t ∈ x.2, t.period (candleIntervalSeconds interval) = x.1.start := by
  cases ticks with
  | nil => exact ⟨rfl, List.forall_mem_nil _⟩
  | cons tick ticks =>
    rw [candles, addTick_first rfl]
    exact (holds_first symbol interval (hprice tick List.mem_cons_self)).candles hzero

theorem keys_batches {n : ℕ} {out : List (AggregatedCandle × List AggregatedTick)}
    (h : ∀ x ∈ out, x.2 ≠ [] ∧ ∀ t ∈ x.2, t.period n = x.1.start) :
    keys (AggregatedTick.period n) (out.map Prod.snd) = out.map fun x => x.1.start := by
  induction out with
  | nil => rfl
  | cons x out ih =>
    obtain ⟨⟨hne, hx⟩, hout⟩ := List.forall_mem_cons.mp h
    rw [List.map_cons, keys_cons hne hx, ih hout, List.map_cons]

variable {out : List (AggregatedCandle × List AggregatedTick)}

theorem Groups.zero_notMem (h : Groups n ticks out) (hstarts : ∀ x ∈ out, x.1.start ≠ 0) :
    0 ∉ closedPeriods n ticks := by
  intro hmem
  have hpassed : Passed (AggregatedTick.period n) ticks 0 := passed_iff.mpr hmem
  have ⟨us, vs, hticks, ⟨t, ht, hzero⟩, _⟩ := hpassed
  have hin : t ∈ ticks.filter fun t => t.period n = 0 :=
    List.mem_filter.mpr ⟨hticks ▸ List.mem_append_left _ ht, decide_eq_true hzero⟩
  rw [← h.once 0 hpassed, List.mem_filter, List.mem_flatMap] at hin
  obtain ⟨⟨x, hx, htx⟩, -⟩ := hin
  rw [h.exact x hx, List.mem_filter] at htx
  exact hstarts x hx ((of_decide_eq_true htx.2).symm.trans hzero)

section Batches

variable (hbatches : out.map Prod.snd = (turns (AggregatedTick.period n) ticks).dropLast)
  (hsums : ∀ x ∈ out, x.1.Sums x.2 ∧ ∀ t ∈ x.2, t.period n = x.1.start)

include hbatches hsums

theorem starts_eq : out.map (fun x => x.1.start) = closedPeriods n ticks := by
  rw [closedPeriods, ← hbatches]
  refine (keys_batches fun x hx => ⟨?_, (hsums x hx).2⟩).symm
  have hmem : x.2 ∈ (turns (AggregatedTick.period n) ticks).dropLast := hbatches ▸ List.mem_map_of_mem hx
  exact (keyed_turns _ _ _ ((List.dropLast_sublist _).subset hmem)).1

theorem groups_of_inTurn (h : InTurn n ticks) : Groups n ticks out := by
  obtain ⟨hincreasing, -, hnodup⟩ := h
  have hkeyed := keyed_turns (AggregatedTick.period n) ticks
  have hexact : ∀ x ∈ out, x.2 = ticks.filter fun t => t.period n = x.1.start := by
    intro x hx
    have hmem : x.2 ∈ turns (AggregatedTick.period n) ticks :=
      (List.dropLast_sublist _).subset (hbatches ▸ List.mem_map_of_mem hx)
    have hfilter := filter_of_nodup_keys hkeyed hnodup hmem (hsums x hx).2
    rw [flatten_turns] at hfilter
    exact hfilter.symm
  refine ⟨?_, fun x hx => hexact x hx ▸ (hsums x hx).1, hexact, fun p hpassed => ?_⟩
  · rw [starts_eq hbatches hsums]
    exact hincreasing
  · rw [List.flatMap_def, hbatches]
    have hp := passed_iff.mp hpassed
    have hclosed := hkeyed.sublist (List.dropLast_sublist _)
    obtain ⟨t, ht, rfl⟩ := (mem_keys hclosed).mp hp
    obtain ⟨g, hg, htg⟩ := List.mem_flatten.mp ht
    have hg' := (List.dropLast_sublist _).subset hg
    obtain ⟨-, k, hk⟩ := hkeyed g hg'
    have hall : ∀ x ∈ g, x.period n = t.period n := fun x hx => (hk x hx).trans (hk t htg).symm
    have hsub : (keys (AggregatedTick.period n) (turns (AggregatedTick.period n) ticks).dropLast).Nodup :=
      hnodup.sublist ((List.dropLast_sublist _).filterMap _)
    have hwhole := filter_of_nodup_keys hkeyed hnodup hg' hall
    rw [flatten_turns] at hwhole
    rw [filter_of_nodup_keys hclosed hsub hg hall, hwhole]

theorem inTurn_of_groups (h : Groups n ticks out) (hstarts : ∀ x ∈ out, x.1.start ≠ 0) :
    InTurn n ticks := by
  have hincreasing := h.increasing
  rw [starts_eq hbatches hsums] at hincreasing
  refine ⟨hincreasing, h.zero_notMem hstarts, ?_⟩
  have hkeyed := keyed_turns (AggregatedTick.period n) ticks
  have honce := h.once
  simp only [List.flatMap_def, hbatches] at honce
  rw [periods]
  rcases List.eq_nil_or_concat (turns (AggregatedTick.period n) ticks) with hnil | ⟨closed, last, hturns⟩
  · rw [hnil]
    exact List.nodup_nil
  · rw [List.concat_eq_append] at hturns
    obtain ⟨hne, l, hl⟩ := hkeyed last (by rw [hturns]; simp)
    have hclosed : closedPeriods n ticks = keys (AggregatedTick.period n) closed := by
      rw [closedPeriods, hturns, List.dropLast_concat]
    have hlast : keys (AggregatedTick.period n) [last] = [l] := keys_cons hne hl
    rw [hturns, keys_append, hlast, ← hclosed]
    refine List.nodup_append.mpr ⟨hincreasing.imp Nat.ne_of_lt, List.nodup_singleton l, ?_⟩
    rintro k hk _ hkl rfl
    rw [List.mem_singleton] at hkl
    -- the last turn would come on top of the ticks that were counted
    have hcount := honce k (passed_iff.mpr hk)
    have hflat : ticks = closed.flatten ++ last := by
      rw [← flatten_turns (AggregatedTick.period n) ticks, hturns]
      simp
    rw [hturns, List.dropLast_concat] at hcount
    have hall : last.filter (fun t => t.period n = k) = last := filter_of_forall_key (hkl ▸ hl)
    conv_rhs at hcount => rw [hflat, List.filter_append, hall]
    exact hne (List.append_right_eq_self.mp hcount.symm)

end Batches

/-- The candles group the ticks by their periods exactly when the periods are closed in turn. -/
theorem groups_iff (symbol interval : String) (ticks : List AggregatedTick)
    (hprice : ∀ t ∈ ticks, 0 < t.lastPrice) :
    Groups (candleIntervalSeconds interval) ticks ((new symbol interval).candles [] ticks) ↔
      InTurn (candleIntervalSeconds interval) ticks := by
  have hstarts := start_ne_zero (new symbol interval) [] ticks
  constructor
  · intro h
    obtain ⟨hbatches, hsums⟩ := candles_new symbol hprice (h.zero_notMem hstarts)
    exact inTurn_of_groups hbatches hsums h hstarts
  · intro h
    obtain ⟨hbatches, hsums⟩ := candles_new symbol hprice h.2.1
    exact groups_of_inTurn hbatches hsums h

/-- Two ticks of one period, then one of the next. -/
theorem groups_inOrder :
    let ticks := [⟨1801, 100, 1, 0⟩, ⟨2699, 102, 2, 0⟩, ⟨2700, 101, 1, 0⟩]
    Groups (candleIntervalSeconds "15m") ticks ((new "NIFTY" "15m").candles [] ticks) := by
  intro ticks
  refine (groups_iff "NIFTY" "15m" ticks (by decide)).mpr ⟨?_, ?_, ?_⟩
  · exact List.pairwise_singleton _ _
  · decide
  · decide

/-- A tick two seconds late closes the period at hand, and the next one closes the one before. -/
theorem not_groups_late :
    let ticks := [⟨1801, 100, 1, 0⟩, ⟨1799, 99, 1, 0⟩, ⟨1802, 101, 1, 0⟩]
    ¬Groups (candleIntervalSeconds "15m") ticks ((new "NIFTY" "15m").candles [] ticks) := by
  intro ticks h
  have hstarts : ((new "NIFTY" "15m").candles [] ticks).map (fun x => x.1.start) = [1800, 900] := by
    decide
  have hincreasing := h.increasing
  rw [hstarts] at hincreasing
  exact absurd hincreasing (by decide)

end Grouping

end CandleAggregator

end Trademetrix.Market
