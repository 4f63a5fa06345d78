import Mathlib.Data.String.Basic
import Trademetrix.Backtest.CorporateActions
import Trademetrix.Dict
import Trademetrix.Keyed

/-!
# Loading candles

`load` reads the candles of a symbol, an exchange and an interval from the store, and
when they do not cover the range fetches others, writes them to the store, and merges
the two by the instants. The result is sorted by the texts of the timestamps, and is
cached when there is any. The store keeps one candle to an instant.
-/

namespace Trademetrix.Backtest

/-- What `datetime` makes of texts and instants, in microseconds from 1 January 1970: `_normalize_ts`
reads a text, and `isoformat` writes one in UTC. -/
structure UtcClock where
  normalizeTs : String → ℤ
  isoformat : ℤ → String
  normalizeTs_isoformat : ∀ t, normalizeTs (isoformat t) = t

structure LoadedCandle where
  symbol : String
  exchange : String := "NSE"
  interval : String := "15m"
  timestamp : String
  openPrice : ℚ
  high : ℚ
  low : ℚ
  close : ℚ
  volume : ℤ := 0
  oi : ℤ := 0
  deriving DecidableEq

/-- `rolling` when neither a start nor an end was given. -/
structure LoadRequest where
  symbol : String
  exchange : String := "NSE"
  interval : String := "15m"
  startDt : ℤ
  endDt : ℤ
  rolling : Bool := false
  forceRefresh : Bool := false

def isIntraday (interval : String) : Bool :=
  let s := Text.strip (Text.lower interval)
  !(endsWith s "d" || s ∈ ["1d", "day", "daily", "1wk", "wk", "week", "1mo", "mo"])

namespace LoadRequest

variable (req : LoadRequest)

def widens : Bool := req.rolling && isIntraday req.interval

def fetchStart : ℤ := if req.widens then req.startDt - dayLength else req.startDt

end LoadRequest

section Load

variable (clock : UtcClock) (req : LoadRequest)

def LoadedCandle.ts (c : LoadedCandle) : ℤ := clock.normalizeTs c.timestamp

def rowLimit : ℕ := 50000

def LoadRequest.Asks (c : LoadedCandle) : Prop :=
  c.symbol = req.symbol ∧ c.exchange = req.exchange ∧ c.interval = req.interval

instance (c : LoadedCandle) : Decidable (req.Asks c) := inferInstanceAs (Decidable (_ ∧ _))

structure Answer where
  candles : List LoadedCandle
  ordered : candles.Pairwise fun a b => a.ts clock < b.ts clock
  asked : ∀ c ∈ candles, req.Asks c
  within : ∀ c ∈ candles, req.fetchStart ≤ c.ts clock ∧ c.ts clock ≤ req.endDt
  limited : candles.length ≤ rowLimit

def LoadRequest.cacheKey : String :=
  let date (t : ℤ) := (clock.isoformat t).take 10
  s!"{req.exchange}:{req.symbol}:{req.interval}:{date req.startDt}:{date req.endDt}"

/-- `_covers_range`, with a day at either end. -/
def covers (candles : List LoadedCandle) : Bool :=
  match candles.head?, candles.getLast? with
  | some first, some last =>
    first.ts clock ≤ req.fetchStart + dayLength ∧ req.endDt - dayLength ≤ last.ts clock
  | _, _ => false

def needsFetch (candles : List LoadedCandle) : Bool := candles.length < 2 || !covers clock req candles

/-- What `_fetch_and_store` returns of the candles that the engine fetches. -/
def obtained (stored fetched : List LoadedCandle) : List LoadedCandle :=
  if needsFetch clock req stored then
    fetched.filter fun c => inRange (c.ts clock) c.interval req.fetchStart req.endDt
  else []

def setdefault (d : Dict ℤ LoadedCandle) (k : ℤ) (c : LoadedCandle) : Dict ℤ LoadedCandle :=
  if (d.get k).isSome then d else d.set k c

def byTs (stored fetched : List LoadedCandle) : Dict ℤ LoadedCandle :=
  (stored.foldl (fun d c => setdefault d (c.ts clock) c) []).update (fetched.map fun c => (c.ts clock, c))

def sortByText (candles : List LoadedCandle) : List LoadedCandle :=
  candles.insertionSort fun a b => a.timestamp ≤ b.timestamp

/-- `_merge_candles`, when anything was fetched. -/
def merged (stored fetched : List LoadedCandle) : List LoadedCandle :=
  let more := obtained clock req stored fetched
  if more = [] then stored else sortByText (byTs clock stored more).values

def margin (candles : List LoadedCandle) : ℤ :=
  match candles.head? with
  | some first => intervalLength first.interval
  | none => 15 * minute

def trimRange (startDt : ℤ) (candles : List LoadedCandle) : List LoadedCandle :=
  candles.filter fun c =>
    inRange (c.ts clock) c.interval (startDt - margin candles) (req.endDt + margin candles)

/-- The candles in range, or when there are fewer than two those of a range that begins a day
earlier, if they are more. -/
def selected (raw : List LoadedCandle) : List LoadedCandle :=
  let candles := trimRange clock req req.startDt raw
  if candles.length < 2 ∧ req.widens then
    let widened := trimRange clock req req.fetchStart raw
    if candles.length < widened.length then widened else candles
  else candles

def cacheLimit : ℕ := 64

/-- `load`, with the cache that it leaves. -/
def load (cache : Dict String (List LoadedCandle)) (stored : Answer clock req) (fetched : List LoadedCandle) :
    List LoadedCandle × Dict String (List LoadedCandle) :=
  let key := req.cacheKey clock
  match if req.forceRefresh then none else cache.get key with
  | some candles => (candles, cache)
  | none =>
    let candles := sortByText (selected clock req (merged clock req stored.candles fetched))
    let kept : Dict String (List LoadedCandle) := if cacheLimit ≤ cache.length then [] else cache
    (candles, if candles = [] then kept else kept.set key candles)

end Load

section Store

variable (clock : UtcClock)

def rowId (c : LoadedCandle) : String :=
  s!"{c.exchange}:{c.symbol}:{c.interval}:{clock.isoformat (c.ts clock)}"

def putRow (rows : List LoadedCandle) (c : LoadedCandle) : List LoadedCandle :=
  rows.filter (fun row => rowId clock row ≠ rowId clock c) ++ [{ c with timestamp := clock.isoformat (c.ts clock) }]

def batches {α : Type} (xs : List α) : List (List α) :=
  (List.range ((xs.length + 199) / 200)).map fun i => (xs.drop (200 * i)).take 200

/-- The candles that `_store` writes: up to the first batch that the database refuses, for two rows
of one id or otherwise. -/
def writtenRows (accepted : ℕ) (candles : List LoadedCandle) : List LoadedCandle :=
  (((batches candles).takeWhile fun batch => (batch.map (rowId clock)).Nodup).take accepted).flatten

theorem ts_row (c : LoadedCandle) :
    ({ c with timestamp := clock.isoformat (c.ts clock) } : LoadedCandle).ts clock = c.ts clock :=
  clock.normalizeTs_isoformat _

theorem rowId_row (c : LoadedCandle) :
    rowId clock { c with timestamp := clock.isoformat (c.ts clock) } = rowId clock c := by
  unfold rowId
  rw [ts_row]

variable {clock} {req : LoadRequest} {rows : List LoadedCandle}

theorem nodup_putRow (h : (rows.map (rowId clock)).Nodup) (c : LoadedCandle) :
    ((putRow clock rows c).map (rowId clock)).Nodup := by
  unfold putRow
  rw [List.map_append, List.nodup_append]
  refine ⟨?_, by simp, ?_⟩
  · exact h.sublist (List.filter_sublist.map _)
  · intro id hid id' hid'
    obtain ⟨row, hrow, rfl⟩ := List.mem_map.mp hid
    rw [List.map_singleton, List.mem_singleton, rowId_row] at hid'
    rw [hid']
    exact of_decide_eq_true (List.mem_filter.mp hrow).2

theorem nodup_putRows (h : (rows.map (rowId clock)).Nodup) (candles : List LoadedCandle) :
    ((candles.foldl (putRow clock) rows).map (rowId clock)).Nodup := by
  induction candles generalizing rows with
  | nil => exact h
  | cons c candles ih => exact ih (nodup_putRow h c)

theorem nodup_ts_of_rowId (hasked : ∀ c ∈ rows, req.Asks c) (h : (rows.map (rowId clock)).Nodup) :
    (rows.map (LoadedCandle.ts clock)).Nodup := by
  rw [List.Nodup, List.pairwise_map] at h ⊢
  refine h.imp_of_mem fun {a b} ha hb hid hts => hid ?_
  obtain ⟨hsymbol, hexchange, hinterval⟩ := hasked a ha
  obtain ⟨hsymbol', hexchange', hinterval'⟩ := hasked b hb
  unfold rowId
  rw [hsymbol, hexchange, hinterval, hsymbol', hexchange', hinterval', hts]

theorem ts_of_rowId {a b : LoadedCandle} (ha : req.Asks a) (hb : req.Asks b)
    (h : rowId clock a = rowId clock b) : a.ts clock = b.ts clock := by
  obtain ⟨hsymbol, hexchange, hinterval⟩ := ha
  obtain ⟨hsymbol', hexchange', hinterval'⟩ := hb
  unfold rowId at h
  rw [hsymbol, hexchange, hinterval, hsymbol', hexchange', hinterval'] at h
  have htext : clock.isoformat (a.ts clock) = clock.isoformat (b.ts clock) := (String.append_right_inj _).mp h
  rw [← clock.normalizeTs_isoformat (a.ts clock), htext, clock.normalizeTs_isoformat]

namespace Answer

variable (stored : Answer clock req)

theorem nodup : (stored.candles.map (LoadedCandle.ts clock)).Nodup :=
  (pairwise_lt_iff_nodup (stored.ordered.imp le_of_lt)).mp stored.ordered

theorem nodup_rowId : (stored.candles.map (rowId clock)).Nodup := by
  have hts := stored.nodup
  rw [List.Nodup, List.pairwise_map] at hts ⊢
  exact hts.imp_of_mem fun ha hb hne hid => hne (ts_of_rowId (stored.asked _ ha) (stored.asked _ hb) hid)

def rowsAfter (accepted : ℕ) (fetched : List LoadedCandle) : List LoadedCandle :=
  ((writtenRows clock accepted (obtained clock req stored.candles fetched)).foldl (putRow clock) stored.candles).filter
    fun c => req.Asks c ∧ req.fetchStart ≤ c.ts clock ∧ c.ts clock ≤ req.endDt

variable {stored} in
theorem of_mem_rowsAfter {accepted : ℕ} {fetched : List LoadedCandle} {c : LoadedCandle}
    (h : c ∈ stored.rowsAfter accepted fetched) :
    req.Asks c ∧ req.fetchStart ≤ c.ts clock ∧ c.ts clock ≤ req.endDt :=
  of_decide_eq_true (List.mem_filter.mp h).2

theorem nodup_rowsAfter (accepted : ℕ) (fetched : List LoadedCandle) :
    ((stored.rowsAfter accepted fetched).map (LoadedCandle.ts clock)).Nodup := by
  refine nodup_ts_of_rowId (fun c hc => (of_mem_rowsAfter hc).1) ?_
  exact (nodup_putRows stored.nodup_rowId _).sublist (List.filter_sublist.map _)

theorem mem_sortedRows {rows : List LoadedCandle} {c : LoadedCandle}
    (h : c ∈ (rows.insertionSort fun a b => a.ts clock ≤ b.ts clock).take rowLimit) : c ∈ rows :=
  (List.perm_insertionSort _ rows).mem_iff.mp (List.mem_of_mem_take h)

def after (accepted : ℕ) (fetched : List LoadedCandle) : Answer clock req where
  candles := ((stored.rowsAfter accepted fetched).insertionSort fun a b => a.ts clock ≤ b.ts clock).take rowLimit
  ordered := (insertionSort_increasing (stored.nodup_rowsAfter accepted fetched)).sublist (List.take_sublist _ _)
  asked _ hc := (of_mem_rowsAfter (mem_sortedRows hc)).1
  within _ hc := (of_mem_rowsAfter (mem_sortedRows hc)).2
  limited := List.length_take_le _ _

end Answer

end Store

end Trademetrix.Backtest
