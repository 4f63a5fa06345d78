import Trademetrix.Dedup
import Trademetrix.Market.CandleAggregator

/-!
# The graph strategy runner

`_feed_loop` waits for a tick; while none has come, a timeout of the wait polls
the historical candles. What it has handed to `process_candle` it keeps as a set
of timestamp texts, which every tenth pass of `_persist_seen_ids` writes to the
cache and every start reads from there. What a strategy makes of a candle, and
what it makes of a tick, is outside.
-/

namespace Trademetrix.Engine

open Market (AggregatedTick AggregatedCandle CandleAggregator)

/-- A bar of `get_historical`: the moment it begins and the text that says so, unless that is no
text. -/
structure HistoricalCandle where
  start : ℕ
  timestamp : Option String

abbrev CandleKey := String × String × ℕ

/-- The variables of a feed loop; `owed` counts the passes of `_persist_seen_ids` still to come
before the next wait. -/
structure FeedLoop where
  symbol : String
  interval : String
  aggregator : CandleAggregator
  seenIds : List String
  persistCounter : ℕ := 0
  liveFeedActive : Bool := false
  owed : ℕ := 0

/-- The list in the cache, the feed loop if one runs, and the candles handed to `process_candle`. -/
structure GraphRunner where
  cached : Option (List String) := none
  feed : Option FeedLoop := none
  processed : List CandleKey := []

/-- `list` of a set, in whatever order. -/
structure Listing where
  order : List String → List String
  perm : ∀ ids, (order ids).Perm ids

inductive GraphAct
  | start (symbol interval : String) (readable : Bool)
  | tick (tick : AggregatedTick)
  | poll (candles : List HistoricalCandle)
  | timeout
  | persist (listing : Listing) (stored : Bool)
  /-- The loop ends: stopped, failed or crashed. -/
  | stop
  /-- The list in the cache expires. -/
  | expire

namespace FeedLoop

def offered (f : FeedLoop) : GraphAct → List (ℕ × String)
  | .tick tick =>
    if f.owed = 0 then
      (f.aggregator.addTick tick).2.toList.map fun candle => (candle.start, candle.timestamp)
    else []
  | .poll candles =>
    if f.owed = 0 ∧ f.liveFeedActive = false then
      candles.filterMap fun candle => candle.timestamp.map fun text => (candle.start, text)
    else []
  | _ => []

def key (f : FeedLoop) (start : ℕ) : CandleKey := (f.symbol, f.interval, start)

/-- `seen_list` in a pass of `_persist_seen_ids`, which every tenth makes; one of more than 10000 is
cut to its last 5000. -/
def seenList (f : FeedLoop) (listing : Listing) : List String :=
  let ids := listing.order f.seenIds
  if 10000 < ids.length then ids.drop (ids.length - 5000) else ids

def persists (f : FeedLoop) : Bool := (f.persistCounter + 1) % 10 = 0

def seenAfter (f : FeedLoop) (listing : Listing) : List String :=
  if 10000 < f.seenIds.length then f.seenList listing else f.seenIds

end FeedLoop

namespace GraphRunner

/-- One candle of a loop: `process_candle` unless its text was seen. -/
def offer (w : GraphRunner) (f : FeedLoop) (candle : ℕ × String) : GraphRunner × FeedLoop :=
  if candle.2 ∈ f.seenIds then (w, f)
  else
    ({ w with processed := w.processed ++ [f.key candle.1] },
      { f with seenIds := f.seenIds ++ [candle.2] })

def offerAll (w : GraphRunner) (f : FeedLoop) (candles : List (ℕ × String)) :
    GraphRunner × FeedLoop :=
  candles.foldl (fun s candle => s.1.offer s.2 candle) (w, f)

/-- A pass of `_persist_seen_ids`. -/
def persist (w : GraphRunner) (f : FeedLoop) (listing : Listing) (stored : Bool) : GraphRunner :=
  let f' := { f with persistCounter := f.persistCounter + 1, owed := f.owed - 1 }
  if f.persists then
    { w with
      cached := if stored then some (f.seenList listing) else w.cached
      feed := some { f' with seenIds := f.seenAfter listing } }
  else { w with feed := some f' }

/-- An action of the loop `f`; one whose time it is not does nothing. -/
def stepFeed (w : GraphRunner) (f : FeedLoop) (a : GraphAct) : GraphRunner :=
  let out := w.offerAll f (f.offered a)
  match a with
  | .tick tick =>
    if f.owed = 0 then
      let aggregator := (f.aggregator.addTick tick).1
      { out.1 with feed := some { out.2 with aggregator, liveFeedActive := true, owed := 1 } }
    else w
  | .poll candles =>
    if f.owed = 0 ∧ f.liveFeedActive = false then
      { out.1 with feed := some { out.2 with owed := if candles.isEmpty then 1 else 2 } }
    else w
  | .timeout =>
    if f.owed = 0 ∧ f.liveFeedActive = true then { w with feed := some { f with owed := 1 } } else w
  | .persist listing stored => if f.owed = 0 then w else w.persist f listing stored
  | .stop => { w with feed := none }
  | .expire => { w with cached := none }
  | .start .. => w

def loaded (w : GraphRunner) (readable : Bool) : List String :=
  if readable then (w.cached.getD []).dedup else []

def step (w : GraphRunner) (a : GraphAct) : GraphRunner :=
  match w.feed with
  | some f => w.stepFeed f a
  | none =>
    match a with
    | .start symbol interval readable =>
      let aggregator := CandleAggregator.new symbol interval
      { w with feed := some { symbol, interval, aggregator, seenIds := w.loaded readable } }
    | .expire => { w with cached := none }
    | _ => w

def run (acts : List GraphAct) : GraphRunner := acts.foldl step {}

end GraphRunner

end Trademetrix.Engine

namespace Trademetrix.Engine

def FeedLoop.resets (f : FeedLoop) (listing : Listing) : List (DedupStep CandleKey String) :=
  if f.owed ≠ 0 ∧ f.persists = true ∧ 10000 < f.seenIds.length then [.reset (f.seenList listing)]
  else []

namespace GraphRunner

variable {w : GraphRunner} {f : FeedLoop} {a : GraphAct} {m : Dedup CandleKey String}

def dedupSteps (w : GraphRunner) (a : GraphAct) : List (DedupStep CandleKey String) :=
  match w.feed with
  | some f =>
    (f.offered a).map (fun candle => .arrive (f.key candle.1) candle.2) ++
      match a with
      | .persist listing _ => f.resets listing
      | _ => []
  | none =>
    match a with
    | .start _ _ readable => [.reset (w.loaded readable)]
    | _ => []

def trace : GraphRunner → List GraphAct → List (DedupStep CandleKey String)
  | _, [] => []
  | w, a :: acts => w.dedupSteps a ++ trace (w.step a) acts

/-- Whenever a candle comes up again, it has the text it had, and what replaced the set last holds
that text. -/
def CandlesRecognised (acts : List GraphAct) : Prop := Recognised (trace {} acts)

structure Follows (w : GraphRunner) (m : Dedup CandleKey String) : Prop where
  done : m.done = w.processed
  seen : ∀ f ∈ w.feed, m.seen = f.seenIds

theorem offer_follows (candle : ℕ × String) (hdone : m.done = w.processed)
    (hseen : m.seen = f.seenIds) :
    (m.step (.arrive (f.key candle.1) candle.2)).done = (w.offer f candle).1.processed ∧
      (m.step (.arrive (f.key candle.1) candle.2)).seen = (w.offer f candle).2.seenIds ∧
      (w.offer f candle).2.key = f.key := by
  rw [Dedup.step, offer, hseen]
  split
  · exact ⟨hdone, hseen, rfl⟩
  · exact ⟨by rw [hdone], rfl, rfl⟩

theorem offerAll_follows (candles : List (ℕ × String)) (hdone : m.done = w.processed)
    (hseen : m.seen = f.seenIds) :
    let steps := candles.map fun candle => DedupStep.arrive (f.key candle.1) candle.2
    (steps.foldl Dedup.step m).done = (w.offerAll f candles).1.processed ∧
      (steps.foldl Dedup.step m).seen = (w.offerAll f candles).2.seenIds := by
  induction candles generalizing w f m with
  | nil => exact ⟨hdone, hseen⟩
  | cons candle candles ih =>
    obtain ⟨hdone', hseen', hkey⟩ := offer_follows candle hdone hseen
    have hrest := ih hdone' hseen'
    rw [hkey] at hrest
    exact hrest

theorem persist_follows (hdone : m.done = w.processed) (hseen : m.seen = f.seenIds)
    (howed : f.owed ≠ 0) (listing : Listing) (stored : Bool) :
    Follows (w.persist f listing stored) ((f.resets listing).foldl Dedup.step m) := by
  rw [persist]
  cases hpersists : f.persists with
  | false =>
    have hresets : f.resets listing = [] := if_neg fun h => by simp [hpersists] at h
    rw [hresets]
    refine ⟨hdone, fun f' hf' => ?_⟩
    obtain rfl := Option.some.inj hf'
    exact hseen
  | true =>
    by_cases hcut : 10000 < f.seenIds.length
    · have hresets : f.resets listing = [.reset (f.seenList listing)] :=
        if_pos ⟨howed, hpersists, hcut⟩
      rw [hresets]
      refine ⟨hdone, fun f' hf' => ?_⟩
      obtain rfl := Option.some.inj hf'
      exact (if_pos hcut).symm
    · have hresets : f.resets listing = [] := if_neg fun h => hcut h.2.2
      rw [hresets]
      refine ⟨hdone, fun f' hf' => ?_⟩
      obtain rfl := Option.some.inj hf'
      exact hseen.trans (if_neg hcut).symm

theorem step_follows (h : Follows w m) (a : GraphAct) :
    Follows (w.step a) ((w.dedupSteps a).foldl Dedup.step m) := by
  obtain ⟨hdone, hseen⟩ := h
  cases hfeed : w.feed with
  | none =>
    cases a <;> simp only [step, dedupSteps, hfeed, List.foldl_nil, List.foldl_cons]
    case start symbol interval readable =>
      refine ⟨hdone, fun f hf => ?_⟩
      obtain rfl := Option.some.inj hf
      rfl
    case expire => exact ⟨hdone, by simp⟩
    all_goals exact ⟨hdone, hseen⟩
  | some f =>
    have hf := hseen f hfeed
    have hoffered := offerAll_follows (f.offered a) hdone hf
    cases a <;> simp only [step, dedupSteps, hfeed, stepFeed, List.append_nil]
    case tick tick =>
      by_cases howed : f.owed = 0
      · rw [if_pos howed]
        refine ⟨hoffered.1, fun f' hf' => ?_⟩
        obtain rfl := Option.some.inj hf'
        exact hoffered.2
      · rw [if_neg howed, FeedLoop.offered, if_neg howed]
        exact ⟨hdone, hseen⟩
    case poll candles =>
      by_cases hpolls : f.owed = 0 ∧ f.liveFeedActive = false
      · rw [if_pos hpolls]
        refine ⟨hoffered.1, fun f' hf' => ?_⟩
        obtain rfl := Option.some.inj hf'
        exact hoffered.2
      · rw [if_neg hpolls, FeedLoop.offered, if_neg hpolls]
        exact ⟨hdone, hseen⟩
    case timeout =>
      split
      · refine ⟨hdone, fun f' hf' => ?_⟩
        obtain rfl := Option.some.inj hf'
        exact hf
      · exact ⟨hdone, hseen⟩
    case persist listing stored =>
      by_cases howed : f.owed = 0
      · have hresets : f.resets listing = [] := if_neg fun h => h.1 howed
        rw [if_pos howed, hresets]
        exact ⟨hdone, hseen⟩
      · rw [if_neg howed]
        exact persist_follows hdone hf howed listing stored
    case stop => exact ⟨hdone, by simp⟩
    case expire =>
      refine ⟨hdone, fun f' hf' => ?_⟩
      obtain rfl := Option.some.inj hf'
      exact hf
    case start symbol interval readable => exact ⟨hdone, hseen⟩

theorem run_follows (h : Follows w m) (acts : List GraphAct) :
    Follows (acts.foldl step w) ((trace w acts).foldl Dedup.step m) := by
  induction acts generalizing w m with
  | nil => exact h
  | cons a acts ih =>
    rw [trace, List.foldl_append]
    exact ih (step_follows h a)

/-- In a run whose candles are recognised, each is processed once at most. -/
theorem processed_once (acts : List GraphAct) (h : CandlesRecognised acts) :
    (run acts).processed.Nodup := by
  have hfollows := run_follows (w := {}) (m := {}) ⟨rfl, nofun⟩ acts
  rw [run, ← hfollows.done]
  exact Dedup.nodup_done h

/-- A bar of the first poll comes again with the second. -/
theorem processed_once_polled :
    let bar : HistoricalCandle := ⟨1767584700, some "2026-01-05T09:15:00+05:30"⟩
    let whole : Listing := ⟨id, fun _ => List.Perm.refl _⟩
    (run [.start "NIFTY" "15m" true, .poll [bar], .persist whole true, .persist whole true,
      .poll [bar]]).processed.Nodup := by
  intro bar whole
  refine processed_once _ ?_
  have htrace : trace {} [.start "NIFTY" "15m" true, .poll [bar], .persist whole true,
      .persist whole true, .poll [bar]] =
        [.reset [], .arrive ("NIFTY", "15m", 1767584700) "2026-01-05T09:15:00+05:30",
          .arrive ("NIFTY", "15m", 1767584700) "2026-01-05T09:15:00+05:30"] := by decide
  rw [CandlesRecognised, htrace]
  intro before key tag between tag' after heq
  match before, between with
  | [], _ => cases heq
  | [_], [] =>
    cases heq
    exact ⟨rfl, nofun⟩
  | [_], _ :: between | [_, _], between | _ :: _ :: _ :: before, between =>
    have hlen := congrArg List.length heq
    simp only [List.length_append, List.length_cons, List.length_nil] at hlen
    omega

/-- A bar that a poll has shown closes once more when live ticks come; a stop before the tenth pass
forgets what was processed. -/
theorem processed_twice :
    let bar : HistoricalCandle := ⟨1767584700, some "2026-01-05T09:15:00+05:30"⟩
    let whole : Listing := ⟨id, fun _ => List.Perm.refl _⟩
    ¬(run [.start "NIFTY" "15m" true, .poll [bar], .persist whole true, .persist whole true,
      .tick ⟨1767585300, 26200, 75, 0⟩, .persist whole true,
      .tick ⟨1767585600, 26210, 75, 0⟩]).processed.Nodup ∧
    ¬(run [.start "NIFTY" "15m" true, .poll [bar], .persist whole true, .persist whole true, .stop,
      .start "NIFTY" "15m" true, .poll [bar]]).processed.Nodup := by
  constructor <;> decide

end GraphRunner

end Trademetrix.Engine
