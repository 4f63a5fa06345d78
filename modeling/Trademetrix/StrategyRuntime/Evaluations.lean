import Mathlib.Data.List.Sort
import Trademetrix.StrategyRuntime.Workers

/-!
# The evaluations of a worker

A worker with the instance of its strategy: closed candles and ticks in its loop, time
triggers, and the warm-up from history and the stored ids of seen candles. The strategy
is any machine that answers a candle or a tick with orders, or raises. `evaluations` holds
what the strategy was called with and what it answered; no code reads it.
-/

namespace Trademetrix.StrategyRuntime.Evaluations

def errorThreshold : ℕ := 5

structure Candle where
  timestamp : String
  opened : ℚ
  high : ℚ
  low : ℚ
  close : ℚ
  volume : ℤ
  oi : ℤ
  deriving DecidableEq

structure Tick where
  lastPrice : ℚ
  bid : ℚ
  ask : ℚ
  volume : ℤ
  oi : ℤ
  deriving DecidableEq

/-- What `position_memory_for` puts into the strategy's memory before a candle. -/
structure PositionMemory where
  positionQty : ℤ := 0
  positionAvg : ℚ := 0
  positionPnl : ℚ := 0
  deriving DecidableEq

/-- The code of a strategy over its instance `σ`; `none` where a call raises. -/
structure Strategy (σ : Type) where
  onStart : σ
  onCandle : PositionMemory → σ → Candle → σ × Option (List Workers.Order)
  onTick : σ → Tick → σ × Option (List Workers.Order)

inductive Source
  | loop | timeTrigger | warmup
  deriving DecidableEq

inductive Input
  | candle (memory : PositionMemory) (candle : Candle)
  | tick (tick : Tick)
  deriving DecidableEq

structure Evaluation where
  source : Source
  input : Input
  orders : Option (List Workers.Order)

def Evaluation.raised (e : Evaluation) : Bool := e.orders.isNone

structure Worker (σ : Type) where
  strategy : Option σ := none
  evaluationAllowed : Bool := false
  /-- The task of `_run` is alive. -/
  task : Bool := false
  consecutiveErrors : ℕ := 0
  lastCandle : Option Candle := none
  /-- The last closed candle of the aggregator of the strategy's interval. -/
  mtfCandle : Option Candle := none
  seenIds : Dict String (List String) := []
  /-- `record.stats["errors"]` -/
  errors : ℕ := 0
  /-- The record is FAILED. -/
  failed : Bool := false
  evaluations : List Evaluation := []

/-- A row of the history is `none` if no candle can be made of it. -/
abbrev History := String → Option (List (PositionMemory × Option Candle))

namespace Worker

variable {σ : Type}

def seen (w : Worker σ) (tf : String) : List String := (w.seenIds.get tf).getD []

def saw (w : Worker σ) (tf : String) (candle : Candle) : Worker σ :=
  { w with seenIds := w.seenIds.set tf (w.seen tf ++ [candle.timestamp]) }

def took (w : Worker σ) (tf : String) (candle : Candle) : Worker σ :=
  { w with lastCandle := some candle }.saw tf candle

/-- `_on_eval_error`, and whether it raises. -/
def onEvalError (w : Worker σ) : Worker σ × Bool :=
  ({ w with errors := w.errors + 1, consecutiveErrors := w.consecutiveErrors + 1 },
    decide (errorThreshold ≤ w.consecutiveErrors + 1))

def called (w : Worker σ) (instance' : σ) (e : Evaluation) : Worker σ :=
  { w with strategy := some instance', evaluations := w.evaluations ++ [e] }

/-- What `_evaluate` and `_evaluate_tick` do with the answer of the strategy. The orders of its
signal are executed, but for warm-up. -/
def answered (w : Worker σ) (source : Source) (input : Input) (answer : σ × Option (List Workers.Order)) :
    Worker σ × Bool :=
  let w := w.called answer.1 ⟨source, input, answer.2⟩
  match answer.2 with
  | none => w.onEvalError
  | some _ => (w, false)

def fail (w : Worker σ) : Worker σ :=
  { w with errors := w.errors + 1, failed := true, task := false }

def pause (w : Worker σ) : Worker σ := { w with evaluationAllowed := false }

def resume (w : Worker σ) : Worker σ := { w with evaluationAllowed := true, mtfCandle := none }

def closed (w : Worker σ) (candle : Candle) : Worker σ := { w with mtfCandle := some candle }

/-- One round of `_run`: an exception fails the worker. -/
def inLoop (body : Worker σ → Worker σ × Bool) (w : Worker σ) : Worker σ :=
  if w.task then
    let out := body w
    if out.2 then out.1.fail else out.1
  else w

end Worker

section Answers

variable {σ : Type} {w : Worker σ}

theorem seen_saw (tf : String) (candle : Candle) :
    (w.saw tf candle).seen tf = w.seen tf ++ [candle.timestamp] := by
  simp [Worker.saw, Worker.seen, Dict.get_set]

theorem seen_saw_of_ne {tf tf' : String} (h : tf' ≠ tf) (candle : Candle) :
    (w.saw tf candle).seen tf' = w.seen tf' := by
  simp [Worker.saw, Worker.seen, Dict.get_set, h]

variable {source : Source} {input : Input} {answer : σ × Option (List Workers.Order)}

theorem answered_strategy : (w.answered source input answer).1.strategy = some answer.1 := by
  unfold Worker.answered
  cases answer.2 <;> rfl

theorem answered_errors : (w.answered source input answer).1.consecutiveErrors =
    if answer.2.isNone then w.consecutiveErrors + 1 else w.consecutiveErrors := by
  unfold Worker.answered
  cases answer.2 <;> rfl

theorem answered_evaluations : (w.answered source input answer).1.evaluations =
    w.evaluations ++ [⟨source, input, answer.2⟩] := by
  unfold Worker.answered
  cases answer.2 <;> rfl

theorem answered_raised : (w.answered source input answer).2 =
    (answer.2.isNone && decide (errorThreshold ≤ w.consecutiveErrors + 1)) := by
  unfold Worker.answered
  cases answer.2 <;> rfl

theorem le_of_raised (h : (w.answered source input answer).2 = true) :
    errorThreshold ≤ (w.answered source input answer).1.consecutiveErrors := by
  rw [answered_raised, Bool.and_eq_true, decide_eq_true_eq] at h
  rw [answered_errors, if_pos h.1]
  exact h.2

theorem lt_of_not_raised (h : (w.answered source input answer).2 = false)
    (hw : w.consecutiveErrors < errorThreshold) :
    (w.answered source input answer).1.consecutiveErrors < errorThreshold := by
  rw [answered_raised, Bool.and_eq_false_iff, decide_eq_false_iff_not] at h
  rw [answered_errors]
  split
  · next hnone => exact Nat.lt_of_not_le (h.resolve_left (by simp [hnone]))
  · exact hw

theorem answered_frame : (w.answered source input answer).1.seenIds = w.seenIds ∧
    (w.answered source input answer).1.evaluationAllowed = w.evaluationAllowed ∧
    (w.answered source input answer).1.task = w.task ∧
    (w.answered source input answer).1.failed = w.failed := by
  unfold Worker.answered
  cases answer.2 <;> exact ⟨rfl, rfl, rfl, rfl⟩

end Answers

section Worker

variable {σ : Type} (spec : StrategySpec) (strategy : Strategy σ)

/-- `_evaluate`, and whether it raises. -/
def evaluate (source : Source) (memory : PositionMemory) (candle : Candle) (w : Worker σ) :
    Worker σ × Bool :=
  match w.strategy with
  | none => (w, false)
  | some s => w.answered source (.candle memory candle) (strategy.onCandle memory s candle)

def evaluateTick (tick : Tick) (w : Worker σ) : Worker σ × Bool :=
  match w.evaluationAllowed, w.strategy with
  | true, some s => w.answered .loop (.tick tick) (strategy.onTick s tick)
  | _, _ => (w, false)

theorem evaluate_frame (source : Source) (memory : PositionMemory) (candle : Candle)
    (w : Worker σ) :
    (evaluate strategy source memory candle w).1.seenIds = w.seenIds ∧
      (evaluate strategy source memory candle w).1.evaluationAllowed = w.evaluationAllowed ∧
      (evaluate strategy source memory candle w).1.task = w.task ∧
      (evaluate strategy source memory candle w).1.failed = w.failed := by
  unfold evaluate
  split
  · exact ⟨rfl, rfl, rfl, rfl⟩
  · exact answered_frame

/-- `_handle_candle` for the strategy's own interval, and whether it raises. -/
def handleCandle (source : Source) (memory : PositionMemory) (candle : Candle) (w : Worker σ) :
    Worker σ × Bool :=
  if candle.timestamp ∈ w.seen spec.interval then (w, false)
  else if w.evaluationAllowed then
    evaluate strategy source memory candle (w.took spec.interval candle)
  else (w.took spec.interval candle, false)

theorem handleCandle_frame (source : Source) (memory : PositionMemory) (candle : Candle)
    (w : Worker σ) :
    (handleCandle spec strategy source memory candle w).1.evaluationAllowed = w.evaluationAllowed ∧
      (handleCandle spec strategy source memory candle w).1.task = w.task ∧
      (handleCandle spec strategy source memory candle w).1.failed = w.failed := by
  unfold handleCandle
  split
  · exact ⟨rfl, rfl, rfl⟩
  · split
    · exact (evaluate_frame strategy source memory candle _).2
    · exact ⟨rfl, rfl, rfl⟩

/-- `_process_tick`, and whether it raises; `closed` is the candle of the strategy's interval that
the tick closes. -/
def processTick (tick : Tick) (memory : PositionMemory) (closed : Option Candle) (w : Worker σ) :
    Worker σ × Bool :=
  let out :=
    if spec.trigger = .everyTick ∧ w.evaluationAllowed then evaluateTick strategy tick w
    else (w, false)
  match out.2, closed with
  | false, some candle => handleCandle spec strategy .loop memory candle (out.1.closed candle)
  | _, _ => out

/-- `time_tick` of a strategy that runs; an exception ends in the scheduler. -/
def timeTick (memory : PositionMemory) (w : Worker σ) : Worker σ :=
  if w.failed ∨ ¬w.evaluationAllowed then w
  else
    match w.mtfCandle with
    | none => w
    | some candle => (handleCandle spec strategy .timeTrigger memory candle w).1

/-- The rows of one timeframe in `_warmup`, and whether they raise. -/
def warmupRows (tf : String) :
    List (PositionMemory × Option Candle) → Worker σ → Worker σ × Bool
  | [], w => (w, false)
  | (_, none) :: _, w => (w, true)
  | (memory, some candle) :: rows, w =>
    if candle.timestamp ∈ w.seen tf then warmupRows tf rows w
    else
      let w := w.saw tf candle
      if tf = spec.interval then
        let out := evaluate strategy .warmup memory candle w
        if out.2 then out else warmupRows tf rows out.1
      else warmupRows tf rows w

def warmupFrames (history : History) : List String → Worker σ → Worker σ
  | [], w => w
  | tf :: tfs, w =>
    match history tf with
    | none => warmupFrames history tfs w
    | some rows =>
      let out := warmupRows spec strategy tf rows w
      if out.2 then out.1 else warmupFrames history tfs out.1

def warmup (stored : Dict String (List String)) (history : History) (w : Worker σ) : Worker σ :=
  warmupFrames spec strategy history spec.timeframes { w with seenIds := stored }

/-- `start` of a new worker whose strategy loads. -/
def start (stored : Dict String (List String)) (history : History) : Worker σ :=
  let w : Worker σ := { strategy := some strategy.onStart }
  let w := if spec.warmup then warmup spec strategy stored history w else w
  { w with evaluationAllowed := true, task := true }

/-- `sorted(ids)[-2000:]` -/
def lastIds (ids : List String) : List String :=
  let sorted := ids.insertionSort (· ≤ ·)
  sorted.drop (sorted.length - 2000)

def persistSeenIds (w : Worker σ) : Dict String (List String) :=
  w.seenIds.map fun p => (p.1, lastIds p.2)

end Worker

section Keeping

variable {σ : Type} {spec : StrategySpec} {strategy : Strategy σ} {I : Worker σ → Prop}
  {w : Worker σ}

theorem warmupRows_keeps (hsaw : ∀ w tf candle, I w → I (w.saw tf candle))
    (hevaluate : ∀ w memory candle, I w → I (evaluate strategy .warmup memory candle w).1)
    (h : I w) (tf : String) (rows : List (PositionMemory × Option Candle)) :
    I (warmupRows spec strategy tf rows w).1 := by
  induction rows generalizing w with
  | nil => exact h
  | cons row rows ih =>
    obtain ⟨memory, candle⟩ := row
    cases candle with
    | none => exact h
    | some candle =>
      have hseen := hsaw w tf candle h
      have hout := hevaluate _ memory candle hseen
      unfold warmupRows
      dsimp only
      split_ifs
      · exact ih h
      · exact hout
      · exact ih hout
      · exact ih hseen

theorem warmupFrames_keeps (hsaw : ∀ w tf candle, I w → I (w.saw tf candle))
    (hevaluate : ∀ w memory candle, I w → I (evaluate strategy .warmup memory candle w).1)
    (h : I w) (history : History) (tfs : List String) :
    I (warmupFrames spec strategy history tfs w) := by
  induction tfs generalizing w with
  | nil => exact h
  | cons tf tfs ih =>
    unfold warmupFrames
    cases history tf with
    | none => exact ih h
    | some rows =>
      have hout : I (warmupRows spec strategy tf rows w).1 :=
        warmupRows_keeps hsaw hevaluate h tf rows
      dsimp only
      split_ifs
      · exact hout
      · exact ih hout

end Keeping

end Trademetrix.StrategyRuntime.Evaluations
