import Trademetrix.Run
import Trademetrix.StrategyRuntime.Evaluations

/-!
# Errors of a strategy

How evaluation errors add up to the failure of a worker, evaluation by evaluation. The
count is of all errors of the worker's life: no success sets it back. An error that reaches the
threshold outside the worker's own loop fails nothing.
-/

namespace Trademetrix.StrategyRuntime.Evaluations

structure Count where
  consecutiveErrors : ℕ := 0
  failed : Bool := false
  evaluations : List Evaluation := []

def Worker.count {σ : Type} (w : Worker σ) : Count := ⟨w.consecutiveErrors, w.failed, w.evaluations⟩

namespace Count

def step (c : Count) (e : Evaluation) : Count :=
  if c.failed then c
  else if e.raised then
    { consecutiveErrors := c.consecutiveErrors + 1
      failed := decide (e.source = .loop ∧ errorThreshold ≤ c.consecutiveErrors + 1)
      evaluations := c.evaluations ++ [e] }
  else { c with evaluations := c.evaluations ++ [e] }

end Count

def inARow (es : List Evaluation) : ℕ := (es.reverse.takeWhile Evaluation.raised).length

/-- At some time `ERROR_THRESHOLD` errors had occurred consecutively. -/
def Streak (es : List Evaluation) : Prop := ∃ pre, pre <+: es ∧ errorThreshold ≤ inARow pre

instance (es : List Evaluation) : Decidable (Streak es) :=
  decidable_of_iff (∃ pre ∈ es.inits, errorThreshold ≤ inARow pre) (by simp [Streak])

theorem inARow_concat (es : List Evaluation) (e : Evaluation) :
    inARow (es ++ [e]) = if e.raised then inARow es + 1 else 0 := by
  unfold inARow
  rw [List.reverse_append, List.reverse_singleton, List.singleton_append, List.takeWhile_cons]
  split <;> rfl

theorem not_streak_nil : ¬Streak [] := by
  rintro ⟨pre, hpre, hrow⟩
  rw [List.prefix_nil.mp hpre] at hrow
  exact absurd hrow (by decide)

theorem streak_concat {es : List Evaluation} {e : Evaluation} :
    Streak (es ++ [e]) ↔ Streak es ∨ errorThreshold ≤ inARow (es ++ [e]) := by
  constructor
  · rintro ⟨pre, hpre, hrow⟩
    rcases List.prefix_concat_iff.mp hpre with rfl | hold
    · exact .inr hrow
    · exact .inl ⟨pre, hold, hrow⟩
  · rintro (⟨pre, hpre, hrow⟩ | hrow)
    · exact ⟨pre, hpre.trans (List.prefix_append _ _), hrow⟩
    · exact ⟨_, List.prefix_rfl, hrow⟩

namespace Count

def Fails (c : Count) : Prop := c.failed = true ↔ Streak c.evaluations

instance (c : Count) : Decidable c.Fails :=
  inferInstanceAs (Decidable (c.failed = true ↔ Streak c.evaluations))

/-- Under it it does: an error is in the worker's loop and the fifth or a later one of all if and only
if it is the fifth or a later one in a row. -/
def Fits (c : Count) (e : Evaluation) : Prop :=
  c.failed = false → e.raised = true →
    (e.source = .loop ∧ errorThreshold ≤ c.consecutiveErrors + 1 ↔
      errorThreshold ≤ inARow c.evaluations + 1)

variable {c : Count} {e : Evaluation}

theorem fails_step_iff (h : c.Fails) : (c.step e).Fails ↔ c.Fits e := by
  unfold step Fits
  cases hfailed : c.failed with
  | true => exact iff_of_true h (fun hf => by cases hf)
  | false =>
    have hstreak : ¬Streak c.evaluations := by
      intro hs
      have htrue := h.mpr hs
      rw [hfailed] at htrue
      cases htrue
    rw [if_neg Bool.false_ne_true]
    unfold Fails
    cases hraised : e.raised with
    | true =>
      simp only [if_true, streak_concat, inARow_concat, hraised, hstreak, false_or,
        decide_eq_true_eq, forall_const]
    | false =>
      have hshort : ¬errorThreshold ≤ 0 := by decide
      simp [streak_concat, inARow_concat, hraised, hstreak, hshort]

theorem fails_run_iff (es : List Evaluation) :
    Along step (fun c e => (c.step e).Fails) {} es ↔ Along step Fits {} es :=
  Along.congr (I := Fails) (fun _ _ h hfits => (fails_step_iff h).mpr hfits)
    (fun _ _ h => fails_step_iff h) (iff_of_false Bool.false_ne_true not_streak_nil)

end Count

inductive Event
  | tick (tick : Tick) (memory : PositionMemory) (closed : Option Candle)
  | timeTick (memory : PositionMemory)
  | pause
  | resume

section Counting

variable {σ : Type} (spec : StrategySpec) (strategy : Strategy σ) {w : Worker σ}

def Worker.after (spec : StrategySpec) (strategy : Strategy σ) (w : Worker σ) : Event → Worker σ
  | .tick tick memory closed => w.inLoop (processTick spec strategy tick memory closed)
  | .timeTick memory => Evaluations.timeTick spec strategy memory w
  | .pause => w.pause
  | .resume => w.resume

def Counted (w : Worker σ) : Prop := w.count = w.evaluations.foldl Count.step {}

theorem Counted.of_step {w' : Worker σ} {e : Evaluation} (h : Counted w)
    (hev : w'.evaluations = w.evaluations ++ [e]) (hstep : w'.count = w.count.step e) :
    Counted w' := by
  unfold Counted at *
  rw [hstep, hev, List.foldl_append, h]
  rfl

theorem counted_answered (h : Counted w) (hfine : w.failed = false) (source : Source)
    (input : Input) (answer : σ × Option (List Workers.Order)) :
    (source ≠ .loop → Counted (w.answered source input answer).1) ∧
      (source = .loop → Counted (if (w.answered source input answer).2
        then (w.answered source input answer).1.fail else (w.answered source input answer).1)) := by
  refine ⟨fun hsource => ?_, fun hsource => ?_⟩
  · refine h.of_step (e := ⟨source, input, answer.2⟩) answered_evaluations ?_
    cases horders : answer.2 <;>
      simp [Worker.answered, Worker.called, Worker.onEvalError, Worker.count, Count.step,
        Evaluation.raised, horders, hfine, hsource]
  · refine h.of_step (e := ⟨source, input, answer.2⟩) ?_ ?_
    · split <;> exact answered_evaluations
    · cases horders : answer.2 with
      | none =>
        by_cases hlast : errorThreshold ≤ w.consecutiveErrors + 1 <;>
          simp [Worker.answered, Worker.called, Worker.onEvalError, Worker.fail, Worker.count,
            Count.step, Evaluation.raised, horders, hfine, hsource, hlast]
      | some orders =>
        simp [Worker.answered, Worker.called, Worker.count, Count.step, Evaluation.raised, horders,
          hfine]

def CountedAfter (out : Worker σ × Bool) : Prop := Counted (if out.2 then out.1.fail else out.1)

theorem counted_evaluate (h : Counted w) (hfine : w.failed = false) (memory : PositionMemory)
    (candle : Candle) :
    CountedAfter (evaluate strategy .loop memory candle w) ∧
      ∀ source, source ≠ .loop → Counted (evaluate strategy source memory candle w).1 := by
  unfold evaluate CountedAfter
  cases w.strategy with
  | none => exact ⟨h, fun _ _ => h⟩
  | some s =>
    exact ⟨(counted_answered h hfine _ _ _).2 rfl,
      fun source hsource => (counted_answered h hfine source _ _).1 hsource⟩

theorem counted_handleCandle (h : Counted w) (hfine : w.failed = false) (memory : PositionMemory)
    (candle : Candle) :
    CountedAfter (handleCandle spec strategy .loop memory candle w) ∧
      ∀ source, source ≠ .loop →
        Counted (handleCandle spec strategy source memory candle w).1 := by
  have htook : Counted (w.took spec.interval candle) := h
  unfold handleCandle
  split
  · exact ⟨h, fun _ _ => h⟩
  · split
    · exact counted_evaluate strategy htook hfine memory candle
    · exact ⟨htook, fun _ _ => htook⟩

theorem counted_processTick (h : Counted w) (hfine : w.failed = false) (tick : Tick)
    (memory : PositionMemory) (closed : Option Candle) :
    CountedAfter (processTick spec strategy tick memory closed w) ∧
      (processTick spec strategy tick memory closed w).1.failed = false := by
  have hfirst : CountedAfter (if spec.trigger = .everyTick ∧ w.evaluationAllowed
        then evaluateTick strategy tick w else (w, false)) ∧
      (if spec.trigger = .everyTick ∧ w.evaluationAllowed
        then evaluateTick strategy tick w else (w, false)).1.failed = false := by
    split
    · unfold evaluateTick
      split
      · exact ⟨(counted_answered h hfine _ _ _).2 rfl, answered_frame.2.2.2.trans hfine⟩
      · exact ⟨h, hfine⟩
    · exact ⟨h, hfine⟩
  unfold processTick
  generalize (if spec.trigger = .everyTick ∧ w.evaluationAllowed
    then evaluateTick strategy tick w else (w, false)) = out at hfirst
  obtain ⟨next, raised⟩ := out
  obtain ⟨hcounted, hfailed⟩ := hfirst
  cases raised with
  | true => exact ⟨hcounted, hfailed⟩
  | false =>
    cases closed with
    | none => exact ⟨hcounted, hfailed⟩
    | some candle =>
      have hnext := counted_handleCandle (w := next.closed candle) spec strategy hcounted hfailed
        memory candle
      have hframe := handleCandle_frame spec strategy .loop memory candle (next.closed candle)
      exact ⟨hnext.1, hframe.2.2.trans hfailed⟩

def Alive (w : Worker σ) : Prop := w.task = true → w.failed = false

theorem counted_after (h : Counted w) (halive : Alive w) (e : Event) :
    Counted (w.after spec strategy e) ∧ Alive (w.after spec strategy e) := by
  cases e with
  | tick tick memory closed =>
    change Counted (w.inLoop _) ∧ Alive (w.inLoop _)
    unfold Worker.inLoop
    split
    · next htask =>
      obtain ⟨hcounted, hfailed⟩ := counted_processTick spec strategy h
        (halive htask) tick memory closed
      refine ⟨hcounted, fun hruns => ?_⟩
      dsimp only at hruns ⊢
      split at hruns
      · cases hruns
      · next hraised =>
        rw [if_neg hraised]
        exact hfailed
    · exact ⟨h, halive⟩
  | timeTick memory =>
    change Counted (Evaluations.timeTick spec strategy memory w) ∧
      Alive (Evaluations.timeTick spec strategy memory w)
    unfold Evaluations.timeTick
    split
    · exact ⟨h, halive⟩
    · next hrun =>
      have hfine : w.failed = false := by
        simpa using fun hf => hrun (.inl hf)
      cases w.mtfCandle with
      | none => exact ⟨h, halive⟩
      | some candle =>
        have hcounted := counted_handleCandle spec strategy h hfine memory candle
        refine ⟨hcounted.2 .timeTrigger nofun, fun _ => ?_⟩
        exact (handleCandle_frame spec strategy .timeTrigger memory candle w).2.2.trans hfine
  | pause => exact ⟨h, halive⟩
  | resume => exact ⟨h, halive⟩

theorem counted_warmupFrames (h : Counted w) (hfine : w.failed = false) (history : History)
    (tfs : List String) : Counted (warmupFrames spec strategy history tfs w) ∧
      (warmupFrames spec strategy history tfs w).failed = false := by
  refine warmupFrames_keeps (I := fun w => Counted w ∧ w.failed = false) (fun _ _ _ h => h)
    (fun w memory candle h => ⟨?_, ?_⟩) ⟨h, hfine⟩ history tfs
  · exact (counted_evaluate strategy h.1 h.2 memory candle).2 .warmup nofun
  · exact (evaluate_frame strategy .warmup memory candle w).2.2.2.trans h.2

theorem counted_start (spec : StrategySpec) (strategy : Strategy σ)
    (stored : Dict String (List String)) (history : History) :
    Counted (start spec strategy stored history) ∧ Alive (start spec strategy stored history) := by
  unfold start
  dsimp only
  split
  · obtain ⟨hcounted, hfailed⟩ := counted_warmupFrames spec strategy
      (w := { strategy := some strategy.onStart, seenIds := stored }) rfl rfl history
      spec.timeframes
    exact ⟨hcounted, fun _ => hfailed⟩
  · exact ⟨rfl, fun _ => rfl⟩

theorem counted_run (spec : StrategySpec) (strategy : Strategy σ)
    (stored : Dict String (List String)) (history : History) (events : List Event) :
    Counted (events.foldl (Worker.after spec strategy) (start spec strategy stored history)) := by
  have hrun : ∀ w : Worker σ, Counted w → Alive w →
      Counted (events.foldl (Worker.after spec strategy) w) := by
    induction events with
    | nil => exact fun w h _ => h
    | cons e events ih =>
      intro w h halive
      obtain ⟨hnext, hlive⟩ := counted_after spec strategy h halive e
      exact ih _ hnext hlive
  obtain ⟨hcounted, halive⟩ := counted_start spec strategy stored history
  exact hrun _ hcounted halive

end Counting

end Trademetrix.StrategyRuntime.Evaluations
