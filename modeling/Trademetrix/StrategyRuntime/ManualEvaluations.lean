import Trademetrix.Builder.Triggers
import Trademetrix.Run
import Trademetrix.StrategyRuntime.ErrorCounts

/-!
# Manual evaluations

`manual_evaluate` hands the last closed candle to the instance of the strategy once more and
does not execute the orders of its answer, but the instance is the one that the live candles
come to. The evaluation lock keeps a call apart from the evaluations of the worker.
-/

namespace Trademetrix.StrategyRuntime.Evaluations

/-- What comes to a worker: an event, or a call of `manual_evaluate`. -/
inductive Call
  | live (e : Event)
  | manual (memory : PositionMemory)

def Call.isLive : Call → Bool
  | .live _ => true
  | .manual _ => false

section Calls

variable {σ : Type} (spec : StrategySpec) (strategy : Strategy σ)

/-- `manual_evaluate`, and the orders of its signal if there is an answer. -/
def manualEvaluate (memory : PositionMemory) (w : Worker σ) :
    Worker σ × Option (List Workers.Order) :=
  match w.strategy, w.evaluationAllowed, w.mtfCandle with
  | some s, true, some candle =>
    let answer := strategy.onCandle memory s candle
    match answer.2 with
    | none => ({ w with strategy := some answer.1, errors := w.errors + 1 }, none)
    | some orders => ({ w with strategy := some answer.1 }, some orders)
  | _, _, _ => (w, none)

def Worker.heed (w : Worker σ) : Call → Worker σ
  | .live e => w.after spec strategy e
  | .manual memory => if w.failed then w else (manualEvaluate strategy memory w).1

variable (stored : Dict String (List String)) (history : History)

def SameEvaluations (calls : List Call) : Prop :=
  (calls.foldl (Worker.heed spec strategy) (start spec strategy stored history)).evaluations =
    ((calls.filter Call.isLive).foldl (Worker.heed spec strategy)
      (start spec strategy stored history)).evaluations

end Calls

section Calls

variable (spec : StrategySpec) (stored : Dict String (List String)) (history : History)
  (calls : List Call)

def DryRun : Prop :=
  ∀ (σ : Type) (strategy : Strategy σ) (later : List Event),
    SameEvaluations spec strategy stored history (calls ++ later.map .live)

/-- Whether a worker may evaluate, and whether a candle of its interval has closed since it was
started or resumed. -/
structure Readiness where
  allowed : Bool := true
  closed : Bool := false

def Readiness.after (r : Readiness) : Call → Readiness
  | .live (.tick _ _ (some _)) => { r with closed := true }
  | .live .pause => { r with allowed := false }
  | .live .resume => { allowed := true, closed := false }
  | _ => r

def Readiness.Idle (r : Readiness) (call : Call) : Prop :=
  call.isLive = true ∨ ¬(r.allowed = true ∧ r.closed = true)

end Calls

section Idle

variable {σ : Type} (spec : StrategySpec) (strategy : Strategy σ) {w : Worker σ} {r : Readiness}

theorem answered_mtfCandle (source : Source) (input : Input)
    (answer : σ × Option (List Workers.Order)) :
    (w.answered source input answer).1.mtfCandle = w.mtfCandle := by
  unfold Worker.answered
  cases answer.2 <;> rfl

theorem evaluate_mtfCandle (source : Source) (memory : PositionMemory) (candle : Candle) :
    (evaluate strategy source memory candle w).1.mtfCandle = w.mtfCandle := by
  unfold evaluate
  cases w.strategy with
  | none => rfl
  | some s => exact answered_mtfCandle source _ _

theorem evaluateTick_frame (tick : Tick) (w : Worker σ) :
    (evaluateTick strategy tick w).1.mtfCandle = w.mtfCandle ∧
      (evaluateTick strategy tick w).1.evaluationAllowed = w.evaluationAllowed := by
  unfold evaluateTick
  split
  · exact ⟨answered_mtfCandle .loop _ _, answered_frame.2.1⟩
  · exact ⟨rfl, rfl⟩

theorem handleCandle_mtfCandle (source : Source) (memory : PositionMemory) (candle : Candle) :
    (handleCandle spec strategy source memory candle w).1.mtfCandle = w.mtfCandle := by
  unfold handleCandle
  split_ifs
  · rfl
  · exact evaluate_mtfCandle strategy source memory candle
  · rfl

theorem start_mtfCandle (stored : Dict String (List String)) (history : History) :
    (start spec strategy stored history).strategy.isSome = true ∧
      (start spec strategy stored history).mtfCandle = none := by
  unfold start
  dsimp only
  split_ifs
  · refine warmupFrames_keeps (I := fun w => w.strategy.isSome = true ∧ w.mtfCandle = none)
      (fun _ _ _ h => h) (fun w memory candle h => ⟨?_, ?_⟩) ⟨rfl, rfl⟩ history spec.timeframes
    · obtain ⟨s, hs⟩ := Option.isSome_iff_exists.mp h.1
      rw [evaluate, hs]
      exact Option.isSome_iff_exists.mpr ⟨_, answered_strategy⟩
    · rw [evaluate_mtfCandle, h.2]
  · exact ⟨rfl, rfl⟩

structure Worker.Within (w : Worker σ) (r : Readiness) : Prop where
  allowed : w.evaluationAllowed = r.allowed
  closed : w.mtfCandle.isSome = true → r.closed = true

theorem Worker.Within.processTick (h : w.Within r) (tick : Tick) (memory : PositionMemory)
    (closed : Option Candle) :
    (processTick spec strategy tick memory closed w).1.Within
      (r.after (.live (.tick tick memory closed))) := by
  unfold Evaluations.processTick
  have hfirst : (if spec.trigger = .everyTick ∧ w.evaluationAllowed
      then evaluateTick strategy tick w else (w, false)).1.Within r := by
    split
    · obtain ⟨hcandle, hallowed⟩ := evaluateTick_frame strategy tick w
      refine ⟨hallowed.trans h.allowed, fun hsome => h.closed ?_⟩
      rwa [hcandle] at hsome
    · exact h
  generalize (if spec.trigger = .everyTick ∧ w.evaluationAllowed
    then evaluateTick strategy tick w else (w, false)) = out at hfirst
  obtain ⟨next, raised⟩ := out
  cases closed with
  | none => cases raised <;> exact hfirst
  | some candle =>
    cases raised with
    | true => exact ⟨hfirst.allowed, fun _ => rfl⟩
    | false =>
      have hframe := handleCandle_frame spec strategy .loop memory candle (next.closed candle)
      exact ⟨hframe.1.trans hfirst.allowed, fun _ => rfl⟩

theorem Worker.Within.after (h : w.Within r) (e : Event) :
    (w.after spec strategy e).Within (r.after (.live e)) := by
  cases e with
  | tick tick memory closed =>
    change (w.inLoop _).Within _
    unfold Worker.inLoop
    split
    · have hnext := h.processTick spec strategy tick memory closed
      dsimp only
      split
      · exact ⟨hnext.allowed, hnext.closed⟩
      · exact hnext
    · cases closed with
      | none => exact h
      | some candle => exact ⟨h.allowed, fun _ => rfl⟩
  | timeTick memory =>
    change (Evaluations.timeTick spec strategy memory w).Within r
    unfold Evaluations.timeTick
    split
    · exact h
    · cases hcandle : w.mtfCandle with
      | none => exact h
      | some candle =>
        have hframe := handleCandle_frame spec strategy .timeTrigger memory candle w
        refine ⟨hframe.1.trans h.allowed, fun hsome => h.closed ?_⟩
        rwa [handleCandle_mtfCandle spec strategy] at hsome
  | pause => exact ⟨rfl, h.closed⟩
  | resume => exact ⟨rfl, nofun⟩

theorem Worker.Within.manualEvaluate (h : w.Within r) (memory : PositionMemory)
    (hidle : ¬(r.allowed = true ∧ r.closed = true)) :
    (Evaluations.manualEvaluate strategy memory w).1 = w := by
  unfold Evaluations.manualEvaluate
  split
  · next hallowed hcandle =>
    refine absurd ⟨?_, h.closed ?_⟩ hidle
    · rw [← h.allowed, hallowed]
    · rw [hcandle]
      rfl
  · rfl

theorem heed_filter_isLive (h : w.Within r) (calls : List Call)
    (hidle : Along Readiness.after Readiness.Idle r calls) :
    calls.foldl (Worker.heed spec strategy) w =
      (calls.filter Call.isLive).foldl (Worker.heed spec strategy) w := by
  induction calls generalizing w r with
  | nil => rfl
  | cons call calls ih =>
    obtain ⟨hcall, hidle⟩ := hidle
    cases call with
    | live e => exact ih (h.after spec strategy e) hidle
    | manual memory =>
      have hready : ¬(r.allowed = true ∧ r.closed = true) := hcall.resolve_left Bool.false_ne_true
      have hsame : w.heed spec strategy (.manual memory) = w := by
        unfold Worker.heed
        dsimp only
        rw [h.manualEvaluate strategy memory hready, ite_self]
      rw [List.foldl_cons, hsame]
      exact ih h hidle

end Idle

section Counter

variable (spec : StrategySpec) {v w : Worker ℕ} {k m : ℕ}

def counter : Strategy ℕ where
  onStart := 0
  onCandle _ n _ := (n + 1, some [⟨"", "BUY", n + 1⟩])
  onTick n _ := (n, some [])

theorem handleCandle_counter (h : v.strategy = some m) (source : Source) (memory : PositionMemory)
    (candle : Candle) :
    handleCandle spec counter source memory candle v =
      if candle.timestamp ∈ v.seen spec.interval then (v, false)
      else if v.evaluationAllowed then
        ((v.took spec.interval candle).called (m + 1)
          ⟨source, .candle memory candle, some [⟨"", "BUY", m + 1⟩]⟩, false)
      else (v.took spec.interval candle, false) := by
  have htook : (v.took spec.interval candle).strategy = some m := h
  unfold handleCandle evaluate
  rw [htook]
  rfl

theorem evaluateTick_counter (h : v.strategy = some m) (hallowed : v.evaluationAllowed = true)
    (tick : Tick) : evaluateTick counter tick v =
      ({ v with evaluations := v.evaluations ++ [⟨.loop, .tick tick, some []⟩] }, false) := by
  obtain ⟨strategy, allowed⟩ := v
  dsimp only at h hallowed
  subst h hallowed
  rfl

theorem processTick_counter (h : v.strategy = some m) (tick : Tick) (memory : PositionMemory)
    (closed : Option Candle) :
    ∃ es, processTick spec counter tick memory closed v =
      match closed with
      | none => ({ v with evaluations := es }, false)
      | some candle => handleCandle spec counter .loop memory candle
          { v with evaluations := es, mtfCandle := some candle } := by
  unfold processTick
  split_ifs with hevery
  · rw [evaluateTick_counter h hevery.2]
    exact ⟨_, by cases closed <;> rfl⟩
  · exact ⟨v.evaluations, by cases closed <;> rfl⟩

structure Ahead (k : ℕ) (v w : Worker ℕ) : Prop where
  task : v.task = true
  failed : v.failed = false
  counts : ∃ m es, v.strategy = some m ∧ w = { v with strategy := some (k + m), evaluations := es }

theorem Ahead.handleCandle (h : Ahead k v w) (source : Source) (memory : PositionMemory)
    (candle : Candle) :
    Ahead k (Evaluations.handleCandle spec counter source memory candle v).1
        (Evaluations.handleCandle spec counter source memory candle w).1 ∧
      (Evaluations.handleCandle spec counter source memory candle v).2 = false ∧
      (Evaluations.handleCandle spec counter source memory candle w).2 = false := by
  obtain ⟨m, es, hm, rfl⟩ := h.counts
  rw [handleCandle_counter spec hm, handleCandle_counter spec (m := k + m) rfl]
  have hseen : Worker.seen { v with strategy := some (k + m), evaluations := es } spec.interval =
      v.seen spec.interval := rfl
  rw [hseen]
  dsimp only
  split_ifs
  · exact ⟨h, rfl, rfl⟩
  · exact ⟨⟨h.task, h.failed, m + 1, _, rfl, rfl⟩, rfl, rfl⟩
  · exact ⟨⟨h.task, h.failed, m, es, hm, rfl⟩, rfl, rfl⟩

theorem Ahead.processTick (h : Ahead k v w) (tick : Tick) (memory : PositionMemory)
    (closed : Option Candle) :
    Ahead k (Evaluations.processTick spec counter tick memory closed v).1
        (Evaluations.processTick spec counter tick memory closed w).1 ∧
      (Evaluations.processTick spec counter tick memory closed v).2 = false ∧
      (Evaluations.processTick spec counter tick memory closed w).2 = false := by
  obtain ⟨m, es, hm, rfl⟩ := h.counts
  obtain ⟨fs, hv⟩ := processTick_counter spec hm tick memory closed
  obtain ⟨gs, hw⟩ := processTick_counter spec (m := k + m)
    (v := { v with strategy := some (k + m), evaluations := es }) rfl tick memory closed
  rw [hv, hw]
  cases closed with
  | none => exact ⟨⟨h.task, h.failed, m, gs, hm, rfl⟩, rfl, rfl⟩
  | some candle =>
    refine Ahead.handleCandle spec (v := { v with evaluations := fs, mtfCandle := some candle }) ?_ ..
    exact ⟨h.task, h.failed, m, gs, hm, rfl⟩

theorem Ahead.after (h : Ahead k v w) (e : Event) :
    Ahead k (v.after spec counter e) (w.after spec counter e) := by
  obtain ⟨m, es, hm, hw⟩ := h.counts
  cases e with
  | tick tick memory closed =>
    obtain ⟨hnext, hfine, hfine'⟩ := h.processTick spec tick memory closed
    have htask : w.task = true := by rw [hw]; exact h.task
    change Ahead k (v.inLoop _) (w.inLoop _)
    rw [Worker.inLoop, Worker.inLoop, if_pos h.task, if_pos htask]
    dsimp only
    rw [hfine, hfine', if_neg Bool.false_ne_true, if_neg Bool.false_ne_true]
    exact hnext
  | timeTick memory =>
    change Ahead k (Evaluations.timeTick spec counter memory v) (Evaluations.timeTick spec counter memory w)
    have hfailed : w.failed = v.failed := by rw [hw]
    have hallowed : w.evaluationAllowed = v.evaluationAllowed := by rw [hw]
    have hcandle : w.mtfCandle = v.mtfCandle := by rw [hw]
    unfold Evaluations.timeTick
    rw [hfailed, hallowed, hcandle]
    split_ifs
    · exact h
    · cases v.mtfCandle with
      | none => exact h
      | some candle => exact (h.handleCandle spec .timeTrigger memory candle).1
  | pause =>
    subst hw
    exact ⟨h.task, h.failed, m, es, hm, rfl⟩
  | resume =>
    subst hw
    exact ⟨h.task, h.failed, m, es, hm, rfl⟩

structure Worker.Ready (v : Worker ℕ) (r : Readiness) : Prop extends v.Within r where
  closes : r.closed = true → v.mtfCandle.isSome = true

theorem processTick_mtfCandle (h : v.strategy = some m) (tick : Tick) (memory : PositionMemory)
    (closed : Option Candle) :
    (processTick spec counter tick memory closed v).1.mtfCandle = closed.or v.mtfCandle := by
  obtain ⟨es, hv⟩ := processTick_counter spec h tick memory closed
  rw [hv]
  cases closed with
  | none => rfl
  | some candle => exact handleCandle_mtfCandle spec counter .loop memory candle

theorem Worker.Ready.after {r : Readiness} (h : v.Ready r) (hv : Ahead k v w) (e : Event) :
    (v.after spec counter e).Ready (r.after (.live e)) := by
  refine { h.toWithin.after spec counter e with closes := ?_ }
  obtain ⟨m, es, hm, -⟩ := hv.counts
  cases e with
  | tick tick memory closed =>
    obtain ⟨-, hfine, -⟩ := hv.processTick spec tick memory closed
    change _ → (v.inLoop _).mtfCandle.isSome = true
    rw [Worker.inLoop, if_pos hv.task]
    dsimp only
    rw [hfine, if_neg Bool.false_ne_true, processTick_mtfCandle spec hm]
    cases closed with
    | none => exact h.closes
    | some candle => exact fun _ => rfl
  | timeTick memory =>
    change _ → (Evaluations.timeTick spec counter memory v).mtfCandle.isSome = true
    unfold Evaluations.timeTick
    split
    · exact h.closes
    · cases hcandle : v.mtfCandle with
      | none => exact fun hclosed => by simpa [hcandle] using h.closes hclosed
      | some candle =>
        dsimp only
        rw [handleCandle_mtfCandle, hcandle]
        exact fun _ => rfl
  | pause => exact h.closes
  | resume => exact nofun

theorem Ahead.manual {r : Readiness} (h : Ahead k v w) (hr : v.Ready r)
    (hready : r.allowed = true ∧ r.closed = true) (memory : PositionMemory) :
    Ahead (k + 1) v (w.heed spec counter (.manual memory)) := by
  obtain ⟨m, es, hm, rfl⟩ := h.counts
  obtain ⟨candle, hcandle⟩ := Option.isSome_iff_exists.mp (hr.closes hready.2)
  have hallowed : v.evaluationAllowed = true := hr.allowed.trans hready.1
  refine ⟨h.task, h.failed, m, es, hm, ?_⟩
  unfold Worker.heed manualEvaluate
  dsimp only
  rw [h.failed, hallowed, hcandle, if_neg Bool.false_ne_true]
  have hcount : k + m + 1 = k + 1 + m := by omega
  simp [counter, hcount]

theorem Ahead.run {r : Readiness} (h : Ahead k v w) (hr : v.Ready r) (calls : List Call) :
    ∃ k', k ≤ k' ∧ Ahead k' ((calls.filter Call.isLive).foldl (Worker.heed spec counter) v)
        (calls.foldl (Worker.heed spec counter) w) ∧
      (k' = k → Along Readiness.after Readiness.Idle r calls) := by
  induction calls generalizing v w r k with
  | nil => exact ⟨k, le_rfl, h, fun _ => trivial⟩
  | cons call calls ih =>
    cases call with
    | live e =>
      obtain ⟨k', hle, hahead, hidle⟩ := ih (h.after spec e) (hr.after spec h e)
      exact ⟨k', hle, hahead, fun heq => ⟨.inl rfl, hidle heq⟩⟩
    | manual memory =>
      by_cases hready : r.allowed = true ∧ r.closed = true
      · obtain ⟨k', hle, hahead, -⟩ := ih (h.manual spec hr hready memory) hr
        exact ⟨k', by omega, hahead, fun heq => absurd heq (by omega)⟩
      · obtain ⟨m, es, hm, hw⟩ := h.counts
        have hwithin : w.Within r := by
          rw [hw]
          exact ⟨hr.allowed, hr.closed⟩
        have hsame : w.heed spec counter (.manual memory) = w := by
          unfold Worker.heed
          dsimp only
          rw [hwithin.manualEvaluate counter memory hready, ite_self]
        obtain ⟨k', hle, hahead, hidle⟩ := ih h hr
        refine ⟨k', hle, ?_, fun heq => ⟨.inr hready, hidle heq⟩⟩
        rw [List.foldl_cons, hsame]
        exact hahead

theorem handleCandle_new (hm : v.strategy = some m) (hallowed : v.evaluationAllowed = true)
    (source : Source) (memory : PositionMemory) {candle : Candle}
    (hnew : candle.timestamp ∉ v.seen spec.interval) :
    handleCandle spec counter source memory candle v =
      ((v.took spec.interval candle).called (m + 1)
        ⟨source, .candle memory candle, some [⟨"", "BUY", m + 1⟩]⟩, false) := by
  rw [handleCandle_counter spec hm, if_neg hnew, if_pos hallowed]

theorem evaluations_new (hm : v.strategy = some m) (htask : v.task = true) (tick : Tick)
    (memory : PositionMemory) (candle : Candle) (hnew : candle.timestamp ∉ v.seen spec.interval) :
    ∃ es, ((v.after spec counter .resume).after spec counter
        (.tick tick memory (some candle))).evaluations =
      es ++ [⟨.loop, .candle memory candle, some [⟨"", "BUY", m + 1⟩]⟩] := by
  obtain ⟨es, hes⟩ := processTick_counter spec (v := v.resume) hm tick memory (some candle)
  have hout := hes.trans (handleCandle_new spec
    (v := { v.resume with evaluations := es, mtfCandle := some candle }) hm rfl .loop memory hnew)
  have hresumed : v.resume.task = true := htask
  refine ⟨es, ?_⟩
  change (v.resume.inLoop _).evaluations = _
  rw [Worker.inLoop, if_pos hresumed, hout]
  rfl

theorem dryRun_of_idle {stored : Dict String (List String)} {history : History} {calls : List Call}
    (h : Along Readiness.after Readiness.Idle {} calls) : DryRun spec stored history calls := by
  intro σ strategy later
  have hwithin : (start spec strategy stored history).Within {} :=
    ⟨rfl, fun hsome => by simp [start_mtfCandle] at hsome⟩
  have hlater : (later.map Call.live).filter Call.isLive = later.map Call.live :=
    List.filter_eq_self.mpr fun call hcall => by
      obtain ⟨e, -, rfl⟩ := List.mem_map.mp hcall
      rfl
  rw [SameEvaluations, List.filter_append, hlater, List.foldl_append, List.foldl_append,
    heed_filter_isLive spec strategy hwithin calls h]

theorem idle_of_dryRun {stored : Dict String (List String)} {history : History} {calls : List Call}
    (h : DryRun spec stored history calls) : Along Readiness.after Readiness.Idle {} calls := by
  obtain ⟨hinstance, hcandle⟩ := start_mtfCandle spec counter stored history
  obtain ⟨m, hm⟩ := Option.isSome_iff_exists.mp hinstance
  have hstart : Ahead 0 (start spec counter stored history) (start spec counter stored history) := by
    refine ⟨rfl, (counted_start spec counter stored history).2 rfl, m,
      (start spec counter stored history).evaluations, hm, ?_⟩
    rw [Nat.zero_add, ← hm]
  have hready : (start spec counter stored history).Ready {} :=
    ⟨⟨rfl, fun hsome => by simp [hcandle] at hsome⟩, nofun⟩
  obtain ⟨k, -, hahead, hidle⟩ := hstart.run spec hready calls
  -- a candle that neither has seen shows how far the one is ahead
  obtain ⟨n, es, hn, hw⟩ := hahead.counts
  obtain ⟨timestamp, hnew⟩ := Infinite.exists_notMem_finset
    (((calls.filter Call.isLive).foldl (Worker.heed spec counter)
      (start spec counter stored history)).seen spec.interval).toFinset
  rw [List.mem_toFinset] at hnew
  let tick : Tick := ⟨0, 0, 0, 0, 0⟩
  let candle : Candle := ⟨timestamp, 0, 0, 0, 0, 0, 0⟩
  have hsame := h ℕ counter [.resume, .tick tick {} (some candle)]
  obtain ⟨fs, hfs⟩ := evaluations_new spec hn hahead.task tick {} candle hnew
  obtain ⟨gs, hgs⟩ := evaluations_new spec (v := calls.foldl (Worker.heed spec counter)
    (start spec counter stored history)) (m := k + n) (by rw [hw]) (by rw [hw]; exact hahead.task)
    tick {} candle (by rw [hw]; exact hnew)
  rw [SameEvaluations, List.filter_append, List.foldl_append, List.foldl_append] at hsame
  have hlast := congrArg List.getLast? (hgs.symm.trans (hsame.trans hfs))
  simp only [List.getLast?_concat, Option.some.injEq, Evaluation.mk.injEq, List.cons.injEq,
    Workers.Order.mk.injEq] at hlast
  exact hidle (by omega)

end Counter

/-- Manual calls are a dry run of every strategy if and only if none of them evaluates. -/
theorem dryRun_iff (spec : StrategySpec) (stored : Dict String (List String)) (history : History)
    (calls : List Call) :
    DryRun spec stored history calls ↔ Along Readiness.after Readiness.Idle {} calls :=
  ⟨idle_of_dryRun spec, dryRun_of_idle spec⟩

section Average

open Builder

/-- `GraphStrategy` as a worker calls it. -/
def graphStrategy (blocks : Blocks) (p : GraphProgram) : Strategy GraphState where
  onStart := {}
  onCandle memory s candle :=
    let out := onCandle blocks p { s with memory := memory } candle
    (out.1, some (out.2.2.getD []))
  onTick s _ := (s, some [])

/-- The loop of `_compute_sma` from an index on; `none` raises. -/
def smaSeries (series : List ℚ) (period : ℤ) :
    List (ℚ × ℕ) → ℚ → List ℚ → Option (List ℚ)
  | [], _, averages => some averages
  | (price, i) :: prices, running, averages => do
    let running := running + price
    let running ←
      if period ≤ i then (series[(i - period).toNat]?).map (running - ·) else some running
    if period - 1 ≤ i then
      if period = 0 then none
      else smaSeries series period prices running (averages ++ [running / period])
    else smaSeries series period prices running averages

def computeSma (ctx : Ctx) : Option Value := do
  let series := getSeries ctx "close"
  let period ← (getOr ctx.params "period" (.num 20)).toInt
  if series.length < period then return .dict [("value", .num 0), ("series", .list [])]
  else
    let averages ← smaSeries series period series.zipIdx 0 []
    let value ← averages.getLast?
    return .dict [("value", .num value), ("series", .list (averages.map .num))]

def averageBlocks : Blocks where
  getBlock := (someBlocks ++ [("indicator.sma", {
      name := "SMA"
      category := .indicator
      inputs := [{ name := "source", label := "Source Series" }]
      outputs := [{ name := "value", label := "value" }, { name := "series", label := "series" }]
      params := [{ name := "period", label := "Period", default := .num 20 }] }),
    ("logic.gt", {
      name := "Greater Than"
      category := .logic
      inputs := [{ name := "a", label := "Input A" }, { name := "b", label := "Input B" }]
      outputs := [{ name := "result", label := "result" }] })] : Dict String BlockDef).get
  compute blockType ctx := if blockType = "indicator.sma" then computeSma ctx else none
  floatOf _ := none

def averageAbove : StrategyDSL where
  nodes := [{ id := "src", blockType := "source.candle" },
    { id := "sma", blockType := "indicator.sma", params := [("period", .num 3)] },
    { id := "five", blockType := "constant.number", params := [("value", .num 5)] },
    { id := "gt", blockType := "logic.gt" },
    { id := "buy", blockType := "order.buy" }]
  edges := [⟨"src", "close", "sma", "source"⟩, ⟨"sma", "value", "gt", "a"⟩,
    ⟨"five", "value", "gt", "b"⟩, ⟨"gt", "result", "buy", "condition"⟩]

def averageProgram : GraphProgram where
  dsl := averageAbove
  graph := some {
    nodes := [⟨"src", "source.candle", "input", 0, [], "open", [], "source.candle", 10⟩,
      ⟨"five", "constant.number", "variable", 1, [], "value", [("value", .num 5)],
        "constant.number", 5⟩,
      ⟨"sma", "indicator.sma", "indicator", 2, ["src"], "value", [("period", .num 3)],
        "indicator.sma", 50⟩,
      ⟨"gt", "logic.gt", "logic", 3, ["sma", "five"], "result", [], "logic.gt", 2⟩,
      ⟨"buy", "order.buy", "order", 4, ["gt"], "signal", [], "order.buy", 5⟩]
    entryPoints := ["src", "five"]
    exitPoints := ["buy"]
    totalEstimatedLatencyUs := 72
    maxDepth := 3 }
  symbol := "NIFTY"

theorem construct_averageAbove :
    GraphProgram.construct averageBlocks dedupOrder averageAbove [] "NIFTY" = some averageProgram :=
  rfl

def unwarmedSpec : StrategySpec where
  strategyId := "s1"
  userId := "u1"
  interval := "15m"
  timeframes := ["15m"]
  mode := "paper"
  isPaper := true
  broker := ""
  confirmed := true
  trigger := .candleClose
  warmup := false
  maxPositions := 0
  maxRiskPerTrade := 0
  maxDailyTrades := 0

def closing (timestamp : String) (price : ℚ) : Event :=
  .tick ⟨price, 0, 0, 0, 0⟩ {} (some (flatCandle timestamp price))

/-- After two candles there is no average yet and nothing is bought; with a manual call between
them there is one, and the second candle buys. -/
theorem not_dryRun_average :
    GraphProgram.construct averageBlocks dedupOrder averageAbove [] "NIFTY" =
        some averageProgram ∧
      ¬DryRun unwarmedSpec [] (fun _ => none)
        [.live (closing "2026-10-05T09:15:00" 6), .manual {}] := by
  refine ⟨construct_averageAbove, fun h => ?_⟩
  have hsame := h GraphState (graphStrategy averageBlocks averageProgram)
    [closing "2026-10-05T09:30:00" 8]
  have horders := congrArg (List.map fun e => e.orders.map List.length) hsame
  exact absurd horders (by decide +kernel)

end Average

end Trademetrix.StrategyRuntime.Evaluations
