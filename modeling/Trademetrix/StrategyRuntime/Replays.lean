import Trademetrix.Dedup
import Trademetrix.StrategyRuntime.Evaluations

/-!
# Restarts and warm-up

A worker that is started anew on the stored ids of seen candles and the history, beside
one that goes on. What the warm-up replays is what is not stored as seen, so the two are
alike only if nothing was stored and the history is what had been processed.
-/

namespace Trademetrix.StrategyRuntime.Evaluations

abbrev Delivery := PositionMemory × Candle

def Delivery.timestamp (d : Delivery) : String := d.2.timestamp

def once (ds : List Delivery) : List Delivery :=
  (Dedup.arrivals Delivery.timestamp {} ds).done

def readable : List (PositionMemory × Option Candle) → List Delivery
  | (memory, some candle) :: rows => (memory, candle) :: readable rows
  | _ => []

def AllReadable (rows : List (PositionMemory × Option Candle)) : Prop := ∀ row ∈ rows, row.2.isSome

instance (rows : List (PositionMemory × Option Candle)) : Decidable (AllReadable rows) :=
  inferInstanceAs (Decidable (∀ row ∈ rows, row.2.isSome))

def readHistory (interval : String) (history : History) : List String → List Delivery
  | [] => []
  | tf :: tfs =>
    match history tf with
    | none => readHistory interval history tfs
    | some rows =>
      let own := if tf = interval then readable rows else []
      if AllReadable rows then own ++ readHistory interval history tfs else own

section Workers

variable {σ : Type} (spec : StrategySpec) (strategy : Strategy σ)

def deliver (w : Worker σ) (d : Delivery) : Worker σ :=
  w.inLoop (handleCandle spec strategy .loop d.1 d.2)

def deliverAll (w : Worker σ) (ds : List Delivery) : Worker σ := ds.foldl (deliver spec strategy) w

def begun : Worker σ :=
  { strategy := some strategy.onStart, evaluationAllowed := true, task := true }

def uninterrupted (before : List Delivery) : Worker σ :=
  deliverAll spec strategy (begun strategy) before

end Workers

def Evaluation.executed (e : Evaluation) : Option String :=
  match e.source, e.input, e.orders with
  | .warmup, _, _ => none
  | _, .candle _ candle, some (_ :: _) => some candle.timestamp
  | _, _, _ => none

def Worker.executed {σ : Type} (w : Worker σ) : List String :=
  w.evaluations.filterMap Evaluation.executed

variable (spec : StrategySpec) (before : List Delivery) (stored : Dict String (List String))
  (history : History)

/-- Whatever the strategy, the worker that is restarted goes on as the one that has processed the
candles: the same instance and signals after whatever comes, and no candle's orders executed twice. -/
def Resumes : Prop :=
  ∀ (σ : Type) (strategy : Strategy σ), (uninterrupted spec strategy before).failed = false →
    ∀ after : List Delivery,
      let went := uninterrupted spec strategy before
      let restarted := start spec strategy stored history
      (deliverAll spec strategy restarted after).strategy =
          (deliverAll spec strategy went after).strategy ∧
        (∃ new, (deliverAll spec strategy restarted after).evaluations =
            restarted.evaluations ++ new ∧
          (deliverAll spec strategy went after).evaluations = went.evaluations ++ new) ∧
        (went.executed ++ (deliverAll spec strategy restarted after).executed).Nodup

/-- Under it it does: no seen candle of the strategy's interval is loaded, and the warm-up reads the
candles that had been processed, in their order and with the same positions. -/
structure Replayed : Prop where
  forgotten : spec.warmup = true → (stored.get spec.interval).getD [] = []
  replay : once before =
    if spec.warmup then once (readHistory spec.interval history spec.timeframes) else []

structure Course (σ : Type) where
  instance' : σ
  errors : ℕ := 0

namespace Course

variable {σ : Type} (strategy : Strategy σ)

def heed (c : Course σ) (d : Delivery) : Course σ :=
  let answer := strategy.onCandle d.1 c.instance' d.2
  ⟨answer.1, if answer.2.isNone then c.errors + 1 else c.errors⟩

def through (ds : List Delivery) : Course σ := ds.foldl (heed strategy) ⟨strategy.onStart, 0⟩

variable {strategy}

theorem errors_le_heed (c : Course σ) (d : Delivery) : c.errors ≤ (heed strategy c d).errors := by
  unfold heed
  dsimp only
  split <;> omega

theorem errors_le_through (ds later : List Delivery) :
    (through strategy ds).errors ≤ (through strategy (ds ++ later)).errors := by
  unfold through
  rw [List.foldl_append]
  generalize ds.foldl (heed strategy) ⟨strategy.onStart, 0⟩ = c
  induction later generalizing c with
  | nil => exact le_refl _
  | cons d later ih => exact (errors_le_heed c d).trans (ih _)

theorem through_concat (ds : List Delivery) (d : Delivery) :
    through strategy (ds ++ [d]) = heed strategy (through strategy ds) d := by
  simp [through]

end Course

section Tracking

variable {σ : Type} {spec : StrategySpec} {strategy : Strategy σ}

structure Tracks (spec : StrategySpec) (strategy : Strategy σ) (m : Dedup Delivery String)
    (w : Worker σ) : Prop where
  strategy_eq : w.strategy = some (Course.through strategy m.done).instance'
  errors_eq : w.consecutiveErrors = (Course.through strategy m.done).errors
  seen_eq : w.seen spec.interval = m.seen

theorem Tracks.evaluate {m : Dedup Delivery String} {w : Worker σ} (h : Tracks spec strategy m w)
    (source : Source) {d : Delivery} (hnew : d.timestamp ∉ m.seen) :
    let out := Evaluations.evaluate strategy source d.1 d.2 (w.saw spec.interval d.2)
    Tracks spec strategy (m.step (.arrive d d.timestamp)) out.1 ∧
      (out.2 = true → errorThreshold ≤ out.1.consecutiveErrors) ∧
      (out.2 = false → w.consecutiveErrors < errorThreshold →
        out.1.consecutiveErrors < errorThreshold) := by
  have heq : Evaluations.evaluate strategy source d.1 d.2 (w.saw spec.interval d.2) =
      (w.saw spec.interval d.2).answered source (.candle d.1 d.2)
        (strategy.onCandle d.1 (Course.through strategy m.done).instance' d.2) := by
    have hstrategy : (w.saw spec.interval d.2).strategy = _ := h.strategy_eq
    simp only [Evaluations.evaluate, hstrategy]
  have hstep : m.step (.arrive d d.timestamp) = ⟨m.seen ++ [d.timestamp], m.done ++ [d]⟩ :=
    if_neg hnew
  have herrors : (w.saw spec.interval d.2).consecutiveErrors = _ := h.errors_eq
  dsimp only
  rw [heq, hstep]
  refine ⟨⟨?_, ?_, ?_⟩, le_of_raised, lt_of_not_raised⟩
  · rw [answered_strategy, Course.through_concat]
    rfl
  · rw [answered_errors, Course.through_concat, herrors]
    rfl
  · have hseen : (w.saw spec.interval d.2).seen spec.interval = m.seen ++ [d.timestamp] := by
      rw [seen_saw, h.seen_eq]
      rfl
    rw [← hseen]
    unfold Worker.seen
    rw [answered_frame.1]

structure AtWork (w : Worker σ) : Prop where
  allowed : w.evaluationAllowed = true
  task : w.task = true
  failed : w.failed = false

theorem Tracks.deliver {m : Dedup Delivery String} {w : Worker σ} (h : Tracks spec strategy m w)
    (hw : AtWork w) (d : Delivery) (hfine : (Evaluations.deliver spec strategy w d).failed = false) :
    Tracks spec strategy (m.step (.arrive d d.timestamp)) (Evaluations.deliver spec strategy w d) ∧
      AtWork (Evaluations.deliver spec strategy w d) ∧
      (w.consecutiveErrors < errorThreshold →
        (Evaluations.deliver spec strategy w d).consecutiveErrors < errorThreshold) := by
  unfold Evaluations.deliver Worker.inLoop at hfine ⊢
  rw [if_pos hw.task] at hfine ⊢
  unfold handleCandle at hfine ⊢
  by_cases hseen : d.timestamp ∈ m.seen
  · have hmem : d.2.timestamp ∈ w.seen spec.interval := by
      rw [h.seen_eq]
      exact hseen
    have hstep : m.step (.arrive d d.timestamp) = m := if_pos hseen
    rw [if_pos hmem, hstep]
    exact ⟨h, hw, id⟩
  · have hmem : d.2.timestamp ∉ w.seen spec.interval := by
      rw [h.seen_eq]
      exact hseen
    have hlast : Tracks spec strategy m { w with lastCandle := some d.2 } :=
      ⟨h.strategy_eq, h.errors_eq, h.seen_eq⟩
    obtain ⟨htracks, -, hlt⟩ := hlast.evaluate .loop hseen
    obtain ⟨-, hallows, htask, hfailed⟩ := evaluate_frame strategy .loop d.1 d.2
      (w.took spec.interval d.2)
    rw [if_neg hmem, if_pos hw.allowed] at hfine ⊢
    dsimp only at hfine htracks hlt ⊢
    split at hfine
    · cases hfine
    · next hraised =>
      rw [if_neg hraised]
      exact ⟨htracks, ⟨hallows.trans hw.allowed, htask.trans hw.task, hfailed.trans hw.failed⟩,
        hlt (Bool.eq_false_iff.mpr hraised)⟩

theorem deliver_of_stopped {w : Worker σ} (h : w.task = false) (d : Delivery) :
    Evaluations.deliver spec strategy w d = w := by
  simp [Evaluations.deliver, Worker.inLoop, h]

theorem deliverAll_of_stopped {w : Worker σ} (h : w.task = false) (ds : List Delivery) :
    deliverAll spec strategy w ds = w := by
  induction ds with
  | nil => rfl
  | cons d ds ih =>
    have hcons : deliverAll spec strategy w (d :: ds) =
        deliverAll spec strategy (Evaluations.deliver spec strategy w d) ds := rfl
    rw [hcons, deliver_of_stopped h, ih]

theorem task_of_failed {w : Worker σ} (hw : w.failed = false) {d : Delivery}
    (h : (Evaluations.deliver spec strategy w d).failed = true) :
    (Evaluations.deliver spec strategy w d).task = false := by
  have hframe := (handleCandle_frame spec strategy .loop d.1 d.2 w).2.2
  unfold Evaluations.deliver Worker.inLoop at h ⊢
  split at h
  · next htask =>
    rw [if_pos htask]
    dsimp only at h ⊢
    split at h
    · next hraised =>
      rw [if_pos hraised]
      rfl
    · rw [hframe, hw] at h
      cases h
  · rw [hw] at h
    cases h

theorem Tracks.deliverAll {m : Dedup Delivery String} {w : Worker σ} (h : Tracks spec strategy m w)
    (hw : AtWork w) (hfew : w.consecutiveErrors < errorThreshold) (ds : List Delivery)
    (hfine : (Evaluations.deliverAll spec strategy w ds).failed = false) :
    Tracks spec strategy (m.arrivals Delivery.timestamp ds)
        (Evaluations.deliverAll spec strategy w ds) ∧
      AtWork (Evaluations.deliverAll spec strategy w ds) ∧
      (Evaluations.deliverAll spec strategy w ds).consecutiveErrors < errorThreshold := by
  induction ds generalizing m w with
  | nil => exact ⟨h, hw, hfew⟩
  | cons d ds ih =>
    have hcons : Evaluations.deliverAll spec strategy w (d :: ds) =
        Evaluations.deliverAll spec strategy (Evaluations.deliver spec strategy w d) ds := rfl
    rw [hcons] at hfine ⊢
    have hnext : (Evaluations.deliver spec strategy w d).failed = false := by
      by_contra hfailed
      have htrue : (Evaluations.deliver spec strategy w d).failed = true := by simpa using hfailed
      rw [deliverAll_of_stopped (task_of_failed hw.failed htrue)] at hfine
      exact hfailed hfine
    obtain ⟨htracks, hwork, hlt⟩ := h.deliver hw d hnext
    exact ih htracks hwork (hlt hfew) hfine

theorem errors_le_arrivals (m : Dedup Delivery String) (ds : List Delivery) :
    (Course.through strategy m.done).errors ≤
      (Course.through strategy (m.arrivals Delivery.timestamp ds).done).errors := by
  obtain ⟨new, hdone, -⟩ := Dedup.arrivals_spec Delivery.timestamp m ds
  rw [hdone]
  exact Course.errors_le_through _ new

theorem Tracks.warmupRows {m : Dedup Delivery String} {w : Worker σ}
    (h : Tracks spec strategy m w) (rows : List (PositionMemory × Option Candle))
    (hfew : (Course.through strategy
      (m.arrivals Delivery.timestamp (readable rows)).done).errors < errorThreshold) :
    let out := Evaluations.warmupRows spec strategy spec.interval rows w
    Tracks spec strategy (m.arrivals Delivery.timestamp (readable rows)) out.1 ∧
      (out.2 = true ↔ ¬AllReadable rows) := by
  induction rows generalizing m w with
  | nil => exact ⟨h, by simp [Evaluations.warmupRows, AllReadable]⟩
  | cons row rows ih =>
    obtain ⟨memory, candle⟩ := row
    cases candle with
    | none => exact ⟨h, by simp [Evaluations.warmupRows, AllReadable]⟩
    | some candle =>
      have hall : AllReadable ((memory, some candle) :: rows) ↔ AllReadable rows := by
        simp [AllReadable]
      have hread : readable ((memory, some candle) :: rows) = (memory, candle) :: readable rows :=
        rfl
      rw [hread, Dedup.arrivals_cons] at hfew ⊢
      rw [hall]
      unfold Evaluations.warmupRows
      by_cases hseen : candle.timestamp ∈ m.seen
      · have hmem : candle.timestamp ∈ w.seen spec.interval := by rwa [h.seen_eq]
        have hstep : m.step (.arrive (memory, candle) (Delivery.timestamp (memory, candle))) = m :=
          if_pos hseen
        rw [hstep] at hfew ⊢
        rw [if_pos hmem]
        exact ih h hfew
      · have hmem : candle.timestamp ∉ w.seen spec.interval := by rwa [h.seen_eq]
        obtain ⟨htracks, hraise, -⟩ := h.evaluate .warmup (d := (memory, candle)) hseen
        rw [if_neg hmem]
        dsimp only at htracks hraise ⊢
        rw [if_pos rfl]
        have hquiet : ¬(Evaluations.evaluate strategy .warmup memory candle
            (w.saw spec.interval candle)).2 = true := by
          intro hraised
          have hmany := hraise hraised
          rw [htracks.errors_eq] at hmany
          exact absurd (hmany.trans (errors_le_arrivals _ _)) (Nat.not_le_of_lt hfew)
        rw [if_neg hquiet]
        exact ih htracks hfew

theorem Tracks.warmupRows_of_ne {m : Dedup Delivery String} {w : Worker σ}
    (h : Tracks spec strategy m w) {tf : String} (htf : tf ≠ spec.interval)
    (rows : List (PositionMemory × Option Candle)) :
    let out := Evaluations.warmupRows spec strategy tf rows w
    Tracks spec strategy m out.1 ∧ (out.2 = true ↔ ¬AllReadable rows) := by
  induction rows generalizing w with
  | nil => exact ⟨h, by simp [Evaluations.warmupRows, AllReadable]⟩
  | cons row rows ih =>
    obtain ⟨memory, candle⟩ := row
    cases candle with
    | none => exact ⟨h, by simp [Evaluations.warmupRows, AllReadable]⟩
    | some candle =>
      have hall : AllReadable ((memory, some candle) :: rows) ↔ AllReadable rows := by
        simp [AllReadable]
      rw [hall]
      unfold Evaluations.warmupRows
      by_cases hseen : candle.timestamp ∈ w.seen tf
      · rw [if_pos hseen]
        exact ih h
      · rw [if_neg hseen, if_neg htf]
        refine ih ⟨h.strategy_eq, h.errors_eq, ?_⟩
        rw [seen_saw_of_ne (Ne.symm htf), h.seen_eq]

theorem Tracks.warmupFrames {m : Dedup Delivery String} {w : Worker σ}
    (h : Tracks spec strategy m w) (history : History) (tfs : List String)
    (hfew : (Course.through strategy (m.arrivals Delivery.timestamp
      (readHistory spec.interval history tfs)).done).errors < errorThreshold) :
    Tracks spec strategy
      (m.arrivals Delivery.timestamp (readHistory spec.interval history tfs))
      (Evaluations.warmupFrames spec strategy history tfs w) := by
  induction tfs generalizing m w with
  | nil => exact h
  | cons tf tfs ih =>
    unfold readHistory at hfew ⊢
    unfold Evaluations.warmupFrames
    cases hrows : history tf with
    | none =>
      simp only [hrows] at hfew ⊢
      exact ih h hfew
    | some rows =>
      simp only [hrows] at hfew ⊢
      generalize hown : (if tf = spec.interval then readable rows else []) = own at hfew ⊢
      have hframe : (Course.through strategy
            (m.arrivals Delivery.timestamp own).done).errors < errorThreshold →
          Tracks spec strategy (m.arrivals Delivery.timestamp own)
              (Evaluations.warmupRows spec strategy tf rows w).1 ∧
            ((Evaluations.warmupRows spec strategy tf rows w).2 = true ↔ ¬AllReadable rows) := by
        intro hfirst
        rw [← hown] at hfirst ⊢
        by_cases htf : tf = spec.interval
        · subst htf
          rw [if_pos rfl] at hfirst ⊢
          exact h.warmupRows rows hfirst
        · rw [if_neg htf]
          exact h.warmupRows_of_ne htf rows
      by_cases hall : AllReadable rows
      · rw [if_pos hall, Dedup.arrivals_append] at hfew ⊢
        obtain ⟨htracks, hraised⟩ := hframe ((errors_le_arrivals _ _).trans_lt hfew)
        rw [if_neg (fun h => hraised.mp h hall)]
        exact ih htracks hfew
      · rw [if_neg hall] at hfew ⊢
        obtain ⟨htracks, hraised⟩ := hframe hfew
        rw [if_pos (hraised.mpr hall)]
        exact htracks

end Tracking

section Starting

variable {σ : Type} (spec : StrategySpec) (strategy : Strategy σ)

structure WarmingUp (w : Worker σ) : Prop where
  failed : w.failed = false
  source : ∀ e ∈ w.evaluations, e.source = .warmup

theorem WarmingUp.evaluate {w : Worker σ} (h : WarmingUp w) (memory : PositionMemory)
    (candle : Candle) : WarmingUp (Evaluations.evaluate strategy .warmup memory candle w).1 := by
  refine ⟨(evaluate_frame strategy .warmup memory candle w).2.2.2.trans h.failed, ?_⟩
  unfold Evaluations.evaluate
  split
  · exact h.source
  · rw [answered_evaluations]
    intro e he
    rcases List.mem_append.mp he with hold | hnew
    · exact h.source e hold
    · rw [List.mem_singleton.mp hnew]

theorem WarmingUp.warmupFrames {w : Worker σ} (h : WarmingUp w) (history : History)
    (tfs : List String) : WarmingUp (Evaluations.warmupFrames spec strategy history tfs w) :=
  warmupFrames_keeps (fun _ _ _ h => ⟨h.failed, h.source⟩)
    (fun _ memory candle h => h.evaluate strategy memory candle) h history tfs

theorem WarmingUp.executed {w : Worker σ} (h : WarmingUp w) : w.executed = [] := by
  refine List.filterMap_eq_nil_iff.mpr fun e he => ?_
  simp [Evaluation.executed, h.source e he]

def replayedOf (spec : StrategySpec) (stored : Dict String (List String)) (history : History) :
    Dedup Delivery String :=
  if spec.warmup then
    Dedup.arrivals Delivery.timestamp ⟨(stored.get spec.interval).getD [], []⟩
      (readHistory spec.interval history spec.timeframes)
  else {}

theorem start_spec (stored : Dict String (List String)) (history : History) :
    AtWork (start spec strategy stored history) ∧
      (start spec strategy stored history).executed = [] ∧
      ((Course.through strategy (replayedOf spec stored history).done).errors < errorThreshold →
        Tracks spec strategy (replayedOf spec stored history)
          (start spec strategy stored history)) := by
  unfold start replayedOf
  by_cases hwarm : spec.warmup = true
  · simp only [hwarm, if_true]
    have hbegin : WarmingUp
        ({ strategy := some strategy.onStart, seenIds := stored } : Worker σ) :=
      ⟨rfl, fun e he => absurd he List.not_mem_nil⟩
    have hwarmed := hbegin.warmupFrames spec strategy history
      spec.timeframes
    refine ⟨⟨rfl, rfl, hwarmed.failed⟩, hwarmed.executed, fun hfew => ?_⟩
    have htracks : Tracks spec strategy ⟨(stored.get spec.interval).getD [], []⟩
        ({ strategy := some strategy.onStart, seenIds := stored } : Worker σ) := ⟨rfl, rfl, rfl⟩
    have hall := htracks.warmupFrames history spec.timeframes hfew
    exact ⟨hall.strategy_eq, hall.errors_eq, hall.seen_eq⟩
  · simp only [hwarm, Bool.false_eq_true, if_false]
    exact ⟨⟨rfl, rfl, rfl⟩, rfl, fun _ => ⟨rfl, rfl, rfl⟩⟩

end Starting

section Comparing

variable {σ : Type} {spec : StrategySpec} (strategy : Strategy σ) {w w' : Worker σ}

structure Alike (spec : StrategySpec) (w w' : Worker σ) : Prop where
  strategy_eq : w.strategy = w'.strategy
  errors_eq : w.consecutiveErrors = w'.consecutiveErrors
  seen_eq : w.seen spec.interval = w'.seen spec.interval
  allowed_eq : w.evaluationAllowed = w'.evaluationAllowed
  task_eq : w.task = w'.task
  failed_eq : w.failed = w'.failed

def Adds (w w' v v' : Worker σ) : Prop :=
  ∃ new, v.evaluations = w.evaluations ++ new ∧ v'.evaluations = w'.evaluations ++ new

theorem Adds.refl : Adds w w' w w' := ⟨[], by simp, by simp⟩

theorem Adds.trans {v v' u u' : Worker σ} (h : Adds w w' v v') (h' : Adds v v' u u') :
    Adds w w' u u' := by
  obtain ⟨new, hnew, hnew'⟩ := h
  obtain ⟨later, hlater, hlater'⟩ := h'
  refine ⟨new ++ later, ?_, ?_⟩
  · rw [hlater, hnew, List.append_assoc]
  · rw [hlater', hnew', List.append_assoc]

theorem Alike.took (h : Alike spec w w') (candle : Candle) :
    Alike spec (w.took spec.interval candle) (w'.took spec.interval candle) := by
  refine ⟨h.strategy_eq, h.errors_eq, ?_, h.allowed_eq, h.task_eq, h.failed_eq⟩
  have hseen : w.seen spec.interval ++ [candle.timestamp] =
      w'.seen spec.interval ++ [candle.timestamp] := by rw [h.seen_eq]
  unfold Worker.took
  rw [seen_saw, seen_saw]
  exact hseen

theorem Alike.evaluate (h : Alike spec w w') (source : Source) (memory : PositionMemory)
    (candle : Candle) :
    Alike spec (Evaluations.evaluate strategy source memory candle w).1
        (Evaluations.evaluate strategy source memory candle w').1 ∧
      (Evaluations.evaluate strategy source memory candle w).2 =
        (Evaluations.evaluate strategy source memory candle w').2 ∧
      Adds w w' (Evaluations.evaluate strategy source memory candle w).1
        (Evaluations.evaluate strategy source memory candle w').1 := by
  unfold Evaluations.evaluate
  rw [h.strategy_eq]
  cases w'.strategy with
  | none => exact ⟨h, rfl, Adds.refl⟩
  | some s =>
    have hframe : ∀ v : Worker σ, ∃ out, out = (v.answered source (.candle memory candle)
          (strategy.onCandle memory s candle)).1 ∧ out.seenIds = v.seenIds ∧
        out.evaluationAllowed = v.evaluationAllowed ∧ out.task = v.task ∧ out.failed = v.failed :=
      fun v => ⟨_, rfl, answered_frame⟩
    obtain ⟨out, rfl, hseen, hallowed, htask, hfailed⟩ := hframe w
    obtain ⟨out', rfl, hseen', hallowed', htask', hfailed'⟩ := hframe w'
    refine ⟨⟨?_, ?_, ?_, ?_, ?_, ?_⟩, ?_, ?_⟩
    · rw [answered_strategy, answered_strategy]
    · rw [answered_errors, answered_errors, h.errors_eq]
    · have hold := h.seen_eq
      unfold Worker.seen at hold ⊢
      rw [hseen, hseen', hold]
    · rw [hallowed, hallowed', h.allowed_eq]
    · rw [htask, htask', h.task_eq]
    · rw [hfailed, hfailed', h.failed_eq]
    · rw [answered_raised, answered_raised, h.errors_eq]
    · exact ⟨[_], answered_evaluations, answered_evaluations⟩

theorem Alike.handleCandle (h : Alike spec w w') (source : Source) (memory : PositionMemory)
    (candle : Candle) :
    Alike spec (Evaluations.handleCandle spec strategy source memory candle w).1
        (Evaluations.handleCandle spec strategy source memory candle w').1 ∧
      (Evaluations.handleCandle spec strategy source memory candle w).2 =
        (Evaluations.handleCandle spec strategy source memory candle w').2 ∧
      Adds w w' (Evaluations.handleCandle spec strategy source memory candle w).1
        (Evaluations.handleCandle spec strategy source memory candle w').1 := by
  unfold Evaluations.handleCandle
  rw [h.seen_eq, h.allowed_eq]
  split
  · exact ⟨h, rfl, Adds.refl⟩
  · split
    · exact (h.took candle).evaluate strategy source memory candle
    · exact ⟨h.took candle, rfl, Adds.refl⟩

theorem Alike.deliver (h : Alike spec w w') (d : Delivery) :
    Alike spec (Evaluations.deliver spec strategy w d) (Evaluations.deliver spec strategy w' d) ∧
      Adds w w' (Evaluations.deliver spec strategy w d) (Evaluations.deliver spec strategy w' d) := by
  obtain ⟨halike, hraised, hadds⟩ := h.handleCandle strategy .loop d.1 d.2
  unfold Evaluations.deliver Worker.inLoop
  rw [h.task_eq]
  split
  · dsimp only
    rw [hraised]
    split
    · exact ⟨{ halike with task_eq := rfl, failed_eq := rfl }, hadds⟩
    · exact ⟨halike, hadds⟩
  · exact ⟨h, Adds.refl⟩

theorem Alike.deliverAll (h : Alike spec w w') (ds : List Delivery) :
    Alike spec (Evaluations.deliverAll spec strategy w ds)
        (Evaluations.deliverAll spec strategy w' ds) ∧
      Adds w w' (Evaluations.deliverAll spec strategy w ds)
        (Evaluations.deliverAll spec strategy w' ds) := by
  induction ds generalizing w w' with
  | nil => exact ⟨h, Adds.refl⟩
  | cons d ds ih =>
    obtain ⟨hnext, hadds⟩ := h.deliver strategy d
    obtain ⟨hlast, hmore⟩ := ih hnext
    exact ⟨hlast, hadds.trans hmore⟩

structure ExecutedOnce (spec : StrategySpec) (w : Worker σ) : Prop where
  nodup : w.executed.Nodup
  seen : ∀ t ∈ w.executed, t ∈ w.seen spec.interval

theorem ExecutedOnce.took (h : ExecutedOnce spec w) (candle : Candle) :
    ExecutedOnce spec (w.took spec.interval candle) := by
  refine ⟨h.nodup, fun t ht => ?_⟩
  unfold Worker.took
  rw [seen_saw]
  exact List.mem_append_left _ (h.seen t ht)

theorem executed_candle (source : Source) (memory : PositionMemory) (candle : Candle)
    (orders : Option (List Workers.Order)) :
    Evaluation.executed ⟨source, .candle memory candle, orders⟩ = none ∨
      Evaluation.executed ⟨source, .candle memory candle, orders⟩ = some candle.timestamp := by
  cases source <;> rcases orders with _ | _ | _ <;> simp [Evaluation.executed]

theorem ExecutedOnce.evaluate (h : ExecutedOnce spec w) (source : Source) (memory : PositionMemory)
    {candle : Candle} (hnew : candle.timestamp ∉ w.seen spec.interval) :
    ExecutedOnce spec
      (Evaluations.evaluate strategy source memory candle (w.took spec.interval candle)).1 := by
  have htook := h.took candle
  have hseen := (evaluate_frame strategy source memory candle
    (w.took spec.interval candle)).1
  have hmore : (Evaluations.evaluate strategy source memory candle
        (w.took spec.interval candle)).1.executed = w.executed ∨
      (Evaluations.evaluate strategy source memory candle
        (w.took spec.interval candle)).1.executed = w.executed ++ [candle.timestamp] := by
    unfold Evaluations.evaluate
    split
    · exact .inl rfl
    · next s _ =>
      unfold Worker.executed
      rw [answered_evaluations, List.filterMap_append]
      rcases executed_candle source memory candle (strategy.onCandle memory s candle).2 with
        hnone | hsome
      · left
        simp only [List.filterMap_cons, hnone, List.filterMap_nil, List.append_nil]
        rfl
      · right
        simp only [List.filterMap_cons, hsome, List.filterMap_nil]
        rfl
  have hkeeps : ∀ t, t ∈ (w.took spec.interval candle).seen spec.interval →
      t ∈ (Evaluations.evaluate strategy source memory candle
        (w.took spec.interval candle)).1.seen spec.interval := by
    intro t ht
    unfold Worker.seen at ht ⊢
    rwa [hseen]
  rcases hmore with hsame | hone
  · refine ⟨?_, fun t ht => hkeeps t ?_⟩
    · rw [hsame]
      exact h.nodup
    · rw [hsame] at ht
      exact htook.seen t ht
  · refine ⟨?_, fun t ht => hkeeps t ?_⟩
    · rw [hone]
      refine List.nodup_append.mpr ⟨h.nodup, List.nodup_singleton _, fun t ht t' ht' heq => hnew ?_⟩
      rw [← List.mem_singleton.mp ht', ← heq]
      exact h.seen t ht
    · rw [hone] at ht
      unfold Worker.took
      rw [seen_saw]
      rcases List.mem_append.mp ht with hold | hlast
      · exact List.mem_append_left _ (h.seen t hold)
      · exact List.mem_append_right _ hlast

theorem ExecutedOnce.deliver (h : ExecutedOnce spec w) (d : Delivery) :
    ExecutedOnce spec (Evaluations.deliver spec strategy w d) := by
  have hhandled : ExecutedOnce spec
      (Evaluations.handleCandle spec strategy .loop d.1 d.2 w).1 := by
    unfold Evaluations.handleCandle
    split
    · exact h
    · next hnew =>
      split
      · exact h.evaluate strategy .loop d.1 hnew
      · exact h.took d.2
  unfold Evaluations.deliver Worker.inLoop
  split
  · dsimp only
    split
    · exact ⟨hhandled.nodup, hhandled.seen⟩
    · exact hhandled
  · exact h

theorem ExecutedOnce.deliverAll (h : ExecutedOnce spec w) (ds : List Delivery) :
    ExecutedOnce spec (Evaluations.deliverAll spec strategy w ds) := by
  induction ds generalizing w with
  | nil => exact h
  | cons d ds ih => exact ih (h.deliver strategy d)

theorem Adds.executed {v v' : Worker σ} (h : Adds w w' v v') (hw' : w'.executed = []) :
    w.executed ++ v'.executed = v.executed := by
  obtain ⟨new, hnew, hnew'⟩ := h
  unfold Worker.executed at *
  rw [hnew, hnew', List.filterMap_append, List.filterMap_append, hw', List.nil_append]

end Comparing

section Deciding

variable {spec : StrategySpec} {before : List Delivery} {stored : Dict String (List String)}
  {history : History} {σ : Type} {strategy : Strategy σ}

theorem uninterrupted_spec (h : (uninterrupted spec strategy before).failed = false) :
    Tracks spec strategy (Dedup.arrivals Delivery.timestamp {} before)
        (uninterrupted spec strategy before) ∧
      AtWork (uninterrupted spec strategy before) ∧
      (uninterrupted spec strategy before).consecutiveErrors < errorThreshold :=
  Tracks.deliverAll ⟨rfl, rfl, rfl⟩ ⟨rfl, rfl, rfl⟩ (Nat.zero_lt_succ 4) before h

theorem Replayed.eq (h : Replayed spec before stored history) :
    replayedOf spec stored history = Dedup.arrivals Delivery.timestamp {} before := by
  have hreplay := h.replay
  unfold once at hreplay
  unfold replayedOf
  by_cases hwarm : spec.warmup = true
  · rw [if_pos hwarm] at hreplay ⊢
    rw [h.forgotten hwarm]
    exact Dedup.arrivals_ext hreplay.symm
  · rw [if_neg hwarm] at hreplay ⊢
    have hnone : (Dedup.arrivals Delivery.timestamp {} []).done =
        (Dedup.arrivals Delivery.timestamp {} before).done := hreplay.symm
    exact Dedup.arrivals_ext hnone

theorem resumes_of_replayed (h : Replayed spec before stored history) :
    Resumes spec before stored history := by
  intro σ strategy hfine after went restarted
  obtain ⟨htracks, hwork, hfew⟩ := uninterrupted_spec hfine
  obtain ⟨hwork', hexecuted, hstarted⟩ := start_spec spec strategy
    stored history
  rw [h.eq, ← htracks.errors_eq] at hstarted
  have htracks' := hstarted hfew
  have halike : Alike spec went restarted := by
    refine ⟨htracks.strategy_eq.trans htracks'.strategy_eq.symm,
      htracks.errors_eq.trans htracks'.errors_eq.symm, htracks.seen_eq.trans htracks'.seen_eq.symm,
      hwork.allowed.trans hwork'.allowed.symm, hwork.task.trans hwork'.task.symm,
      hwork.failed.trans hwork'.failed.symm⟩
  obtain ⟨hlater, hadds⟩ := halike.deliverAll strategy after
  have hbegun : ExecutedOnce spec (begun strategy) := ⟨List.nodup_nil, nofun⟩
  have honce : ExecutedOnce spec (deliverAll spec strategy went after) :=
    (hbegun.deliverAll strategy before).deliverAll strategy after
  refine ⟨hlater.strategy_eq.symm, ?_, ?_⟩
  · obtain ⟨new, hnew, hnew'⟩ := hadds
    exact ⟨new, hnew', hnew⟩
  · rw [hadds.executed hexecuted]
    exact honce.nodup

def recorder : Strategy (List Delivery) where
  onStart := []
  onCandle memory seen candle := (seen ++ [(memory, candle)], some [])
  onTick seen _ := (seen, some [])

theorem through_recorder (ds : List Delivery) :
    Course.through recorder ds = ⟨ds, 0⟩ := by
  induction ds using List.reverseRecOn with
  | nil => rfl
  | append_singleton ds d ih =>
    rw [Course.through_concat, ih]
    rfl

theorem deliver_recorder {w : Worker (List Delivery)} (h : w.failed = false) (d : Delivery) :
    (deliver spec recorder w d).failed = false := by
  have hframe := (handleCandle_frame spec recorder .loop d.1 d.2 w).2.2
  have hquiet : (handleCandle spec recorder .loop d.1 d.2 w).2 = false := by
    unfold handleCandle evaluate
    split
    · rfl
    · split
      · split
        · rfl
        · rw [answered_raised]
          rfl
      · rfl
  unfold deliver Worker.inLoop
  split
  · dsimp only
    rw [hquiet, if_neg Bool.false_ne_true, hframe, h]
  · exact h

theorem deliverAll_recorder {w : Worker (List Delivery)} (h : w.failed = false)
    (ds : List Delivery) : (deliverAll spec recorder w ds).failed = false := by
  induction ds generalizing w with
  | nil => exact h
  | cons d ds ih => exact ih (deliver_recorder h d)

theorem replayed_of_resumes (h : Resumes spec before stored history) :
    Replayed spec before stored history := by
  have hfine : (uninterrupted spec recorder before).failed = false := deliverAll_recorder rfl before
  obtain ⟨htracks, hwork, -⟩ := uninterrupted_spec hfine
  obtain ⟨hwork', -, hstarted⟩ := start_spec spec recorder stored history
  have htracks' := hstarted (by rw [through_recorder]; exact Nat.zero_lt_succ 4)
  -- both instances are the lists of the candles they were given
  have hdone : once before = (replayedOf spec stored history).done := by
    have hsame : (start spec recorder stored history).strategy =
        (uninterrupted spec recorder before).strategy := (h _ recorder hfine []).1
    rw [htracks.strategy_eq, htracks'.strategy_eq, through_recorder, through_recorder] at hsame
    exact (Option.some.inj hsame).symm
  have hforgotten : spec.warmup = true → (stored.get spec.interval).getD [] = [] := by
    intro hwarm
    obtain ⟨new, hnew, hseen, hfresh⟩ := Dedup.arrivals_spec Delivery.timestamp
      ⟨(stored.get spec.interval).getD [], []⟩ (readHistory spec.interval history spec.timeframes)
    have hreplayed : replayedOf spec stored history = Dedup.arrivals Delivery.timestamp
        ⟨(stored.get spec.interval).getD [], []⟩
        (readHistory spec.interval history spec.timeframes) := if_pos hwarm
    obtain ⟨done, hdone', hseen', -⟩ := Dedup.arrivals_spec Delivery.timestamp {} before
    have hlists : done = new := by
      have heq : once before = new := by rw [hdone, hreplayed, hnew, List.nil_append]
      rw [← heq]
      exact (hdone'.trans (List.nil_append _)).symm
    refine List.eq_nil_iff_forall_not_mem.mpr fun t ht => ?_
    -- a stored id that was not replayed: the one worker evaluates its candle, the other does not
    let d : Delivery := ({}, ⟨t, 0, 0, 0, 0, 0, 0⟩)
    have hunseen : d.timestamp ∉ (Dedup.arrivals Delivery.timestamp {} before).seen := by
      rw [hseen', hlists, List.nil_append]
      intro hmem
      obtain ⟨x, hx, hxt⟩ := List.mem_map.mp hmem
      refine hfresh x hx ?_
      rw [hxt]
      exact ht
    have hknown : d.timestamp ∈ (replayedOf spec stored history).seen := by
      rw [hreplayed, hseen]
      exact List.mem_append_left _ ht
    have hsame : (deliver spec recorder (start spec recorder stored history) d).strategy =
        (deliver spec recorder (uninterrupted spec recorder before) d).strategy :=
      (h _ recorder hfine [d]).1
    have hwent := (htracks.deliver hwork d (deliver_recorder hwork.failed d)).1.strategy_eq
    have hrestarted := (htracks'.deliver hwork' d (deliver_recorder hwork'.failed d)).1.strategy_eq
    rw [hwent, hrestarted, through_recorder, through_recorder] at hsame
    have hmore : ((Dedup.arrivals Delivery.timestamp {} before).step
        (.arrive d d.timestamp)).done = once before ++ [d] :=
      congrArg Dedup.done (if_neg hunseen)
    have hless : ((replayedOf spec stored history).step (.arrive d d.timestamp)).done =
        once before := by
      rw [hdone]
      exact congrArg Dedup.done (if_pos hknown)
    have hlength := congrArg List.length (Option.some.inj hsame)
    rw [hmore, hless] at hlength
    simp at hlength
  refine ⟨hforgotten, ?_⟩
  rw [hdone]
  unfold replayedOf
  split
  · next hwarm =>
    rw [hforgotten hwarm]
    rfl
  · rfl

/-- A restarted worker goes on as the one that was not interrupted if and only if no seen candle is
loaded and the history is what had been processed. -/
theorem resumes_iff (spec : StrategySpec) (before : List Delivery)
    (stored : Dict String (List String)) (history : History) :
    Resumes spec before stored history ↔ Replayed spec before stored history :=
  ⟨replayed_of_resumes, resumes_of_replayed⟩

end Deciding

def warmedSpec : StrategySpec where
  strategyId := "s1"
  userId := "u1"
  interval := "15m"
  timeframes := ["15m"]
  mode := "paper"
  isPaper := true
  broker := ""
  confirmed := true
  trigger := .candleClose
  warmup := true
  maxPositions := 0
  maxRiskPerTrade := 0
  maxDailyTrades := 0

def morningCandle : Candle where
  timestamp := "2026-07-30T03:45:00+00:00"
  opened := 100
  high := 102
  low := 99
  close := 101
  volume := 10
  oi := 0

/-- A worker that was stopped has stored its candle as seen, and its successor does not replay it. -/
theorem not_resumes_stopped : ¬Resumes warmedSpec [({}, morningCandle)]
    (persistSeenIds (uninterrupted warmedSpec recorder [({}, morningCandle)]))
    (fun _ => some [({}, some morningCandle)]) := by
  intro h
  exact absurd ((replayed_of_resumes h).forgotten rfl) (by decide)

end Trademetrix.StrategyRuntime.Evaluations
