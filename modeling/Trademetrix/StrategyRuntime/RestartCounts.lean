import Trademetrix.Run
import Trademetrix.StrategyRuntime.Calls
import Trademetrix.StrategyRuntime.ErrorCounts
import Trademetrix.StrategyRuntime.Halts

/-!
# Restart counts over crashes

What recovery makes of the restart counts in the store. It counts a restart only after the
start has written its checkpoint, so a second crash finds the count of a new record there,
unless the record was written again in between.
-/

namespace Trademetrix.StrategyRuntime

open Trademetrix.Async Proc

/-- What happens to the runtime: a call, cut or not; or the end of the process and the recovery of
the next one, once the legacy runner has started its tasks. -/
inductive Passage
  | call (v : Verb)
  | cycle (legacy : List String) (rows : List Checkpoint)

def Runtime.reborn (legacy : List String) (s : Runtime) : Runtime :=
  legacy.foldl (fun s id => s.apply (.legacyStarted id)) (s.apply .crash)

/-- The passage may lead from one runtime to the other. Recovery reads all rows of the store, in any
order, or none. -/
def Passes (s : Runtime) (p : Passage × Runtime) : Prop :=
  match p.1 with
  | .call v => ∃ es out, Goes Runtime.apply (v.run 0) s es p.2 out
  | .cycle legacy rows => (rows = [] ∨ rows.Perm s.checkpoints.values) ∧
      ∃ es, Goes Runtime.apply (recoverRows 0 rows) (s.reborn legacy) es p.2 (some ())

def RuntimeRecord.Restored (r : RuntimeRecord) : Prop := r.state = .running ∨ r.state = .paused

def AddsOne (s : Runtime) (p : Passage × Runtime) : Prop :=
  ∀ legacy rows, p.1 = .cycle legacy rows → ∀ id r r', s.registry.get id = some r →
    p.2.registry.get id = some r' → r'.Restored → r'.restartCount = r.restartCount + 1

/-- Under it it does: at a crash the store has the counts of the records, and no legacy task of a
strategy runs when it is recovered. -/
def UpToDate (s : Runtime) (p : Passage × Runtime) : Prop :=
  ∀ legacy rows, p.1 = .cycle legacy rows → ∀ id r, s.registry.get id = some r →
    id ∉ legacy ∧ ∀ c ∈ s.checkpoints.values, c.spec.strategyId = id →
      c.state ∉ recoverySkipStates → c.restartCount = r.restartCount

def reach (_ : Runtime) (p : Passage × Runtime) : Runtime := p.2

def Passage.isCycle : Passage → Bool
  | .call _ => false
  | .cycle _ _ => true

def BringsBack (id : String) (s : Runtime) (p : Passage × Runtime) : Prop :=
  if p.1.isCycle then ∃ r, p.2.registry.get id = some r ∧ r.Restored
  else (p.2.registry.get id).map RuntimeRecord.restartCount =
    (s.registry.get id).map RuntimeRecord.restartCount

def CountsCycles (s : Runtime) (ps : List (Passage × Runtime)) : Prop :=
  ∀ id r, s.registry.get id = some r → Along reach (BringsBack id) s ps →
    ∀ r', (ps.foldl reach s).registry.get id = some r' →
      r'.restartCount = r.restartCount + ps.countP fun p => p.1.isCycle

section Recovering

variable {s t : Runtime} {id : String} {n : ℕ}

structure Counts (id : String) (n : ℕ) (s : Runtime) : Prop where
  task : id ∉ s.runningTasks
  count : ∀ r, s.registry.get id = some r → r.Restored → r.restartCount = n + 1

theorem Counts.of_likeBut {q : String} (h : Counts id n s) (hq : id ≠ q) (ht : s.LikeBut q t) :
    Counts id n t :=
  ⟨ht.tasks id h.task, fun r hr => h.count r (by rw [← ht.others id hq, hr])⟩

theorem reborn_spec (legacy : List String) (s : Runtime) :
    (s.reborn legacy).registry = [] ∧ ∀ id ∉ legacy, id ∉ (s.reborn legacy).runningTasks := by
  have hfold : ∀ u : Runtime, u.registry = [] →
      (legacy.foldl (fun s id => s.apply (.legacyStarted id)) u).registry = [] ∧
        ∀ id, id ∉ legacy → id ∉ u.runningTasks →
          id ∉ (legacy.foldl (fun s id => s.apply (.legacyStarted id)) u).runningTasks := by
    induction legacy with
    | nil => exact fun u hu => ⟨hu, fun _ _ h => h⟩
    | cons q legacy ih =>
      intro u hu
      obtain ⟨hregistry, htasks⟩ := ih (u.apply (.legacyStarted q)) hu
      refine ⟨hregistry, fun id hid hu' => ?_⟩
      obtain ⟨hne, hnot⟩ := List.ne_and_not_mem_of_not_mem_cons hid
      exact htasks id hnot (List.not_mem_cons_of_ne_of_not_mem hne hu')
  obtain ⟨hregistry, htasks⟩ := hfold (s.apply .crash) rfl
  exact ⟨hregistry, fun id hid => htasks id hid List.not_mem_nil⟩

theorem counts_recovered (h : Counts id n s) {row : Checkpoint}
    (hlike : s.LikeBut row.spec.strategyId t)
    (hrunning : t.registry.get row.spec.strategyId = some ⟨row.spec, .running, 0, true, ""⟩)
    (hrow : row.spec.strategyId = id → row.restartCount = n) :
    Counts id n (t.apply (.recovered row.spec.strategyId row.restartCount)) := by
  refine ⟨hlike.tasks id h.task, fun r hr hrestored => ?_⟩
  change ((Effect.recovered _ _).onRegistry t.registry).get id = some r at hr
  simp only [Effect.onRegistry, Effect.changed, Effect.change, Dict.get_modify] at hr
  split at hr
  · next heq =>
    rw [hrunning] at hr
    cases hr
    simp [hrow heq.symm]
  · next hne => exact (h.of_likeBut hne hlike).count r hr hrestored

theorem pause_recovered {row : Checkpoint}
    (h : Counts id n (t.apply (.recovered row.spec.strategyId row.restartCount)))
    (hrunning : t.registry.get row.spec.strategyId = some ⟨row.spec, .running, 0, true, ""⟩) :
    Ends (fun _ u => Counts id n u) (pauseStrategy row.spec.strategyId "" "restored_paused")
      (t.apply (.recovered row.spec.strategyId row.restartCount)) := by
  have hget : (t.apply (.recovered row.spec.strategyId row.restartCount)).registry.get
      row.spec.strategyId = some ⟨row.spec, .running, max 0 row.restartCount + 1, true, ""⟩ := by
    change ((Effect.recovered _ _).onRegistry t.registry).get _ = _
    simp [Effect.onRegistry, Effect.changed, Effect.change, Dict.get_modify, hrunning]
  refine (pauseStrategy_ends hget rfl _).mono fun _ u hends => ?_
  obtain ⟨hregistry, htasks⟩ := hends
  refine ⟨htasks id h.task, fun r hr hrestored => ?_⟩
  rw [hregistry] at hr
  simp only [Effect.onRegistry, Effect.changed, Effect.change, Dict.get_modify] at hr
  split at hr
  · next heq =>
    rw [hget] at hr
    cases hr
    rw [heq] at h
    have hcount := h.count _ hget (.inl rfl)
    exact hcount
  · exact h.count r hr hrestored

theorem recoverRow_ends (h : Counts id n s) {row : Checkpoint}
    (hrow : row.spec.strategyId = id → row.state ∉ recoverySkipStates → row.restartCount = n) :
    Ends (fun _ t => Counts id n t) (recoverRow 0 row) s := by
  unfold recoverRow
  refine Alone.of_look ?_
  split
  · exact h
  · next hskip =>
    split
    · exact h
    · next hnone =>
      have hget : s.registry.get row.spec.strategyId = none := by simpa using hnone
      split
      · next htask =>
        have hne : id ≠ row.spec.strategyId := by
          rintro rfl
          exact h.task htask
        refine ⟨trivial, h.task, fun r hr => h.count r ?_⟩
        change (s.registry.set _ _).get id = some r at hr
        rwa [Dict.get_set, if_neg hne] at hr
      · refine Alone.bind (startStrategy_ends hget 0) fun out t ⟨hlike, hstart⟩ => ?_
        rcases hstart with ⟨rfl, hrunning⟩ | ⟨hout, hstarting⟩
        · rw [if_pos rfl]
          refine Alone.of_emit trivial ?_
          have hrecovered := counts_recovered h hlike hrunning (fun heq => hrow heq hskip)
          split
          · exact Alone.bind (pause_recovered hrecovered hrunning) fun _ u hu => hu
          · exact hrecovered
        · rw [if_neg hout]
          refine ⟨hlike.tasks id h.task, fun r hr hrestored => ?_⟩
          by_cases heq : id = row.spec.strategyId
          · rw [heq] at hr
            have hstate := hstarting r hr
            rcases hrestored with hrun | hrun <;> rw [hstate] at hrun <;> cases hrun
          · exact (h.of_likeBut heq hlike).count r hr hrestored

theorem recoverRows_ends (h : Counts id n s) {rows : List Checkpoint}
    (hrows : ∀ row ∈ rows, row.spec.strategyId = id → row.state ∉ recoverySkipStates →
      row.restartCount = n) :
    Ends (fun _ t => Counts id n t) (recoverRows 0 rows) s := by
  induction rows generalizing s with
  | nil => exact h
  | cons row rows ih =>
    refine Alone.bind (recoverRow_ends h (hrows row List.mem_cons_self)) fun _ t ht => ?_
    exact ih ht fun x hx => hrows x (List.mem_cons_of_mem _ hx)

theorem addsOne_of_upToDate {p : Passage × Runtime} (hpass : Passes s p) (h : UpToDate s p) :
    AddsOne s p := by
  intro legacy rows hcycle id r r' hr hr' hrestored
  obtain ⟨htask, hstored⟩ := h legacy rows hcycle id r hr
  unfold Passes at hpass
  rw [hcycle] at hpass
  obtain ⟨hrows, es, hgoes⟩ := hpass
  obtain ⟨hempty, htasks⟩ := reborn_spec legacy s
  have hbegin : Counts id r.restartCount (s.reborn legacy) := by
    refine ⟨htasks id htask, fun x hx => ?_⟩
    rw [hempty] at hx
    cases hx
  have hread : ∀ row ∈ rows, row.spec.strategyId = id → row.state ∉ recoverySkipStates →
      row.restartCount = r.restartCount := by
    intro row hrow
    rcases hrows with rfl | hperm
    · cases hrow
    · exact hstored row (hperm.mem_iff.mp hrow)
  have hend := (Alone.goes (recoverRows_ends hbegin hread) hgoes).2 () rfl
  exact hend.count r' hr' hrestored

theorem countsCycles_of_addsOne {ps : List (Passage × Runtime)} (h : Along reach AddsOne s ps) :
    CountsCycles s ps := by
  intro id r hr hback r' hr'
  induction ps generalizing s r with
  | nil =>
    have heq : r' = r := Option.some.inj (hr'.symm.trans hr)
    rw [heq]
    rfl
  | cons p ps ih =>
    obtain ⟨hone, hrest⟩ := h
    obtain ⟨hfirst, hback⟩ := hback
    unfold BringsBack at hfirst
    obtain ⟨passage, t⟩ := p
    cases passage with
    | call v =>
      simp only [Passage.isCycle, Bool.false_eq_true, if_false, hr, Option.map_some,
        Option.map_eq_some_iff] at hfirst
      obtain ⟨x, hx, hcount⟩ := hfirst
      have hend := ih hrest x hx hback hr'
      rw [hend, hcount, List.countP_cons_of_neg Bool.false_ne_true]
    | cycle legacy rows =>
      simp only [Passage.isCycle, if_true] at hfirst
      obtain ⟨x, hx, hrestored⟩ := hfirst
      have hend := ih hrest x hx hback hr'
      have hcount := hone legacy rows rfl id r x hr hx hrestored
      rw [hend, hcount, List.countP_cons_of_pos rfl]
      omega

end Recovering

open Evaluations (Count Evaluation)

/-- A worker fails after a streak of errors exactly where the fifth error of all in its loop is the
fifth in a row; and restart counts add up over crashes whose checkpoints are up to date. -/
theorem counters_run (es : List Evaluation) (s : Runtime) (ps : List (Passage × Runtime)) :
    (Along Count.step (fun c e => (c.step e).Fails) {} es ↔ Along Count.step Count.Fits {} es) ∧
      (Along reach Passes s ps → Along reach UpToDate s ps → CountsCycles s ps) := by
  refine ⟨Count.fails_run_iff es, fun hpasses hup => ?_⟩
  exact countsCycles_of_addsOne
    ((hpasses.and hup).mono fun _ _ h => addsOne_of_upToDate h.1 h.2)

def raisedOnTick : Evaluation := ⟨.loop, .tick ⟨100, 0, 0, 0, 0⟩, none⟩

def quietOnTick : Evaluation := ⟨.loop, .tick ⟨100, 0, 0, 0, 0⟩, some []⟩

def startedRuntime : Runtime :=
  ((startStrategy 0 exampleSpec).finish Runtime.apply exampleReply exampleRuntime).2

def cycled (s : Runtime) : Runtime :=
  ((recoverRows 0 s.checkpoints.values).finish Runtime.apply exampleReply (s.reborn [])).2

theorem passes_cycled (s : Runtime) : Passes s (.cycle [] s.checkpoints.values, cycled s) :=
  ⟨.inr (List.Perm.refl _), goes_finish exampleReply (recoverRows 0 s.checkpoints.values) _⟩

/-- An error, a success and four errors fail the worker; and a strategy that runs has a restart
count of one after two crashes. -/
theorem not_counters_run :
    (¬∀ es, Along Count.step (fun c e => (c.step e).Fails) {} es) ∧
      ¬∀ s ps, Along reach Passes s ps → CountsCycles s ps := by
  constructor
  · intro h
    have hrun := h ([raisedOnTick, quietOnTick, raisedOnTick, raisedOnTick, raisedOnTick] ++
      [raisedOnTick])
    obtain ⟨-, hlast, -⟩ := Along.append.mp hrun
    exact absurd hlast (by decide)
  · intro h
    have hpasses : Along reach Passes startedRuntime
        [(.cycle [] startedRuntime.checkpoints.values, cycled startedRuntime),
          (.cycle [] (cycled startedRuntime).checkpoints.values, cycled (cycled startedRuntime))] :=
      ⟨passes_cycled _, passes_cycled _, trivial⟩
    have hstarted : startedRuntime.registry.get "s1" =
        some ⟨exampleSpec, .running, 0, true, ""⟩ := by decide +kernel
    have hone : (cycled startedRuntime).registry.get "s1" =
        some ⟨exampleSpec, .running, 1, true, ""⟩ := by decide +kernel
    have htwo : (cycled (cycled startedRuntime)).registry.get "s1" =
        some ⟨exampleSpec, .running, 1, true, ""⟩ := by decide +kernel
    have hcount := h _ _ hpasses "s1" _ hstarted
      ⟨⟨_, hone, .inl rfl⟩, ⟨_, htwo, .inl rfl⟩, trivial⟩ _ htwo
    exact absurd hcount (by decide)

def pausedRuntime : Runtime :=
  ((pauseStrategy "s1" "u1" "manual").finish Runtime.apply exampleReply startedRuntime).2

theorem upToDate_cycled {s : Runtime} (h : ∀ p ∈ s.registry, ∀ c ∈ s.checkpoints.values,
    c.spec.strategyId = p.1 → c.state ∉ recoverySkipStates → c.restartCount = p.2.restartCount) :
    UpToDate s (.cycle [] s.checkpoints.values, cycled s) := by
  intro legacy rows heq id r hr
  cases heq
  exact ⟨List.not_mem_nil, h (id, r) (Dict.mem_of_get hr)⟩

/-- A strategy that was paused is stored again at each recovery, and has a restart count of two
after two crashes. -/
theorem counters_run_paused : CountsCycles pausedRuntime
    [(.cycle [] pausedRuntime.checkpoints.values, cycled pausedRuntime),
      (.cycle [] (cycled pausedRuntime).checkpoints.values, cycled (cycled pausedRuntime))] :=
  (counters_run [raisedOnTick] pausedRuntime _).2 ⟨passes_cycled _, passes_cycled _, trivial⟩
    ⟨upToDate_cycled (by decide +kernel), upToDate_cycled (by decide +kernel), trivial⟩

end Trademetrix.StrategyRuntime
