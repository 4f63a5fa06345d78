import Trademetrix.StrategyRuntime.Calls
import Trademetrix.StrategyRuntime.Evaluations
import Trademetrix.StrategyRuntime.Halts

/-!
# The steps of a start

`start_strategy` with what its steps meet with: a constructor, the shared socket, the code of
the strategy, its warm-up and the state store. A worker is a number. Neither the constructor
nor the worker's `start` is in a `try`, and nothing takes back what went before it.
-/

namespace Trademetrix.StrategyRuntime.Starting

open Evaluations (Strategy History)

structure Spec extends StrategySpec where
  symbol : String
  deriving DecidableEq

structure Record where
  spec : Spec
  state : RuntimeState := .created
  restartCount : ℕ := 0
  worker : Option ℕ := none
  pausedReason : String := ""
  lastError : String := ""
  startedAt : String := ""
  stoppedAt : String := ""
  deriving DecidableEq

structure StrategyWorker (σ : Type) extends Evaluations.Worker σ where
  spec : Spec

/-- A handler has the number of the worker it was made for. `subscribed` are the handlers that the
shared socket has of the dispatcher. -/
structure TickDispatcher where
  workers : Dict String (List ℕ) := []
  handlers : Dict String ℕ := []
  subscribed : List (String × ℕ) := []
  deriving DecidableEq

namespace TickDispatcher

def attach (d : TickDispatcher) (symbol : String) (worker : ℕ) (subscribes : Bool) :
    TickDispatcher :=
  match d.workers.get symbol with
  | some ws => { d with workers := d.workers.set symbol (ws.insert worker) }
  | none =>
    { workers := d.workers.set symbol [worker]
      handlers := d.handlers.set symbol worker
      subscribed := if subscribes then d.subscribed ++ [(symbol, worker)] else d.subscribed }

def detach (d : TickDispatcher) (symbol : String) (worker : ℕ) : TickDispatcher :=
  match d.workers.get symbol with
  | none => d
  | some ws =>
    let left := ws.filter (· ≠ worker)
    if left = [] then
      { workers := d.workers.pop symbol
        handlers := d.handlers.pop symbol
        subscribed := match d.handlers.get symbol with
          | some handler => d.subscribed.filter (· ≠ (symbol, handler))
          | none => d.subscribed }
    else { d with workers := d.workers.set symbol left }

end TickDispatcher

structure Manager (σ : Type) where
  registry : Dict String Record := []
  dispatcher : TickDispatcher := {}
  workers : Dict ℕ (StrategyWorker σ) := []
  next : ℕ := 0
  /-- The state store, by user and strategy. -/
  checkpoints : Dict (String × String) Checkpoint := []
  /-- Strategies with a live task of the legacy graph runner. -/
  runningTasks : List String := []
  killSwitch : Risk.KillSwitch

structure Outside (σ : Type) where
  /-- `cache.get` of the global flag -/
  flag : Option String
  constructs : Bool
  /-- The shared socket takes the handler. -/
  subscribes : Bool
  /-- What `load_strategy` makes, if it does not raise. -/
  loaded : Option σ
  strategy : Strategy σ
  onStarts : Bool
  storedIds : Dict String (List String)
  history : History
  /-- The store takes the checkpoint. -/
  saves : Bool
  now : String

inductive Outcome
  | refused (code : String)
  | alreadyRunning
  | illegal (current : RuntimeState)
  | started
  /-- An exception of the constructor, or of the worker's `start`. -/
  | raised
  deriving DecidableEq

variable {σ : Type}

/-- `StrategyWorker.start`, and whether it raises. -/
def StrategyWorker.start (w : StrategyWorker σ) (o : Outside σ) : StrategyWorker σ × Bool :=
  match o.loaded with
  | none => (w, true)
  | some loaded =>
    if o.onStarts then
      let started := Evaluations.start w.spec.toStrategySpec o.strategy o.storedIds o.history
      ({ w with toWorker := started }, false)
    else ({ w with strategy := some loaded }, true)

namespace Manager

def put (m : Manager σ) (r : Record) : Manager σ :=
  { m with registry := m.registry.set r.spec.strategyId r }

def guardStart (m : Manager σ) (spec : Spec) (flag : Option String) : Option String :=
  match modeRefusal spec.toStrategySpec with
  | some code => some code
  | none =>
    if Risk.KillSwitch.globalKillSwitchActive flag then some "GLOBAL_KILL_SWITCH"
    else if Risk.active m.killSwitch.emergencyStops spec.userId then some "EMERGENCY_STOP_ACTIVE"
    else none

def save (m : Manager σ) (r : Record) (saves : Bool) : Manager σ :=
  if saves then
    let checkpoint : Checkpoint :=
      ⟨r.state, r.restartCount, r.pausedReason, r.spec.toStrategySpec⟩
    { m with checkpoints := m.checkpoints.set (r.spec.userId, r.spec.strategyId) checkpoint }
  else m

def stopLegacy (m : Manager σ) (id : String) : Manager σ :=
  { m with runningTasks := m.runningTasks.filter (· ≠ id) }

def employ (m : Manager σ) (r : Record) (o : Outside σ) : Manager σ × Record × Bool :=
  let w : StrategyWorker σ := { spec := r.spec }
  let started := w.start o
  let r := { r with worker := some m.next }
  ({ m.put r with
      dispatcher := m.dispatcher.attach r.spec.symbol m.next o.subscribes
      workers := m.workers.set m.next started.1
      next := m.next + 1 }, r, started.2)

def startRunning (m : Manager σ) (r : Record) (o : Outside σ) : Outcome × Manager σ :=
  let m := m.stopLegacy r.spec.strategyId
  let r := { r with state := .starting }
  if o.constructs then
    let (m, r, raised) := m.employ r o
    if raised then (.raised, m)
    else
      let r := { r with state := .running, startedAt := o.now, stoppedAt := "" }
      (.started, (m.put r).save r o.saves)
  else (.raised, m.put r)

def startStrategy (m : Manager σ) (spec : Spec) (o : Outside σ) : Outcome × Manager σ :=
  match m.guardStart spec o.flag with
  | some code => (.refused code, m)
  | none =>
    match m.registry.get spec.strategyId with
    | some existing =>
      if existing.state = .starting ∨ existing.state = .running then (.alreadyRunning, m)
      else if canTransition existing.state .starting then
        m.startRunning { existing with spec := spec, lastError := "" } o
      else (.illegal existing.state, m)
    | none => m.startRunning { spec := spec } o

def onWorkerFailed (m : Manager σ) (id : String) (removes : Bool) : Manager σ :=
  match m.registry.get id with
  | none => m
  | some r =>
    let dispatcher := match r.worker.bind fun n => (m.workers.get n).map fun w => (w.spec, n) with
      | some (spec, n) => m.dispatcher.detach spec.symbol n
      | none => m.dispatcher
    let m := { m.put { r with state := .failed, worker := none } with dispatcher := dispatcher }
    if removes then { m with checkpoints := m.checkpoints.pop (r.spec.userId, id) } else m

def Up (m : Manager σ) (spec : Spec) : Prop :=
  ∃ r n w ws, m.registry.get spec.strategyId = some r ∧ r.state = .running ∧ r.worker = some n ∧
    m.workers.get n = some w ∧ w.task = true ∧
      m.dispatcher.workers.get spec.symbol = some ws ∧ n ∈ ws

end Manager

def restartable : List RuntimeState := [.created, .stopped, .failed]

structure Manager.Undone (m m' : Manager σ) (id : String) : Prop where
  record : ∀ r, m'.registry.get id = some r → r.state ∈ restartable ∧ r.worker = none
  dispatcher : m'.dispatcher = m.dispatcher

def Manager.Settles (m : Manager σ) (spec : Spec) (o : Outside σ) : Prop :=
  let (outcome, m') := m.startStrategy spec o
  match outcome with
  | .started => m'.Up spec
  | .raised => m.Undone m' spec.strategyId
  | .refused _ | .alreadyRunning | .illegal _ => m' = m

structure Manager.Admits (m : Manager σ) (spec : Spec) (o : Outside σ) : Prop where
  allowed : m.guardStart spec o.flag = none
  startable : ∀ r, m.registry.get spec.strategyId = some r → canTransition r.state .starting

/-- The constructor, `load_strategy` and `on_start` do not raise. -/
structure Outside.Sound (o : Outside σ) : Prop where
  constructs : o.constructs = true
  loads : o.loaded.isSome = true
  onStarts : o.onStarts = true

section Outcomes

variable {m : Manager σ} {spec : Spec} {o : Outside σ} {r : Record}

theorem canTransition_starting {state : RuntimeState} :
    canTransition state .starting = true ↔ state ∈ restartable := by
  cases state <;> decide

theorem get_put : (m.put r).registry.get r.spec.strategyId = some r := by
  rw [Manager.put, Dict.get_set, if_pos rfl]

theorem mem_attach (d : TickDispatcher) (symbol : String) (n : ℕ) (subscribes : Bool) :
    ∃ ws, (d.attach symbol n subscribes).workers.get symbol = some ws ∧ n ∈ ws := by
  unfold TickDispatcher.attach
  split
  · exact ⟨_, by rw [Dict.get_set, if_pos rfl], List.mem_insert_self⟩
  · exact ⟨[n], by rw [Dict.get_set, if_pos rfl], List.mem_singleton_self n⟩

theorem save_frame (saves : Bool) : (m.save r saves).registry = m.registry ∧
    (m.save r saves).dispatcher = m.dispatcher ∧ (m.save r saves).workers = m.workers := by
  unfold Manager.save
  split <;> exact ⟨rfl, rfl, rfl⟩

theorem start_raised (w : StrategyWorker σ) :
    (w.start o).2 = !(o.loaded.isSome && o.onStarts) := by
  unfold StrategyWorker.start
  cases o.loaded with
  | none => rfl
  | some loaded => cases o.onStarts <;> rfl

theorem start_spec (w : StrategyWorker σ) : (w.start o).1.spec = w.spec := by
  unfold StrategyWorker.start
  cases o.loaded with
  | none => rfl
  | some loaded => cases o.onStarts <;> rfl

theorem start_task {w : StrategyWorker σ} (h : (w.start o).2 = false) :
    (w.start o).1.task = true := by
  unfold StrategyWorker.start at h ⊢
  cases hl : o.loaded with
  | none =>
    rw [hl] at h
    cases h
  | some loaded =>
    rw [hl] at h
    cases hs : o.onStarts with
    | false =>
      rw [hs] at h
      cases h
    | true => rfl

theorem startRunning_started (h : o.Sound) (m : Manager σ) (r : Record) :
    (m.startRunning r o).1 = .started ∧ (m.startRunning r o).2.Up r.spec := by
  obtain ⟨hconstructs, hloads, honStarts⟩ := h
  have hraised : ∀ w : StrategyWorker σ, (w.start o).2 = false := by
    intro w
    rw [start_raised, hloads, honStarts]
    rfl
  unfold Manager.startRunning Manager.employ
  simp only [hconstructs, hraised, if_true, Bool.false_eq_true, if_false, true_and]
  unfold Manager.Up
  simp only [save_frame]
  obtain ⟨ws, hws, hmem⟩ := mem_attach m.dispatcher r.spec.symbol m.next o.subscribes
  refine ⟨_, m.next, _, ws, get_put, rfl, rfl, ?_, start_task (hraised { spec := r.spec }), hws, hmem⟩
  exact (Dict.get_set _ _ _ _).trans (if_pos rfl)

theorem startRunning_raised (h : ¬o.Sound) (m : Manager σ) (r : Record) :
    (m.startRunning r o).1 = .raised ∧
      ∃ r', (m.startRunning r o).2.registry.get r.spec.strategyId = some r' ∧
        r'.state = .starting := by
  unfold Manager.startRunning Manager.employ
  cases hconstructs : o.constructs with
  | false => exact ⟨rfl, _, get_put, rfl⟩
  | true =>
    have hraised : ∀ w : StrategyWorker σ, (w.start o).2 = true := by
      intro w
      rw [start_raised, Bool.not_eq_true', Bool.and_eq_false_iff]
      by_contra hboth
      rw [not_or, Bool.not_eq_false, Bool.not_eq_false] at hboth
      exact h ⟨hconstructs, hboth.1, hboth.2⟩
    simp only [hraised, if_true, true_and]
    exact ⟨_, get_put, rfl⟩

theorem startStrategy_admitted (h : m.Admits spec o) :
    ∃ r : Record, r.spec = spec ∧ m.startStrategy spec o = m.startRunning r o := by
  unfold Manager.startStrategy
  rw [h.allowed]
  dsimp only
  cases hr : m.registry.get spec.strategyId with
  | none => exact ⟨{ spec := spec }, rfl, rfl⟩
  | some existing =>
    have hcan := h.startable existing hr
    have hstate : ¬(existing.state = .starting ∨ existing.state = .running) := by
      rintro (hs | hs) <;> rw [hs] at hcan <;> cases hcan
    dsimp only
    rw [if_neg hstate, if_pos hcan]
    exact ⟨_, rfl, rfl⟩

theorem startStrategy_refused (h : ¬m.Admits spec o) :
    ∃ out, m.startStrategy spec o = (out, m) ∧ out ≠ .started ∧ out ≠ .raised := by
  unfold Manager.startStrategy
  cases hguard : m.guardStart spec o.flag with
  | some code => exact ⟨_, rfl, nofun, nofun⟩
  | none =>
    cases hr : m.registry.get spec.strategyId with
    | none =>
      refine absurd ⟨hguard, fun r hr' => ?_⟩ h
      rw [hr] at hr'
      cases hr'
    | some existing =>
      have hcan : ¬canTransition existing.state .starting = true := by
        refine fun hcan => h ⟨hguard, fun r hr' => ?_⟩
        rw [hr] at hr'
        cases hr'
        exact hcan
      dsimp only
      rw [if_neg hcan]
      split <;> exact ⟨_, rfl, nofun, nofun⟩

theorem settles_of_not_admits (h : ¬m.Admits spec o) : m.Settles spec o := by
  obtain ⟨out, hstart, hstarted, hraised⟩ := startStrategy_refused h
  unfold Manager.Settles
  rw [hstart]
  cases out with
  | started => exact absurd rfl hstarted
  | raised => exact absurd rfl hraised
  | refused | alreadyRunning | illegal => rfl

end Outcomes

/-- Every start goes through, is undone or changes nothing, exactly if the constructor, the
strategy's loading and its `on_start` do not raise once the start is let through. -/
theorem start_settles_iff (m : Manager σ) (spec : Spec) (o : Outside σ) :
    m.Settles spec o ↔ (m.Admits spec o → o.Sound) := by
  by_cases hadmits : m.Admits spec o
  · obtain ⟨r, hspec, hstart⟩ := startStrategy_admitted hadmits
    by_cases hsound : o.Sound
    · obtain ⟨hout, hup⟩ := startRunning_started hsound m r
      refine iff_of_true ?_ fun _ => hsound
      unfold Manager.Settles
      rw [hstart]
      dsimp only
      rw [hout]
      exact hspec ▸ hup
    · obtain ⟨hout, r', hr', hstate⟩ := startRunning_raised hsound m r
      refine iff_of_false (fun h => ?_) fun h => hsound (h hadmits)
      unfold Manager.Settles at h
      rw [hstart] at h
      dsimp only at h
      rw [hout] at h
      have hrestartable := (h.record r' (hspec ▸ hr')).1
      rw [hstate] at hrestartable
      exact absurd hrestartable (by decide)
  · exact iff_of_true (settles_of_not_admits hadmits) fun h => absurd h hadmits

def exampleManager : Manager Unit where
  killSwitch := exampleRuntime.killSwitch

def notFound : Outside Unit where
  flag := none
  constructs := true
  subscribes := true
  loaded := none
  strategy := ⟨(), fun _ _ _ => ((), some []), fun _ _ => ((), some [])⟩
  onStarts := true
  storedIds := []
  history := fun _ => some []
  saves := true
  now := "2026-08-03T03:45:00+00:00"

def niftySpec : Spec := { exampleSpec with symbol := "NIFTY" }

/-- A strategy that cannot be loaded is left STARTING with its worker attached. -/
theorem not_start_settles : ¬∀ (m : Manager Unit) (spec : Spec) (o : Outside Unit), m.Settles spec o := by
  intro h
  have hundone := h exampleManager niftySpec notFound
  have hout : (exampleManager.startStrategy niftySpec notFound).1 = .raised := by decide +kernel
  have hrecord : (exampleManager.startStrategy niftySpec notFound).2.registry.get "s1" =
      some { spec := niftySpec, state := .starting, worker := some 0 } := by decide +kernel
  unfold Manager.Settles at hundone
  dsimp only at hundone
  rw [hout] at hundone
  exact absurd (hundone.record _ hrecord).1 (by decide)

section Undoing

/-- The sets of workers are not empty and their numbers are below `next`, as are those of the
handlers, and there is no handler for a symbol without workers. -/
structure TickDispatcher.Sound (d : TickDispatcher) (next : ℕ) : Prop where
  keys : (d.workers.map Prod.fst).Nodup
  workers : ∀ symbol ws, d.workers.get symbol = some ws → ws ≠ [] ∧ ∀ n ∈ ws, n < next
  handlers : ∀ symbol, d.workers.get symbol = none → d.handlers.get symbol = none
  subscribed : ∀ p ∈ d.subscribed, p.2 < next

variable {d : TickDispatcher} {next : ℕ}

theorem TickDispatcher.Sound.attach (h : d.Sound next) (symbol : String) (subscribes : Bool) :
    (d.attach symbol next subscribes).Sound (next + 1) := by
  have hbelow : ∀ {q ws}, d.workers.get q = some ws → ws ≠ [] ∧ ∀ n ∈ ws, n < next + 1 :=
    fun hws => ⟨(h.workers _ _ hws).1, fun n hn => Nat.lt_succ_of_lt ((h.workers _ _ hws).2 n hn)⟩
  unfold TickDispatcher.attach
  cases hget : d.workers.get symbol with
  | some ws =>
    refine ⟨Dict.nodup_keys_set h.keys _ _, fun q vs hvs => ?_, fun q hq => ?_, fun p hp => ?_⟩
    · rw [Dict.get_set] at hvs
      split at hvs
      · cases hvs
        refine ⟨List.ne_nil_of_mem List.mem_insert_self, fun n hn => ?_⟩
        rcases List.mem_insert_iff.mp hn with rfl | hn
        · exact Nat.lt_succ_self _
        · exact (hbelow hget).2 n hn
      · exact hbelow hvs
    · rw [Dict.get_set] at hq
      split at hq
      · cases hq
      · exact h.handlers q hq
    · exact Nat.lt_succ_of_lt (h.subscribed p hp)
  | none =>
    refine ⟨Dict.nodup_keys_set h.keys _ _, fun q vs hvs => ?_, fun q hq => ?_, fun p hp => ?_⟩
    · rw [Dict.get_set] at hvs
      split at hvs
      · cases hvs
        refine ⟨List.cons_ne_nil _ _, fun n hn => ?_⟩
        rw [List.mem_singleton.mp hn]
        exact Nat.lt_succ_self _
      · exact hbelow hvs
    · rw [Dict.get_set] at hq ⊢
      split at hq
      · cases hq
      · next hne =>
        rw [if_neg hne]
        exact h.handlers q hq
    · dsimp only at hp
      split at hp
      · rcases List.mem_append.mp hp with hp | hp
        · exact Nat.lt_succ_of_lt (h.subscribed p hp)
        · rw [List.mem_singleton.mp hp]
          exact Nat.lt_succ_self _
      · exact Nat.lt_succ_of_lt (h.subscribed p hp)

theorem TickDispatcher.Sound.detach_attach (h : d.Sound next) (symbol : String)
    (subscribes : Bool) : (d.attach symbol next subscribes).detach symbol next = d := by
  have hself : ∀ ws : List ℕ, (∀ n ∈ ws, n < next) → ws.filter (· ≠ next) = ws := by
    intro ws hws
    refine List.filter_eq_self.mpr fun n hn => ?_
    simpa using (hws n hn).ne
  unfold TickDispatcher.attach
  cases hget : d.workers.get symbol with
  | some ws =>
    obtain ⟨hne, hlt⟩ := h.workers symbol ws hget
    have hnew : next ∉ ws := fun hmem => (hlt next hmem).false
    have hleft : (ws.insert next).filter (· ≠ next) = ws := by
      rw [List.insert_of_not_mem hnew, List.filter_cons_of_neg (by simp), hself ws hlt]
    have hback : (d.workers.set symbol (ws.insert next)).set symbol ws = d.workers := by
      rw [Dict.set_set]
      refine Dict.ext_of_keys ?_ (Dict.nodup_keys_set h.keys _ _) fun q => ?_
      · rw [Dict.keys_set, if_pos]
        by_contra hmem
        rw [Dict.get_eq_none.mpr hmem] at hget
        cases hget
      · rw [Dict.get_set]
        split
        · next hq => rw [hq, hget]
        · rfl
    unfold TickDispatcher.detach
    simp only [Dict.get_set, if_true, hleft, if_neg hne, hback]
  | none =>
    have hhandler := h.handlers symbol hget
    have hsubscribed : d.subscribed.filter (· ≠ (symbol, next)) = d.subscribed := by
      refine List.filter_eq_self.mpr fun p hp => ?_
      have hp2 := (h.subscribed p hp).ne
      simp only [ne_eq, decide_eq_true_eq]
      rintro rfl
      exact hp2 rfl
    have hleft : [next].filter (· ≠ next) = [] := by simp
    unfold TickDispatcher.detach
    simp only [Dict.get_set, if_true, hleft, Dict.pop_set_of_none hget,
      Dict.pop_set_of_none hhandler]
    cases subscribes with
    | false => simp only [Bool.false_eq_true, if_false, hsubscribed]
    | true =>
      have hlast : [(symbol, next)].filter (· ≠ (symbol, next)) = [] := by simp
      simp only [if_true, List.filter_append, hsubscribed, hlast, List.append_nil]

variable {m : Manager σ} {spec : Spec} {o : Outside σ}

theorem undone_onWorkerFailed (h : m.dispatcher.Sound m.next) (hadmits : m.Admits spec o)
    (hconstructs : o.constructs = true) (hraised : (m.startStrategy spec o).1 = .raised)
    (removes : Bool) : m.Undone
      ((m.startStrategy spec o).2.onWorkerFailed spec.strategyId removes) spec.strategyId := by
  obtain ⟨r, rfl, hstart⟩ := startStrategy_admitted hadmits
  rw [hstart] at hraised ⊢
  have hstarts : ∀ w : StrategyWorker σ, (w.start o).2 = true := by
    intro w
    by_contra hfine
    rw [start_raised, Bool.not_eq_true, Bool.not_eq_false', Bool.and_eq_true] at hfine
    rw [(startRunning_started ⟨hconstructs, hfine.1, hfine.2⟩ m r).1] at hraised
    cases hraised
  unfold Manager.startRunning Manager.employ
  simp only [hconstructs, hstarts, if_true]
  unfold Manager.onWorkerFailed
  simp only [Manager.put, Dict.get_set, if_true, Option.bind_some, Option.map_some, start_spec]
  have hback : (m.dispatcher.attach r.spec.symbol m.next o.subscribes).detach r.spec.symbol m.next =
      m.dispatcher := h.detach_attach _ _
  cases removes with
  | true | false =>
    refine ⟨fun r' hr' => ?_, hback⟩
    change Dict.get (Dict.set _ r.spec.strategyId _) r.spec.strategyId = some r' at hr'
    rw [Dict.get_set, if_pos rfl] at hr'
    cases hr'
    exact ⟨(by decide : RuntimeState.failed ∈ restartable), rfl⟩

end Undoing

section Refinement

open Trademetrix.Async Proc

def Record.view (r : Record) : RuntimeRecord :=
  ⟨r.spec.toStrategySpec, r.state, r.restartCount, r.worker.isSome, r.pausedReason⟩

def Manager.view (m : Manager σ) (starting : Dict ℕ String) : Runtime where
  registry := m.registry.map fun p => (p.1, p.2.view)
  checkpoints := m.checkpoints
  brokerStates := []
  runningTasks := m.runningTasks
  killSwitch := m.killSwitch
  starting := starting

def Outside.reply (o : Outside σ) : (i : Await) → Reply i
  | .cacheGet => o.flag
  | .workerStart => o.loaded.isSome && o.onStarts
  | .store => o.saves
  | .loadAll => []
  | .io => ()

def Outcome.view : Outcome → StrategyRuntime.Outcome
  | .refused code => .refused code
  | .alreadyRunning => .alreadyRunning
  | .started => .started
  | .illegal _ | .raised => .raised

variable {m : Manager σ} {spec : Spec} {o : Outside σ} {r : Record} {n : ℕ}
  {starting : Dict ℕ String}

theorem get_view (id : String) :
    (m.view starting).registry.get id = (m.registry.get id).map Record.view :=
  Dict.get_map m.registry (fun _ => Record.view) id

theorem put_view (r : Record) :
    ((m.put r).view starting).registry =
      (m.view starting).registry.set r.spec.strategyId r.view :=
  (Dict.set_map m.registry Record.view r.spec.strategyId r).symm

theorem modify_view (hr : m.registry.get r.spec.strategyId = some r) {r' : Record}
    (hspec : r'.spec = r.spec) {f : RuntimeRecord → RuntimeRecord} (hf : f r.view = r'.view) :
    (m.view starting).registry.modify r.spec.strategyId f =
      ((m.put r').view starting).registry := by
  rw [put_view, hspec, ← hf, Dict.modify, get_view, hr]
  rfl

theorem guardStart_view :
    (guardStart spec.toStrategySpec).finish Runtime.apply o.reply (m.view starting) =
      (m.guardStart spec o.flag, m.view starting) := by
  unfold StrategyRuntime.guardStart Manager.guardStart
  cases modeRefusal spec.toStrategySpec with
  | some code => rfl
  | none =>
    simp only [finish_bind, finish_wait]
    change (if Risk.KillSwitch.globalKillSwitchActive o.flag = true then
      (Pure.pure (some "GLOBAL_KILL_SWITCH") : Call (Option String)) else _).finish _ _ _ = _
    split
    · rfl
    · simp only [finish_bind, finish_look]
      change (if Risk.active m.killSwitch.emergencyStops spec.userId = true then
        (Pure.pure (some "EMERGENCY_STOP_ACTIVE") : Call (Option String)) else _).finish _ _ _ = _
      split <;> rfl

theorem stopLegacy_view (id : String) :
    (stopLegacy id).finish Runtime.apply o.reply (m.view starting) =
      ((), (m.stopLegacy id).view starting) := by
  unfold StrategyRuntime.stopLegacy
  simp only [finish_bind, finish_look]
  change (if id ∈ m.runningTasks then _ else _ : Call Unit).finish _ _ _ = _
  by_cases hid : id ∈ m.runningTasks
  · rw [if_pos hid]
    rfl
  · rw [if_neg hid]
    have hkept : m.runningTasks.filter (· ≠ id) = m.runningTasks := by
      refine List.filter_eq_self.mpr fun q hq => ?_
      have hne : q ≠ id := fun heq => hid (heq ▸ hq)
      simpa using hne
    have hsame : m.stopLegacy id = m := by rw [Manager.stopLegacy, hkept]
    rw [hsame]
    rfl

theorem save_view (hr : m.registry.get r.spec.strategyId = some r) :
    (save r.spec.strategyId).finish Runtime.apply o.reply (m.view starting) =
      ((), (m.save r o.saves).view starting) := by
  unfold StrategyRuntime.save
  simp only [finish_bind, finish_look, get_view, hr, Option.map_some, finish_wait]
  unfold Manager.save
  change (if o.saves = true then _ else _ : Call Unit).finish _ _ _ = _
  split <;> rfl

theorem apply_view {e : Effect} {f : RuntimeRecord → RuntimeRecord} {r' : Record}
    (hr : m.registry.get r.spec.strategyId = some r) (hspec : r'.spec = r.spec)
    (he : e.onRegistry (m.view starting).registry =
      (m.view starting).registry.modify r.spec.strategyId f)
    (hf : f r.view = r'.view)
    (hrest : (m.view starting).apply e = { m.view (e.onStarting starting) with
      registry := e.onRegistry (m.view starting).registry }) :
    (m.view starting).apply e = (m.put r').view (e.onStarting starting) := by
  rw [hrest, he, modify_view hr hspec hf]
  rfl

theorem startRunning_view (hr : m.registry.get r.spec.strategyId = some r)
    (hconstructs : o.constructs = true) :
    (startRunning n r.spec.strategyId).finish Runtime.apply o.reply
        (m.view [(n, r.spec.strategyId)]) =
      ((m.startRunning r o).1.view, (m.startRunning r o).2.view []) := by
  have hpop : Dict.pop [(n, r.spec.strategyId)] n = [] := by simp [Dict.pop]
  let begun : Record := { r with state := .starting, worker := some m.next }
  let run : Record := { begun with state := .running, startedAt := o.now, stoppedAt := "" }
  have hbegun : ((m.stopLegacy r.spec.strategyId).view [(n, r.spec.strategyId)]).apply
      (.starting r.spec.strategyId) =
      ((m.stopLegacy r.spec.strategyId).put begun).view [(n, r.spec.strategyId)] :=
    apply_view hr rfl rfl rfl rfl
  unfold StrategyRuntime.startRunning
  simp only [finish_bind, stopLegacy_view, finish_emit, finish_wait, hbegun]
  unfold Manager.startRunning Manager.employ
  simp only [hconstructs, if_true, start_raised]
  change (if (o.loaded.isSome && o.onStarts) = true then _ else _ :
    Call StrategyRuntime.Outcome).finish _ _ _ = _
  cases o.loaded.isSome && o.onStarts with
  | true =>
    have hrun : (((m.stopLegacy r.spec.strategyId).put begun).view
          [(n, r.spec.strategyId)]).apply (.running n r.spec.strategyId) =
        (((m.stopLegacy r.spec.strategyId).put begun).put run).view
          (Dict.pop [(n, r.spec.strategyId)] n) :=
      apply_view (r := begun) get_put rfl rfl rfl rfl
    have hsave : (save r.spec.strategyId).finish Runtime.apply o.reply
          ((((m.stopLegacy r.spec.strategyId).put begun).put run).view []) =
        ((), ((((m.stopLegacy r.spec.strategyId).put begun).put run).save run o.saves).view []) :=
      save_view (r := run) get_put
    rw [hpop] at hrun
    simp only [if_true, Bool.not_true, Bool.false_eq_true, if_false, finish_bind, finish_emit,
      finish_wait, finish_pure, hrun, hsave]
    unfold Manager.save
    cases o.saves <;> rfl
  | false =>
    have hleft : (((m.stopLegacy r.spec.strategyId).put begun).view
          [(n, r.spec.strategyId)]).apply (.abandoned n) =
        ((m.stopLegacy r.spec.strategyId).put begun).view
          (Dict.pop [(n, r.spec.strategyId)] n) := rfl
    rw [hpop] at hleft
    simp only [Bool.false_eq_true, if_false, Bool.not_false, if_true, finish_bind, finish_emit,
      finish_pure, hleft]
    rfl

theorem startRunning_put (m : Manager σ) (r : Record) (o : Outside σ) :
    (m.put r).startRunning r o = m.startRunning r o := by
  unfold Manager.startRunning Manager.employ Manager.stopLegacy Manager.put
  simp only [Dict.set_set]

theorem prepared_view {r : Record} (hget : (m.registry.get r.spec.strategyId).map Record.view = none ∧
    r.view = ⟨r.spec.toStrategySpec, .created, 0, false, ""⟩ ∨
      ∃ existing, m.registry.get r.spec.strategyId = some existing ∧
        r.view = { existing.view with spec := r.spec.toStrategySpec }) :
    (m.view []).apply (.prepared n r.spec.toStrategySpec) =
      (m.put r).view [(n, r.spec.strategyId)] := by
  have hregistry : (Effect.prepared n r.spec.toStrategySpec).onRegistry (m.view []).registry =
      ((m.put r).view [(n, r.spec.strategyId)]).registry := by
    rw [put_view]
    unfold Effect.onRegistry
    dsimp only
    rw [get_view]
    rcases hget with ⟨hnone, hview⟩ | ⟨existing, hsome, hview⟩
    · rw [hnone, hview]
      rfl
    · rw [hsome, hview]
      rfl
  unfold Runtime.apply
  rw [hregistry]
  rfl

theorem startStrategy_view (hconstructs : o.constructs = true) :
    (StrategyRuntime.startStrategy n spec.toStrategySpec).finish Runtime.apply o.reply (m.view []) =
      ((m.startStrategy spec o).1.view, (m.startStrategy spec o).2.view []) := by
  have hrest : ∀ {r : Record}, r.spec = spec →
      (startRunning n spec.strategyId).finish Runtime.apply o.reply
          ((m.put r).view [(n, spec.strategyId)]) =
        ((m.startRunning r o).1.view, (m.startRunning r o).2.view []) := by
    rintro r rfl
    rw [startRunning_view get_put hconstructs, startRunning_put]
  unfold StrategyRuntime.startStrategy Manager.startStrategy
  simp only [finish_bind, guardStart_view]
  cases m.guardStart spec o.flag with
  | some code => rfl
  | none =>
    simp only [finish_bind, finish_look, get_view]
    cases hr : m.registry.get spec.strategyId with
    | none =>
      let r : Record := { spec := spec }
      have hprepared : (m.view []).apply (.prepared n spec.toStrategySpec) =
          (m.put r).view [(n, spec.strategyId)] :=
        prepared_view (r := r) (.inl ⟨by rw [hr]; rfl, rfl⟩)
      simp only [Option.map_none, finish_bind, finish_emit, hprepared]
      exact hrest rfl
    | some existing =>
      let r : Record := { existing with spec := spec, lastError := "" }
      have hprepared : (m.view []).apply (.prepared n spec.toStrategySpec) =
          (m.put r).view [(n, spec.strategyId)] :=
        prepared_view (r := r) (.inr ⟨existing, hr, rfl⟩)
      simp only [Option.map_some]
      change (if existing.state = .starting ∨ existing.state = .running then _ else _ :
        Call StrategyRuntime.Outcome).finish _ _ _ = _
      split
      · rfl
      · change (if canTransition existing.state .starting = true then _ else _ :
          Call StrategyRuntime.Outcome).finish _ _ _ = _
        split
        · simp only [finish_bind, finish_emit, hprepared]
          exact hrest rfl
        · rfl

end Refinement

end Trademetrix.StrategyRuntime.Starting
