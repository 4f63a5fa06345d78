import Trademetrix.StrategyRuntime.Manager

/-!
# Frames of `_start_running`

A call puts a strategy to RUNNING from `_start_running` only while it has its own
frame for it, and begins a frame by a start that has just passed the guard or by
a restart. No call touches the frame of another.
-/

namespace Trademetrix.StrategyRuntime

open Trademetrix.Async

/-- What call `n` may do. -/
def Guarantee (n : ℕ) (s : Runtime) : Effect → Prop
  | .prepared m spec => m = n ∧ s.killSwitch.ordersAllowed spec.userId = true
  | .reset m _ => m = n
  | .running m id => m = n ∧ s.starting.get n = some id
  | .abandoned m => m = n
  | .crash => False
  | _ => True

def Effect.plain : Effect → Bool
  | .prepared _ _ | .reset _ _ | .running _ _ | .abandoned _ | .crash => false
  | _ => true

def contract : Contract Runtime Effect (Option ℕ) where
  rely a s t := ∀ n, a = some n → t.starting.get n = s.starting.get n
  guar a s e := ∃ n, a = some n ∧ Guarantee n s e
  idle a s := ∀ n, a = some n → s.starting.get n = none

theorem onStarting_of_plain {e : Effect} (h : e.plain = true) (d : Dict ℕ String) :
    e.onStarting d = d := by
  cases e with
  | prepared | reset | running | abandoned | crash => cases h
  | _ => rfl

theorem guarantee_of_plain {e : Effect} (h : e.plain = true) (n : ℕ) (s : Runtime) :
    Guarantee n s e := by
  cases e with
  | prepared | reset | running | abandoned | crash => cases h
  | _ => trivial

theorem onStarting_of_ne {n m : ℕ} (hmn : m ≠ n) {s : Runtime} {e : Effect}
    (h : Guarantee n s e) : (e.onStarting s.starting).get m = s.starting.get m := by
  cases e with
  | prepared k spec =>
    obtain ⟨rfl, -⟩ := h
    simp [Effect.onStarting, Dict.get_set, hmn]
  | reset k id =>
    cases h
    simp [Effect.onStarting, Dict.get_set, hmn]
  | running k id =>
    obtain ⟨rfl, -⟩ := h
    simp [Effect.onStarting, Dict.get_pop, hmn]
  | abandoned k =>
    cases h
    simp [Effect.onStarting, Dict.get_pop, hmn]
  | crash => exact h.elim
  | _ => rfl

section Texts

variable {α β : Type} {n : ℕ} {x : Option String} {s : Runtime}

/-- The text keeps the frame of call `n` as it is. -/
abbrev Leaves (n : ℕ) (x : Option String) (p : Call α) : Prop :=
  contract.Stays system (some n) (fun s => s.starting.get n = x) p

open Contract (Stays)

theorem Leaves.emit {e : Effect} (he : e.plain = true) : Leaves n x (Proc.emit e : Call Unit) := by
  refine Stays.emit fun s h => ⟨⟨n, rfl, guarantee_of_plain he n s⟩, ?_⟩
  change (e.onStarting s.starting).get n = x
  rw [onStarting_of_plain he, h]

theorem Leaves.wait (i : Await) : Leaves n x (Proc.wait i : Call (Reply i)) :=
  Stays.wait (fun _ _ hs ht => (ht n rfl).trans hs) i

theorem Leaves.save (id : String) : Leaves n x (save id) := by
  refine Stays.bind Stays.look fun s => ?_
  cases s.registry.get id with
  | none => exact Stays.pure ()
  | some r =>
    refine Stays.bind (Leaves.wait .store) fun ok => ?_
    split
    · exact Leaves.emit rfl
    · exact Stays.pure ()

theorem Leaves.removeCheckpoint (id : String) : Leaves n x (removeCheckpoint id) := by
  refine Stays.bind Stays.look fun s => ?_
  cases s.registry.get id with
  | none => exact Stays.pure ()
  | some r =>
    refine Stays.bind (Leaves.wait .store) fun ok => ?_
    split
    · exact Leaves.emit rfl
    · exact Stays.pure ()

theorem Leaves.stopLegacy (id : String) : Leaves n x (stopLegacy id) := by
  refine Stays.bind Stays.look fun s => ?_
  split
  · exact Stays.bind (Leaves.emit rfl) fun _ => Leaves.wait .io
  · exact Stays.pure ()

theorem Leaves.haltWorker (id : String) : Leaves n x (haltWorker id) := by
  refine Stays.bind Stays.look fun s => Stays.bind (Leaves.emit rfl) fun _ => ?_
  split
  · exact Stays.bind (Leaves.wait .io) fun _ => Leaves.stopLegacy id
  · exact Leaves.stopLegacy id

theorem Leaves.withRecord {id userId : String} {verb : RuntimeRecord → Call Outcome}
    (h : ∀ r, Leaves n x (verb r)) : Leaves n x (withRecord id userId verb) := by
  refine Stays.bind Stays.look fun s => ?_
  cases s.registry.get id with
  | none => exact Stays.pure _
  | some r =>
    dsimp only
    split
    · exact Stays.pure _
    · exact h r

theorem Leaves.forEach {f : String → Call Outcome} (h : ∀ id, Leaves n x (f id))
    (ids : List String) : Leaves n x (forEach f ids) := by
  induction ids with
  | nil => exact Stays.pure _
  | cons id ids ih =>
    refine Stays.bind (h id) fun out => ?_
    split
    · exact Stays.pure _
    · exact ih

theorem Leaves.forRecords {body : RuntimeRecord → Call Outcome} (h : ∀ r, Leaves n x (body r)) :
    Leaves n x (forRecords body) := by
  refine Stays.bind Stays.look fun s => Leaves.forEach (fun id => ?_) _
  refine Stays.bind Stays.look fun s => ?_
  cases s.registry.get id with
  | none => exact Stays.pure _
  | some r => exact h r

theorem Leaves.stopStrategy (id userId : String) : Leaves n x (stopStrategy id userId) := by
  refine Leaves.withRecord fun r => ?_
  split
  · exact Stays.pure _
  split
  · refine Stays.bind (Leaves.haltWorker id) fun _ => Stays.bind (Leaves.emit rfl) fun _ => ?_
    refine Stays.bind (Leaves.removeCheckpoint id) fun _ => ?_
    exact Stays.bind (Leaves.wait .io) fun _ => Stays.pure _
  · exact Stays.pure _

theorem Leaves.pauseStrategy (id userId reason : String) :
    Leaves n x (pauseStrategy id userId reason) := by
  refine Leaves.withRecord fun r => ?_
  split
  · refine Stays.bind (Leaves.emit rfl) fun _ => Stays.bind (Leaves.save id) fun _ => ?_
    exact Stays.bind (Leaves.wait .io) fun _ => Stays.pure _
  · exact Stays.pure _

theorem Leaves.resumeStrategy (id userId : String) : Leaves n x (resumeStrategy id userId) := by
  refine Leaves.withRecord fun r => ?_
  split
  · refine Stays.bind (Leaves.emit rfl) fun _ => Stays.bind (Leaves.save id) fun _ => ?_
    exact Stays.bind (Leaves.wait .io) fun _ => Stays.pure _
  · exact Stays.pure _

theorem Leaves.pauseAll (userId reason : String) : Leaves n x (pauseAll userId reason) := by
  refine Leaves.forRecords fun r => ?_
  split
  · exact Leaves.pauseStrategy _ _ _
  · exact Stays.pure _

theorem Leaves.emergencyStop (userId id : String) : Leaves n x (emergencyStop userId id) := by
  unfold StrategyRuntime.emergencyStop
  refine Stays.bind (Leaves.emit rfl) fun _ => Stays.bind (Leaves.wait .io) fun _ => ?_
  split
  · exact Leaves.pauseStrategy _ _ _
  · exact Leaves.pauseAll _ _

theorem Leaves.shutdown : Leaves n x shutdown := by
  refine Leaves.forRecords fun r => ?_
  split
  · exact Stays.bind (Leaves.haltWorker _) fun _ => Stays.pure _
  · exact Stays.pure _

theorem Leaves.onSessionClose : Leaves n x onSessionClose := by
  refine Leaves.forRecords fun r => ?_
  split
  · exact Leaves.stopStrategy _ _
  · exact Stays.pure _

theorem Leaves.onBrokerDisconnect (broker : String) : Leaves n x (onBrokerDisconnect broker) := by
  unfold StrategyRuntime.onBrokerDisconnect
  refine Stays.bind (Leaves.emit rfl) fun _ => Leaves.forRecords fun r => ?_
  split
  · exact Leaves.pauseStrategy _ _ _
  · exact Stays.pure _

theorem Leaves.onBrokerReconnect (broker : String) : Leaves n x (onBrokerReconnect broker) := by
  unfold StrategyRuntime.onBrokerReconnect
  refine Stays.bind (Leaves.emit rfl) fun _ => Leaves.forRecords fun r => ?_
  split
  · exact Leaves.resumeStrategy _ _
  · exact Stays.pure _

theorem Leaves.onWorkerFailed (id : String) : Leaves n x (onWorkerFailed id) := by
  refine Leaves.withRecord fun r => Stays.bind (Leaves.emit rfl) fun _ => ?_
  refine Stays.bind (Leaves.removeCheckpoint id) fun _ => ?_
  exact Stays.bind (Leaves.wait .io) fun _ => Stays.pure _

theorem guardStart_spec (spec : StrategySpec) (h : s.starting.get n = x) :
    contract.Does system (some n)
      (fun out t => t.starting.get n = x ∧
        (out = none → t.killSwitch.ordersAllowed spec.userId = true)) (guardStart spec) s := by
  unfold guardStart
  split
  · exact ⟨h, by simp⟩
  refine Contract.Does.of_wait fun val t ht hready => ?_
  have hval : val = t.killSwitch.cacheGet := by simpa [system] using hready
  have hframe : t.starting.get n = x := (ht n rfl).trans h
  split
  · exact ⟨hframe, by simp⟩
  · next hglobal =>
    refine Contract.Does.of_look ?_
    split
    · exact ⟨hframe, by simp⟩
    · next hstop =>
      refine ⟨hframe, fun _ => ?_⟩
      rw [hval] at hglobal
      simp [Risk.KillSwitch.ordersAllowed, hglobal, hstop]

theorem startRunning_spec {id : String} (h : s.starting.get n = some id) :
    contract.Does system (some n) (fun _ t => t.starting.get n = none) (startRunning n id) s := by
  refine Contract.Does.bind (Leaves.stopLegacy id s h) fun _ t ht => ?_
  refine Contract.Does.bind (Leaves.emit (e := .starting id) rfl t ht) fun _ u hu => ?_
  refine Contract.Does.bind (Leaves.wait .workerStart u hu) fun ok v hv => ?_
  split
  · refine Contract.Does.of_emit ⟨n, rfl, rfl, hv⟩ ?_
    have hgone : ((v.apply (.running n id)).starting).get n = none := by
      simp [Runtime.apply, Effect.onStarting, Dict.get_pop]
    refine Contract.Does.bind (Leaves.save id _ hgone) fun _ w hw => ?_
    exact Contract.Does.bind (Leaves.wait .io w hw) fun _ y hy => hy
  · refine Contract.Does.of_emit ⟨n, rfl, rfl⟩ ?_
    change ((v.apply (.abandoned n)).starting).get n = none
    simp [Runtime.apply, Effect.onStarting, Dict.get_pop]

theorem Leaves.startStrategy (spec : StrategySpec) : Leaves n none (startStrategy n spec) := by
  intro s h
  unfold StrategyRuntime.startStrategy
  refine Contract.Does.bind (guardStart_spec spec h) fun refusal t ht => ?_
  obtain ⟨hframe, hallowed⟩ := ht
  have hprepared : (t.apply (.prepared n spec)).starting.get n = some spec.strategyId := by
    simp [Runtime.apply, Effect.onStarting, Dict.get_set]
  cases refusal with
  | some code => exact hframe
  | none =>
    have hstart : contract.Does system (some n) (fun _ t => t.starting.get n = none)
        (do Proc.emit (.prepared n spec); startRunning n spec.strategyId) t :=
      Contract.Does.of_emit ⟨n, rfl, rfl, hallowed rfl⟩ (startRunning_spec hprepared)
    refine Contract.Does.of_look ?_
    split
    · split
      · exact hframe
      split
      · exact hstart
      · exact hframe
    · exact hstart

theorem Leaves.restartStrategy (id userId : String) :
    Leaves n none (restartStrategy n id userId) := by
  unfold StrategyRuntime.restartStrategy
  refine Leaves.withRecord fun r => ?_
  split
  · intro s h
    refine Contract.Does.bind (Leaves.haltWorker id s h) fun _ t ht => ?_
    refine Contract.Does.of_emit ⟨n, rfl, rfl⟩ ?_
    have hreset : (t.apply (.reset n id)).starting.get n = some id := by
      simp [Runtime.apply, Effect.onStarting, Dict.get_set]
    refine Contract.Does.bind (startRunning_spec hreset) fun out u hu => ?_
    split
    · exact hu
    · refine Stays.bind (Leaves.emit (e := .restarted id) rfl) (fun _ => ?_) u hu
      refine Stays.bind (Leaves.save id) fun _ => ?_
      exact Stays.bind Stays.look fun _ => Stays.pure _
  · exact Stays.pure _

theorem Leaves.onSessionOpen : Leaves n none (onSessionOpen n) := by
  refine Leaves.forRecords fun r => ?_
  split
  · exact Leaves.startStrategy r.spec
  · exact Stays.pure _

theorem Leaves.recoverRow (row : Checkpoint) : Leaves n none (recoverRow n row) := by
  unfold StrategyRuntime.recoverRow
  refine Stays.bind Stays.look fun s => ?_
  split
  · exact Stays.pure _
  split
  · exact Stays.pure _
  split
  · exact Leaves.emit rfl
  refine Stays.bind (Leaves.startStrategy row.spec) fun out => ?_
  split
  · refine Stays.bind (Leaves.emit rfl) fun _ => ?_
    split
    · exact Stays.bind (Leaves.pauseStrategy _ _ _) fun _ => Stays.pure _
    · exact Stays.pure _
  · exact Stays.pure _

theorem Leaves.recoverRows (rows : List Checkpoint) : Leaves n none (recoverRows n rows) := by
  induction rows with
  | nil => exact Stays.pure _
  | cons row rows ih => exact Stays.bind (Leaves.recoverRow row) fun _ => ih

theorem Leaves.run (v : Verb) : Leaves n none (v.run n) := by
  cases v with
  | start spec => exact Leaves.startStrategy spec
  | stop id userId => exact Leaves.stopStrategy id userId
  | pause id userId reason => exact Leaves.pauseStrategy id userId reason
  | resume id userId => exact Leaves.resumeStrategy id userId
  | restart id userId => exact Leaves.restartStrategy id userId
  | emergencyStop userId id => exact Leaves.emergencyStop userId id
  | releaseEmergencyStop userId =>
    refine Stays.bind (Leaves.emit rfl) fun _ => ?_
    exact Stays.bind (Leaves.wait .io) fun _ => Stays.pure _
  | pauseAll userId reason => exact Leaves.pauseAll userId reason
  | sessionOpen => exact Leaves.onSessionOpen
  | sessionClose => exact Leaves.onSessionClose
  | brokerDisconnect broker => exact Leaves.onBrokerDisconnect broker
  | brokerReconnect broker => exact Leaves.onBrokerReconnect broker
  | workerFailed id => exact Leaves.onWorkerFailed id
  | recover =>
    refine Stays.bind (Leaves.wait .loadAll) fun rows => ?_
    exact Stays.bind (Leaves.recoverRows rows) fun _ => Stays.pure _
  | shutdown => exact Leaves.shutdown

end Texts

theorem contract_sound : contract.Sound system where
  trans _ _ _ _ h h' n hn := (h' n hn).trans (h n hn)
  refl _ _ _ _ := rfl
  idle _ _ _ h hidle n hn := (h n hn).trans (hidle n hn)
  others a b s e hab := by
    rintro ⟨n, rfl, hg⟩ m rfl
    refine onStarting_of_ne ?_ hg
    rintro rfl
    simpa [system] using hab rfl
  env a s e he n _ := by
    have hplain : e.plain = true := by
      cases e <;> first | rfl | cases he
    change (e.onStarting s.starting).get n = _
    rw [onStarting_of_plain hplain]
  code c s hidle := by
    obtain ⟨n, v⟩ := c
    refine Contract.Does.bind (Leaves.run v s (hidle n rfl)) fun _ t ht => ?_
    rintro m hm
    cases hm
    exact ht

/-- Each effect of a run is one a call may carry out, a command from outside or
the end of the process. -/
def Granted (s : Runtime) (e : Effect) : Prop := (∃ n, Guarantee n s e) ∨ e = .crash

def Runtime.Fresh (s : Runtime) : Prop := s.registry = [] ∧ s.starting = []

theorem run_granted {s₀ : Runtime} (h₀ : s₀.Fresh) {es : List Effect}
    {P : Pool Runtime Effect Reply (Option ℕ)} (h : system.Life .crash ⟨s₀, []⟩ es P) :
    Legal Runtime.apply Granted s₀ es ∧ P.state = replay Runtime.apply s₀ es := by
  have hstart : contract.Holds system ⟨s₀, []⟩ := by
    refine ⟨by simp, by simp, .nil, fun a _ n _ => ?_⟩
    simp [h₀.2, Dict.get]
  have hcrash : ∀ s a, system.blocks a a = false → contract.idle a s →
      ∀ b, contract.idle b (system.apply .crash s) := by
    intro s a _ _ b n _
    simp [system, Runtime.apply, Effect.onStarting, Dict.get]
  have hlegal := Contract.Life.legal contract_sound hcrash (a := none) (by simp [system]) hstart h
  refine ⟨hlegal.1.mono ?_, hlegal.2.2⟩
  rintro s e ((⟨a, n, -, hg⟩ | henv) | rfl)
  · exact .inl ⟨n, hg⟩
  · refine .inl ⟨0, guarantee_of_plain ?_ 0 s⟩
    cases e <;> first | rfl | cases henv
  · exact .inr rfl

end Trademetrix.StrategyRuntime
