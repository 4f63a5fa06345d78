import Mathlib.Data.Rat.Init
import Mathlib.Tactic.Linarith
import Trademetrix.Run

/-!
# The circuit breaker

`CircuitBreaker.call` holds the lock before the function is called and again
when it has returned or raised; in between other calls come and go. Each of
these sections is one step. A call in flight is a trial if it was let in while
the breaker was, or turned, half-open. Times are seconds of the monotonic clock.
-/

namespace Trademetrix.Core

inductive CircuitBreakerState
  | closed | open_ | halfOpen
  deriving DecidableEq, Repr

structure BreakerConfig where
  failureThreshold : ℤ := 5
  baseRecoveryTimeout : ℚ := 30
  maxRecoveryTimeout : ℚ := 300
  backoffFactor : ℚ := 2

structure CircuitBreaker where
  state : CircuitBreakerState := .closed
  failureCount : ℤ := 0
  lastFailureTime : ℚ := 0
  consecutiveOpenCount : ℕ := 0
  deriving DecidableEq

namespace CircuitBreaker

variable (c : BreakerConfig) (b : CircuitBreaker)

def calculateRecoveryTimeout : ℚ :=
  if b.consecutiveOpenCount = 0 then c.baseRecoveryTimeout
  else min (c.baseRecoveryTimeout * c.backoffFactor ^ b.consecutiveOpenCount) c.maxRecoveryTimeout

def transition (new : CircuitBreakerState) : CircuitBreaker :=
  let count :=
    if b.state = new then b.consecutiveOpenCount
    else match new with
      | .open_ => b.consecutiveOpenCount + 1
      | .closed => 0
      | .halfOpen => b.consecutiveOpenCount
  { b with state := new, consecutiveOpenCount := count }

def Recovered (now : ℚ) : Prop := b.calculateRecoveryTimeout c ≤ now - b.lastFailureTime

instance (now : ℚ) : Decidable (b.Recovered c now) := inferInstanceAs (Decidable (_ ≤ _))

/-- The section before the function is called; `none` when it is not called. -/
def letIn (now : ℚ) : Option CircuitBreaker :=
  match b.state with
  | .open_ => if b.Recovered c now then some (b.transition .halfOpen) else none
  | _ => some b

def onSuccess : CircuitBreaker :=
  let b := if b.state = .halfOpen then b.transition .closed else b
  { b with failureCount := 0 }

def onFailure (now : ℚ) : CircuitBreaker :=
  let b := { b with failureCount := b.failureCount + 1, lastFailureTime := now }
  if c.failureThreshold ≤ b.failureCount then b.transition .open_ else b

end CircuitBreaker

structure BreakerCall where
  id : ℕ
  trial : Bool
  deriving DecidableEq

structure BreakerWorld where
  breaker : CircuitBreaker := {}
  inFlight : List BreakerCall := []
  nextId : ℕ := 0
  deriving DecidableEq

inductive BreakerAction
  | begin_ (now : ℚ)
  | succeed (id : ℕ)
  | fail (id : ℕ) (now : ℚ)
  | cancel (id : ℕ)

namespace BreakerWorld

variable (c : BreakerConfig) (w : BreakerWorld)

def call (id : ℕ) : Option BreakerCall := w.inFlight.find? fun x => x.id = id

def isTrial (id : ℕ) : Bool := (w.call id).any BreakerCall.trial

def trials : List BreakerCall := w.inFlight.filter BreakerCall.trial

def without (id : ℕ) : BreakerWorld := { w with inFlight := w.inFlight.filter fun x => x.id ≠ id }

def step (w : BreakerWorld) : BreakerAction → BreakerWorld
  | .begin_ now =>
    match w.breaker.letIn c now with
    | none => w
    | some b =>
      { breaker := b
        inFlight := w.inFlight ++ [⟨w.nextId, b.state = .halfOpen⟩]
        nextId := w.nextId + 1 }
  | .succeed id =>
    if (w.call id).isSome then { w.without id with breaker := w.breaker.onSuccess } else w
  | .fail id now =>
    if (w.call id).isSome then { w.without id with breaker := w.breaker.onFailure c now } else w
  | .cancel id => w.without id

/-- What is asked of a step. A call in flight while the breaker is open began before it opened,
as an open breaker lets none in. -/
structure Guarded (w : BreakerWorld) (a : BreakerAction) : Prop where
  oneTrial : (w.step c a).breaker.state = .halfOpen → (w.step c a).trials.length ≤ 1
  reopens : ∀ id now, a = .fail id now → w.isTrial id → (w.step c a).breaker.state = .open_
  unmoved : ∀ id, (a = .succeed id ∨ ∃ now, a = .fail id now) → (w.call id).isSome →
    w.breaker.state = .open_ → (w.step c a).breaker.state = .open_ ∧
      (w.step c a).breaker.failureCount = w.breaker.failureCount

/-- No call ends while the breaker is open, none is let into a half-open breaker beside a trial,
and a trial that fails after another call has closed the breaker is its last failure. -/
def Orderly (w : BreakerWorld) : BreakerAction → Prop
  | .begin_ now =>
    (w.breaker.state = .halfOpen ∨ w.breaker.state = .open_ ∧ w.breaker.Recovered c now) →
      w.trials = []
  | .succeed id => (w.call id).isSome → w.breaker.state ≠ .open_
  | .fail id _ => (w.call id).isSome → w.breaker.state ≠ .open_ ∧
      (w.isTrial id → w.breaker.state = .closed → c.failureThreshold ≤ w.breaker.failureCount + 1)
  | .cancel _ => True

instance (a : BreakerAction) : Decidable (w.Orderly c a) := by
  cases a <;> (dsimp only [Orderly]; infer_instance)

structure Sound (w : BreakerWorld) : Prop where
  counted : 0 ≤ w.breaker.failureCount
  failed : w.breaker.state ≠ .closed →
    1 ≤ w.breaker.failureCount ∧ c.failureThreshold ≤ w.breaker.failureCount
  oneTrial : w.breaker.state = .halfOpen → w.trials.length ≤ 1

variable {c w}

theorem trials_without (id : ℕ) : (w.without id).trials.length ≤ w.trials.length := by
  have hsub : (w.without id).trials.Sublist w.trials := List.filter_sublist.filter _
  exact hsub.length_le

theorem onSuccess_state (b : CircuitBreaker) :
    b.onSuccess.state = if b.state = .halfOpen then .closed else b.state := by
  unfold CircuitBreaker.onSuccess
  split <;> rfl

theorem onFailure_of_le {b : CircuitBreaker} (now : ℚ) (h : c.failureThreshold ≤ b.failureCount + 1) :
    (b.onFailure c now).state = .open_ ∧ (b.onFailure c now).failureCount = b.failureCount + 1 := by
  simp [CircuitBreaker.onFailure, CircuitBreaker.transition, h]

theorem onFailure_of_lt {b : CircuitBreaker} (now : ℚ) (h : b.failureCount + 1 < c.failureThreshold) :
    (b.onFailure c now).state = b.state ∧
      (b.onFailure c now).failureCount = b.failureCount + 1 := by
  simp [CircuitBreaker.onFailure, not_le.mpr h]

theorem begin_refused {now : ℚ} (hopen : w.breaker.state = .open_) (h : ¬ w.breaker.Recovered c now) :
    w.step c (.begin_ now) = w := by
  simp [step, CircuitBreaker.letIn, hopen, h]

theorem begin_trial {now : ℚ} (hopen : w.breaker.state = .open_) (h : w.breaker.Recovered c now) :
    (w.step c (.begin_ now)).breaker = w.breaker.transition .halfOpen ∧
      (w.step c (.begin_ now)).trials = w.trials ++ [⟨w.nextId, true⟩] := by
  simp [step, CircuitBreaker.letIn, hopen, h, CircuitBreaker.transition, trials]

theorem begin_halfOpen (c : BreakerConfig) (now : ℚ) (h : w.breaker.state = .halfOpen) :
    (w.step c (.begin_ now)).breaker = w.breaker ∧
      (w.step c (.begin_ now)).trials = w.trials ++ [⟨w.nextId, true⟩] := by
  simp [step, CircuitBreaker.letIn, h, trials]

theorem begin_closed (c : BreakerConfig) (now : ℚ) (h : w.breaker.state = .closed) :
    (w.step c (.begin_ now)).breaker = w.breaker := by
  simp [step, CircuitBreaker.letIn, h]

theorem isSome_of_isTrial {id : ℕ} (h : w.isTrial id) : (w.call id).isSome := by
  rw [isTrial] at h
  cases hcall : w.call id with
  | none => simp [hcall] at h
  | some x => rfl

theorem sound_initial : Sound c {} := ⟨le_refl _, fun h => absurd rfl h, nofun⟩

theorem sound_begin (hs : Sound c w) {now : ℚ} (h : w.Orderly c (.begin_ now)) :
    Sound c (w.step c (.begin_ now)) := by
  -- a trial is let in where there is none
  have htrial : w.breaker.state ≠ .closed → w.trials = [] →
      (w.step c (.begin_ now)).breaker.failureCount = w.breaker.failureCount →
      (w.step c (.begin_ now)).trials = w.trials ++ [⟨w.nextId, true⟩] →
      Sound c (w.step c (.begin_ now)) := by
    intro hopen hnone hsame htrials
    refine ⟨by rw [hsame]; exact hs.counted, fun _ => by rw [hsame]; exact hs.failed hopen, fun _ => ?_⟩
    rw [htrials, hnone]
    exact le_refl 1
  cases hstate : w.breaker.state with
  | closed =>
    have hsame := begin_closed c now hstate
    refine ⟨by rw [hsame]; exact hs.counted, fun hne => absurd ?_ hne, fun hhalf => ?_⟩
    · rw [hsame, hstate]
    · rw [hsame, hstate] at hhalf
      cases hhalf
  | halfOpen =>
    obtain ⟨hsame, htrials⟩ := begin_halfOpen c now hstate
    exact htrial (by rw [hstate]; decide) (h (.inl hstate)) (by rw [hsame]) htrials
  | open_ =>
    by_cases hrecovered : w.breaker.Recovered c now
    · obtain ⟨hhalf, htrials⟩ := begin_trial hstate hrecovered
      exact htrial (by rw [hstate]; decide) (h (.inr ⟨hstate, hrecovered⟩)) (by rw [hhalf]; rfl)
        htrials
    · rw [begin_refused hstate hrecovered]
      exact hs

theorem sound_succeed (hs : Sound c w) {id : ℕ} (h : w.Orderly c (.succeed id)) :
    Sound c (w.step c (.succeed id)) := by
  rw [step]
  split
  · next hcall =>
    have hnot := h hcall
    have hstate := onSuccess_state w.breaker
    have hclosed : w.breaker.onSuccess.state = .closed := by
      cases hw : w.breaker.state with
      | closed => rw [hstate, hw]; rfl
      | halfOpen => rw [hstate, hw]; rfl
      | open_ => exact absurd hw hnot
    exact ⟨le_refl _, fun hne => absurd hclosed hne, fun hhalf => by simp [hclosed] at hhalf⟩
  · exact hs

theorem sound_fail (hs : Sound c w) (id : ℕ) (now : ℚ) : Sound c (w.step c (.fail id now)) := by
  have hcount := hs.counted
  rw [step]
  split
  · rcases le_or_gt c.failureThreshold (w.breaker.failureCount + 1) with hle | hlt
    · obtain ⟨hopen, hsucc⟩ := onFailure_of_le now hle
      refine ⟨?_, fun _ => ?_, fun hhalf => by simp [hopen] at hhalf⟩
      · dsimp only
        rw [hsucc]
        omega
      · dsimp only
        rw [hsucc]
        omega
    · obtain ⟨hsame, hsucc⟩ := onFailure_of_lt now hlt
      have hclosed : w.breaker.state = .closed := by
        by_contra hne
        have hfailed := hs.failed hne
        omega
      refine ⟨?_, fun hne => absurd (hsame.trans hclosed) hne, fun hhalf => ?_⟩
      · dsimp only
        rw [hsucc]
        omega
      · rw [hsame, hclosed] at hhalf
        cases hhalf
  · exact hs

theorem sound_step (w : BreakerWorld) (a : BreakerAction) (hs : Sound c w) (h : w.Orderly c a) :
    Sound c (w.step c a) := by
  cases a with
  | begin_ now => exact sound_begin hs h
  | succeed id => exact sound_succeed hs h
  | fail id now => exact sound_fail hs id now
  | cancel id =>
    exact ⟨hs.counted, hs.failed, fun hhalf => (trials_without id).trans (hs.oneTrial hhalf)⟩

theorem Guarded.orderly {a : BreakerAction} (h : w.Guarded c a) (hs : Sound c w) :
    w.Orderly c a := by
  cases a with
  | begin_ now =>
    have hlimit : ∀ x : BreakerCall, (w.step c (.begin_ now)).trials = w.trials ++ [x] →
        (w.step c (.begin_ now)).breaker.state = .halfOpen → w.trials = [] := by
      intro x htrials hhalf
      have hone := h.oneTrial hhalf
      rw [htrials, List.length_append, List.length_singleton] at hone
      exact List.length_eq_zero_iff.mp (by omega)
    rintro (hhalf | ⟨hopen, hrecovered⟩)
    · obtain ⟨hsame, htrials⟩ := begin_halfOpen c now hhalf
      exact hlimit _ htrials (by rw [hsame, hhalf])
    · obtain ⟨hhalf, htrials⟩ := begin_trial hopen hrecovered
      exact hlimit _ htrials (by rw [hhalf]; rfl)
  | succeed id =>
    intro hcall hopen
    obtain ⟨-, hcount⟩ := h.unmoved id (.inl rfl) hcall hopen
    have hfailed := hs.failed (by rw [hopen]; decide)
    simp only [step, hcall, if_true, CircuitBreaker.onSuccess] at hcount
    omega
  | fail id now =>
    intro hcall
    constructor
    · intro hopen
      obtain ⟨-, hcount⟩ := h.unmoved id (.inr ⟨now, rfl⟩) hcall hopen
      have hfailed := hs.failed (by rw [hopen]; decide)
      simp only [step, hcall, if_true] at hcount
      rw [(onFailure_of_le now (by omega)).2] at hcount
      omega
    · intro htrial hclosed
      by_contra hlt
      have hopen := h.reopens id now rfl htrial
      simp only [step, hcall, if_true] at hopen
      rw [(onFailure_of_lt now (not_le.mp hlt)).1, hclosed] at hopen
      cases hopen
  | cancel id => exact trivial

theorem Orderly.guarded {a : BreakerAction} (h : w.Orderly c a) (hs : Sound c w) :
    w.Guarded c a := by
  refine ⟨(sound_step w a hs h).oneTrial, ?_, ?_⟩
  · rintro id now rfl htrial
    have hcall := isSome_of_isTrial htrial
    obtain ⟨hnot, hlast⟩ := h hcall
    have hle : c.failureThreshold ≤ w.breaker.failureCount + 1 := by
      by_cases hclosed : w.breaker.state = .closed
      · exact hlast htrial hclosed
      · have hfailed := (hs.failed hclosed).2
        omega
    simp only [step, hcall, if_true]
    exact (onFailure_of_le now hle).1
  · rintro id (rfl | ⟨now, rfl⟩) hcall hopen
    · exact absurd hopen (h hcall)
    · exact absurd hopen (h hcall).1

theorem guarded_iff (w : BreakerWorld) (a : BreakerAction) (hs : Sound c w) :
    w.Guarded c a ↔ w.Orderly c a :=
  ⟨fun h => h.orderly hs, fun h => h.guarded hs⟩

/-- A run of a new breaker is guarded at every step exactly when it is orderly. -/
theorem guarded_run_iff (c : BreakerConfig) (as : List BreakerAction) :
    Along (step c) (Guarded c) {} as ↔ Along (step c) (Orderly c) {} as :=
  Along.congr sound_step guarded_iff sound_initial

def lateSuccess : List BreakerAction :=
  List.replicate 6 (.begin_ 0) ++ (List.range 5).map (fun id => .fail id 1) ++ [.succeed 5]

/-- The late success clears the count of an open breaker, so that a failed trial leaves it
half-open and lets in another one. -/
theorem late_success_clears :
    ¬ Along (step {}) (Guarded {}) {} lateSuccess ∧
      (lateSuccess.foldl (step {}) {}).breaker =
        { state := .open_, failureCount := 0, lastFailureTime := 1, consecutiveOpenCount := 1 } ∧
      ((lateSuccess ++ [BreakerAction.begin_ 100, .begin_ 100]).foldl (step {}) {}).trials.length = 2 ∧
      ((lateSuccess ++ [BreakerAction.begin_ 100, .fail 6 101]).foldl (step {}) {}).breaker.state =
        .halfOpen := by
  refine ⟨fun h => ?_, by decide +kernel, by decide +kernel, by decide +kernel⟩
  have horderly := (Along.congr sound_step guarded_iff sound_initial).mp h
  revert horderly
  decide

end BreakerWorld

end Trademetrix.Core
