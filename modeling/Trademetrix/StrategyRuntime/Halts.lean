import Trademetrix.StrategyRuntime.Frames

/-!
# Strategies and trading halts

Only `start_strategy` looks at the halts before it puts a strategy to RUNNING.
While every other way there is taken with no halt engaged, a start reads every
halt engaged, and no halt is engaged for a strategy inside `_start_running`,
none moves to RUNNING under a halt of its user.
-/

namespace Trademetrix.StrategyRuntime

open Trademetrix.Async

def Runtime.Halted (s : Runtime) (id : String) : Prop :=
  ∃ r, s.registry.get id = some r ∧ s.killSwitch.engaged.halts r.spec.userId = true

instance (s : Runtime) (id : String) : Decidable (s.Halted id) :=
  decidable_of_iff (((s.registry.get id).map fun r =>
    s.killSwitch.engaged.halts r.spec.userId) = some true) (by simp [Runtime.Halted])

def HaltRespected (s : Runtime) (e : Effect) : Prop :=
  ∀ id r, (s.apply e).registry.get id = some r → r.state = .running →
    (s.registry.get id).map RuntimeRecord.state ≠ some .running →
      s.killSwitch.engaged.halts r.spec.userId = false

instance (s : Runtime) (e : Effect) : Decidable (HaltRespected s e) :=
  decidable_of_iff (∀ id ∈ (s.apply e).registry.map Prod.fst,
    ∀ r ∈ (s.apply e).registry.get id, r.state = .running →
      (s.registry.get id).map RuntimeRecord.state ≠ some .running →
        s.killSwitch.engaged.halts r.spec.userId = false) <| by
    refine ⟨fun h id r hr => h id ?_ r hr, fun h id _ r hr => h id r hr⟩
    by_contra hid
    rw [Dict.get_eq_none.mpr hid] at hr
    cases hr

/-- A start reads every halt engaged; resume, restart and adoption, which read none,
happen under none; and no halt is engaged for a strategy inside `_start_running`. -/
def Careful (s : Runtime) : Effect → Prop
  | .prepared _ spec => s.killSwitch.Shows spec.userId
  | .reset _ id | .resumed id => ¬ s.Halted id
  | .adopted spec _ => s.killSwitch.engaged.halts spec.userId = false
  | .halt c => ∀ n id, s.starting.get n = some id → ¬ (s.apply (.halt c)).Halted id
  | _ => True

instance (s : Runtime) : ∀ e, Decidable (Careful s e)
  | .prepared _ spec => inferInstanceAs (Decidable (s.killSwitch.Shows spec.userId))
  | .reset _ id | .resumed id => inferInstanceAs (Decidable (¬ s.Halted id))
  | .adopted spec _ =>
    inferInstanceAs (Decidable (s.killSwitch.engaged.halts spec.userId = false))
  | .halt c => decidable_of_iff (∀ n ∈ s.starting.map Prod.fst, ∀ id ∈ s.starting.get n,
      ¬ (s.apply (.halt c)).Halted id) <| by
    refine ⟨fun h n id hn => h n ?_ id hn, fun h n _ id hn => h n id hn⟩
    by_contra hmem
    rw [Dict.get_eq_none.mpr hmem] at hn
    cases hn
  | .legacyStarted _ | .legacyStopped _ | .starting _ | .running _ _ | .abandoned _ | .halted _
  | .stopped _ | .paused _ _ | .restarted _ | .failed _ | .recovered _ _ | .saved _
  | .removed _ _ | .broker _ _ | .crash => isTrue trivial

/-- The strategies inside `_start_running` have no halt engaged. -/
def FramesClear (s : Runtime) : Prop := ∀ n id, s.starting.get n = some id → ¬ s.Halted id

section Steps

variable {s : Runtime} {e : Effect} {id : String} {f : RuntimeRecord → RuntimeRecord}

theorem change_spec (h : e.change = some (id, f)) (r : RuntimeRecord) : (f r).spec = r.spec := by
  cases e <;> cases h <;> rfl

theorem change_running (h : e.change = some (id, f)) {r : RuntimeRecord}
    (hrun : (f r).state = .running) :
    r.state = .running ∨ (∃ n, e = .running n id) ∨ e = .resumed id := by
  cases e <;> cases h
  case running n => exact .inr (.inl ⟨n, rfl⟩)
  case resumed => exact .inr (.inr rfl)
  case halted | restarted | recovered => exact .inl hrun
  all_goals cases hrun

theorem changed_cases {d : Dict String RuntimeRecord} {r : RuntimeRecord}
    (h : (e.changed d).get id = some r) :
    d.get id = some r ∨ ∃ f r', e.change = some (id, f) ∧ d.get id = some r' ∧ r = f r' := by
  unfold Effect.changed at h
  cases hc : e.change with
  | none => exact .inl (by simpa only [hc] using h)
  | some p =>
    obtain ⟨q, f⟩ := p
    simp only [hc, Dict.get_modify] at h
    split at h
    · next heq =>
      subst heq
      obtain ⟨r', hr', hf⟩ := Option.map_eq_some_iff.mp h
      exact .inr ⟨f, r', rfl, hr', hf.symm⟩
    · exact .inl h

theorem prepared_spec {d : Dict String RuntimeRecord} {r : RuntimeRecord} {n : ℕ}
    {spec : StrategySpec}
    (h : ((Effect.prepared n spec).onRegistry d).get spec.strategyId = some r) :
    r.spec = spec ∧
      (r.state = .created ∨ (d.get spec.strategyId).map RuntimeRecord.state = some r.state) := by
  cases hd : d.get spec.strategyId with
  | none =>
    simp only [Effect.onRegistry, hd, Dict.get_set, if_true, Option.some.injEq] at h
    subst h
    exact ⟨rfl, .inl rfl⟩
  | some r' =>
    simp only [Effect.onRegistry, hd, Dict.get_set, if_true, Option.some.injEq] at h
    subst h
    exact ⟨rfl, .inr rfl⟩

theorem onRegistry_cases {d : Dict String RuntimeRecord} {r : RuntimeRecord}
    (h : (e.onRegistry d).get id = some r) :
    d.get id = some r ∨
    (∃ f r', e.change = some (id, f) ∧ d.get id = some r' ∧ r = f r') ∨
    (∃ n, e = .prepared n r.spec ∧
      (r.state = .created ∨ (d.get id).map RuntimeRecord.state = some r.state)) ∨
    (∃ n, e = .adopted r.spec n) := by
  cases e with
  | prepared n spec =>
    by_cases hid : id = spec.strategyId
    · subst hid
      obtain ⟨hspec, hstate⟩ := prepared_spec h
      exact .inr (.inr (.inl ⟨n, by rw [hspec], hstate⟩))
    · left
      unfold Effect.onRegistry at h
      dsimp only at h
      split at h <;> simpa [Dict.get_set, hid] using h
  | adopted spec n =>
    simp only [Effect.onRegistry, Dict.get_set] at h
    split at h
    · cases h
      exact .inr (.inr (.inr ⟨n, rfl⟩))
    · exact .inl h
  | crash => cases h
  | _ =>
    simp only [Effect.onRegistry] at h
    rcases changed_cases h with hd | hd
    · exact .inl hd
    · exact .inr (.inl hd)

theorem respected (hclear : FramesClear s) (hgranted : Granted s e) (hcareful : Careful s e) :
    HaltRespected s e := by
  intro id r hr hrun hmove
  by_contra hhalt
  have hhalt' : s.killSwitch.engaged.halts r.spec.userId = true := by simpa using hhalt
  rcases onRegistry_cases hr with hd | ⟨f, r', hc, hd, rfl⟩ | ⟨n, rfl, hst⟩ | ⟨n, rfl⟩
  · exact hmove (by simp [hd, hrun])
  · rw [change_spec hc] at hhalt'
    have hhalted : s.Halted id := ⟨r', hd, hhalt'⟩
    rcases change_running hc hrun with hrun' | ⟨n, rfl⟩ | rfl
    · exact hmove (by simp [hd, hrun'])
    · rcases hgranted with ⟨m, rfl, hframe⟩ | hcrash
      · exact hclear _ id hframe hhalted
      · cases hcrash
    · exact hcareful hhalted
  · rcases hst with hst | hst
    · rw [hrun] at hst
      cases hst
    · exact hmove (by rw [hst, hrun])
  · exact hhalt hcareful

theorem halted_of_apply (hgranted : Granted s e) (hcareful : Careful s e)
    (hc : ∀ c, e ≠ .halt c) (h : (s.apply e).Halted id) : s.Halted id := by
  obtain ⟨r, hr, hhalt⟩ := h
  have hengaged : (s.apply e).killSwitch.engaged = s.killSwitch.engaged := by
    cases e <;> first | rfl | exact absurd rfl (hc _)
  rw [hengaged] at hhalt
  rcases onRegistry_cases hr with hd | ⟨f, r', hch, hd, rfl⟩ | ⟨n, rfl, -⟩ | ⟨n, rfl⟩
  · exact ⟨r, hd, hhalt⟩
  · rw [change_spec hch] at hhalt
    exact ⟨r', hd, hhalt⟩
  · rcases hgranted with ⟨m, -, hallowed⟩ | hcrash
    · have hspec := Risk.KillSwitch.not_halted_of_allowed hcareful hallowed
      rw [hspec] at hhalt
      cases hhalt
    · cases hcrash
  · have hspec : s.killSwitch.engaged.halts r.spec.userId = false := hcareful
    rw [hspec] at hhalt
    cases hhalt

theorem framesClear_step (hclear : FramesClear s) (hgranted : Granted s e)
    (hcareful : Careful s e) : FramesClear (s.apply e) := by
  intro n id hframe hhalt
  by_cases hc : ∃ c, e = .halt c
  · obtain ⟨c, rfl⟩ := hc
    exact hcareful n id hframe hhalt
  have hbefore : s.Halted id := halted_of_apply hgranted hcareful (fun c h => hc ⟨c, h⟩) hhalt
  change (e.onStarting s.starting).get n = some id at hframe
  cases e with
  | prepared k spec =>
    simp only [Effect.onStarting, Dict.get_set] at hframe
    split at hframe
    · cases hframe
      obtain ⟨r, hr, hh⟩ := hhalt
      rw [(prepared_spec (n := k) hr).1] at hh
      rcases hgranted with ⟨m, -, hallowed⟩ | hcrash
      · have hspec := Risk.KillSwitch.not_halted_of_allowed hcareful hallowed
        change s.killSwitch.engaged.halts spec.userId = true at hh
        rw [hspec] at hh
        cases hh
      · cases hcrash
    · exact hclear n id hframe hbefore
  | reset k q =>
    simp only [Effect.onStarting, Dict.get_set] at hframe
    split at hframe
    · cases hframe
      exact hcareful hbefore
    · exact hclear n id hframe hbefore
  | running k q | abandoned k =>
    simp only [Effect.onStarting, Dict.get_pop] at hframe
    split at hframe
    · cases hframe
    · exact hclear n id hframe hbefore
  | crash => cases hframe
  | _ => exact hclear n id hframe hbefore

end Steps

/-- Verbs, events and crashes in any order: where halts are looked at as `Careful`
says, no strategy ever moves to RUNNING while a halt is engaged for its user. -/
theorem halts_respected {s₀ : Runtime} (h₀ : s₀.Fresh) {es : List Effect}
    {P : Pool Runtime Effect Reply (Option ℕ)} (h : system.Life .crash ⟨s₀, []⟩ es P)
    (hcareful : Legal Runtime.apply Careful s₀ es) : Legal Runtime.apply HaltRespected s₀ es := by
  have hstart : FramesClear s₀ := by
    intro n id hframe
    rw [h₀.2] at hframe
    cases hframe
  have hsteps := (run_granted h₀ h).1.and hcareful
  have hclear := hsteps.with_invariant (fun s e hs he => framesClear_step hs he.1 he.2) hstart
  exact hclear.mono fun s e he => respected he.1 he.2.1 he.2.2

def exampleSpec : StrategySpec where
  strategyId := "s1"
  userId := "u1"
  interval := "15m"
  timeframes := ["15m"]
  mode := "paper"
  isPaper := true
  broker := ""
  confirmed := true
  trigger := .candleClose
  warmup := true
  maxPositions := 0
  maxRiskPerTrade := 0
  maxDailyTrades := 0

def exampleRuntime : Runtime :=
  ⟨[], [], [], [], ⟨⟨false, [], []⟩, none, true, []⟩, []⟩

def exampleReply : (i : Await) → Reply i
  | .cacheGet => none
  | .workerStart => true
  | .store => true
  | .loadAll => []
  | .io => ()

/-- A call from its first step to its end, `k` awaits later. -/
def callThrough (v : Verb) (k : ℕ) : List (Action Effect Reply (ℕ × Verb)) :=
  .start (0, v) :: List.replicate k (.resume 0 exampleReply)

theorem exampleRuntime_fresh : exampleRuntime.Fresh := ⟨rfl, rfl⟩

/-- A strategy is started, paused and resumed with no halt engaged. -/
theorem halts_respected_pause_resume : ∃ es P, system.Life .crash ⟨exampleRuntime, []⟩ es P ∧
    Effect.resumed "s1" ∈ es ∧ Legal Runtime.apply HaltRespected exampleRuntime es := by
  obtain ⟨es, P, hrun, hmem, hcareful⟩ := System.exists_run system ⟨exampleRuntime, []⟩
    (callThrough (.start exampleSpec) 4 ++ callThrough (.pause "s1" "u1" "manual") 2 ++
      callThrough (.resume "s1" "u1") 2)
    (p := fun es _ => Effect.resumed "s1" ∈ es ∧ Legal Runtime.apply Careful exampleRuntime es)
    (by decide +kernel)
  exact ⟨es, P, hrun.life, hmem, halts_respected exampleRuntime_fresh hrun.life hcareful⟩

/-- An emergency stop pauses a strategy and `resume` puts it back to RUNNING. -/
theorem resumed_under_emergency_stop :
    ¬ ∀ (s₀ : Runtime) (es : List Effect) (P : Pool Runtime Effect Reply (Option ℕ)), s₀.Fresh →
      system.Life .crash ⟨s₀, []⟩ es P → Legal Runtime.apply HaltRespected s₀ es := by
  intro hall
  obtain ⟨es, P, hrun, hbad⟩ := System.exists_run system ⟨exampleRuntime, []⟩
    (callThrough (.start exampleSpec) 4 ++ callThrough (.emergencyStop "u1" "") 3 ++
      callThrough (.resume "s1" "u1") 2)
    (p := fun es _ => ¬ Legal Runtime.apply HaltRespected exampleRuntime es) (by decide +kernel)
  exact hbad (hall _ _ _ exampleRuntime_fresh hrun.life)

end Trademetrix.StrategyRuntime
