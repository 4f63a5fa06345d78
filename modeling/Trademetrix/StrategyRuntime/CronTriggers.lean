import Mathlib.Data.List.Count
import Trademetrix.StrategyRuntime.Models

/-!
# Cron triggers over days

The mark of a strategy is the time of day of the last pass that reached it, so
a minute fires when a pass reaches the strategy in it and the last minute
before that did so was at another time of day.
-/

namespace Trademetrix.StrategyRuntime

def EveryMinute (ps : List Poll) : Prop :=
  ps.IsChain fun p q => p.now.index ≤ q.now.index ∧ q.now.index ≤ p.now.index + 1

def Within (ps : List Poll) (m : Cron.Moment) : Prop :=
  (∃ p ∈ ps, p.now.index ≤ m.index) ∧ ∃ q ∈ ps, m.index ≤ q.now.index

def FiresOnce (spec : TriggerSpec) (ps : List Poll) : Prop :=
  ∀ m, Within ps m → (StrategyScheduler.run ps).2.count (m, .time spec.strategyId) =
    if Cron.Matches (words spec.cronExpression) m then 1 else 0

def Poll.Reaches (p : Poll) (spec : TriggerSpec) : Prop :=
  cronMatches spec.cronExpression p.now = some true ∧
    ∃ before after, p.registry.specs = before ++ spec :: after ∧
      ∀ other ∈ before, other.trigger = .cron → cronMatches other.cronExpression p.now ≠ none

def Repeats (spec : TriggerSpec) (ps : List Poll) (m : Cron.Moment) : Prop :=
  ∃ p ∈ ps, p.Reaches spec ∧ p.now.index < m.index ∧ p.now.timeOfDay = m.timeOfDay ∧
    ∀ q ∈ ps, q.Reaches spec → q.now.index < m.index → q.now.index ≤ p.now.index

def Fires (spec : TriggerSpec) (ps : List Poll) (m : Cron.Moment) : Prop :=
  (∃ p ∈ ps, p.now = m ∧ p.Reaches spec) ∧ ¬ Repeats spec ps m

section Tick

variable (now : Cron.Moment) (marks : Dict String ℕ) {spec : TriggerSpec} {specs : List TriggerSpec}

theorem tickSpecs_cons_other {other : TriggerSpec} (hne : other.strategyId ≠ spec.strategyId) :
    other.due now = none ∧ tickSpecs now marks (other :: specs) = (marks, []) ∨
      ∃ marks', marks'.get spec.strategyId = marks.get spec.strategyId ∧
        (tickSpecs now marks (other :: specs)).1 = (tickSpecs now marks' specs).1 ∧
        (tickSpecs now marks (other :: specs)).2.count spec.strategyId =
          (tickSpecs now marks' specs).2.count spec.strategyId := by
  rw [tickSpecs]
  cases hother : other.due now with
  | none => exact .inl ⟨rfl, rfl⟩
  | some due =>
    right
    dsimp only
    split
    · refine ⟨marks.set other.strategyId now.timeOfDay, ?_, rfl, ?_⟩
      · rw [Dict.get_set, if_neg (Ne.symm hne)]
      · rw [List.count_cons_of_ne hne]
    · exact ⟨marks, rfl, rfl, rfl⟩

theorem tickSpecs_of_notMem (h : spec.strategyId ∉ specs.map TriggerSpec.strategyId) :
    (tickSpecs now marks specs).1.get spec.strategyId = marks.get spec.strategyId ∧
      (tickSpecs now marks specs).2.count spec.strategyId = 0 := by
  induction specs generalizing marks with
  | nil => exact ⟨rfl, rfl⟩
  | cons other specs ih =>
    rw [List.map_cons, List.mem_cons, not_or] at h
    obtain ⟨hne, hrest⟩ := h
    rcases tickSpecs_cons_other now marks (Ne.symm hne) with
      ⟨-, hend⟩ | ⟨marks', hmark, hmarks, hcount⟩
    · rw [hend]
      exact ⟨rfl, rfl⟩
    · rw [hmarks, hcount, ← hmark]
      exact ih marks' hrest

theorem ne_of_nodup {other : TriggerSpec} {before after : List TriggerSpec}
    (h : ((other :: before ++ spec :: after).map TriggerSpec.strategyId).Nodup) :
    other.strategyId ≠ spec.strategyId := by
  intro heq
  apply (List.nodup_cons.mp h).1
  rw [heq]
  exact List.mem_map_of_mem (by simp)

theorem tickSpecs_of_due {before after : List TriggerSpec}
    (hnodup : ((before ++ spec :: after).map TriggerSpec.strategyId).Nodup)
    (hbefore : ∀ other ∈ before, other.due now ≠ none) (hdue : spec.due now = some true) :
    (tickSpecs now marks (before ++ spec :: after)).1.get spec.strategyId = some now.timeOfDay ∧
      (tickSpecs now marks (before ++ spec :: after)).2.count spec.strategyId =
        if marks.get spec.strategyId = some now.timeOfDay then 0 else 1 := by
  induction before generalizing marks with
  | nil =>
    have hafter : spec.strategyId ∉ after.map TriggerSpec.strategyId :=
      (List.nodup_cons.mp hnodup).1
    simp only [List.nil_append, tickSpecs, hdue]
    by_cases hmark : marks.get spec.strategyId = some now.timeOfDay
    · obtain ⟨hget, hcount⟩ := tickSpecs_of_notMem now marks hafter
      simp [hmark, hget, hcount]
    · obtain ⟨hget, hcount⟩ := tickSpecs_of_notMem now
        (marks.set spec.strategyId now.timeOfDay) hafter
      simp [hmark, hget, hcount, Dict.get_set]
  | cons other before ih =>
    rw [List.cons_append]
    rcases tickSpecs_cons_other now marks (ne_of_nodup hnodup) with
      ⟨hnone, -⟩ | ⟨marks', hmark, hmarks, hcount⟩
    · exact absurd hnone (hbefore other List.mem_cons_self)
    · rw [hmarks, hcount, ← hmark]
      exact ih marks' (List.nodup_cons.mp hnodup).2 fun x hx => hbefore x (List.mem_cons_of_mem other hx)

theorem tickSpecs_of_not_due {before after : List TriggerSpec}
    (hnodup : ((before ++ spec :: after).map TriggerSpec.strategyId).Nodup)
    (h : (∃ other ∈ before, other.due now = none) ∨ spec.due now ≠ some true) :
    (tickSpecs now marks (before ++ spec :: after)).1.get spec.strategyId =
        marks.get spec.strategyId ∧
      (tickSpecs now marks (before ++ spec :: after)).2.count spec.strategyId = 0 := by
  induction before generalizing marks with
  | nil =>
    have hafter : spec.strategyId ∉ after.map TriggerSpec.strategyId :=
      (List.nodup_cons.mp hnodup).1
    have hnot : spec.due now ≠ some true := h.resolve_left (by simp)
    rw [List.nil_append, tickSpecs]
    cases hdue : spec.due now with
    | none => exact ⟨rfl, rfl⟩
    | some due =>
      obtain rfl : due = false := by simpa [hdue] using hnot
      simpa using tickSpecs_of_notMem now marks hafter
  | cons other before ih =>
    rw [List.cons_append]
    cases hother : other.due now with
    | none =>
      simp only [tickSpecs, hother]
      exact ⟨trivial, rfl⟩
    | some due =>
      have hrest : (∃ x ∈ before, x.due now = none) ∨ spec.due now ≠ some true := by
        rcases h with ⟨x, hx, hnone⟩ | hnot
        · rcases List.mem_cons.mp hx with rfl | hx
          · rw [hother] at hnone
            cases hnone
          · exact .inl ⟨x, hx, hnone⟩
        · exact .inr hnot
      rcases tickSpecs_cons_other now marks (ne_of_nodup hnodup) with
        ⟨-, hend⟩ | ⟨marks', hmark, hmarks, hcount⟩
      · rw [hend]
        exact ⟨rfl, rfl⟩
      · rw [hmarks, hcount, ← hmark]
        exact ih marks' (List.nodup_cons.mp hnodup).2 hrest

end Tick

section Run

variable {spec : TriggerSpec} {p : Poll} {ps : List Poll}

theorem due_eq_none {other : TriggerSpec} {now : Cron.Moment} :
    other.due now = none ↔ other.trigger = .cron ∧ cronMatches other.cronExpression now = none := by
  rw [TriggerSpec.due]
  split <;> simp_all

theorem due_of_cron (hcron : spec.trigger = .cron) (now : Cron.Moment) :
    spec.due now = cronMatches spec.cronExpression now := by
  rw [TriggerSpec.due, hcron]

theorem count_session (s : StrategyScheduler) (p : Poll) (id : String) :
    (s.tickOnce p).2.count (.time id) =
      (tickSpecs p.now s.lastMinute p.registry.specs).2.count id := by
  have hinj : Function.Injective RouterEvent.time := fun a b h => RouterEvent.time.inj h
  rw [StrategyScheduler.tickOnce, List.count_append, List.count_map_of_injective _ _ hinj]
  cases s.wasOpen with
  | none => simp
  | some wasOpen =>
    dsimp only
    split
    · cases p.isOpen <;> simp
    · simp

theorem tickOnce_of_reaches (hcron : spec.trigger = .cron) (s : StrategyScheduler)
    (h : p.Reaches spec) :
    (s.tickOnce p).1.lastMinute.get spec.strategyId = some p.now.timeOfDay ∧
      (s.tickOnce p).2.count (.time spec.strategyId) =
        if s.lastMinute.get spec.strategyId = some p.now.timeOfDay then 0 else 1 := by
  obtain ⟨hmatch, before, after, hspecs, hbefore⟩ := h
  rw [count_session]
  have hnodup := p.registry.nodup
  rw [hspecs] at hnodup
  have htick := tickSpecs_of_due p.now s.lastMinute hnodup
    (fun other hother hnone => hbefore other hother (due_eq_none.mp hnone).1 (due_eq_none.mp hnone).2)
    ((due_of_cron hcron p.now).trans hmatch)
  rwa [← hspecs] at htick

theorem tickOnce_of_not_reaches (hcron : spec.trigger = .cron) (hspec : spec ∈ p.registry.specs)
    (s : StrategyScheduler) (h : ¬ p.Reaches spec) :
    (s.tickOnce p).1.lastMinute.get spec.strategyId = s.lastMinute.get spec.strategyId ∧
      (s.tickOnce p).2.count (.time spec.strategyId) = 0 := by
  obtain ⟨before, after, hspecs⟩ := List.append_of_mem hspec
  rw [count_session]
  have hnodup := p.registry.nodup
  rw [hspecs] at hnodup
  have hnot : (∃ other ∈ before, other.due p.now = none) ∨ spec.due p.now ≠ some true := by
    by_contra hboth
    push Not at hboth
    refine h ⟨(due_of_cron hcron p.now).symm.trans hboth.2, before, after, hspecs, ?_⟩
    intro other hother htrigger hnone
    exact hboth.1 other hother (due_eq_none.mpr ⟨htrigger, hnone⟩)
  have htick := tickSpecs_of_not_due p.now s.lastMinute hnodup hnot
  rwa [← hspecs] at htick

theorem run_concat (ps : List Poll) (p : Poll) :
    StrategyScheduler.run (ps ++ [p]) =
      (((StrategyScheduler.run ps).1.tickOnce p).1,
        (StrategyScheduler.run ps).2 ++
          ((StrategyScheduler.run ps).1.tickOnce p).2.map fun e => (p.now, e)) := by
  rw [StrategyScheduler.run, List.foldl_concat]
  rfl

theorem count_moment (events : List RouterEvent) (m now : Cron.Moment) (e : RouterEvent) :
    (events.map fun e => (now, e)).count (m, e) = if now = m then events.count e else 0 := by
  split
  · next h =>
    subst h
    exact List.count_map_of_injective events _ (fun a b h => (Prod.mk.inj h).2) e
  · next h =>
    refine List.count_eq_zero.mpr fun hmem => ?_
    obtain ⟨x, -, hx⟩ := List.mem_map.mp hmem
    exact h (Prod.mk.inj hx).1

def Ordered (ps : List Poll) : Prop := ps.Pairwise fun p q => p.now.index ≤ q.now.index

def LastReach (spec : TriggerSpec) (ps : List Poll) (p : Poll) : Prop :=
  p ∈ ps ∧ p.Reaches spec ∧ ∀ q ∈ ps, q.Reaches spec → q.now.index ≤ p.now.index

theorem ordered_concat : Ordered (ps ++ [p]) ↔ Ordered ps ∧ ∀ q ∈ ps, q.now.index ≤ p.now.index := by
  simp [Ordered, List.pairwise_append]

theorem lastMinute_run (hcron : spec.trigger = .cron) (hreg : ∀ p ∈ ps, spec ∈ p.registry.specs)
    (hordered : Ordered ps) :
    (∀ p ∈ ps, ¬ p.Reaches spec) ∧
        (StrategyScheduler.run ps).1.lastMinute.get spec.strategyId = none ∨
      ∃ p, LastReach spec ps p ∧
        (StrategyScheduler.run ps).1.lastMinute.get spec.strategyId = some p.now.timeOfDay := by
  induction ps using List.reverseRecOn with
  | nil => exact .inl ⟨nofun, rfl⟩
  | append_singleton ps p ih =>
    obtain ⟨hps, hlast⟩ := ordered_concat.mp hordered
    have ih := ih (fun q hq => hreg q (List.mem_append_left _ hq)) hps
    rw [run_concat]
    by_cases hreach : p.Reaches spec
    · refine .inr ⟨p, ⟨by simp, hreach, fun q hq _ => ?_⟩, (tickOnce_of_reaches hcron _ hreach).1⟩
      rcases List.mem_append.mp hq with hq | hq
      · exact hlast q hq
      · rw [List.mem_singleton.mp hq]
    · have hkept := (tickOnce_of_not_reaches hcron (hreg p (by simp)) (StrategyScheduler.run ps).1
        hreach).1
      rcases ih with ⟨hnone, hget⟩ | ⟨q, ⟨hq, hqreach, hqlast⟩, hget⟩
      · refine .inl ⟨fun q hq => ?_, hkept.trans hget⟩
        rcases List.mem_append.mp hq with hq | hq
        · exact hnone q hq
        · rwa [List.mem_singleton.mp hq]
      · refine .inr ⟨q, ⟨List.mem_append_left _ hq, hqreach, fun x hx hxreach => ?_⟩,
          hkept.trans hget⟩
        rcases List.mem_append.mp hx with hx | hx
        · exact hqlast x hx hxreach
        · rw [List.mem_singleton.mp hx] at hxreach
          exact absurd hxreach hreach

theorem repeats_concat {m : Cron.Moment} (h : m.index ≤ p.now.index) :
    Repeats spec (ps ++ [p]) m ↔ Repeats spec ps m := by
  have hlate : ¬ p.now.index < m.index := not_lt.mpr h
  constructor
  · rintro ⟨q, hq, hreach, hlt, htime, hmax⟩
    rcases List.mem_append.mp hq with hq | hq
    · exact ⟨q, hq, hreach, hlt, htime, fun x hx => hmax x (List.mem_append_left _ hx)⟩
    · rw [List.mem_singleton.mp hq] at hlt
      exact absurd hlt hlate
  · rintro ⟨q, hq, hreach, hlt, htime, hmax⟩
    refine ⟨q, List.mem_append_left _ hq, hreach, hlt, htime, fun x hx hxreach hxlt => ?_⟩
    rcases List.mem_append.mp hx with hx | hx
    · exact hmax x hx hxreach hxlt
    · rw [List.mem_singleton.mp hx] at hxlt
      exact absurd hxlt hlate

theorem moment_ext {m n : Cron.Moment} (h : m.index = n.index) : m = n := by
  cases m
  cases n
  exact congrArg _ h

theorem fires_concat {m : Cron.Moment} (hlast : ∀ q ∈ ps, q.now.index ≤ p.now.index)
    (hnot : p.now = m → ¬ p.Reaches spec) : Fires spec (ps ++ [p]) m ↔ Fires spec ps m := by
  have hreached : (∃ q ∈ ps ++ [p], q.now = m ∧ q.Reaches spec) ↔
      ∃ q ∈ ps, q.now = m ∧ q.Reaches spec := by
    constructor
    · rintro ⟨q, hq, hnow, hreach⟩
      rcases List.mem_append.mp hq with hq | hq
      · exact ⟨q, hq, hnow, hreach⟩
      · rw [List.mem_singleton.mp hq] at hnow hreach
        exact absurd hreach (hnot hnow)
    · rintro ⟨q, hq, h⟩
      exact ⟨q, List.mem_append_left _ hq, h⟩
  rw [Fires, Fires, hreached]
  refine and_congr_right fun ⟨q, hq, hnow, _⟩ => not_congr (repeats_concat ?_)
  rw [← hnow]
  exact hlast q hq

theorem repeats_iff_mark (hcron : spec.trigger = .cron) (hreg : ∀ p ∈ ps, spec ∈ p.registry.specs)
    (hordered : Ordered ps) (hlast : ∀ q ∈ ps, q.now.index ≤ p.now.index)
    (hfirst : ¬ ∃ q ∈ ps, q.now = p.now ∧ q.Reaches spec) :
    Repeats spec ps p.now ↔
      (StrategyScheduler.run ps).1.lastMinute.get spec.strategyId = some p.now.timeOfDay := by
  have hlt : ∀ q ∈ ps, q.Reaches spec → q.now.index < p.now.index := fun q hq hreach =>
    lt_of_le_of_ne (hlast q hq) fun heq => hfirst ⟨q, hq, moment_ext heq, hreach⟩
  rcases lastMinute_run hcron hreg hordered with ⟨hnone, hget⟩ | ⟨r, ⟨hr, hreach, hmax⟩, hget⟩
  · rw [hget]
    refine ⟨?_, nofun⟩
    rintro ⟨q, hq, hreach, -⟩
    exact absurd hreach (hnone q hq)
  · rw [hget, Option.some_inj]
    constructor
    · rintro ⟨q, hq, hqreach, hqlt, htime, hqmax⟩
      have heq : r.now.index = q.now.index :=
        le_antisymm (hqmax r hr hreach (hlt r hr hreach)) (hmax q hq hqreach)
      rw [moment_ext heq, htime]
    · intro htime
      exact ⟨r, hr, hreach, hlt r hr hreach, htime, fun q hq hqreach _ => hmax q hq hqreach⟩

open Classical in
theorem count_run (hcron : spec.trigger = .cron) (hreg : ∀ p ∈ ps, spec ∈ p.registry.specs)
    (hordered : Ordered ps) (m : Cron.Moment) :
    (StrategyScheduler.run ps).2.count (m, .time spec.strategyId) =
      if Fires spec ps m then 1 else 0 := by
  induction ps using List.reverseRecOn with
  | nil => simp [StrategyScheduler.run, Fires]
  | append_singleton ps p ih =>
    obtain ⟨hps, hlast⟩ := ordered_concat.mp hordered
    have hreg' : ∀ q ∈ ps, spec ∈ q.registry.specs := fun q hq => hreg q (List.mem_append_left _ hq)
    have ih := ih hreg' hps
    rw [run_concat, List.count_append, count_moment, ih]
    by_cases hm : p.now = m
    · subst hm
      rw [if_pos rfl]
      by_cases hreach : p.Reaches spec
      · rw [(tickOnce_of_reaches hcron _ hreach).2]
        have hfires : Fires spec (ps ++ [p]) p.now ↔ ¬ Repeats spec ps p.now := by
          rw [Fires, repeats_concat (le_refl _)]
          exact ⟨And.right, fun h => ⟨⟨p, by simp, rfl, hreach⟩, h⟩⟩
        by_cases hsame : ∃ q ∈ ps, q.now = p.now ∧ q.Reaches spec
        · have hmark : (StrategyScheduler.run ps).1.lastMinute.get spec.strategyId =
              some p.now.timeOfDay := by
            obtain ⟨q, hq, hnow, hqreach⟩ := hsame
            rcases lastMinute_run hcron hreg' hps with ⟨hnone, -⟩ | ⟨r, ⟨hr, -, hmax⟩, hget⟩
            · exact absurd hqreach (hnone q hq)
            · have hle := hmax q hq hqreach
              rw [hnow] at hle
              rw [hget, moment_ext (le_antisymm (hlast r hr) hle)]
          have hbefore : Fires spec ps p.now ↔ ¬ Repeats spec ps p.now :=
            ⟨And.right, fun h => ⟨hsame, h⟩⟩
          rw [if_pos hmark, add_zero]
          simp only [hfires, hbefore]
        · have hbefore : ¬ Fires spec ps p.now := fun h => hsame h.1
          rw [if_neg hbefore, zero_add]
          simp only [hfires, repeats_iff_mark hcron hreg' hps hlast hsame, ite_not]
      · rw [(tickOnce_of_not_reaches hcron (hreg p (by simp)) _ hreach).2, add_zero]
        simp only [fires_concat hlast fun _ => hreach]
    · rw [if_neg hm, add_zero]
      simp only [fires_concat hlast fun h => absurd h hm]

theorem EveryMinute.ordered (h : EveryMinute ps) : Ordered ps := by
  have hle : ps.IsChain fun p q => p.now.index ≤ q.now.index := h.imp fun _ _ hpq => hpq.1
  have : IsTrans Poll fun p q => p.now.index ≤ q.now.index := ⟨fun _ _ _ => le_trans⟩
  exact List.isChain_iff_pairwise.mp hle

end Run

def cronSpec (id expression : String) : TriggerSpec := ⟨id, .cron, expression⟩

def Registered.one (spec : TriggerSpec) : Registered := ⟨[spec], by simp⟩

def nineOnSaturday (registry : Registered) : Poll := ⟨⟨730425 * 1440 + 540⟩, true, registry⟩

def minutesFromNine (registry : Registered) (n : ℕ) : List Poll :=
  (List.range n).map fun i => { nineOnSaturday registry with now := ⟨730425 * 1440 + 540 + i⟩ }

theorem cronMatches_nine {m : Cron.Moment} (h : cronMatches "0 9 * * *" m = some true) :
    m.timeOfDay = 540 := by
  have hwords : words "0 9 * * *" = [['0'], ['9'], ['*'], ['*'], ['*']] := by decide
  have hzero : Text.parseInt (String.ofList ['0']) = some 0 := by decide
  have hnine : Text.parseInt (String.ofList ['9']) = some 9 := by decide
  simp only [cronMatches, hwords, field, List.getD_cons_zero, List.getD_cons_succ, hzero, hnine] at h
  have hsplit : m.minute = 0 ∧ m.hour = 9 := by
    by_cases hminute : m.minute = 0
    · simp [hminute] at h
      omega
    · have hne : ¬ (0 : ℤ) = m.minute := by omega
      simp [hne] at h
  have hmod := Nat.div_add_mod m.timeOfDay 60
  rw [← Cron.Moment.hour, ← Cron.Moment.minute, hsplit.1, hsplit.2] at hmod
  omega

end Trademetrix.StrategyRuntime
