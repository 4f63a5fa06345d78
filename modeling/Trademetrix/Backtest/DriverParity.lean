import Mathlib.Data.List.Dedup
import Trademetrix.Backtest.LookAhead

/-!
# The drivers compared

The snapshots of a replay carry the clock's time, those of the other drivers the
candles'. So the drivers report the same only of a run that fails in all three.
-/

namespace Trademetrix.Backtest

open Engine (OrderSide)

section Curves

theorem timestamps_drawdowns (k : Peak) (ps : List EquityPoint) :
    (drawdowns k ps).1.map EquityPoint.timestamp = ps.map EquityPoint.timestamp := by
  induction ps generalizing k with
  | nil => rfl
  | cons p ps ih =>
    simp only [drawdowns, List.map_cons, ih]
    rfl

theorem mem_thinStep {ys : ℕ → ℚ} {n : ℕ} {bucket : ℚ} {chosen : List ℕ × ℕ} {i : ℕ}
    (h : 0 ∈ chosen.1) : 0 ∈ (thinStep ys n bucket chosen i).1 := by
  unfold thinStep
  dsimp only
  split
  · exact h
  · exact List.mem_append_left _ h

theorem mem_thinSteps {ys : ℕ → ℚ} {n : ℕ} {bucket : ℚ} {chosen : List ℕ × ℕ} (is : List ℕ)
    (h : 0 ∈ chosen.1) : 0 ∈ (is.foldl (thinStep ys n bucket) chosen).1 := by
  induction is generalizing chosen with
  | nil => exact h
  | cons i is ih => exact ih (mem_thinStep h)

theorem zero_mem_downsamplePairs (ys : ℕ → ℚ) {n : ℕ} (threshold : ℕ) (hn : 0 < n) :
    0 ∈ downsamplePairs ys n threshold := by
  unfold downsamplePairs
  split
  · exact List.mem_range.mpr hn
  · dsimp only
    rw [List.mem_insertionSort, List.mem_dedup]
    exact List.mem_append_left _ (mem_thinSteps _ List.mem_cons_self)

theorem mem_of_mem_thinned {curve : List EquityPoint} {p : EquityPoint} (h : p ∈ thinned curve) :
    p ∈ curve := by
  unfold thinned at h
  split at h
  · obtain ⟨i, -, hi⟩ := List.mem_filterMap.mp h
    exact List.mem_of_getElem? hi
  · exact h

theorem head_mem_thinned (p : EquityPoint) (curve : List EquityPoint) :
    p ∈ thinned (p :: curve) := by
  unfold thinned
  split
  · exact List.mem_filterMap.mpr ⟨0, zero_mem_downsamplePairs _ _ (by simp), rfl⟩
  · exact List.mem_cons_self

variable {iso : String → Option Stamp} {snapshots : List Snapshot} {capital : ℚ} {trades : List Trade}

theorem timestamp_of_mem_curve {p : EquityPoint}
    (h : p ∈ (calculate iso snapshots capital trades).equityCurve) :
    ∃ snap ∈ snapshots, snap.timestamp = p.timestamp := by
  have hp := List.mem_map_of_mem (f := EquityPoint.timestamp) (mem_of_mem_thinned h)
  rw [timestamps_drawdowns] at hp
  simpa [equityCurve] using hp

theorem first_timestamp_mem_curve (iso : String → Option Stamp) (capital : ℚ)
    (trades : List Trade) {snapshots : List Snapshot} {snap : Snapshot} {snaps : List Snapshot}
    (h : snapshots = snap :: snaps) :
    snap.timestamp ∈
      (calculate iso snapshots capital trades).equityCurve.map EquityPoint.timestamp := by
  subst h
  have hmap := timestamps_drawdowns { peak := capital } (equityCurve (snap :: snaps))
  unfold calculate
  dsimp only
  cases hd : (drawdowns { peak := capital } (equityCurve (snap :: snaps))).1 with
  | nil =>
    rw [hd] at hmap
    simp [equityCurve] at hmap
  | cons p ps =>
    rw [hd] at hmap
    have hstamp : p.timestamp = snap.timestamp := by
      simp only [equityCurve, List.map_cons, List.cons.injEq] at hmap
      exact hmap.1
    exact List.mem_map.mpr ⟨p, head_mem_thinned p ps, hstamp⟩

end Curves

namespace Run

variable {σ : Type} {t : Run σ} {s : Setup} {st : Strategy σ} {clock : Clock} {p q : Progress σ}

def shown (st : Strategy σ) (x : σ) (raws : List Candle) : σ :=
  raws.foldl (fun x c => (st.onCandle x c).1) x

section Steps

theorem fastStep_eq_some {i : ℕ} {raw : Candle} (h : t.fastStep s st clock p i raw = some q) :
    t.converts raw = true ∧ q.strategy = (st.onCandle p.strategy raw).1 ∧
      ∃ snap, snap.timestamp = orElse raw.timestamp (clock i) ∧ q.snapshots = p.snapshots ++ [snap] := by
  unfold fastStep at h
  dsimp only at h
  split at h
  · cases h
  · next hconv =>
    cases hsig : st.onCandle p.strategy raw with
    | mk x signal =>
      rw [hsig] at h
      cases signal with
      | none => cases h
      | some signal =>
        cases h
        exact ⟨Bool.eq_true_of_not_eq_false hconv, rfl, _, rfl, rfl⟩

theorem replayStep_eq_some (s : Setup) (st : Strategy σ) (clock : Clock) (p : Progress σ) (i : ℕ)
    {raw : Candle} (h : t.converts raw = true) :
    ∃ q, t.replayStep s st clock p i raw = some q ∧
      q.strategy = (st.onCandle p.strategy raw).1 ∧
      ∃ snap, snap.timestamp = clock i ∧ q.snapshots = p.snapshots ++ [snap] := by
  unfold replayStep
  rw [if_neg (by rw [h]; decide)]
  exact ⟨_, rfl, rfl, _, rfl, rfl⟩

theorem replayStep_eq_none {i : ℕ} {raw : Candle} (h : t.converts raw = false) :
    t.replayStep s st clock p i raw = none := if_pos h

end Steps

section Loops

theorem fastLoop_eq_some {raws : List Candle} {i : ℕ}
    (h : loop (t.fastStep s st clock) i raws p = some q) :
    (∀ c ∈ raws, t.converts c = true) ∧ q.strategy = shown st p.strategy raws ∧
      ∃ snaps, q.snapshots = p.snapshots ++ snaps ∧
        ∀ raw raws', raws = raw :: raws' →
          (snaps.head?.map Snapshot.timestamp) = some (orElse raw.timestamp (clock i)) := by
  induction raws generalizing i p with
  | nil =>
    cases h
    exact ⟨fun c hc => absurd hc List.not_mem_nil, rfl, [], by simp,
      fun raw raws' hraws => absurd hraws (List.cons_ne_nil raw raws').symm⟩
  | cons raw raws ih =>
    obtain ⟨p', hstep, hrest⟩ := Option.bind_eq_some_iff.mp h
    obtain ⟨hconv, hstate, snap, hstamp, hsnap⟩ := fastStep_eq_some hstep
    obtain ⟨hconvs, hshown, snaps, hsnaps, -⟩ := ih hrest
    refine ⟨List.forall_mem_cons.mpr ⟨hconv, hconvs⟩, ?_, snap :: snaps, ?_, ?_⟩
    · rw [hshown, hstate]
      rfl
    · rw [hsnaps, hsnap, List.append_assoc, List.singleton_append]
    · rintro _ _ ⟨⟩
      rw [List.head?_cons, Option.map_some, hstamp]

theorem replayLoop_eq_some (s : Setup) (st : Strategy σ) (clock : Clock) (p : Progress σ) (i : ℕ)
    {raws : List Candle} (h : ∀ c ∈ raws, t.converts c = true) :
    ∃ q, loop (t.replayStep s st clock) i raws p = some q ∧ q.strategy = shown st p.strategy raws ∧
      ∃ snaps, q.snapshots = p.snapshots ++ snaps ∧ snaps.length = raws.length ∧
        ∀ snap ∈ snaps, ∃ k, snap.timestamp = clock k := by
  induction raws generalizing i p with
  | nil => exact ⟨p, rfl, rfl, [], by simp, rfl, nofun⟩
  | cons raw raws ih =>
    obtain ⟨hconv, hconvs⟩ := List.forall_mem_cons.mp h
    obtain ⟨p', hstep, hstate, snap, hstamp, hsnap⟩ := replayStep_eq_some s st clock p i hconv
    obtain ⟨q, hloop, hshown, snaps, hsnaps, hlen, hstamps⟩ := ih p' (i + 1) hconvs
    refine ⟨q, ?_, ?_, snap :: snaps, ?_, ?_, ?_⟩
    · rw [loop, hstep]
      exact hloop
    · rw [hshown, hstate]
      rfl
    · rw [hsnaps, hsnap, List.append_assoc, List.singleton_append]
    · rw [List.length_cons, List.length_cons, hlen]
    · exact List.forall_mem_cons.mpr ⟨⟨i, hstamp⟩, hstamps⟩

theorem replayLoop_eq_none {raws : List Candle} {i : ℕ} (h : ∃ c ∈ raws, t.converts c = false) :
    loop (t.replayStep s st clock) i raws p = none := by
  induction raws generalizing i p with
  | nil => simp at h
  | cons raw raws ih =>
    cases hconv : t.converts raw with
    | false => rw [loop, replayStep_eq_none hconv, Option.bind_none]
    | true =>
      obtain ⟨p', hstep, -⟩ := replayStep_eq_some s st clock p i hconv
      rw [loop, hstep, Option.bind_some]
      refine ih ?_
      simpa [hconv] using h

end Loops

theorem finish_eq_some {stamp : String} {n : ℕ} (h : t.finish s st clock stamp n p = some q) :
    st.onStop p.strategy ≠ none ∧ ∃ snaps, q.snapshots = p.snapshots ++ snaps ∧
      ∀ snap ∈ snaps, snap.timestamp = orElse stamp (clock n) := by
  unfold finish at h
  cases hstop : st.onStop p.strategy with
  | none =>
    rw [hstop] at h
    cases h
  | some x =>
    refine ⟨by simp, ?_⟩
    rw [hstop] at h
    dsimp only at h
    split at h
    · cases h
      exact ⟨[_], rfl, by simp [Broker.collect]⟩
    · cases h
      exact ⟨[], by simp, by simp⟩

theorem finish_ne_none (t : Run σ) (s : Setup) (clock : Clock) (stamp : String) (n : ℕ)
    (h : st.onStop p.strategy ≠ none) :
    t.finish s st clock stamp n p ≠ none := by
  unfold finish
  cases hstop : st.onStop p.strategy with
  | none => exact absurd hstop h
  | some x =>
    dsimp only
    split <;> exact nofun

def Fails (t : Run σ) : Prop :=
  match t.strategy, t.candles with
  | some st, some candles =>
    candles = [] ∨
      match st.onStart st.init with
      | none => True
      | some x =>
        (∃ c ∈ candles, t.converts c = false) ∨ st.onStop (shown st x candles) = none
  | _, _ => True

def DriversAgree (t : Run σ) : Prop :=
  ∀ k₁ k₂ k₃ : Clock, (t.runMax k₁).report = (t.runReplay k₂).report ∧
    (t.runMax k₁).report = (t.fastRun k₃).report

theorem drive_fast_of_fails {lastStamp : List Candle → String} {tradesOf : Progress σ → List Trade}
    (h : t.Fails) : t.drive (fun s st => t.fastStep s st clock) clock lastStamp tradesOf = t.failed := by
  unfold drive
  unfold Fails at h
  split
  · next st candles hst hcandles =>
    rw [hst, hcandles] at h
    split
    · rfl
    · next hne =>
      have h := h.resolve_left hne
      dsimp only
      cases hstart : st.onStart st.init with
      | none => rfl
      | some x =>
        rw [hstart] at h
        simp only [Option.bind_eq_bind, Option.bind_some]
        cases hloop : loop (t.fastStep (t.setup candles) st clock) 0 candles
            { strategy := x, account := t.account candles } with
        | none => rfl
        | some q =>
          obtain ⟨hconv, hshown, -⟩ := fastLoop_eq_some hloop
          have hstop : st.onStop q.strategy = none := by
            rw [hshown]
            refine h.resolve_left ?_
            rintro ⟨c, hc, hbad⟩
            rw [hconv c hc] at hbad
            cases hbad
          rw [Option.bind_some]
          unfold finish
          rw [hstop]
  · rfl

theorem runReplay_of_fails (h : t.Fails) : t.runReplay clock = t.failed := by
  unfold runReplay drive
  unfold Fails at h
  split
  · next st candles hst hcandles =>
    rw [hst, hcandles] at h
    split
    · rfl
    · next hne =>
      have h := h.resolve_left hne
      dsimp only
      cases hstart : st.onStart st.init with
      | none => rfl
      | some x =>
        rw [hstart] at h
        simp only [Option.bind_eq_bind, Option.bind_some]
        by_cases hconv : ∃ c ∈ candles, t.converts c = false
        · rw [replayLoop_eq_none hconv]
          rfl
        · have hall : ∀ c ∈ candles, t.converts c = true := by simpa using hconv
          obtain ⟨q, hloop, hshown, -⟩ := replayLoop_eq_some (t.setup candles) st clock
            { strategy := x, account := t.account candles } 0 hall
          rw [hloop, Option.bind_some]
          unfold finish
          rw [hshown, h.resolve_left hconv]
  · rfl

theorem timestamp_ne_empty {raw : Candle} (h : t.converts raw = true) : raw.timestamp ≠ "" := by
  intro hempty
  simp [converts, iso, hempty] at h

theorem first_timestamp_mem {lastStamp : List Candle → String} {tradesOf : Progress σ → List Trade}
    {raw : Candle} {raws : List Candle} (hcandles : t.candles = some (raw :: raws))
    (h : (t.drive (fun s st => t.fastStep s st clock) clock lastStamp
      tradesOf).report.equityCurve ≠ []) :
    raw.timestamp ∈ (t.drive (fun s st => t.fastStep s st clock) clock lastStamp
      tradesOf).report.equityCurve.map EquityPoint.timestamp := by
  unfold drive at h ⊢
  rw [hcandles] at h ⊢
  cases hst : t.strategy with
  | none => simp [hst, failed] at h
  | some st =>
    simp only [hst, List.cons_ne_nil, if_false] at h ⊢
    cases hrun : (do
        let strategy ← st.onStart st.init
        let p ← loop (t.fastStep (t.setup (raw :: raws)) st clock) 0 (raw :: raws)
          { strategy := strategy, account := t.account (raw :: raws) }
        t.finish (t.setup (raw :: raws)) st clock (lastStamp (raw :: raws)) (raw :: raws).length p :
          Option (Progress σ)) with
    | none =>
      rw [hrun] at h
      simp [failed] at h
    | some q =>
      obtain ⟨x, -, hx⟩ := Option.bind_eq_some_iff.mp hrun
      obtain ⟨p, hloop, hfinish⟩ := Option.bind_eq_some_iff.mp hx
      obtain ⟨hconv, -, snaps, hsnaps, hfirst⟩ := fastLoop_eq_some hloop
      obtain ⟨-, more, hmore, -⟩ := finish_eq_some hfinish
      have hstamp := hfirst raw raws rfl
      have hne := timestamp_ne_empty (hconv raw List.mem_cons_self)
      rw [orElse, if_neg hne] at hstamp
      cases snaps with
      | nil => cases hstamp
      | cons snap snaps =>
        rw [List.head?_cons, Option.map_some, Option.some.injEq] at hstamp
        rw [← hstamp]
        exact first_timestamp_mem_curve _ _ _ (by rw [hmore, hsnaps]; rfl)

theorem replay_curve (now : String) (h : ¬t.Fails) :
    (t.runReplay fun _ => now).report.equityCurve ≠ [] ∧
      ∀ p ∈ (t.runReplay fun _ => now).report.equityCurve, p.timestamp = now := by
  unfold Fails at h
  unfold runReplay drive
  cases hst : t.strategy with
  | none => simp [hst] at h
  | some st =>
    cases hcandles : t.candles with
    | none => simp [hst, hcandles] at h
    | some candles =>
      simp only [hst, hcandles, not_or] at h
      obtain ⟨hne, h⟩ := h
      simp only [hne, if_false]
      cases hstart : st.onStart st.init with
      | none => simp [hstart] at h
      | some x =>
        simp only [hstart, not_or, not_exists, not_and, Bool.not_eq_false] at h
        obtain ⟨hconv, hstop⟩ := h
        obtain ⟨p, hloop, hshown, snaps, hsnaps, hlen, hstamps⟩ :=
          replayLoop_eq_some (t.setup candles) st (fun _ => now)
            { strategy := x, account := t.account candles } 0 hconv
        obtain ⟨q, hq⟩ := Option.ne_none_iff_exists'.mp
          (finish_ne_none t (t.setup candles) (fun _ => now) "" candles.length (by rwa [hshown]))
        obtain ⟨-, more, hmore, hlast⟩ := finish_eq_some hq
        simp only [Option.bind_eq_bind, Option.bind_some, hloop, hq]
        have hall : ∀ snap ∈ q.snapshots, snap.timestamp = now := by
          intro snap hsnap
          rw [hmore, hsnaps, List.mem_append, List.mem_append] at hsnap
          rcases hsnap with (hsnap | hsnap) | hsnap
          · cases hsnap
          · exact (hstamps snap hsnap).elim fun _ hk => hk
          · exact hlast snap hsnap
        constructor
        · cases snaps with
          | nil => exact absurd (List.length_eq_zero_iff.mp hlen.symm) hne
          | cons snap snaps =>
            have hsnapshots : q.snapshots = snap :: (snaps ++ more) := by rw [hmore, hsnaps]; rfl
            have hmem := first_timestamp_mem_curve t.iso t.config.initialCapital
              (t.tradesOrBuilt q) hsnapshots
            intro hnil
            rw [hnil] at hmem
            cases hmem
        · intro pt hpt
          obtain ⟨snap, hsnap, heq⟩ := timestamp_of_mem_curve hpt
          rw [← heq, hall snap hsnap]

/-- The drivers report the same exactly when the run fails: the strategy is not set up, there are
no candles or one does not convert, or the strategy raises in `on_start` or in `on_stop`. -/
theorem driversAgree_iff (t : Run σ) : t.DriversAgree ↔ t.Fails := by
  constructor
  · intro h
    by_contra hnot
    have hcandles : ∃ raw raws, t.candles = some (raw :: raws) := by
      unfold Fails at hnot
      cases hc : t.candles with
      | none => cases hst : t.strategy <;> simp [hst, hc] at hnot
      | some candles =>
        cases candles with
        | nil => cases hst : t.strategy <;> simp [hst, hc] at hnot
        | cons raw raws => exact ⟨raw, raws, rfl⟩
    obtain ⟨raw, raws, hc⟩ := hcandles
    -- a time of the clock that is not the first candle's
    obtain ⟨now, hnow⟩ : ∃ now, now ≠ raw.timestamp := by
      by_cases h1 : raw.timestamp = "2026-01-05 09:15:00+00:00"
      · exact ⟨"2026-01-05 09:15:01+00:00", by rw [h1]; decide⟩
      · exact ⟨_, Ne.symm h1⟩
    obtain ⟨hne, hall⟩ := replay_curve now hnot
    have hsame := (h (fun _ => now) (fun _ => now) (fun _ => now)).1
    rw [← hsame] at hne hall
    obtain ⟨p, hp, hstamp⟩ := List.mem_map.mp (first_timestamp_mem hc hne)
    exact hnow ((hall p hp).symm.trans hstamp)
  · intro h k₁ k₂ k₃
    rw [runReplay_of_fails h]
    unfold runMax fastRun
    rw [drive_fast_of_fails h, drive_fast_of_fails h]
    exact ⟨rfl, rfl⟩

def oneBuy : Run Unit :=
  { plainRun {} with strategy := some buyer, candles := some [flatCandle 100] }

/-- Bought and sold alike, but the curve of the replay bears the clock's time. -/
theorem oneBuy_differs :
    (oneBuy.runMax fun _ => "now").report.trades.length = 1 ∧
      (oneBuy.runReplay fun _ => "now").report.trades.length = 1 ∧
      (oneBuy.runMax fun _ => "now").report.equityCurve.head?.map EquityPoint.timestamp =
        some (flatCandle 100).timestamp ∧
      (oneBuy.runReplay fun _ => "now").report.equityCurve.head?.map EquityPoint.timestamp =
        some "now" ∧
      ¬oneBuy.DriversAgree := by
  have hmax : (oneBuy.runMax fun _ => "now").report.equityCurve.head?.map EquityPoint.timestamp =
      some (flatCandle 100).timestamp := by decide
  have hreplay : (oneBuy.runReplay fun _ => "now").report.equityCurve.head?.map
      EquityPoint.timestamp = some "now" := by decide
  refine ⟨by decide +kernel, by decide +kernel, hmax, hreplay, fun h => ?_⟩
  rw [(h (fun _ => "now") (fun _ => "now") fun _ => "now").1, hreplay] at hmax
  exact absurd hmax (by decide)

end Run

end Trademetrix.Backtest
