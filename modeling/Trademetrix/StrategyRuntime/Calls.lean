import Trademetrix.Async.Serial
import Trademetrix.StrategyRuntime.Manager

/-!
# Calls that run alone

What the parts of a verb leave in the registry when no other call comes between: most
leave it alone, and a start, a pause and a resumption change the one record they are of.
-/

namespace Trademetrix.StrategyRuntime

open Trademetrix.Async Proc

variable {α β : Type} {s t : Runtime} {id : String}

structure Runtime.Like (s t : Runtime) : Prop where
  registry : t.registry = s.registry
  tasks : ∀ id, id ∉ s.runningTasks → id ∉ t.runningTasks

theorem Runtime.Like.refl (s : Runtime) : s.Like s := ⟨rfl, fun _ h => h⟩

theorem Runtime.Like.trans {u : Runtime} (h : s.Like t) (h' : t.Like u) : s.Like u :=
  ⟨h'.registry.trans h.registry, fun id hid => h'.tasks id (h.tasks id hid)⟩

abbrev Ends (post : α → Runtime → Prop) (p : Call α) (s : Runtime) : Prop :=
  p.Alone Runtime.apply (fun _ _ => True) post s

def Quiet (p : Call α) : Prop := ∀ s, Ends (fun _ t => s.Like t) p s

theorem Quiet.pure (a : α) : Quiet (Pure.pure a : Call α) := fun s => .refl s

theorem Quiet.bind {p : Call α} {f : α → Call β} (hp : Quiet p) (hf : ∀ a, Quiet (f a)) :
    Quiet (p >>= f) := fun s =>
  Alone.bind (hp s) fun a t hst => (hf a t).mono fun _ _ htu => hst.trans htu

theorem Quiet.look : Quiet (Proc.look : Call Runtime) := Runtime.Like.refl

theorem Quiet.wait (i : Await) : Quiet (Proc.wait i : Call (Reply i)) := by
  intro s
  rintro t rfl r -
  exact Runtime.Like.refl s

theorem Quiet.emit {e : Effect} (hregistry : ∀ d, e.onRegistry d = d)
    (htasks : ∀ ids, ∀ id ∉ ids, id ∉ e.onRunningTasks ids) : Quiet (Proc.emit e : Call Unit) :=
  fun _ => ⟨trivial, hregistry _, htasks _⟩

theorem Quiet.save (id : String) : Quiet (save id) := by
  refine Quiet.bind Quiet.look fun s => ?_
  cases s.registry.get id with
  | none => exact Quiet.pure ()
  | some r =>
    refine Quiet.bind (Quiet.wait .store) fun ok => ?_
    split
    · exact Quiet.emit (fun _ => rfl) fun _ _ h => h
    · exact Quiet.pure ()

theorem Quiet.stopLegacy (id : String) : Quiet (stopLegacy id) := by
  refine Quiet.bind Quiet.look fun s => ?_
  split
  · refine Quiet.bind (Quiet.emit (fun _ => rfl) fun _ _ h => ?_) fun _ => Quiet.wait .io
    exact fun hmem => h (List.mem_of_mem_filter hmem)
  · exact Quiet.pure ()

theorem Quiet.guardStart (spec : StrategySpec) : Quiet (guardStart spec) := by
  unfold StrategyRuntime.guardStart
  split
  · exact Quiet.pure _
  · refine Quiet.bind (Quiet.wait .cacheGet) fun val => ?_
    split
    · exact Quiet.pure _
    · refine Quiet.bind Quiet.look fun s => ?_
      split <;> exact Quiet.pure _

theorem Quiet.then {p : Call α} (hp : Quiet p) {f : α → Call β} {post : β → Runtime → Prop}
    (hf : ∀ a t, s.Like t → Ends post (f a) t) : Ends post (p >>= f) s :=
  Alone.bind (hp s) hf

theorem resumeStrategy_ends {r : RuntimeRecord} (hr : s.registry.get id = some r) :
    Ends (fun out t =>
      if canTransition r.state .running then
        out = .resumed ∧ t.registry = (Effect.resumed id).onRegistry s.registry
      else out = .raised ∧ t.registry = s.registry) (resumeStrategy id "") s := by
  unfold resumeStrategy withRecord
  refine Alone.of_look ?_
  rw [hr]
  simp only [ne_eq, not_true_eq_false, false_and, if_false]
  split
  · refine Alone.of_emit trivial ?_
    refine (Quiet.save id).then fun _ t ht => (Quiet.wait .io).then fun _ u hu => ?_
    exact ⟨rfl, (ht.trans hu).registry⟩
  · exact ⟨rfl, rfl⟩

theorem pauseStrategy_ends {r : RuntimeRecord} (hr : s.registry.get id = some r)
    (hrun : r.state = .running) (reason : String) :
    Ends (fun _ t => t.registry = (Effect.paused id reason).onRegistry s.registry ∧
      ∀ id, id ∉ s.runningTasks → id ∉ t.runningTasks) (pauseStrategy id "" reason) s := by
  unfold pauseStrategy withRecord
  refine Alone.of_look ?_
  have hcan : canTransition r.state .paused = true := by
    rw [hrun]
    rfl
  rw [hr]
  simp only [ne_eq, not_true_eq_false, false_and, if_false, hcan, if_true]
  refine Alone.of_emit trivial ?_
  refine (Quiet.save id).then fun _ t ht => (Quiet.wait .io).then fun _ u hu => ?_
  exact ⟨(ht.trans hu).registry, (ht.trans hu).tasks⟩

structure Runtime.LikeBut (id : String) (s t : Runtime) : Prop where
  others : ∀ q, q ≠ id → t.registry.get q = s.registry.get q
  tasks : ∀ q, q ∉ s.runningTasks → q ∉ t.runningTasks

theorem Runtime.Like.but (h : s.Like t) (id : String) : s.LikeBut id t :=
  ⟨fun q _ => by rw [h.registry], h.tasks⟩

theorem Runtime.LikeBut.trans {u : Runtime} (h : s.LikeBut id t) (h' : t.LikeBut id u) :
    s.LikeBut id u :=
  ⟨fun q hq => (h'.others q hq).trans (h.others q hq), fun q hq => h'.tasks q (h.tasks q hq)⟩

theorem likeBut_apply {e : Effect} {f : RuntimeRecord → RuntimeRecord}
    (hregistry : e.onRegistry s.registry = s.registry.modify id f)
    (htasks : e.onRunningTasks s.runningTasks = s.runningTasks) : s.LikeBut id (s.apply e) := by
  refine ⟨fun q hq => ?_, fun q hq => ?_⟩
  · change (e.onRegistry s.registry).get q = _
    rw [hregistry, Dict.get_modify, if_neg hq]
  · change q ∉ e.onRunningTasks s.runningTasks
    rwa [htasks]

theorem startRunning_ends {r : RuntimeRecord} (hr : s.registry.get id = some r) (n : ℕ) :
    Ends (fun out t => s.LikeBut id t ∧
      (out = .started ∧ t.registry.get id = some { r with state := .running, worker := true } ∨
        out = .raised ∧ t.registry.get id = some { r with state := .starting, worker := true }))
      (startRunning n id) s := by
  unfold startRunning
  refine (Quiet.stopLegacy id).then fun _ t ht => Alone.of_emit trivial ?_
  have hbegun : (t.apply (.starting id)).registry.get id =
      some { r with state := .starting, worker := true } := by
    change ((Effect.starting id).onRegistry t.registry).get id = _
    rw [ht.registry]
    simp [Effect.onRegistry, Effect.changed, Effect.change, Dict.get_modify, hr]
  have hlike : s.LikeBut id (t.apply (.starting id)) :=
    (ht.but id).trans (likeBut_apply rfl rfl)
  refine (Quiet.wait .workerStart).then fun ok u hu => ?_
  split
  · refine Alone.of_emit trivial ?_
    have hrunning : (u.apply (.running n id)).registry.get id =
        some { r with state := .running, worker := true } := by
      change ((Effect.running n id).onRegistry u.registry).get id = _
      rw [hu.registry]
      simp [Effect.onRegistry, Effect.changed, Effect.change, Dict.get_modify, hbegun]
    refine (Quiet.save id).then fun _ v hv => (Quiet.wait .io).then fun _ w hw => ?_
    have hquiet := hv.trans hw
    refine ⟨(hlike.trans (hu.but id)).trans ((likeBut_apply rfl rfl).trans (hquiet.but id)), ?_⟩
    refine .inl ⟨rfl, ?_⟩
    rw [hquiet.registry, hrunning]
  · refine Alone.of_emit trivial ⟨hlike.trans ((hu.but id).trans ⟨fun _ _ => rfl, fun _ h => h⟩), ?_⟩
    refine .inr ⟨rfl, ?_⟩
    change u.registry.get id = _
    rw [hu.registry, hbegun]

theorem startStrategy_ends {spec : StrategySpec} (hr : s.registry.get spec.strategyId = none)
    (n : ℕ) :
    Ends (fun out t => s.LikeBut spec.strategyId t ∧
      (out = .started ∧
          t.registry.get spec.strategyId = some ⟨spec, .running, 0, true, ""⟩ ∨
        out ≠ .started ∧ ∀ r, t.registry.get spec.strategyId = some r → r.state = .starting))
      (startStrategy n spec) s := by
  unfold startStrategy
  refine (Quiet.guardStart spec).then fun refusal t ht => ?_
  cases refusal with
  | some code =>
    refine ⟨ht.but _, .inr ⟨nofun, fun r hget => ?_⟩⟩
    rw [ht.registry, hr] at hget
    cases hget
  | none =>
    refine Alone.of_look ?_
    rw [ht.registry, hr]
    refine Alone.of_emit trivial ?_
    have hregistry : (t.apply (.prepared n spec)).registry =
        s.registry.set spec.strategyId ⟨spec, .created, 0, false, ""⟩ := by
      change (Effect.prepared n spec).onRegistry t.registry = _
      rw [ht.registry]
      simp [Effect.onRegistry, hr]
    have hnew : (t.apply (.prepared n spec)).registry.get spec.strategyId =
        some ⟨spec, .created, 0, false, ""⟩ := by
      rw [hregistry, Dict.get_set, if_pos rfl]
    have hlike : s.LikeBut spec.strategyId (t.apply (.prepared n spec)) := by
      refine ⟨fun q hq => ?_, ht.tasks⟩
      rw [hregistry, Dict.get_set, if_neg hq]
    refine (startRunning_ends hnew n).mono fun out u hu => ⟨hlike.trans hu.1, ?_⟩
    rcases hu.2 with ⟨hout, hget⟩ | ⟨hout, hget⟩
    · exact .inl ⟨hout, hget⟩
    · refine .inr ⟨by simp [hout], fun r hget' => ?_⟩
      rw [hget] at hget'
      cases hget'
      rfl

end Trademetrix.StrategyRuntime
