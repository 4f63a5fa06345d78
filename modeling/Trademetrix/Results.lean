import Mathlib.Data.List.Basic

/-!
# Results that may be errors

A sequence of steps ends well exactly when each of them does.
-/

namespace Trademetrix

variable {ε α β : Type}

@[simp] theorem ok_bind (a : α) (f : α → Except ε β) : (Except.ok a >>= f) = f a := rfl

@[simp] theorem error_bind (e : ε) (f : α → Except ε β) : (Except.error e >>= f) = .error e := rfl

@[simp] theorem pure_eq_ok (a : α) : (pure a : Except ε α) = .ok a := rfl

@[simp] theorem map_ok (f : α → β) (a : α) : (f <$> Except.ok a : Except ε β) = .ok (f a) := rfl

@[simp] theorem map_error (f : α → β) (e : ε) : (f <$> Except.error e : Except ε β) = .error e :=
  rfl

theorem error_ne_ok (e : ε) (a : α) : (Except.error e : Except ε α) ≠ .ok a := nofun

theorem ok_ne_error (a : α) (e : ε) : (Except.ok a : Except ε α) ≠ .error e := nofun

theorem map_bind_eq {γ : Type} (x : Except ε α) (f : α → Except ε β) (g : β → γ) :
    (x >>= f).map g = x >>= fun a => (f a).map g := by
  cases x <;> rfl

theorem bind_eq_ok {x : Except ε α} {f : α → Except ε β} {b : β} :
    (x >>= f) = .ok b ↔ ∃ a, x = .ok a ∧ f a = .ok b := by
  cases x with
  | error e => simp [bind, Except.bind]
  | ok a => simp [bind, Except.bind]

theorem unit_bind_eq_ok {x : Except ε Unit} {f : Unit → Except ε β} {b : β} :
    (x >>= f) = .ok b ↔ x = .ok () ∧ f () = .ok b :=
  bind_eq_ok.trans ⟨fun ⟨(), h⟩ => h, fun h => ⟨(), h⟩⟩

theorem ok_then {x : Except ε α} {a : α} {f : α → Except ε β} (h : x = .ok a) :
    (x >>= f) = f a := by
  rw [h, ok_bind]

theorem ok_of_decide {x : Except ε α} {P : α → Prop} [DecidablePred P]
    (h : x.toOption.map (fun a => decide (P a)) = some true) : ∃ a, x = .ok a ∧ P a := by
  cases x with
  | error e => cases h
  | ok a => exact ⟨a, rfl, of_decide_eq_true (Option.some.inj h)⟩

theorem foldlM_keeps {f : β → α → Except ε β} {P : β → Prop} {xs : List α}
    (hstep : ∀ x ∈ xs, ∀ b b', P b → f b x = .ok b' → P b') {b b' : β} (hb : P b)
    (h : xs.foldlM f b = .ok b') : P b' := by
  induction xs generalizing b with
  | nil =>
    obtain rfl : b = b' := Except.ok.inj h
    exact hb
  | cons x xs ih =>
    rw [List.foldlM_cons, bind_eq_ok] at h
    obtain ⟨c, hc, hrest⟩ := h
    exact ih (fun y hy => hstep y (List.mem_cons_of_mem x hy))
      (hstep x List.mem_cons_self b c hb hc) hrest

theorem forM_eq_ok {f : α → Except ε Unit} {xs : List α} :
    xs.forM f = .ok () ↔ ∀ x ∈ xs, f x = .ok () := by
  induction xs with
  | nil => exact iff_of_true rfl nofun
  | cons x xs ih =>
    rw [List.forall_mem_cons, ← ih]
    exact bind_eq_ok.trans ⟨fun ⟨_, hx, hxs⟩ => ⟨hx, hxs⟩, fun ⟨hx, hxs⟩ => ⟨_, hx, hxs⟩⟩

theorem mapM_eq_ok {f : α → Except ε β} {Q : β → Prop} {xs : List α}
    (h : ∀ x ∈ xs, ∃ y, f x = .ok y ∧ Q y) :
    ∃ ys, xs.mapM f = .ok ys ∧ ys.length = xs.length ∧ ∀ y ∈ ys, Q y := by
  induction xs with
  | nil => exact ⟨[], rfl, rfl, List.forall_mem_nil _⟩
  | cons x xs ih =>
    obtain ⟨⟨y, hy, hQ⟩, hrest⟩ := List.forall_mem_cons.mp h
    obtain ⟨ys, hys, hlen, hQs⟩ := ih hrest
    refine ⟨y :: ys, ?_, by simp [hlen], List.forall_mem_cons.mpr ⟨hQ, hQs⟩⟩
    rw [List.mapM_cons]
    exact (ok_then hy).trans ((ok_then hys).trans rfl)

theorem length_mapM {f : α → Option β} {xs : List α} {ys : List β} (h : xs.mapM f = some ys) :
    ys.length = xs.length := by
  induction xs generalizing ys with
  | nil => simp_all
  | cons x xs ih =>
    simp only [List.mapM_cons, Option.bind_eq_bind, Option.pure_def, Option.bind_eq_some_iff] at h
    obtain ⟨y, -, zs, hzs, hys⟩ := h
    rw [← Option.some.inj hys, List.length_cons, List.length_cons, ih hzs]

theorem mapM_range_eq_some {f : ℕ → Option α} {xs : List α}
    (h : ∀ k (hk : k < xs.length), f k = some xs[k]) :
    (List.range xs.length).mapM f = some xs := by
  induction xs generalizing f with
  | nil => rfl
  | cons x xs ih =>
    have hrest : (List.range xs.length).mapM (fun k => f (k + 1)) = some xs :=
      ih fun k hk => h (k + 1) (Nat.succ_lt_succ hk)
    rw [List.length_cons, List.range_succ_eq_map, List.mapM_cons, h 0 (Nat.succ_pos _),
      List.mapM_map]
    simp [Function.comp_def, hrest]

end Trademetrix
