import Trademetrix.Oms.Effects
import Trademetrix.Oms.System

/-!
# The text of the order manager is within its contract

Every coroutine finds `Facts` true of each effect it carries out, whatever the
others do while it waits, so the effects of every run are `Legal`.
-/

namespace Trademetrix.Oms

open Async
open Execution (ExecutionRequest ExecutionResult)

variable {cfg : Settings} {a : Tag} {s t u w : World} {e : Effect}

def owner : Effect → Option Tag
  | .markSent _ | .post _ | .abandoned _ | .unanswered _ _ | .answered _ _ | .requeued _
  | .countRetry _ _ | .refused _ _ => some .worker
  | .lookup _ _ | .resolved _ _ _ => some .reconciler
  | _ => none

/-- What a call tagged `a` can count on between two of its steps. -/
structure Since (a : Tag) (s s' : World) : Prop where
  inv : s'.Inv
  stable : Stable s s'
  worker : a = .worker → s'.worker = s.worker
  probing : a = .reconciler → s'.probing = s.probing ∧
    ∀ r < s.nextRef, (s'.heap r).notFoundObservations = (s.heap r).notFoundObservations

theorem Since.refl (h : s.Inv) : Since a s s :=
  ⟨h, .refl s, fun _ => rfl, fun _ => ⟨rfl, fun _ _ => rfl⟩⟩

theorem Since.trans (h : Since a s t) (h' : Since a t u) : Since a s u where
  inv := h'.inv
  stable := h.stable.trans h'.stable
  worker ha := (h'.worker ha).trans (h.worker ha)
  probing ha := by
    obtain ⟨hp, ho⟩ := h.probing ha
    obtain ⟨hp', ho'⟩ := h'.probing ha
    exact ⟨hp'.trans hp, fun r hr => (ho' r (hr.trans_le h.stable.refs)).trans (ho r hr)⟩

theorem Since.lt {r : Ref} (h : Since a s t) (hr : r < s.nextRef) : r < t.nextRef :=
  hr.trans_le h.stable.refs

theorem Since.sent {r : Ref} (h : Since a s t) (hr : Sent s r) : Sent t r :=
  ⟨h.lt hr.1, h.stable.sent r hr.1 hr.2⟩

theorem World.addOrder_private (cfg : Settings) (w : World) (o : OmniOrder) :
    (w.addOrder cfg o).worker = w.worker ∧ (w.addOrder cfg o).probing = w.probing ∧
      ∀ r < w.nextRef, (w.addOrder cfg o).heap r = w.heap r := by
  obtain ⟨os, heq, -⟩ := addOrder_eq cfg w o
  rw [heq]
  exact ⟨rfl, rfl, fun r hr => by simp [hr.ne]⟩

theorem apply_worker (h : owner e ≠ some .worker) (hc : e ≠ .crash) :
    (World.apply cfg e w).worker = w.worker := by
  cases e with
  | create | loaded => exact (World.addOrder_private _ _ _).1
  | cancelled q via => cases via <;> rfl
  | crash => exact absurd rfl hc
  | _ => first | rfl | exact absurd rfl h

theorem apply_probing (h : owner e ≠ some .reconciler) (hc : e ≠ .crash) :
    (World.apply cfg e w).probing = w.probing ∧
      ∀ r < w.nextRef, ((World.apply cfg e w).heap r).notFoundObservations =
        (w.heap r).notFoundObservations := by
  cases e with
  | create | loaded =>
    obtain ⟨-, hp, hh⟩ := World.addOrder_private cfg _ _
    exact ⟨hp, fun r hr => congrArg _ (hh r hr)⟩
  | crash => exact absurd rfl hc
  | lookup | resolved => exact absurd rfl h
  | cancelled q via =>
    cases via <;> refine ⟨rfl, fun r hr => ?_⟩ <;> simp only [World.apply, World.modify_heap] <;>
      split <;> rfl
  | queued q | note q | modified q | related q | exhausted q | retried q | reconciling q
  | remote q | markSent q | unanswered q | answered q | requeued q | countRetry q | refused q =>
    refine ⟨rfl, fun r hr => ?_⟩
    simp only [World.apply, World.modify_heap]
    split <;> rfl
  | _ => exact ⟨rfl, fun _ _ => rfl⟩

theorem facts_ne_crash (hf : Facts cfg w e) : e ≠ .crash := by
  rintro rfl
  exact hf

theorem since_apply (hs : s.Inv) (hf : Facts cfg s e) (h : owner e ≠ some a) :
    Since a s (World.apply cfg e s) where
  inv := inv_apply hs hf
  stable := stable_apply hf
  worker := by
    rintro rfl
    exact apply_worker h (facts_ne_crash hf)
  probing := by
    rintro rfl
    exact apply_probing h (facts_ne_crash hf)

def contract (cfg : Settings) : Contract World Effect Tag where
  rely a s s' := s.Inv → Since a s s'
  guar a s e := Facts cfg s e ∧ ∀ b, owner e = some b → b = a
  idle a s := s.Inv ∧ (a = .worker → s.worker = .idle)

/-- `p`, run from `s` by a call tagged `a`, is within the contract and ends in `post`. -/
def Keeps (cfg : Settings) (a : Tag) {α : Type} (post : α → World → Prop) (p : M α)
    (s : World) : Prop :=
  p.Within (World.apply cfg) (fun i r w => (system cfg).ready i r w = true)
    ((contract cfg).rely a) ((contract cfg).guar a) post s

/-- The same, when `p` leaves alone what `a` counts on and `R` holds of its result. -/
def Gives (cfg : Settings) (a : Tag) {α : Type} (R : α → World → Prop) (p : M α)
    (s : World) : Prop :=
  Keeps cfg a (fun x t => Since a s t ∧ R x t) p s

/-- `Gives` with nothing said of the result. -/
def Calm (cfg : Settings) (a : Tag) {α : Type} (p : M α) (s : World) : Prop :=
  Gives cfg a (fun _ _ => True) p s

section Rules

variable {α β : Type} {p : M α} {f : α → M β} {R : α → World → Prop} {Q : β → World → Prop}

theorem Keeps.mono {post post' : α → World → Prop} (h : Keeps cfg a post p s)
    (hp : ∀ x t, post x t → post' x t) : Keeps cfg a post' p s :=
  Contract.Does.mono (K := contract cfg) (S := system cfg) h hp

theorem Keeps.of_look {post : β → World → Prop} {f : World → M β} (h : Keeps cfg a post (f s) s) :
    Keeps cfg a post (look >>= f) s :=
  Contract.Does.of_look (K := contract cfg) (S := system cfg) h

theorem Keeps.of_emit {post : β → World → Prop} {f : Unit → M β} (hf : Facts cfg s e)
    (ho : ∀ b, owner e = some b → b = a)
    (h : Keeps cfg a post (f ()) (World.apply cfg e s)) : Keeps cfg a post (emit e >>= f) s :=
  Contract.Does.of_emit (K := contract cfg) (S := system cfg) ⟨hf, ho⟩ h

theorem Keeps.of_wait {post : β → World → Prop} {i : Point} {f : Reply i → M β} (hs : s.Inv)
    (h : ∀ r t, Since a s t → Keeps cfg a post (f r) t) : Keeps cfg a post (wait i >>= f) s :=
  Contract.Does.of_wait (K := contract cfg) (S := system cfg) fun r t ht _ => h r t (ht hs)

theorem Keeps.bind {mid : α → World → Prop} {post : β → World → Prop} (hp : Keeps cfg a mid p s)
    (hf : ∀ x t, mid x t → Keeps cfg a post (f x) t) : Keeps cfg a post (p >>= f) s :=
  Contract.Does.bind (K := contract cfg) (S := system cfg) hp hf

theorem Gives.bind_keeps {post : β → World → Prop} (hp : Gives cfg a R p s)
    (hf : ∀ x t, Since a s t → R x t → Keeps cfg a post (f x) t) :
    Keeps cfg a post (p >>= f) s :=
  Keeps.bind hp fun x t ht => hf x t ht.1 ht.2

theorem Gives.bind (hp : Gives cfg a R p s)
    (hf : ∀ x t, Since a s t → R x t → Gives cfg a Q (f x) t) : Gives cfg a Q (p >>= f) s :=
  hp.bind_keeps fun x t ht hx => (hf x t ht hx).mono fun _ _ h => ⟨ht.trans h.1, h.2⟩

theorem Gives.pure {x : α} (hs : s.Inv) (hx : R x s) : Gives cfg a R (Pure.pure x) s :=
  ⟨.refl hs, hx⟩

theorem Gives.of_look {f : World → M β} (h : Gives cfg a Q (f s) s) :
    Gives cfg a Q (look >>= f) s := Keeps.of_look h

theorem Gives.of_wait {i : Point} {f : Reply i → M β} (hs : s.Inv)
    (h : ∀ r t, Since a s t → Gives cfg a Q (f r) t) : Gives cfg a Q (wait i >>= f) s :=
  Keeps.of_wait hs fun r t ht => (h r t ht).mono fun _ _ hx => ⟨ht.trans hx.1, hx.2⟩

theorem Gives.of_emit {f : Unit → M β} (hs : s.Inv) (hf : Facts cfg s e) (ho : owner e = none)
    (h : Since a s (World.apply cfg e s) → Gives cfg a Q (f ()) (World.apply cfg e s)) :
    Gives cfg a Q (emit e >>= f) s := by
  have hsince : Since a s (World.apply cfg e s) := since_apply hs hf (by simp [ho])
  refine Keeps.of_emit hf (by simp [ho]) ?_
  exact (h hsince).mono fun _ _ hx => ⟨hsince.trans hx.1, hx.2⟩

theorem Calm.emit (hs : s.Inv) (hf : Facts cfg s e) (ho : owner e = none) :
    Calm cfg a (emit e) s :=
  ⟨⟨hf, by simp [ho]⟩, since_apply hs hf (by simp [ho]), trivial⟩

theorem Calm.wait (hs : s.Inv) (i : Point) : Calm cfg a (wait i) s :=
  fun _ ht _ _ => ⟨ht hs, trivial⟩

theorem Calm.pure {x : α} (hs : s.Inv) : Calm cfg a (Pure.pure x) s := Gives.pure hs trivial

theorem Calm.bind (hp : Calm cfg a p s) (hf : ∀ x t, Since a s t → Gives cfg a Q (f x) t) :
    Gives cfg a Q (p >>= f) s :=
  Gives.bind hp fun x t ht _ => hf x t ht

theorem Calm.bind_keeps {post : β → World → Prop} (hp : Calm cfg a p s)
    (hf : ∀ x t, Since a s t → Keeps cfg a post (f x) t) : Keeps cfg a post (p >>= f) s :=
  Gives.bind_keeps hp fun x t ht _ => hf x t ht

theorem calm_forEach {γ : Type} {g : γ → M Unit} {xs : List γ} (hs : s.Inv)
    (h : ∀ x ∈ xs, ∀ t, Since a s t → Calm cfg a (g x) t) : Calm cfg a (forEach xs g) s := by
  induction xs generalizing s with
  | nil => exact .pure hs
  | cons x xs ih =>
    refine Calm.bind (h x List.mem_cons_self s (.refl hs)) fun _ t ht => ?_
    exact ih ht.inv fun y hy t' ht' => h y (List.mem_cons_of_mem _ hy) t' (ht.trans ht')

end Rules

end Trademetrix.Oms
