import Trademetrix.Oms.Legal

/-!
# Cancellations and sends

Which cancellations the order manager may make on its own, whatever the worker and
the reconcilers do beside them. `Sends` remembers, over every life of the process,
the orders that were sent and those cancelled without the broker.
-/

namespace Trademetrix.Oms

open Async

def CancelVia.isLocal : CancelVia → Bool
  | .confirmed _ => false
  | _ => true

structure Sends where
  posted : OrderId → Bool := fun _ => false
  cancelled : OrderId → Bool := fun _ => false

def noteSends (w : World) (e : Effect) (g : Sends) : Sends :=
  match e with
  | .post r => { g with posted := Function.update g.posted (w.heap r).omsOrderId true }
  | .cancelled r via =>
    if via.isLocal then
      { g with cancelled := Function.update g.cancelled (w.heap r).omsOrderId true }
    else g
  | _ => g

/-- An order cancelled without the broker was never sent, holds no broker id and is
in no state of a sent order; and it is not sent afterwards. -/
def CancelStep (x : World × Sends) : Effect → Prop
  | .cancelled r via =>
    via.isLocal = true →
      x.2.posted (x.1.heap r).omsOrderId = false ∧ (x.1.heap r).brokerOrderId = "" ∧
        (x.1.heap r).state ∉ [OMSOrderState.sent, .unknown, .reconciling]
  | .post r => x.2.cancelled (x.1.heap r).omsOrderId = false
  | _ => True

instance (x : World × Sends) (e : Effect) : Decidable (CancelStep x e) := by
  apply Effect.casesOn (motive := fun e => Decidable (CancelStep x e)) e <;> intros <;>
    (dsimp only [CancelStep]; infer_instance)

/-- What keeps cancellations clear of sends: an order is cancelled without the broker
only before it was ever sent, a cancelled one is not put back in the queue, and a row
loaded from the store knows of both. -/
def CancelsUnsent (x : World × Sends) : Effect → Prop
  | .cancelled r via => via.isLocal = true → (x.1.heap r).sentAt = none
  | .queued r | .retried r => x.2.cancelled (x.1.heap r).omsOrderId = false
  | .loaded row =>
    (∀ r < x.1.nextRef, (x.1.heap r).omsOrderId ≠ row.omsOrderId) ∧
      (x.2.posted row.omsOrderId = true → row.sentAt.isSome = true) ∧
      (x.2.cancelled row.omsOrderId = true → row.state ≠ .queued ∧ row.sentAt = none)
  | _ => True

instance (x : World × Sends) (e : Effect) : Decidable (CancelsUnsent x e) := by
  apply Effect.casesOn (motive := fun e => Decidable (CancelsUnsent x e)) e <;> intros <;>
    (dsimp only [CancelsUnsent]; infer_instance)

section Step

variable {cfg : Settings} {w : World} {g : Sends} {e : Effect}

/-- Objects of sent orders have a send time; those of cancelled orders have none and
are not in the queue. -/
structure Separate (x : World × Sends) : Prop where
  unique : Unique x.1
  posted : ∀ r < x.1.nextRef, x.2.posted (x.1.heap r).omsOrderId = true →
    (x.1.heap r).sentAt.isSome = true
  cancelled : ∀ r < x.1.nextRef, x.2.cancelled (x.1.heap r).omsOrderId = true →
    (x.1.heap r).state ≠ .queued ∧ (x.1.heap r).sentAt = none
  fresh : ∀ oid, x.1.nextOid ≤ oid → x.2.posted oid = false ∧ x.2.cancelled oid = false

theorem Separate.not_cancelled (h : Separate (w, g)) {r : Ref} (hr : Sent w r) :
    g.cancelled (w.heap r).omsOrderId = false := by
  by_contra hc
  have hnone := (h.cancelled r hr.1 (by simpa using hc)).2
  have hsome := hr.2
  rw [hnone] at hsome
  cases hsome

theorem cancelStep (hw : w.Inv) (hs : Step cfg w e) (h : Separate (w, g))
    (hc : CancelsUnsent (w, g) e) : CancelStep (w, g) e := by
  cases e with
  | post r =>
    have hsent : Sent w r := (hs.of_ne nofun).1
    exact h.not_cancelled hsent
  | cancelled r via =>
    intro hlocal
    have hr : r < w.nextRef := (hs.of_ne nofun).1
    have hnone : (w.heap r).sentAt = none := hc hlocal
    have hok := (hw.objects r hr).1
    refine ⟨?_, ?_, ?_⟩
    · by_contra hp
      have hsome := h.posted r hr (by simpa using hp)
      simp [hnone] at hsome
    · by_contra hb
      have hsome := hok (.inr hb)
      simp [hnone] at hsome
    · intro hst
      have hsome := hok (.inl hst)
      simp [hnone] at hsome
  | _ => trivial

theorem onOrder_cancelled {r : Ref} {f : OmniOrder → OmniOrder} (hw : w.Inv)
    (hs : Step cfg w e) (ho : e.onOrder cfg w = some (r, f)) (h : Separate (w, g))
    (hc : CancelsUnsent (w, g) e) (hcan : g.cancelled (w.heap r).omsOrderId = true) :
    (f (w.heap r)).state ≠ .queued ∧ (f (w.heap r)).sentAt = none := by
  have hf := hs.facts ho
  have hr : r < w.nextRef := (onOrder_ok ho hw hf).1
  obtain ⟨hst, hnone⟩ : (w.heap r).state ≠ .queued ∧ (w.heap r).sentAt = none :=
    h.cancelled r hr hcan
  have hunsent : ¬ Sent w r := by
    intro hsent
    have hfalse := h.not_cancelled hsent
    simp [hcan] at hfalse
  cases e with
  | cancelled q via =>
    cases via <;> cases ho <;> simp [OmniOrder.cancel, hnone]
  | queued q | retried q =>
    cases ho
    have hfalse : g.cancelled (w.heap r).omsOrderId = false := hc
    simp [hcan] at hfalse
  | note q | modified q | related q =>
    cases ho
    exact ⟨hst, hnone⟩
  | exhausted q =>
    cases ho
    simp [OmniOrder.exhausted, hnone]
  | markSent q =>
    cases ho
    exact absurd (StateMachine.canTransition_sent.mp hf.2.2) hst
  | reconciling q =>
    cases ho
    exact absurd hf hunsent
  | unanswered q | answered q | requeued q | countRetry q | refused q | resolved q =>
    cases ho
    exact absurd hf.1 hunsent
  | remote q entry target =>
    cases ho
    obtain ⟨-, -, -, hid, hne⟩ := hf
    have hsome := (hw.objects r hr).1 (.inr (hid ▸ hne))
    simp [hnone] at hsome
  | _ => cases ho

theorem newObject_separate {o : OmniOrder} (h : Separate (w, g)) (hc : CancelsUnsent (w, g) e)
    (hn : e.newObject cfg w = some o) :
    (g.posted o.omsOrderId = true → o.sentAt.isSome = true) ∧
      (g.cancelled o.omsOrderId = true → o.state ≠ .queued ∧ o.sentAt = none) := by
  cases e with
  | create req mr x =>
    cases hn
    have hfresh := h.fresh w.nextOid le_rfl
    simp only at hfresh
    constructor
    · intro hp
      simp [newOrder, hfresh.1] at hp
    · intro hcan
      simp [newOrder, hfresh.2] at hcan
  | loaded row =>
    cases hn
    exact hc.2
  | _ => cases hn

theorem separate_objects (hw : w.Inv) (hs : Step cfg w e) (h : Separate (w, g))
    (hc : CancelsUnsent (w, g) e) : Separate (World.apply cfg e w, g) := by
  have hnew : LoadsNew w e := by
    rintro row rfl
    exact hc.1
  refine ⟨unique_step hw hs hnew h.unique, ?_, ?_, ?_⟩
  · intro q hq hp
    simp only at hq hp ⊢
    rcases object_cases hs hq with ⟨hlt, heq⟩ | ⟨f, hlt, ho, heq⟩ | ⟨o, -, hn, heq⟩
    · rw [heq] at hp ⊢
      exact h.posted q hlt hp
    · rw [heq, (onOrder_keeps ho _).1] at hp
      rw [heq]
      exact (onOrder_keeps ho _).2 (h.posted q hlt hp)
    · rw [heq] at hp ⊢
      exact (newObject_separate h hc hn).1 hp
  · intro q hq hcan
    simp only at hq hcan ⊢
    rcases object_cases hs hq with ⟨hlt, heq⟩ | ⟨f, hlt, ho, heq⟩ | ⟨o, -, hn, heq⟩
    · rw [heq] at hcan ⊢
      exact h.cancelled q hlt hcan
    · rw [heq, (onOrder_keeps ho _).1] at hcan
      rw [heq]
      exact onOrder_cancelled hw hs ho h hc hcan
    · rw [heq] at hcan ⊢
      exact (newObject_separate h hc hn).2 hcan
  · intro oid hoid
    exact h.fresh oid ((nextOid_step hs).trans hoid)

theorem Separate.post (h : Separate (w, g)) {r : Ref} (hr : Sent w r)
    (hid : (w.heap r).omsOrderId < w.nextOid) :
    Separate (w, { g with posted := Function.update g.posted (w.heap r).omsOrderId true }) := by
  refine ⟨h.unique, ?_, h.cancelled, ?_⟩
  · intro q hq hp
    by_cases hqr : q = r
    · subst hqr
      exact hr.2
    · have hne : (w.heap q).omsOrderId ≠ (w.heap r).omsOrderId :=
        fun heq => hqr (h.unique q hq r hr.1 heq)
      simp only [Function.update_of_ne hne] at hp
      exact h.posted q hq hp
  · intro oid hoid
    have hne : oid ≠ (w.heap r).omsOrderId := (hid.trans_le hoid).ne'
    simp only [Function.update_of_ne hne]
    exact h.fresh oid hoid

theorem Separate.cancel (h : Separate (w, g)) {r : Ref} (hr : r < w.nextRef)
    (hst : (w.heap r).state ≠ .queued) (hnone : (w.heap r).sentAt = none)
    (hid : (w.heap r).omsOrderId < w.nextOid) :
    Separate
      (w, { g with cancelled := Function.update g.cancelled (w.heap r).omsOrderId true }) := by
  refine ⟨h.unique, h.posted, ?_, ?_⟩
  · intro q hq hcan
    by_cases hqr : q = r
    · subst hqr
      exact ⟨hst, hnone⟩
    · have hne : (w.heap q).omsOrderId ≠ (w.heap r).omsOrderId :=
        fun heq => hqr (h.unique q hq r hr heq)
      simp only [Function.update_of_ne hne] at hcan
      exact h.cancelled q hq hcan
  · intro oid hoid
    have hne : oid ≠ (w.heap r).omsOrderId := (hid.trans_le hoid).ne'
    simp only [Function.update_of_ne hne]
    exact h.fresh oid hoid

theorem separate_step (hw : w.Inv) (hs : Step cfg w e) (h : Separate (w, g))
    (hc : CancelsUnsent (w, g) e) :
    Separate (track (World.apply cfg) noteSends e (w, g)) := by
  have hobj := separate_objects hw hs h hc
  have hw' := inv_step hw hs
  cases e with
  | post r =>
    have hsent : Sent w r := (hs.of_ne nofun).1
    exact hobj.post hsent (hw'.objects r hsent.1).2
  | cancelled r via =>
    have hr : r < w.nextRef := (hs.of_ne nofun).1
    cases via with
    | confirmed message => exact hobj
    | dequeued | notRemoved | noBrokerId | sibling =>
      have hnone : (w.heap r).sentAt = none := hc rfl
      have hid := (hw'.objects r hr).2
      have hcan := hobj.cancel (r := r) hr (by simp [World.apply, OmniOrder.cancel])
        (by simp [World.apply, OmniOrder.cancel, hnone]) hid
      simpa [track, noteSends, CancelVia.isLocal, World.apply, OmniOrder.cancel] using hcan
  | _ => exact hobj

end Step

section Runs

variable {cfg : Settings}

/-- No run of the order manager cancels an order on its own that it sent before or
sends afterwards. -/
def CancelsSafely (cfg : Settings) (es : List Effect) : Prop :=
  Legal (track (World.apply cfg) noteSends) CancelStep (initial.state, {}) es

instance (es : List Effect) : Decidable (CancelsSafely cfg es) :=
  inferInstanceAs (Decidable (Legal _ _ _ _))

theorem cancels_safely {es : List Effect} {P : Pool World Effect Reply Tag} (h : Life cfg es P)
    (hc : Legal (track (World.apply cfg) noteSends) CancelsUnsent (initial.state, {}) es) :
    CancelsSafely cfg es := by
  have hlegal := ((legal_of_life h).1.track noteSends {}).and hc
  have hinit : Separate (initial.state, {}) :=
    ⟨fun q hq => absurd hq (Nat.not_lt_zero _), fun q hq => absurd hq (Nat.not_lt_zero _),
      fun q hq => absurd hq (Nat.not_lt_zero _), fun _ _ => ⟨rfl, rfl⟩⟩
  refine (hlegal.with_invariant (I := Separate) ?_ hinit).mono ?_
  · intro x e hx hg
    exact separate_step hg.1.1 hg.1.2 hx hg.2
  · intro x e hx
    exact cancelStep hx.2.1.1 hx.2.1.2 hx.1 hx.2.2

/-- Place `buyTen` and cancel it before the worker takes it. -/
theorem cancelQueued_cancels_safely :
    ∃ es P, Life bare es P ∧ (P.state.heap 0).state = .cancelled ∧ CancelsSafely bare es := by
  obtain ⟨es, P, hrun, hcan, hunsent⟩ := (system bare).exists_run initial
    (alone .start 6 {} ++ alone (.placeOrder buyTen none) 6 {} ++ alone (.cancelOrder 0) 11 {})
    (p := fun es P => (P.state.heap 0).state = .cancelled ∧
      Legal (track (World.apply bare) noteSends) CancelsUnsent (initial.state, {}) es)
    (by decide)
  exact ⟨es, P, hrun.life, hcan, cancels_safely hrun.life hunsent⟩

/-- An order whose send was never answered has no broker id, and a cancellation of it
asks nobody. -/
theorem cancelUnknown_not_safely : ∃ es P, Life bare es P ∧ ¬ CancelsSafely bare es := by
  obtain ⟨es, P, hrun, hbad⟩ := (system bare).exists_run initial
    (alone .start 6 {} ++ alone (.placeOrder buyTen none) 6 {} ++
      alone .processQueue 7 { placed := some { indeterminate := true } } ++
      alone (.cancelOrder 0) 6 {})
    (p := fun es _ => ¬ CancelsSafely bare es)
    (by decide)
  exact ⟨es, P, hrun.life, hbad⟩

end Runs

end Trademetrix.Oms
