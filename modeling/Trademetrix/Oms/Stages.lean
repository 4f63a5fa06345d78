import Trademetrix.Oms.Legal

/-!
# One order, one effect

Which order an effect is about, where the worker is with it, and the frame: an
effect about another order changes neither.
-/

namespace Trademetrix.Oms

open Async

inductive Stage
  | off | preparing | sending | counting
  deriving DecidableEq

def WorkerAt.ref : WorkerAt → Option Ref
  | .idle => none
  | .preparing r | .sending r | .counting r => some r

/-- Where the worker is with order `oid`. -/
def stageOf (w : World) (oid : OrderId) : Stage :=
  match w.worker with
  | .idle => .off
  | .preparing r => if (w.heap r).omsOrderId = oid then .preparing else .off
  | .sending r => if (w.heap r).omsOrderId = oid then .sending else .off
  | .counting r => if (w.heap r).omsOrderId = oid then .counting else .off

def Effect.stage (st : Stage) : Effect → Stage
  | .markSent _ => .preparing
  | .post _ => .sending
  | .requeued _ => .counting
  | .abandoned _ | .unanswered _ _ | .answered _ _ | .countRetry _ _ | .refused _ _ => .off
  | _ => st

def Effect.subject (cfg : Settings) (w : World) : Effect → Option Ref
  | .post r | .abandoned r => some r
  | e => (e.onOrder cfg w).map Prod.fst

def Busy (w : World) : Prop := ∀ r, w.worker.ref = some r → r < w.nextRef

variable {cfg : Settings} {w : World} {e : Effect} {r : Ref} {oid : OrderId}

theorem stageOf_idle (h : w.worker = .idle) : stageOf w oid = .off := by
  simp [stageOf, h]

theorem sending_stage (h : w.worker = .sending r) :
    stageOf w (w.heap r).omsOrderId = .sending := by
  simp [stageOf, h]

theorem subject_of_onOrder {f : OmniOrder → OmniOrder} (h : e.onOrder cfg w = some (r, f)) :
    e.subject cfg w = some r := by
  cases e with
  | cancelled q via => cases via <;> cases h <;> rfl
  | post | abandoned => cases h
  | _ => simp [Effect.subject, h]

theorem subject_lt (hw : w.Inv) (hf : Facts cfg w e) (h : e.subject cfg w = some r) :
    r < w.nextRef := by
  cases ho : e.onOrder cfg w with
  | some rf =>
    obtain ⟨q, f⟩ := rf
    rw [subject_of_onOrder ho] at h
    cases h
    exact (onOrder_ok ho hw hf).1
  | none =>
    cases e with
    | post q | abandoned q =>
      cases h
      exact hf.1.1
    | _ => simp [Effect.subject, ho] at h

theorem nextRef_of_subject (hf : Facts cfg w e) (h : e.subject cfg w = some r) :
    (World.apply cfg e w).nextRef = w.nextRef := by
  cases ho : e.onOrder cfg w with
  | some rf =>
    obtain ⟨q, f⟩ := rf
    obtain ⟨worker, probing, heq⟩ := apply_onOrder ho
    rw [heq]
    rfl
  | none =>
    have hnew : e.newObject cfg w = none := by
      cases e <;> first | rfl | cases h
    exact (apply_heap ho hnew (facts_ne_crash hf)).2

theorem heap_of_subject (hf : Facts cfg w e) {q : Ref} (hq : q < w.nextRef)
    (h : e.subject cfg w ≠ some q) : (World.apply cfg e w).heap q = w.heap q := by
  have hlt : q < (World.apply cfg e w).nextRef := hq.trans_le (stable_apply hf).refs
  rcases object_cases (.inl hf) hlt with ⟨-, heq⟩ | ⟨f, -, ho, -⟩ | ⟨o, rfl, -, -⟩
  · exact heq
  · exact absurd (subject_of_onOrder ho) h
  · exact absurd hq (lt_irrefl _)

theorem busy_step (hs : Step cfg w e) (h : Busy w) : Busy (World.apply cfg e w) := by
  intro r hr
  rcases hs with hf | rfl
  · have hrefs := (stable_apply hf).refs
    by_cases ho : owner e = some .worker
    · cases e with
      | markSent q =>
        cases hr
        exact hf.1
      | post q | requeued q =>
        cases hr
        exact hf.1.1
      | abandoned q | unanswered q | answered q | countRetry q | refused q => cases hr
      | _ => cases ho
    · rw [apply_worker ho (facts_ne_crash hf)] at hr
      exact (h r hr).trans_le hrefs
  · cases hr

theorem stage_of_subject (hf : Facts cfg w e) (h : e.subject cfg w = some r) :
    stageOf (World.apply cfg e w) (w.heap r).omsOrderId =
      e.stage (stageOf w (w.heap r).omsOrderId) := by
  by_cases hown : owner e = some .worker
  · cases e with
    | markSent q | post q | requeued q =>
      cases h
      simp [stageOf, World.apply, Effect.stage, OmniOrder.markSent, OmniOrder.requeued]
    | abandoned q | unanswered q | answered q | countRetry q | refused q =>
      exact stageOf_idle rfl
    | _ => cases hown
  · have hworker : (World.apply cfg e w).worker = w.worker :=
      apply_worker hown (facts_ne_crash hf)
    have hid : ∀ q, ((World.apply cfg e w).heap q).omsOrderId = (w.heap q).omsOrderId := by
      cases ho : e.onOrder cfg w with
      | some rf =>
        obtain ⟨q, f⟩ := rf
        obtain ⟨worker, probing, heq⟩ := apply_onOrder ho
        rw [heq]
        exact World.modify_id fun o => (onOrder_keeps ho o).1
      | none =>
        cases e with
        | post | abandoned => exact absurd rfl hown
        | _ => simp [Effect.subject, ho] at h
    have hstage : e.stage (stageOf w (w.heap r).omsOrderId) = stageOf w (w.heap r).omsOrderId := by
      cases e <;> first | rfl | exact absurd rfl hown
    rw [hstage]
    simp only [stageOf, hworker, hid]

theorem stage_of_other (hf : Facts cfg w e) (hb : Busy w)
    (h : ∀ r, e.subject cfg w = some r → (w.heap r).omsOrderId ≠ oid) :
    stageOf (World.apply cfg e w) oid = stageOf w oid := by
  have hid : ∀ r < w.nextRef,
      ((World.apply cfg e w).heap r).omsOrderId = (w.heap r).omsOrderId :=
    (stable_apply hf).same
  by_cases hown : owner e = some .worker
  · cases e with
    | markSent q =>
      have hq := h q rfl
      rw [stageOf_idle hf.2.1]
      simp [stageOf, World.apply, OmniOrder.markSent, hq]
    | post q =>
      have hq := h q rfl
      simp [stageOf, World.apply, hf.2, hq]
    | abandoned q =>
      have hq := h q rfl
      simp [stageOf, World.apply, hf.2, hq]
    | unanswered q res | answered q res | refused q res =>
      have hq := h q rfl
      simp [stageOf, World.apply, hf.2, hq]
    | requeued q =>
      have hq := h q rfl
      simp [stageOf, World.apply, hf.2.1, hq, OmniOrder.requeued]
    | countRetry q res =>
      have hq := h q rfl
      simp [stageOf, World.apply, hf.2, hq]
    | _ => cases hown
  · have hworker : (World.apply cfg e w).worker = w.worker :=
      apply_worker hown (facts_ne_crash hf)
    unfold stageOf
    rw [hworker]
    cases hw : w.worker with
    | idle => rfl
    | preparing q | sending q | counting q => simp only [hid q (hb q (by rw [hw]; rfl))]

end Trademetrix.Oms
