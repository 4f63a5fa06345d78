import Trademetrix.Oms.World
import Trademetrix.Oms.Manager

/-!
# What each effect finds and keeps

The invariant of the shared state, the facts the text makes true of an effect when
it is carried out, and the step lemmas: what one effect keeps, in any state.
-/

namespace Trademetrix.Oms

open Async
open Execution (ExecutionRequest ExecutionResult)

section Invariant

def OmniOrder.Ok (o : OmniOrder) : Prop :=
  o.state ∈ [OMSOrderState.sent, .unknown, .reconciling] ∨ o.brokerOrderId ≠ "" →
    o.sentAt.isSome = true

theorem OmniOrder.Ok.of_sentAt {o : OmniOrder} (h : o.sentAt.isSome = true) : o.Ok := fun _ => h

theorem OmniOrder.Ok.of_eq {o o' : OmniOrder} (h : o.Ok) (hs : o'.sentAt = o.sentAt)
    (hb : o'.brokerOrderId = o.brokerOrderId)
    (hst : o'.state ∈ [OMSOrderState.sent, .unknown, .reconciling] → o'.state = o.state) :
    o'.Ok := by
  intro ho
  rw [hs]
  refine h (ho.imp (fun hm => ?_) fun hne => hb ▸ hne)
  rwa [← hst hm]

structure World.Inv (w : World) : Prop where
  orders : ∀ p ∈ w.orders, p.2 < w.nextRef ∧ (w.heap p.2).omsOrderId = p.1
  completed : ∀ p ∈ w.completed, p.2 < w.nextRef ∧ (w.heap p.2).omsOrderId = p.1
  unstored : ∀ r ∈ w.unstored, r < w.nextRef
  objects : ∀ r < w.nextRef, (w.heap r).Ok ∧ (w.heap r).omsOrderId < w.nextOid
  rows : ∀ p ∈ w.rows, p.2.omsOrderId = p.1 ∧ p.2.Ok ∧ p.1 < w.nextOid
  keys : (w.rows.map Prod.fst).Nodup

structure Stable (s s' : World) : Prop where
  refs : s.nextRef ≤ s'.nextRef
  oids : s.nextOid ≤ s'.nextOid
  same : ∀ r < s.nextRef, (s'.heap r).omsOrderId = (s.heap r).omsOrderId
  sent : ∀ r < s.nextRef, (s.heap r).sentAt.isSome = true → (s'.heap r).sentAt.isSome = true

theorem Stable.refl (s : World) : Stable s s :=
  ⟨le_rfl, le_rfl, fun _ _ => rfl, fun _ _ h => h⟩

theorem Stable.trans {s t u : World} (h : Stable s t) (h' : Stable t u) : Stable s u where
  refs := h.refs.trans h'.refs
  oids := h.oids.trans h'.oids
  same r hr := (h'.same r (hr.trans_le h.refs)).trans (h.same r hr)
  sent r hr hs := h'.sent r (hr.trans_le h.refs) (h.sent r hr hs)

namespace World

@[simp] theorem modify_heap_self (w : World) (r : Ref) (f : OmniOrder → OmniOrder) :
    (w.modify r f).heap r = f (w.heap r) := by simp [modify]

theorem modify_heap_ne (w : World) {r q : Ref} (f : OmniOrder → OmniOrder) (h : q ≠ r) :
    (w.modify r f).heap q = w.heap q := by simp [modify, h]

theorem modify_heap (w : World) (r q : Ref) (f : OmniOrder → OmniOrder) :
    (w.modify r f).heap q = if q = r then f (w.heap q) else w.heap q := rfl

theorem modify_id {w : World} {r : Ref} {f : OmniOrder → OmniOrder}
    (hid : ∀ o, (f o).omsOrderId = o.omsOrderId) (q : Ref) :
    ((w.modify r f).heap q).omsOrderId = (w.heap q).omsOrderId := by
  rw [modify_heap]
  split
  · exact hid _
  · rfl

theorem Inv.modify {w : World} (h : w.Inv) {r : Ref} {f : OmniOrder → OmniOrder}
    (hid : ∀ o, (f o).omsOrderId = o.omsOrderId)
    (hok : r < w.nextRef → (w.heap r).Ok → (f (w.heap r)).Ok) : (w.modify r f).Inv where
  orders p hp := ⟨(h.orders p hp).1, (modify_id hid p.2).trans (h.orders p hp).2⟩
  completed p hp := ⟨(h.completed p hp).1, (modify_id hid p.2).trans (h.completed p hp).2⟩
  unstored := h.unstored
  objects q hq := by
    refine ⟨?_, (modify_id hid q).trans_lt (h.objects q hq).2⟩
    rw [modify_heap]
    split
    · next heq =>
      subst heq
      exact hok hq (h.objects q hq).1
    · exact (h.objects q hq).1
  rows := h.rows
  keys := h.keys

theorem stable_modify (w : World) {r : Ref} {f : OmniOrder → OmniOrder}
    (hid : ∀ o, (f o).omsOrderId = o.omsOrderId)
    (hsent : ∀ o, o.sentAt.isSome = true → (f o).sentAt.isSome = true) :
    Stable w (w.modify r f) where
  refs := le_rfl
  oids := le_rfl
  same q _ := modify_id hid q
  sent q _ hq := by
    rw [modify_heap]
    split
    · exact hsent _ hq
    · exact hq

theorem evict_orders_sub (w : World) {p : OrderId × Ref} (hp : p ∈ w.evictOldestTerminalOrder.orders) :
    p ∈ w.orders := by
  unfold evictOldestTerminalOrder at hp
  split at hp
  · exact Dict.mem_pop hp
  · exact hp

theorem evict_fields (w : World) : ∃ os, w.evictOldestTerminalOrder = { w with orders := os } := by
  unfold evictOldestTerminalOrder
  split
  · exact ⟨_, rfl⟩
  · exact ⟨w.orders, rfl⟩

theorem addOrder_eq (cfg : Settings) (w : World) (o : OmniOrder) :
    ∃ os, w.addOrder cfg o =
        { w with
          heap := fun q => if q = w.nextRef then o else w.heap q
          nextRef := w.nextRef + 1
          orders := os } ∧
      ∀ p ∈ os, p = (o.omsOrderId, w.nextRef) ∨ p ∈ w.orders := by
  have hmem : ∀ p ∈ w.orders.pop o.omsOrderId ++ [(o.omsOrderId, w.nextRef)],
      p = (o.omsOrderId, w.nextRef) ∨ p ∈ w.orders := by
    intro p hp
    rcases List.mem_append.mp hp with hp | hp
    · exact .inr (Dict.mem_pop hp)
    · exact .inl (List.mem_singleton.mp hp)
  unfold addOrder
  simp only
  split
  · have hsub := fun p => evict_orders_sub (p := p)
      { w with
        heap := fun q => if q = w.nextRef then o else w.heap q
        nextRef := w.nextRef + 1
        orders := w.orders.pop o.omsOrderId ++ [(o.omsOrderId, w.nextRef)] }
    obtain ⟨os, hos⟩ := evict_fields
      { w with
        heap := fun q => if q = w.nextRef then o else w.heap q
        nextRef := w.nextRef + 1
        orders := w.orders.pop o.omsOrderId ++ [(o.omsOrderId, w.nextRef)] }
    rw [hos] at hsub ⊢
    exact ⟨os, rfl, fun p hp => hmem p (hsub p hp)⟩
  · exact ⟨_, rfl, hmem⟩

theorem Inv.addOrder {cfg : Settings} {w : World} (h : w.Inv) {o : OmniOrder} (ho : o.Ok)
    (hid : o.omsOrderId < w.nextOid) : (w.addOrder cfg o).Inv := by
  obtain ⟨os, heq, hos⟩ := addOrder_eq cfg w o
  have hold : ∀ r < w.nextRef, (if r = w.nextRef then o else w.heap r) = w.heap r :=
    fun r hr => if_neg hr.ne
  rw [heq]
  refine ⟨?_, ?_, ?_, ?_, h.rows, h.keys⟩
  · intro p hp
    rcases hos p hp with rfl | hp
    · exact ⟨Nat.lt_succ_self _, by simp⟩
    · obtain ⟨hlt, hidp⟩ := h.orders p hp
      exact ⟨hlt.trans (Nat.lt_succ_self _), by simpa only [hold _ hlt] using hidp⟩
  · intro p hp
    obtain ⟨hlt, hidp⟩ := h.completed p hp
    exact ⟨hlt.trans (Nat.lt_succ_self _), by simpa only [hold _ hlt] using hidp⟩
  · exact fun r hr => (h.unstored r hr).trans (Nat.lt_succ_self _)
  · intro r hr
    rcases Nat.lt_succ_iff_lt_or_eq.mp hr with hr | rfl
    · simpa only [hold r hr] using h.objects r hr
    · simpa using ⟨ho, hid⟩

theorem stable_addOrder (cfg : Settings) (w : World) (o : OmniOrder) :
    Stable w (w.addOrder cfg o) := by
  obtain ⟨os, heq, -⟩ := addOrder_eq cfg w o
  rw [heq]
  exact ⟨Nat.le_succ _, le_rfl, fun r hr => by simp [hr.ne], fun r hr h => by simpa [hr.ne] using h⟩

end World

end Invariant

section Facts

def Sent (w : World) (r : Ref) : Prop := r < w.nextRef ∧ (w.heap r).sentAt.isSome = true

def CancelFacts (o : OmniOrder) : CancelVia → Prop
  | .dequeued | .confirmed _ => True
  | .notRemoved => o.brokerOrderId = ""
  | .noBrokerId =>
    o.brokerOrderId = "" ∧ o.state ≠ .queued ∧
      StateMachine.canTransition o.state .cancelled = true
  | .sibling => StateMachine.canTransition o.state .cancelled = true

def Facts (cfg : Settings) (w : World) : Effect → Prop
  | .crash => False
  | .queued r | .note r _ | .modified r _ | .related r _ _ | .exhausted r | .retried r
  | .recorded r => r < w.nextRef
  | .stored r => r ∈ w.unstored
  | .cancelled r via => r < w.nextRef ∧ CancelFacts (w.heap r) via
  | .loaded row | .upsert row => row.Ok ∧ row.omsOrderId < w.nextOid
  | .markSent r =>
    r < w.nextRef ∧ w.worker = .idle ∧
      StateMachine.canTransition (w.heap r).state .sent = true
  | .post r => Sent w r ∧ w.worker = .preparing r
  | .abandoned r | .unanswered r _ | .answered r _ | .refused r _ =>
    Sent w r ∧ w.worker = .sending r
  | .requeued r => Sent w r ∧ w.worker = .sending r ∧ (w.heap r).retryCount < (w.heap r).maxRetries
  | .countRetry r _ => Sent w r ∧ w.worker = .counting r
  | .reconciling r => Sent w r
  | .lookup r args => Sent w r ∧ args = reconcileArgs cfg (w.heap r)
  | .resolved r args _ =>
    Sent w r ∧ w.probing = some (r, args) ∧
      args.notFoundObservations = (w.heap r).notFoundObservations
  | .remote r remote target =>
    r < w.nextRef ∧ StateMachine.canTransition (w.heap r).state target = true ∧
      OmniOrder.remoteTarget remote.status = some target ∧
      remote.brokerOrderId = (w.heap r).brokerOrderId ∧ remote.brokerOrderId ≠ ""
  | .reported r found verdict =>
    r < w.nextRef ∧ verdict.failing = !Engine.succeeds found.state
  | _ => True

theorem newOrder_ok (sha256 : String → String) (oid : OrderId) (req : ExecutionRequest)
    (maxRetries : Option ℤ) : (newOrder sha256 oid req maxRetries).Ok := by
  intro h
  simp [newOrder] at h

theorem World.Inv.mint {w : World} (h : w.Inv) : { w with nextOid := w.nextOid + 1 }.Inv where
  orders := h.orders
  completed := h.completed
  unstored := h.unstored
  objects r hr := ⟨(h.objects r hr).1, (h.objects r hr).2.trans (Nat.lt_succ_self _)⟩
  rows p hp :=
    ⟨(h.rows p hp).1, (h.rows p hp).2.1, (h.rows p hp).2.2.trans (Nat.lt_succ_self _)⟩
  keys := h.keys

theorem OmniOrder.resolve_eq (out : ReconcileOutcome) (o : OmniOrder) :
    (o.resolve out).omsOrderId = o.omsOrderId ∧ (o.resolve out).sentAt = o.sentAt := by
  unfold resolve
  split <;> exact ⟨rfl, rfl⟩

theorem resolve_quantity (out : ReconcileOutcome) (o : OmniOrder) :
    (o.resolve out).quantity = o.quantity := by
  unfold OmniOrder.resolve
  split <;> rfl

theorem OmniOrder.resolve_queued {out : ReconcileOutcome} (o : OmniOrder)
    (hfound : out.verdict = .accepted → out.found.isSome = true) :
    (out.verdict = .notFound ∧ (o.resolve out).retryCount = o.retryCount + 1) ∨
      ((o.resolve out).state ≠ .queued ∧ (o.resolve out).retryCount = o.retryCount) := by
  unfold resolve
  split
  · exact .inr ⟨by simp, rfl⟩
  · next hv hf =>
    have hsome := hfound hv
    rw [hf] at hsome
    cases hsome
  · exact .inr ⟨by simp, rfl⟩
  · exact .inr ⟨by simp, rfl⟩
  · next hv => exact .inl ⟨hv, rfl⟩
  · exact .inr ⟨by simp, rfl⟩

def Effect.onOrder (cfg : Settings) (w : World) : Effect → Option (Ref × (OmniOrder → OmniOrder))
  | .queued r => some (r, fun o => { o with state := .queued })
  | .note r message => some (r, fun o => { o with message := message })
  | .cancelled r (.confirmed message) => some (r, fun o => { o.cancel with message := message })
  | .cancelled r _ => some (r, OmniOrder.cancel)
  | .modified r changes => some (r, OmniOrder.modify changes)
  | .related r relation sibling =>
    some (r, fun o =>
      { o with relationType := relation, siblingOrderId := sibling.or o.siblingOrderId })
  | .exhausted r => some (r, OmniOrder.exhausted)
  | .retried r => some (r, OmniOrder.retried)
  | .markSent r => some (r, OmniOrder.markSent w.now)
  | .unanswered r res => some (r, OmniOrder.unanswered res)
  | .answered r res => some (r, OmniOrder.answered res)
  | .requeued r => some (r, OmniOrder.requeued)
  | .countRetry r res => some (r, OmniOrder.countRetry res)
  | .refused r res => some (r, OmniOrder.refused res)
  | .reconciling r => some (r, OmniOrder.reconciling)
  | .resolved r args lookups =>
    some (r, OmniOrder.resolve (reconcile cfg.fromisoformat cfg.obs args lookups w.now))
  | .remote r entry target => some (r, OmniOrder.applyRemote entry target)
  | _ => none

def Effect.newObject (cfg : Settings) (w : World) : Effect → Option OmniOrder
  | .create req maxRetries _ => some (newOrder cfg.sha256 w.nextOid req maxRetries)
  | .loaded row => some row
  | _ => none

variable {cfg : Settings} {w : World} {e : Effect}

theorem apply_onOrder {r : Ref} {f : OmniOrder → OmniOrder} (h : e.onOrder cfg w = some (r, f)) :
    ∃ worker probing, World.apply cfg e w =
      { w.modify r f with worker := worker, probing := probing } := by
  cases e with
  | cancelled q via => cases via <;> cases h <;> exact ⟨_, _, rfl⟩
  | _ => cases h <;> exact ⟨_, _, rfl⟩

theorem onOrder_keeps {r : Ref} {f : OmniOrder → OmniOrder} (h : e.onOrder cfg w = some (r, f))
    (o : OmniOrder) :
    (f o).omsOrderId = o.omsOrderId ∧ (o.sentAt.isSome = true → (f o).sentAt.isSome = true) := by
  cases e with
  | cancelled q via => cases via <;> cases h <;> exact ⟨rfl, id⟩
  | markSent q =>
    cases h
    exact ⟨rfl, fun _ => rfl⟩
  | resolved q args lookups =>
    cases h
    have heq := OmniOrder.resolve_eq (reconcile cfg.fromisoformat cfg.obs args lookups w.now) o
    exact ⟨heq.1, fun hs => heq.2 ▸ hs⟩
  | _ => cases h <;> exact ⟨rfl, id⟩

theorem onOrder_ok {r : Ref} {f : OmniOrder → OmniOrder} (h : e.onOrder cfg w = some (r, f))
    (hw : w.Inv) (hf : Facts cfg w e) : r < w.nextRef ∧ (f (w.heap r)).Ok := by
  have hsent : ∀ {q}, Sent w q → e.onOrder cfg w = some (q, f) → (f (w.heap q)).Ok :=
    fun hq hqf => .of_sentAt ((onOrder_keeps hqf _).2 hq.2)
  cases e with
  | cancelled q via =>
    cases via <;> cases h <;>
      exact ⟨hf.1, (hw.objects _ hf.1).1.of_eq rfl rfl (by simp [OmniOrder.cancel])⟩
  | queued q | exhausted q | retried q =>
    cases h
    exact ⟨hf, (hw.objects _ hf).1.of_eq rfl rfl (by simp [OmniOrder.exhausted, OmniOrder.retried])⟩
  | note q | modified q | related q =>
    cases h
    exact ⟨hf, (hw.objects _ hf).1.of_eq rfl rfl fun _ => rfl⟩
  | markSent q =>
    cases h
    exact ⟨hf.1, .of_sentAt rfl⟩
  | unanswered q | answered q | refused q | requeued q | countRetry q | resolved q =>
    have hq : q = r := by
      cases h
      rfl
    subst hq
    exact ⟨hf.1.1, hsent hf.1 h⟩
  | reconciling q =>
    have hq : q = r := by
      cases h
      rfl
    subst hq
    exact ⟨hf.1, hsent hf h⟩
  | remote q entry target =>
    cases h
    obtain ⟨hlt, -, -, hid, hne⟩ := hf
    exact ⟨hlt, .of_sentAt ((hw.objects _ hlt).1 (.inr (hid ▸ hne)))⟩
  | _ => cases h

theorem apply_newObject {o : OmniOrder} (h : e.newObject cfg w = some o) :
    ∃ k, w.nextOid ≤ k ∧ World.apply cfg e w = { w with nextOid := k }.addOrder cfg o := by
  cases e with
  | create req mr x =>
    cases h
    exact ⟨w.nextOid + 1, Nat.le_succ _, rfl⟩
  | loaded row =>
    cases h
    exact ⟨w.nextOid, le_rfl, rfl⟩
  | _ => cases h

theorem create_object (req : ExecutionRequest) (mr : Option ℤ) (x : Option OrderId) :
    (World.apply cfg (.create req mr x) w).heap w.nextRef =
      newOrder cfg.sha256 w.nextOid req mr := by
  obtain ⟨os, heq, -⟩ := World.addOrder_eq cfg { w with nextOid := w.nextOid + 1 }
    (newOrder cfg.sha256 w.nextOid req mr)
  simp only [World.apply, heq, if_true]

theorem apply_heap (h : e.onOrder cfg w = none) (h' : e.newObject cfg w = none)
    (hc : e ≠ .crash) :
    (World.apply cfg e w).heap = w.heap ∧ (World.apply cfg e w).nextRef = w.nextRef := by
  cases e with
  | cancelled q via => cases via <;> cases h
  | crash => exact absurd rfl hc
  | create | loaded => cases h'
  | _ => first | exact ⟨rfl, rfl⟩ | cases h

theorem World.Inv.recordTerminal (h : w.Inv) {r : Ref} (hr : r < w.nextRef) :
    (w.recordTerminal r).Inv where
  orders := h.orders
  completed p hp := by
    have hset : p ∈ w.completed.set (w.heap r).omsOrderId r := by
      simp only [World.recordTerminal] at hp
      split at hp
      · exact List.mem_of_mem_tail hp
      · exact hp
    rcases Dict.mem_set hset with rfl | hp
    · exact ⟨hr, rfl⟩
    · exact h.completed p hp
  unstored q hq := by
    rcases List.mem_append.mp hq with hq | hq
    · exact h.unstored q hq
    · rwa [List.mem_singleton.mp hq]
  objects := h.objects
  rows := h.rows
  keys := h.keys

theorem inv_apply (hw : w.Inv) (hf : Facts cfg w e) : (World.apply cfg e w).Inv := by
  cases ho : e.onOrder cfg w with
  | some rf =>
    obtain ⟨r, f⟩ := rf
    obtain ⟨worker, probing, heq⟩ := apply_onOrder ho
    have hmod := hw.modify (r := r) (fun o => (onOrder_keeps ho o).1)
      fun _ _ => (onOrder_ok ho hw hf).2
    rw [heq]
    exact ⟨hmod.orders, hmod.completed, hmod.unstored, hmod.objects, hmod.rows, hmod.keys⟩
  | none =>
    cases e with
    | create req mr x => exact hw.mint.addOrder (newOrder_ok _ _ _ _) (Nat.lt_succ_self _)
    | loaded row => exact hw.addOrder hf.1 hf.2
    | crash => exact hf.elim
    | dropped oid =>
      exact ⟨fun p hp => hw.orders p (Dict.mem_pop hp), hw.completed, hw.unstored, hw.objects,
        hw.rows, hw.keys⟩
    | recorded r => exact hw.recordTerminal hf
    | stored r =>
      exact ⟨hw.orders, hw.completed, fun q hq => hw.unstored q (List.mem_of_mem_erase hq),
        hw.objects, hw.rows, hw.keys⟩
    | bracketed _ | ocoLinked _ =>
      have hm := hw.mint
      exact ⟨hm.orders, hm.completed, hm.unstored, hm.objects, hm.rows, hm.keys⟩
    | upsert row =>
      refine ⟨hw.orders, hw.completed, hw.unstored, hw.objects, fun p hp => ?_,
        Dict.nodup_keys_set hw.keys _ _⟩
      rcases Dict.mem_set hp with rfl | hp
      · exact ⟨rfl, hf.1, hf.2⟩
      · exact hw.rows p hp
    | delete oid =>
      exact ⟨hw.orders, hw.completed, hw.unstored, hw.objects,
        fun p hp => hw.rows p (Dict.mem_pop hp), hw.keys.sublist (List.filter_sublist.map _)⟩
    | cancelled q via => cases via <;> cases ho
    | _ =>
      first
      | cases ho; done
      | exact ⟨hw.orders, hw.completed, hw.unstored, hw.objects, hw.rows, hw.keys⟩

theorem stable_apply (hf : Facts cfg w e) : Stable w (World.apply cfg e w) := by
  cases ho : e.onOrder cfg w with
  | some rf =>
    obtain ⟨r, f⟩ := rf
    obtain ⟨worker, probing, heq⟩ := apply_onOrder ho
    have hmod := World.stable_modify w (r := r) (fun o => (onOrder_keeps ho o).1)
      fun o => (onOrder_keeps ho o).2
    rw [heq]
    exact ⟨hmod.refs, hmod.oids, hmod.same, hmod.sent⟩
  | none =>
    cases e with
    | create req mr x =>
      have hst := World.stable_addOrder cfg { w with nextOid := w.nextOid + 1 }
        (newOrder cfg.sha256 w.nextOid req mr)
      exact ⟨hst.refs, (Nat.le_succ _).trans hst.oids, hst.same, hst.sent⟩
    | loaded row => exact World.stable_addOrder cfg w row
    | crash => exact hf.elim
    | bracketed _ | ocoLinked _ =>
      exact ⟨le_rfl, Nat.le_succ _, fun _ _ => rfl, fun _ _ h => h⟩
    | cancelled q via => cases via <;> cases ho
    | _ =>
      first
      | cases ho; done
      | exact ⟨le_rfl, le_rfl, fun _ _ => rfl, fun _ _ h => h⟩

def Step (cfg : Settings) (w : World) (e : Effect) : Prop := Facts cfg w e ∨ e = .crash

theorem World.Inv.crash (h : w.Inv) : w.crash.Inv where
  orders _ hp := absurd hp List.not_mem_nil
  completed _ hp := absurd hp List.not_mem_nil
  unstored _ hp := absurd hp List.not_mem_nil
  objects _ hr := absurd hr (Nat.not_lt_zero _)
  rows := h.rows
  keys := h.keys

theorem inv_step (hw : w.Inv) (h : Step cfg w e) : (World.apply cfg e w).Inv := by
  rcases h with h | rfl
  · exact inv_apply hw h
  · exact hw.crash

theorem Step.facts {rf : Ref × (OmniOrder → OmniOrder)} (h : Step cfg w e)
    (ho : e.onOrder cfg w = some rf) : Facts cfg w e := by
  rcases h with hf | rfl
  · exact hf
  · cases ho

theorem Step.of_ne (h : Step cfg w e) (hc : e ≠ .crash) : Facts cfg w e :=
  h.resolve_right hc

def Unique (w : World) : Prop :=
  ∀ q < w.nextRef, ∀ r < w.nextRef, (w.heap q).omsOrderId = (w.heap r).omsOrderId → q = r

def LoadsNew (w : World) (e : Effect) : Prop :=
  ∀ row, e = .loaded row → ∀ r < w.nextRef, (w.heap r).omsOrderId ≠ row.omsOrderId

theorem loadsNew_of_ne (h : ∀ row, e ≠ .loaded row) : LoadsNew w e :=
  fun row hrow => absurd hrow (h row)

theorem newObject_new {o : OmniOrder} (hw : w.Inv) (hl : LoadsNew w e)
    (h : e.newObject cfg w = some o) (r : Ref) (hr : r < w.nextRef) :
    (w.heap r).omsOrderId ≠ o.omsOrderId := by
  cases e with
  | create req mr x =>
    cases h
    exact (hw.objects r hr).2.ne
  | loaded row =>
    cases h
    exact hl _ rfl r hr
  | _ => cases h

theorem object_cases (hs : Step cfg w e) {q : Ref} (hq : q < (World.apply cfg e w).nextRef) :
    (q < w.nextRef ∧ (World.apply cfg e w).heap q = w.heap q) ∨
    (∃ f, q < w.nextRef ∧ e.onOrder cfg w = some (q, f) ∧
      (World.apply cfg e w).heap q = f (w.heap q)) ∨
    (∃ o, q = w.nextRef ∧ e.newObject cfg w = some o ∧ (World.apply cfg e w).heap q = o) := by
  rcases hs with hf | rfl
  · cases ho : e.onOrder cfg w with
    | some rf =>
      obtain ⟨r, f⟩ := rf
      obtain ⟨worker, probing, heq⟩ := apply_onOrder ho
      rw [heq] at hq ⊢
      by_cases hqr : q = r
      · subst hqr
        exact .inr (.inl ⟨f, hq, rfl, w.modify_heap_self q f⟩)
      · exact .inl ⟨hq, w.modify_heap_ne f hqr⟩
    | none =>
      cases hn : e.newObject cfg w with
      | some o =>
        obtain ⟨k, -, heq⟩ := apply_newObject hn
        obtain ⟨os, hadd, -⟩ := World.addOrder_eq cfg { w with nextOid := k } o
        rw [heq, hadd] at hq ⊢
        rcases Nat.lt_succ_iff_lt_or_eq.mp hq with hq | rfl
        · exact .inl ⟨hq, if_neg hq.ne⟩
        · exact .inr (.inr ⟨o, rfl, rfl, if_pos rfl⟩)
      | none =>
        obtain ⟨hheap, href⟩ := apply_heap ho hn (by
          rintro rfl
          exact hf)
        rw [href] at hq
        exact .inl ⟨hq, congrFun hheap q⟩
  · exact absurd hq (Nat.not_lt_zero _)

theorem unique_step (hw : w.Inv) (hs : Step cfg w e) (hl : LoadsNew w e) (hu : Unique w) :
    Unique (World.apply cfg e w) := by
  have hcase : ∀ q < (World.apply cfg e w).nextRef,
      (q < w.nextRef ∧ ((World.apply cfg e w).heap q).omsOrderId = (w.heap q).omsOrderId) ∨
      (∃ o, q = w.nextRef ∧ e.newObject cfg w = some o ∧ (World.apply cfg e w).heap q = o) := by
    intro q hq
    rcases object_cases hs hq with ⟨hlt, heq⟩ | ⟨f, hlt, ho, heq⟩ | hnew
    · exact .inl ⟨hlt, by rw [heq]⟩
    · exact .inl ⟨hlt, by rw [heq, (onOrder_keeps ho _).1]⟩
    · exact .inr hnew
  intro p hp q hq h
  rcases hcase p hp with ⟨hlp, hidp⟩ | ⟨o, rfl, hn, hop⟩ <;>
    rcases hcase q hq with ⟨hlq, hidq⟩ | ⟨o', rfl, hn', hoq⟩
  · exact hu p hlp q hlq (by rw [← hidp, h, hidq])
  · exact absurd (by rw [← hidp, h, hoq]) (newObject_new hw hl hn' p hlp)
  · exact absurd (by rw [← hidq, ← h, hop]) (newObject_new hw hl hn q hlq)
  · rfl

theorem onOrder_sentAt {r : Ref} {f : OmniOrder → OmniOrder} (h : e.onOrder cfg w = some (r, f))
    (hm : ∀ q, e ≠ .markSent q) (o : OmniOrder) : (f o).sentAt = o.sentAt := by
  cases e with
  | cancelled q via => cases via <;> cases h <;> rfl
  | markSent q => exact absurd rfl (hm q)
  | resolved q args lookups =>
    cases h
    exact (OmniOrder.resolve_eq _ o).2
  | _ => cases h <;> rfl

theorem onOrder_observations {r : Ref} {f : OmniOrder → OmniOrder}
    (h : e.onOrder cfg w = some (r, f)) (hm : ∀ q args lookups, e ≠ .resolved q args lookups)
    (o : OmniOrder) : (f o).notFoundObservations = o.notFoundObservations := by
  cases e with
  | cancelled q via => cases via <;> cases h <;> rfl
  | resolved q args lookups => exact absurd rfl (hm q args lookups)
  | _ => cases h <;> rfl

theorem nextOid_step (hs : Step cfg w e) : w.nextOid ≤ (World.apply cfg e w).nextOid := by
  rcases hs with hf | rfl
  · exact (stable_apply hf).oids
  · exact le_rfl

def requeues (cfg : Settings) (w : World) (e : Effect) : Option OrderId :=
  match e.onOrder cfg w with
  | some (r, f) =>
    if (w.heap r).state ≠ .queued ∧ (f (w.heap r)).state = .queued then
      some (w.heap r).omsOrderId
    else none
  | none =>
    match e.newObject cfg w with
    | some o => if o.state = .queued then some o.omsOrderId else none
    | none => none

inductive Requeue (cfg : Settings) (w : World) : Effect → OrderId → Prop
  | placed (r : Ref) : Requeue cfg w (.queued r) (w.heap r).omsOrderId
  | retried (r : Ref) : Requeue cfg w (.retried r) (w.heap r).omsOrderId
  | refused (r : Ref) : Requeue cfg w (.requeued r) (w.heap r).omsOrderId
  | rest (r : Ref) (res : ExecutionResult) (hres : res.state = .partiallyFilled) :
      Requeue cfg w (.answered r res) (w.heap r).omsOrderId
  | notFound (r : Ref) (args : ReconcileArgs) (lookups : Lookups)
      (hout : (reconcile cfg.fromisoformat cfg.obs args lookups w.now).verdict = .notFound) :
      Requeue cfg w (.resolved r args lookups) (w.heap r).omsOrderId
  | loaded (row : OmniOrder) (hrow : row.state = .queued) :
      Requeue cfg w (.loaded row) row.omsOrderId

theorem requeue_of_requeues {oid : OrderId} (hs : Step cfg w e)
    (h : requeues cfg w e = some oid) : Requeue cfg w e oid := by
  have hkeep : ∀ {r : Ref} {f : OmniOrder → OmniOrder}, e.onOrder cfg w = some (r, f) →
      (w.heap r).state ≠ .queued ∧ (f (w.heap r)).state = .queued ∧
        oid = (w.heap r).omsOrderId := by
    intro r f ho
    simp only [requeues, ho] at h
    split at h
    · next hst => exact ⟨hst.1, hst.2, (Option.some.inj h).symm⟩
    · cases h
  cases e with
  | cancelled q via =>
    cases via <;>
      · have hq := (hkeep rfl).2.1
        cases hq
  | queued q =>
    obtain ⟨-, -, rfl⟩ := hkeep rfl
    exact .placed q
  | retried q =>
    obtain ⟨-, -, rfl⟩ := hkeep rfl
    exact .retried q
  | requeued q =>
    obtain ⟨-, -, rfl⟩ := hkeep rfl
    exact .refused q
  | answered q res =>
    obtain ⟨-, hq, rfl⟩ := hkeep rfl
    simp only [OmniOrder.answered] at hq
    split at hq
    · cases hq
    · next hres => exact .rest q res hres
    · cases hq
  | resolved q args lookups =>
    obtain ⟨hne, hq, rfl⟩ := hkeep rfl
    rw [OmniOrder.resolve_state] at hq
    unfold OmniOrder.resolvedState at hq
    split at hq
    · cases hq
    · exact absurd hq hne
    · cases hq
    · cases hq
    · next hv => exact .notFound q args lookups hv
    · cases hq
  | note q | modified q | related q | countRetry q => exact absurd (hkeep rfl).2.1 (hkeep rfl).1
  | exhausted q | markSent q | unanswered q | refused q | reconciling q =>
    have hq := (hkeep rfl).2.1
    cases hq
  | remote q entry target =>
    obtain rfl : target = .queued := (hkeep rfl).2.1
    have hmem := OmniOrder.remoteTarget_mem (hs.facts rfl).2.2.1
    simp at hmem
  | loaded row =>
    simp only [requeues, Effect.onOrder, Effect.newObject] at h
    split at h
    · next hst =>
      cases h
      exact .loaded row hst
    · cases h
  | create req mr x => simp [requeues, Effect.onOrder, Effect.newObject, newOrder] at h
  | _ => cases h

end Facts

end Trademetrix.Oms
