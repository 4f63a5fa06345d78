import Trademetrix.Oms.Contract

/-!
# Every run of the order manager is legal

One specification for each coroutine, from the statements up to the calls, and
from them that every effect of every run, crashes included, meets `Facts`.
-/

namespace Trademetrix.Oms

open Async
open Execution (ExecutionRequest ExecutionResult)

variable {cfg : Settings} {a : Tag} {s w : World} {e : Effect}

section Persistence

theorem calm_takeEffect (hs : s.Inv) (ho : owner e = none) (hf : Facts cfg s e) (io : Io) :
    Calm cfg a (takeEffect io e) s := by
  unfold takeEffect
  split
  · exact .pure hs
  · exact .emit hs hf ho

theorem calm_statement (hs : s.Inv) (ho : owner e = none)
    (hf : ∀ t, Since a s t → Facts cfg t e) : Calm cfg a (statement e) s := by
  refine Gives.of_wait hs fun io t ht => ?_
  refine (calm_takeEffect ht.inv ho (hf t ht) io).bind fun _ u hu => ?_
  exact Gives.of_wait hu.inv fun _ _ hv => .pure hv.inv trivial

theorem calm_mirrorAuditStatus (hs : s.Inv) : Calm cfg a mirrorAuditStatus s :=
  Gives.of_wait hs fun _ _ ht => Gives.of_wait ht.inv fun _ _ hu => .pure hu.inv trivial

theorem calm_saveOrder (hs : s.Inv) {r : Ref} (hr : r < s.nextRef) :
    Calm cfg a (saveOrder r) s := by
  refine Gives.of_look (calm_statement hs rfl fun t ht => ?_)
  obtain ⟨hok, hid⟩ := hs.objects r hr
  exact ⟨hok, hid.trans_le ht.stable.oids⟩

theorem calm_removeOrder (hs : s.Inv) (oid : OrderId) : Calm cfg a (removeOrder oid) s :=
  calm_statement hs rfl fun _ _ => trivial

theorem calm_saveBracketOrder (hs : s.Inv) (b : Ref) : Calm cfg a (saveBracketOrder b) s :=
  Gives.of_look (calm_statement hs rfl fun _ _ => trivial)

theorem calm_saveOcoOrder (hs : s.Inv) (id : OrderId) : Calm cfg a (saveOcoOrder id) s := by
  refine Gives.of_look ?_
  split
  · exact calm_statement hs rfl fun _ _ => trivial
  · exact .pure hs trivial

def Loadable (o : OmniOrder) (w : World) : Prop := o.Ok ∧ o.omsOrderId < w.nextOid

theorem Loadable.since {o : OmniOrder} {t : World} (h : Loadable o s) (ht : Since a s t) :
    Loadable o t := ⟨h.1, h.2.trans_le ht.stable.oids⟩

theorem loadable_of_row (hw : w.Inv) {p : OrderId × OmniOrder} (hp : p ∈ w.rows) :
    Loadable p.2 w := by
  obtain ⟨hid, hok, hlt⟩ := hw.rows p hp
  exact ⟨hok, hid ▸ hlt⟩

theorem gives_loadOrder (hs : s.Inv) (oid : OrderId) :
    Gives cfg a (fun row t => ∀ o, row = some o → Loadable o t) (loadOrder oid) s := by
  refine Gives.of_wait hs fun io t ht => Gives.of_look ?_
  refine (Calm.wait ht.inv _).bind fun _ u hu => .pure hu.inv fun o ho => ?_
  split at ho
  · exact (loadable_of_row ht.inv (Dict.mem_of_get ho)).since hu
  · cases ho

theorem gives_loadActiveOrders (hs : s.Inv) :
    Gives cfg a (fun rows t => ∀ o ∈ rows, Loadable o t) loadActiveOrders s := by
  refine Gives.of_wait hs fun io t ht => Gives.of_look ?_
  refine (Calm.wait ht.inv _).bind fun _ u hu => .pure hu.inv fun o ho => ?_
  split at ho
  · obtain ⟨p, hp, rfl⟩ := List.mem_map.mp (List.mem_of_mem_filter ho)
    exact (loadable_of_row ht.inv hp).since hu
  · cases ho

theorem calm_loadActiveBracketOrders (hs : s.Inv) : Calm cfg a loadActiveBracketOrders s :=
  Gives.of_wait hs fun _ _ ht => Gives.of_look <|
    (Calm.wait ht.inv _).bind fun _ _ hu => .pure hu.inv trivial

theorem calm_loadActiveOcoOrders (hs : s.Inv) : Calm cfg a loadActiveOcoOrders s :=
  Gives.of_wait hs fun _ _ ht => Gives.of_look <|
    (Calm.wait ht.inv _).bind fun _ _ hu => .pure hu.inv trivial

end Persistence

section Queue

theorem calm_enqueue (hs : s.Inv) (item : OrderQueueItem) : Calm cfg a (enqueue item) s :=
  calm_statement hs rfl fun _ _ => trivial

theorem calm_enqueueRetry (hs : s.Inv) (item : OrderQueueItem) (delay : Time) :
    Calm cfg a (enqueueRetry item delay) s :=
  Gives.of_look (calm_enqueue hs _)

theorem calm_dequeue (hs : s.Inv) : Calm cfg a dequeue s := by
  refine Gives.of_wait hs fun io t ht => Gives.of_look ?_
  split
  · exact .pure ht.inv trivial
  · split
    · exact .pure ht.inv trivial
    · refine Gives.of_emit ht.inv trivial rfl fun hu => ?_
      refine (Calm.wait hu.inv _).bind fun _ v hv => Gives.of_look ?_
      split
      · exact .pure hv.inv trivial
      · split
        · exact (calm_statement (e := .rpush _) hv.inv rfl fun _ _ => trivial).bind fun _ x hx =>
            .pure hx.inv trivial
        · exact .pure hv.inv trivial

theorem calm_removeFrom (oid : OrderId) (n start : ℕ) (hs : s.Inv) :
    Calm cfg a (removeFrom oid n start) s := by
  induction n generalizing start s with
  | zero => exact .pure hs
  | succ n ih =>
    refine Gives.of_wait hs fun io t ht => Gives.of_look ?_
    refine (Calm.wait ht.inv _).bind fun _ u hu => ?_
    simp only
    split
    · exact .pure hu.inv trivial
    · split
      · exact ih _ hu.inv
      · refine Gives.of_wait hu.inv fun io v hv => Gives.of_look ?_
        split
        · exact .pure hv.inv trivial
        · refine Gives.of_emit hv.inv trivial rfl fun hx => ?_
          refine (Calm.wait hx.inv _).bind fun _ y hy => ?_
          split
          · exact .pure hy.inv trivial
          · split
            · exact .pure hy.inv trivial
            · exact ih _ hy.inv

theorem calm_remove (hs : s.Inv) (oid : OrderId) : Calm cfg a (remove oid) s :=
  Gives.of_wait hs fun n _ ht => calm_removeFrom oid n 0 ht.inv

end Queue

section Brackets

theorem calm_deactivateBracket (hs : s.Inv) (oid : OrderId) :
    Calm cfg a (deactivateBracket oid) s := by
  refine Gives.of_look ?_
  split
  · exact .pure hs trivial
  · split
    · exact Gives.of_emit hs trivial rfl fun ht => calm_saveBracketOrder ht.inv _
    · exact .pure hs trivial

theorem calm_attachAutoBracket (hs : s.Inv) (r : Ref) : Calm cfg a (attachAutoBracket r) s := by
  refine Gives.of_look ?_
  split
  · exact .pure hs trivial
  · exact Gives.of_emit hs trivial rfl fun ht => calm_saveBracketOrder ht.inv _

end Brackets

section Placing

theorem gives_placeOrder (hs : s.Inv) (req : ExecutionRequest) (mr : Option ℤ)
    (x : Option OrderId) :
    Gives cfg a (fun r t => r < t.nextRef) (placeOrder req mr x) s := by
  refine Gives.of_look (Gives.of_emit hs trivial rfl fun ht => ?_)
  have hr : s.nextRef < (World.apply cfg (.create req mr x) s).nextRef := by
    obtain ⟨os, heq, -⟩ := World.addOrder_eq cfg { s with nextOid := s.nextOid + 1 }
      (newOrder cfg.sha256 s.nextOid req mr)
    simp only [World.apply, heq]
    exact Nat.lt_succ_self _
  refine (calm_saveOrder ht.inv hr).bind fun _ u hu => ?_
  refine Gives.of_emit hu.inv (hu.lt hr) rfl fun hv => ?_
  refine (calm_saveOrder hv.inv (hv.lt (hu.lt hr))).bind fun _ x hx => ?_
  refine (calm_enqueue hx.inv _).bind fun _ y hy => ?_
  exact .pure hy.inv (hy.lt (hx.lt (hv.lt (hu.lt hr))))

theorem calm_handleBracketCompletion (hs : s.Inv) (r : Ref) :
    Calm cfg a (handleBracketCompletion r) s := by
  refine Gives.of_look ?_
  split
  · exact .pure hs trivial
  · refine Gives.of_emit hs trivial rfl fun ht => ?_
    refine (calm_saveBracketOrder ht.inv _).bind fun _ u hu => Gives.of_look ?_
    refine (gives_placeOrder hu.inv _ _ _).bind fun sl v hv _ => Gives.of_look ?_
    split
    · exact .pure hv.inv trivial
    · refine Gives.of_emit hv.inv trivial rfl fun hx => Gives.of_look ?_
      refine (gives_placeOrder hx.inv _ _ _).bind fun target y hy _ => Gives.of_look ?_
      split
      · exact .pure hy.inv trivial
      · exact Gives.of_emit hy.inv trivial rfl fun hz => calm_saveBracketOrder hz.inv _

theorem ref_of_orders (hw : w.Inv) {oid : OrderId} {r : Ref} (h : w.orders.get oid = some r) :
    r < w.nextRef :=
  (hw.orders _ (Dict.mem_of_get h)).1

theorem calm_cancelSibling (hs : s.Inv) (oid : OrderId) : Calm cfg a (cancelSibling oid) s := by
  refine Gives.of_look ?_
  split
  · exact .pure hs trivial
  · next q hq =>
    have hlt := ref_of_orders hs hq
    split
    · next hcan =>
      refine Gives.of_emit hs ⟨hlt, hcan⟩ rfl fun ht => ?_
      refine (calm_saveOrder ht.inv (ht.lt hlt)).bind fun _ u hu => ?_
      exact calm_removeOrder hu.inv _
    · exact .pure hs trivial

theorem calm_handleOcoCompletion (hs : s.Inv) (r : Ref) :
    Calm cfg a (handleOcoCompletion r) s := by
  refine Gives.of_look ?_
  split
  · exact .pure hs trivial
  · refine Gives.of_emit hs trivial rfl fun ht => ?_
    exact (calm_saveOcoOrder ht.inv _).bind fun _ u hu => calm_cancelSibling hu.inv _

theorem calm_handleParentCompletion (hs : s.Inv) (r : Ref) :
    Calm cfg a (handleParentCompletion r) s := by
  refine Gives.of_look ?_
  split
  · exact calm_handleBracketCompletion hs r
  · exact calm_handleOcoCompletion hs r
  · exact .pure hs trivial

end Placing

section Api

theorem calm_cancelOcoSibling (hs : s.Inv) (r : Ref) : Calm cfg a (cancelOcoSibling r) s := by
  refine Gives.of_look ?_
  split
  · exact .pure hs trivial
  · split
    · exact .pure hs trivial
    · refine Gives.of_emit hs trivial rfl fun ht => ?_
      exact (calm_saveOcoOrder ht.inv _).bind fun _ u hu => calm_cancelSibling hu.inv _

theorem calm_finishCancel (hs : s.Inv) {r : Ref} (hr : r < s.nextRef) (oid : OrderId) :
    Calm cfg a (finishCancel r oid) s :=
  (calm_saveOrder hs hr).bind fun _ _ ht =>
    (calm_removeOrder ht.inv oid).bind fun _ _ hu =>
      (calm_mirrorAuditStatus hu.inv).bind fun _ _ hv =>
        (calm_deactivateBracket hv.inv oid).bind fun _ _ hx => calm_cancelOcoSibling hx.inv r

theorem calm_brokerAnswered (hs : s.Inv) {r : Ref} (hr : r < s.nextRef) (oid : OrderId)
    (success : Bool) (message : String) :
    Calm cfg a (brokerAnswered r oid success message) s := by
  unfold brokerAnswered
  split
  · refine Gives.of_emit hs ⟨hr, trivial⟩ rfl fun ht => ?_
    refine (calm_saveOrder ht.inv (ht.lt hr)).bind fun _ u hu => ?_
    refine (calm_removeOrder hu.inv oid).bind fun _ v hv => ?_
    exact (calm_mirrorAuditStatus hv.inv).bind fun _ x hx => calm_deactivateBracket hx.inv oid
  · exact Gives.of_emit hs hr rfl fun ht => calm_saveOrder ht.inv (ht.lt hr)

theorem calm_cancelUnqueued (hs : s.Inv) {r : Ref} (hr : r < s.nextRef) (oid : OrderId)
    {via : CancelVia}
    (hvia : (s.heap r).brokerOrderId = "" → CancelFacts (s.heap r) via) :
    Calm cfg a (cancelUnqueued r oid via) s := by
  refine Gives.of_look ?_
  split
  · next hb =>
    exact Gives.of_emit hs ⟨hr, hvia hb⟩ rfl fun ht => calm_finishCancel ht.inv (ht.lt hr) oid
  · refine Gives.of_wait hs fun reply t ht => ?_
    split
    · exact .pure ht.inv trivial
    · exact (calm_brokerAnswered ht.inv (ht.lt hr) oid _ _).bind fun _ u hu =>
        calm_cancelOcoSibling hu.inv r

theorem calm_cancelOrder (hs : s.Inv) (oid : OrderId) : Calm cfg a (cancelOrder oid) s := by
  refine Gives.of_look ?_
  split
  · exact .pure hs trivial
  · next r hr =>
    have hlt := ref_of_orders hs hr
    split
    · exact Calm.emit hs hlt rfl
    · next hcan =>
      split
      · refine (calm_remove hs oid).bind fun removed t ht => ?_
        split
        · exact Gives.of_emit ht.inv ⟨ht.lt hlt, trivial⟩ rfl fun hu =>
            calm_finishCancel hu.inv (hu.lt (ht.lt hlt)) oid
        · exact calm_cancelUnqueued ht.inv (ht.lt hlt) oid fun hb => hb
      · next hq =>
        exact calm_cancelUnqueued hs hlt oid fun hb => ⟨hb, hq, by simpa using hcan⟩

theorem calm_modifyOrder (hs : s.Inv) (oid : OrderId) (changes : Changes) :
    Calm cfg a (modifyOrder oid changes) s := by
  refine Gives.of_look ?_
  split
  · exact .pure hs trivial
  · next r hr =>
    have hlt := ref_of_orders hs hr
    split
    · exact Calm.emit hs hlt rfl
    · split
      · exact Gives.of_emit hs hlt rfl fun ht => calm_saveOrder ht.inv (ht.lt hlt)
      · refine Gives.of_wait hs fun reply t ht => ?_
        split
        · exact .pure ht.inv trivial
        · split <;>
            exact Gives.of_emit ht.inv (ht.lt hlt) rfl fun hu =>
              calm_saveOrder hu.inv (hu.lt (ht.lt hlt))

theorem calm_createBracket (hs : s.Inv) (req : ExecutionRequest) (sl target trailing : ℚ) :
    Calm cfg a (createBracket req sl target trailing) s := by
  refine (gives_placeOrder hs req none none).bind fun r t ht hr => ?_
  refine Gives.of_emit ht.inv hr rfl fun hu => Gives.of_look ?_
  exact Gives.of_emit hu.inv trivial rfl fun hv => calm_saveBracketOrder hv.inv _

theorem calm_createOco (hs : s.Inv) (reqA reqB : ExecutionRequest) :
    Calm cfg a (createOco reqA reqB) s := by
  refine (gives_placeOrder hs reqA none none).bind fun ra t ht hra => ?_
  refine (gives_placeOrder ht.inv reqB none none).bind fun rb u hu hrb => Gives.of_look ?_
  refine Gives.of_emit hu.inv (hu.lt hra) rfl fun hv => ?_
  refine Gives.of_emit hv.inv (hv.lt hrb) rfl fun hx => ?_
  exact Gives.of_emit hx.inv trivial rfl fun hy => calm_saveOcoOrder hy.inv _

theorem calm_retryOrder (hs : s.Inv) (oid : OrderId) : Calm cfg a (retryOrder oid) s := by
  refine Gives.of_look ?_
  split
  · exact .pure hs trivial
  · next r hr =>
    have hlt := ref_of_orders hs hr
    simp only
    split
    · refine Gives.of_emit hs hlt rfl fun ht => ?_
      exact (calm_saveOrder ht.inv (ht.lt hlt)).bind fun _ u hu => calm_removeOrder hu.inv oid
    · refine (calm_enqueueRetry hs _ _).bind fun _ t ht => ?_
      exact Gives.of_emit ht.inv (ht.lt hlt) rfl fun hu => calm_saveOrder hu.inv (hu.lt (ht.lt hlt))

end Api

section Worker

def Rest (t : World) : Prop := t.Inv ∧ t.worker = .idle

theorem Calm.rest {α : Type} {p : M α} (h : Calm cfg .worker p s)
    (hw : s.worker = .idle) : Keeps cfg .worker (fun _ => Rest) p s :=
  Keeps.mono h fun _ _ ht => ⟨ht.1.inv, (ht.1.worker rfl).trans hw⟩

theorem owned_worker {e : Effect} (h : owner e = some .worker) :
    ∀ b, owner e = some b → b = .worker := by
  intro b hb
  rw [h] at hb
  exact (Option.some.inj hb).symm

theorem calm_afterAnswer (hs : s.Inv) {r : Ref} (hr : r < s.nextRef) (item : OrderQueueItem)
    (res : ExecutionResult) (remaining : ℤ) : Calm cfg a (do
      saveOrder r
      match res.state with
      | .filled => do
        removeOrder item.omsOrderId
        attachAutoBracket r
        emit (.recorded r)
        handleParentCompletion r
      | .partiallyFilled =>
        if 0 < remaining then enqueueRetry item (seconds 5)
        else do
          removeOrder item.omsOrderId
          attachAutoBracket r
          emit (.recorded r)
      | _ => pure ()) s := by
  refine (calm_saveOrder hs hr).bind fun _ t ht => ?_
  split
  · refine (calm_removeOrder ht.inv _).bind fun _ u hu => ?_
    refine (calm_attachAutoBracket hu.inv _).bind fun _ v hv => ?_
    exact Gives.of_emit hv.inv (hv.lt (hu.lt (ht.lt hr))) rfl fun hx =>
      calm_handleParentCompletion hx.inv r
  · split
    · exact calm_enqueueRetry ht.inv _ _
    · refine (calm_removeOrder ht.inv _).bind fun _ u hu => ?_
      refine (calm_attachAutoBracket hu.inv _).bind fun _ v hv => ?_
      exact Calm.emit hv.inv (hv.lt (hu.lt (ht.lt hr))) rfl
  · exact .pure ht.inv trivial

theorem keeps_handleResult (hs : s.Inv) {r : Ref} (hr : Sent s r) (hw : s.worker = .sending r)
    (item : OrderQueueItem) (res : ExecutionResult) :
    Keeps cfg .worker (fun _ => Rest) (handleResult r item res) s := by
  refine Keeps.of_look ?_
  simp only
  split
  · have hf : Facts cfg s (.unanswered r res) := ⟨hr, hw⟩
    refine Keeps.of_emit hf (owned_worker rfl) (Calm.rest ?_ rfl)
    exact calm_saveOrder (inv_apply hs hf) hr.1
  · split
    · have hf : Facts cfg s (.answered r res) := ⟨hr, hw⟩
      refine Keeps.of_emit hf (owned_worker rfl) (Calm.rest ?_ rfl)
      exact calm_afterAnswer (inv_apply hs hf) hr.1 item res _
    · split
      · next hretry =>
        have hf : Facts cfg s (.requeued r) := ⟨hr, hw, hretry.1⟩
        have hsent : Sent (World.apply cfg (.requeued r) s) r :=
          ⟨hr.1, (stable_apply hf).sent r hr.1 hr.2⟩
        refine Keeps.of_emit hf (owned_worker rfl) ?_
        refine (calm_enqueueRetry (inv_apply hs hf) _ _).bind_keeps fun _ t ht => ?_
        have hf' : Facts cfg t (.countRetry r res) := ⟨ht.sent hsent, ht.worker rfl⟩
        refine Keeps.of_emit hf' (owned_worker rfl) (Calm.rest ?_ rfl)
        exact calm_saveOrder (inv_apply ht.inv hf') (ht.sent hsent).1
      · have hf : Facts cfg s (.refused r res) := ⟨hr, hw⟩
        refine Keeps.of_emit hf (owned_worker rfl) (Calm.rest ?_ rfl)
        refine (calm_saveOrder (inv_apply hs hf) hr.1).bind fun _ t ht => ?_
        refine (calm_removeOrder ht.inv _).bind fun _ u hu => ?_
        exact Calm.emit hu.inv (hu.lt (ht.lt hr.1)) rfl

theorem keeps_sendOrder (hs : Rest s) {r : Ref} (hr : r < s.nextRef) (item : OrderQueueItem) :
    Keeps cfg .worker (fun _ => Rest) (sendOrder r item) s := by
  refine Keeps.of_look ?_
  split
  · exact hs
  · next hcan =>
    have hf : Facts cfg s (.markSent r) := ⟨hr, hs.2, by simpa using hcan⟩
    have hsent : Sent (World.apply cfg (.markSent r) s) r := by
      refine ⟨hr, ?_⟩
      simp [World.apply, OmniOrder.markSent]
    refine Keeps.of_emit hf (owned_worker rfl) ?_
    refine (calm_saveOrder (inv_apply hs.1 hf) hr).bind_keeps fun _ t ht => Keeps.of_look ?_
    have hf' : Facts cfg t (.post r) := ⟨ht.sent hsent, ht.worker rfl⟩
    refine Keeps.of_emit hf' (owned_worker rfl) ?_
    have hsent' : Sent (World.apply cfg (.post r) t) r := ht.sent hsent
    refine Keeps.of_wait (inv_apply ht.inv hf') fun reply u hu => ?_
    have hwork : u.worker = .sending r := hu.worker rfl
    split
    · have hf'' : Facts cfg u (.abandoned r) := ⟨hu.sent hsent', hwork⟩
      exact ⟨⟨hf'', owned_worker rfl⟩, inv_apply hu.inv hf'', rfl⟩
    · exact keeps_handleResult hu.inv (hu.sent hsent') hwork item _

theorem keeps_processQueue (hs : Rest s) :
    Keeps cfg .worker (fun _ => Rest) processQueue s := by
  refine (calm_dequeue hs.1).bind_keeps fun next t ht => ?_
  have hrest : Rest t := ⟨ht.inv, (ht.worker rfl).trans hs.2⟩
  split
  · exact hrest
  · next item =>
    refine Keeps.of_look ?_
    split
    · next r hr => exact keeps_sendOrder hrest (ref_of_orders ht.inv hr) item
    · refine (gives_loadOrder ht.inv _).bind_keeps fun row u hu hrow => ?_
      have hrest' : Rest u := ⟨hu.inv, (hu.worker rfl).trans hrest.2⟩
      split
      · exact hrest'
      · next o =>
        have hf : Facts cfg u (.loaded o) := hrow o rfl
        refine Keeps.of_look (Keeps.of_emit hf (fun b hb => nomatch hb) ?_)
        have hsince : Since .worker u (World.apply cfg (.loaded o) u) :=
          since_apply hu.inv hf nofun
        refine keeps_sendOrder ⟨hsince.inv, (hsince.worker rfl).trans hrest'.2⟩ ?_ item
        obtain ⟨os, heq, -⟩ := World.addOrder_eq cfg u o
        simp only [World.apply, heq]
        exact Nat.lt_succ_self _

end Worker

section Reconciler

theorem keeps_forEach {γ : Type} {g : γ → M Unit} {xs : List γ} {J : World → Prop} (hs : J s)
    (h : ∀ x ∈ xs, ∀ t, J t → Keeps cfg a (fun _ => J) (g x) t) :
    Keeps cfg a (fun _ => J) (forEach xs g) s := by
  induction xs generalizing s with
  | nil => exact hs
  | cons x xs ih =>
    refine Keeps.bind (h x List.mem_cons_self s hs) fun _ t ht => ?_
    exact ih ht fun y hy => h y (List.mem_cons_of_mem _ hy)

theorem calm_askBroker (hs : s.Inv) (userId broker : String) (args : ReconcileArgs) :
    Calm cfg a (askBroker userId broker args) s := by
  unfold askBroker
  split
  · exact .pure hs
  · -- whatever the first lookup came to
    generalize afterCorrelation = after
    refine Gives.of_wait hs fun reply t ht => ?_
    simp only
    split
    · exact .pure ht.inv trivial
    · exact Gives.of_wait ht.inv fun _ _ hu => .pure hu.inv trivial

theorem keeps_reconcileOneUnknown (hs : s.Inv) {r : Ref} (hr : Sent s r) :
    Keeps cfg .reconciler (fun _ t => t.Inv ∧ Stable s t) (reconcileOneUnknown cfg r) s := by
  have hf : Facts cfg s (.reconciling r) := hr
  have hsince : Since .reconciler s (World.apply cfg (.reconciling r) s) :=
    since_apply hs hf nofun
  refine Keeps.of_emit hf (fun b hb => nomatch hb) ?_
  refine (calm_saveOrder hsince.inv (hsince.lt hr.1)).bind_keeps fun _ t ht => Keeps.of_look ?_
  have hrt : Sent t r := ht.sent (hsince.sent hr)
  have hf₁ : Facts cfg t (.lookup r (reconcileArgs cfg (t.heap r))) := ⟨hrt, rfl⟩
  refine Keeps.of_emit hf₁ (fun b hb => (Option.some.inj hb).symm) ?_
  have hinv₁ := inv_apply ht.inv hf₁
  refine (calm_askBroker hinv₁ _ _ _).bind_keeps fun lookups u hu => Keeps.of_look ?_
  have hru : Sent u r := hu.sent (s := World.apply cfg (.lookup r _) t) hrt
  have hf₂ : Facts cfg u (.resolved r (reconcileArgs cfg (t.heap r)) lookups) :=
    ⟨hru, (hu.probing rfl).1, ((hu.probing rfl).2 r hrt.1).symm⟩
  refine Keeps.of_emit hf₂ (fun b hb => (Option.some.inj hb).symm) ?_
  have hinv₂ := inv_apply hu.inv hf₂
  have hstable : Stable s (World.apply cfg (.resolved r (reconcileArgs cfg (t.heap r)) lookups) u) :=
    (hsince.stable.trans ht.stable).trans
      ((stable_apply hf₁).trans (hu.stable.trans (stable_apply hf₂)))
  have hlt := (stable_apply hf₂).refs.trans_lt' hru.1
  have hrest : ∀ {α : Type} {p : M α},
      Calm cfg .reconciler p
        (World.apply cfg (.resolved r (reconcileArgs cfg (t.heap r)) lookups) u) →
      Keeps cfg .reconciler (fun _ v => v.Inv ∧ Stable s v) p
        (World.apply cfg (.resolved r (reconcileArgs cfg (t.heap r)) lookups) u) :=
    fun h => Keeps.mono h fun _ _ hv => ⟨hv.1.inv, hstable.trans hv.1.stable⟩
  split
  · exact hrest (.pure hinv₂)
  · exact hrest (calm_saveOrder hinv₂ hlt)
  · exact hrest (calm_saveOrder hinv₂ hlt)
  · refine hrest ((calm_saveOrder hinv₂ hlt).bind fun _ v hv => ?_)
    refine (calm_removeOrder hv.inv _).bind fun _ x hx => ?_
    exact Calm.emit hx.inv (hx.lt (hv.lt hlt)) rfl
  · refine hrest ((calm_saveOrder hinv₂ hlt).bind fun _ v hv => ?_)
    refine (calm_removeOrder hv.inv _).bind fun _ x hx => ?_
    exact Calm.emit hx.inv (hx.lt (hv.lt hlt)) rfl
  · exact hrest ((calm_saveOrder hinv₂ hlt).bind fun _ v hv => calm_enqueueRetry hv.inv _ _)

theorem sent_of_unknown (hs : s.Inv) {r : Ref} (hr : r ∈ s.orders.values)
    (hst : (s.heap r).state ∈ [OMSOrderState.unknown, .reconciling]) : Sent s r := by
  obtain ⟨p, hp, rfl⟩ := List.mem_map.mp hr
  have hlt := (hs.orders p hp).1
  exact ⟨hlt, (hs.objects _ hlt).1 (.inl (List.mem_cons_of_mem _ hst))⟩

theorem keeps_reconcileUnknownOnce (hs : s.Inv) :
    Keeps cfg .reconciler (fun _ t => t.Inv) (reconcileUnknownOnce cfg) s := by
  refine Keeps.of_look ?_
  refine Keeps.mono (keeps_forEach
    (J := fun t => t.Inv ∧ Stable s t) ⟨hs, .refl s⟩ fun r hr t ht => ?_) fun _ _ h => h.1
  obtain ⟨hmem, hst⟩ := List.mem_filter.mp hr
  have hsent := sent_of_unknown hs hmem (by simpa using hst)
  have hrt : Sent t r := ⟨hsent.1.trans_le ht.2.refs, ht.2.sent r hsent.1 hsent.2⟩
  exact (keeps_reconcileOneUnknown ht.1 hrt).mono fun _ _ h => ⟨h.1, ht.2.trans h.2⟩

theorem calm_applyRemoteStatus (hs : s.Inv) {r : Ref} (hr : r < s.nextRef) (entry : RemoteOrder)
    (hid : entry.brokerOrderId = (s.heap r).brokerOrderId ∧ entry.brokerOrderId ≠ "") :
    Calm cfg a (applyRemoteStatus r entry) s := by
  refine Gives.of_look ?_
  split
  · exact .pure hs trivial
  · next target htarget =>
    split
    · exact .pure hs trivial
    · next hcan =>
      refine Gives.of_emit hs ⟨hr, by simpa using hcan, htarget, hid⟩ rfl fun ht => ?_
      refine (calm_saveOrder ht.inv (ht.lt hr)).bind fun _ u hu => ?_
      split
      · exact .pure hu.inv trivial
      · refine (calm_removeOrder hu.inv _).bind fun _ v hv => ?_
        refine Gives.of_emit hv.inv trivial rfl fun hx => ?_
        have hlt := hx.lt (hv.lt (hu.lt (ht.lt hr)))
        split
        · refine (calm_attachAutoBracket hx.inv _).bind fun _ y hy => ?_
          refine Gives.of_emit hy.inv (hy.lt hlt) rfl fun hz => ?_
          exact (calm_mirrorAuditStatus hz.inv).bind fun _ _ h => calm_handleParentCompletion h.inv r
        · refine (calm_deactivateBracket hx.inv _).bind fun _ y hy => ?_
          refine Gives.of_emit hy.inv (hy.lt hlt) rfl fun hz => ?_
          exact (calm_mirrorAuditStatus hz.inv).bind fun _ _ h => .pure h.inv trivial

theorem byKey_sub {active : List Ref} :
    ∀ key ∈ byKey w active, ∀ r ∈ key.2, r ∈ active := by
  have hstep : ∀ (rs : List Ref) (d : Dict (String × String) (List Ref)),
      (∀ r ∈ rs, r ∈ active) → (∀ key ∈ d, ∀ r ∈ key.2, r ∈ active) →
      ∀ key ∈ rs.foldl (fun d r =>
        d.set ((w.heap r).userId, (w.heap r).broker)
          ((d.get ((w.heap r).userId, (w.heap r).broker)).getD [] ++ [r])) d,
        ∀ r ∈ key.2, r ∈ active := by
    intro rs
    induction rs with
    | nil => exact fun d _ hd => hd
    | cons r rs ih =>
      intro d hrs hd
      refine ih _ (fun q hq => hrs q (List.mem_cons_of_mem _ hq)) fun key hkey q hq => ?_
      rcases Dict.mem_set hkey with rfl | hkey
      · rcases List.mem_append.mp hq with hq | hq
        · cases hg : d.get ((w.heap r).userId, (w.heap r).broker) with
          | none => simp [hg] at hq
          | some rs' => exact hd _ (Dict.mem_of_get hg) q (by simpa [hg] using hq)
        · rw [List.mem_singleton.mp hq]
          exact hrs r List.mem_cons_self
      · exact hd key hkey q hq
  exact hstep active [] (fun _ h => h) fun _ h => absurd h List.not_mem_nil

theorem bookEntry_id {book : List RemoteOrder} {bid : String} {entry : RemoteOrder}
    (h : bookEntry book bid = some entry) : entry.brokerOrderId = bid ∧ entry.brokerOrderId ≠ "" := by
  simpa [bookEntry] using List.find?_some h

theorem calm_reconcileBroker (hs : s.Inv) (key : (String × String) × List Ref)
    (hr : ∀ r ∈ key.2, r < s.nextRef) : Calm cfg a (reconcileBroker key) s := by
  refine Gives.of_wait hs fun book t ht => ?_
  split
  · exact .pure ht.inv trivial
  · refine calm_forEach ht.inv fun r hmem u hu => Gives.of_look ?_
    split
    · exact .pure hu.inv trivial
    · next entry hentry =>
      exact calm_applyRemoteStatus hu.inv (hu.lt (ht.lt (hr r hmem))) entry (bookEntry_id hentry)

theorem keeps_reconcileOnce (hs : s.Inv) :
    Keeps cfg .reconciler (fun _ t => t.Inv) (reconcileOnce cfg) s := by
  refine Keeps.bind (keeps_reconcileUnknownOnce hs) fun _ t ht => Keeps.of_look ?_
  refine Keeps.mono (calm_forEach ht fun key hkey u hu => ?_) fun _ _ h => h.1.inv
  refine calm_reconcileBroker hu.inv key fun r hr => hu.lt ?_
  obtain ⟨p, hp, rfl⟩ := List.mem_map.mp (List.mem_of_mem_filter (byKey_sub key hkey r hr))
  exact (ht.orders p hp).1

end Reconciler

section BracketLoop

theorem calm_finishExit (hs : s.Inv) (b : Ref) (leg : Leg) (r : Ref) :
    Calm cfg a (finishExit b leg r) s := by
  refine Gives.of_look ?_
  split
  · exact .pure hs trivial
  · exact Gives.of_emit hs trivial rfl fun ht => calm_saveBracketOrder ht.inv b

theorem calm_placeExit (hs : s.Inv) (b : Ref) (leg : Leg) (last : ℚ) :
    Calm cfg a (placeExit b leg last) s := by
  refine Gives.of_look ((gives_placeOrder hs _ _ _).bind fun r t ht _ => Gives.of_look ?_)
  split
  · exact (gives_placeOrder ht.inv _ _ _).bind fun q u hu _ => calm_finishExit hu.inv b leg q
  · exact calm_finishExit ht.inv b leg r

theorem calm_evaluateBracket (hs : s.Inv) (quotes : Ref → Option ℚ) (b : Ref) :
    Calm cfg a (evaluateBracket quotes b) s := by
  refine Gives.of_look ?_
  split
  · exact .pure hs trivial
  · split
    · exact .pure hs trivial
    · exact calm_placeExit hs b _ _

theorem calm_evaluateBrackets (hs : s.Inv) : Calm cfg a evaluateBrackets s := by
  refine Gives.of_look ?_
  refine (calm_forEach hs fun b _ t ht => Gives.of_look ?_).bind fun _ t ht => ?_
  · split
    · exact Gives.of_emit ht.inv trivial rfl fun hu => calm_saveBracketOrder hu.inv b
    · exact .pure ht.inv trivial
  · split
    · exact .pure ht.inv trivial
    · exact Gives.of_wait ht.inv fun quotes u hu =>
        calm_forEach hu.inv fun b _ v hv => calm_evaluateBracket hv.inv quotes b

end BracketLoop

section Boot

theorem calm_recoverOrder (hs : s.Inv) {row : OmniOrder} (hrow : Loadable row s) :
    Calm cfg a (recoverOrder row) s := by
  refine Gives.of_look (Gives.of_emit hs hrow rfl fun ht => ?_)
  split
  · exact calm_enqueue ht.inv _
  · exact .pure ht.inv trivial

theorem calm_recoverActiveOrders (hs : s.Inv) : Calm cfg a recoverActiveOrders s := by
  refine (gives_loadActiveOrders hs).bind fun rows t ht hrows => ?_
  refine (calm_forEach ht.inv fun row hrow u hu =>
    calm_recoverOrder hu.inv ((hrows row hrow).since hu)).bind fun _ u hu => ?_
  refine (calm_loadActiveBracketOrders hu.inv).bind fun brackets v hv => ?_
  refine (calm_forEach hv.inv fun row _ x hx =>
    Calm.emit (e := .recoveredBracket row) hx.inv trivial rfl).bind fun _ x hx => ?_
  refine (calm_loadActiveOcoOrders hx.inv).bind fun ocos y hy => ?_
  exact calm_forEach hy.inv fun row _ z hz =>
    Calm.emit (e := .recoveredOco row) hz.inv trivial rfl

theorem calm_start (hs : s.Inv) : Calm cfg a start s :=
  (calm_recoverActiveOrders hs).bind fun _ _ ht => Calm.emit ht.inv trivial rfl

end Boot

section Waiting

def Found.Ok (w : World) : Found → Prop
  | .object r => r < w.nextRef
  | .copy _ => True

theorem Found.Ok.since {t : World} {found : Found} (h : found.Ok s) (ht : Since a s t) :
    found.Ok t := by
  cases found with
  | object r => exact ht.lt h
  | copy o => trivial

theorem gives_completedOrResult (hs : s.Inv) (oid : OrderId) :
    Gives cfg a (fun x t => ∀ found, x = some found → found.Ok t) (completedOrResult oid) s := by
  refine Gives.of_look ?_
  split
  · next r hr =>
    refine .pure hs fun found hf => ?_
    cases hf
    exact (hs.completed _ (Dict.mem_of_get hr)).1
  · refine Gives.of_wait hs fun io t ht => Gives.of_look ?_
    refine Gives.of_wait ht.inv fun _ u hu => ?_
    refine .pure hu.inv fun found hf => ?_
    obtain ⟨o, -, rfl⟩ := Option.map_eq_some_iff.mp hf
    trivial

theorem gives_poll (oid : OrderId) (n : ℕ) (hs : s.Inv) :
    Gives cfg a (fun x t => ∀ found, x = some found → found.Ok t) (poll oid n) s := by
  induction n generalizing s with
  | zero => exact .pure hs fun _ h => nomatch h
  | succ n ih =>
    refine Gives.of_look ?_
    split
    · next r hr =>
      refine .pure hs fun found hf => ?_
      cases hf
      exact ref_of_orders hs (Option.filter_eq_some_iff.mp hr).1
    · refine (gives_completedOrResult hs oid).bind fun x t ht hx => Gives.of_look ?_
      split
      · next found hfound =>
        refine .pure ht.inv fun g hg => ?_
        cases hg
        exact hx found (Option.filter_eq_some_iff.mp hfound).1
      · exact Gives.of_wait ht.inv fun _ u hu => ih hu.inv

theorem calm_lastLook (hs : s.Inv) {r : Ref} (hr : r < s.nextRef) :
    Calm cfg a (lastLook r) s := by
  have hend : ∀ (found : Found) (t : World), t.Inv → found.Ok t → Calm cfg a (do
      let w ← look
      let state := (found.order w).state
      let message := "Order still " ++ state.value ++ " after 20s wait"
      if state ∈ waitingStates then
        match found with
        | .object q => do
          emit (.note q message)
          pure found
        | .copy o => pure (.copy { o with message := message })
      else pure found) t := by
    intro found t ht hok
    refine Gives.of_look ?_
    simp only
    split
    · cases found with
      | object q => exact Gives.of_emit ht hok rfl fun hu => .pure hu.inv trivial
      | copy o => exact .pure ht trivial
    · exact .pure ht trivial
  refine Gives.of_look ?_
  simp only
  split
  · next q hq => exact hend (.object q) s hs (ref_of_orders hs hq)
  · refine (gives_completedOrResult hs _).bind fun x t ht hx => ?_
    refine hend (x.getD (.object r)) t ht.inv ?_
    cases x with
    | none => exact ht.lt hr
    | some found => exact hx found rfl

theorem calm_awaitOrder (hs : s.Inv) {r : Ref} (hr : r < s.nextRef) :
    Calm cfg a (awaitOrder r) s := by
  refine Gives.of_look (Gives.of_wait hs fun n u hu => ?_)
  refine (gives_poll _ n hu.inv).bind fun x v hv _ => ?_
  split
  · exact .pure hv.inv trivial
  · exact calm_lastLook hv.inv (hv.lt (hu.lt hr))

theorem calm_placeAndWait (hs : s.Inv) (req : ExecutionRequest) :
    Calm cfg a (placeAndWait req) s :=
  (gives_placeOrder hs req none none).bind fun _ _ ht hr => calm_awaitOrder ht.inv hr

theorem calm_executeOrder (hs : s.Inv) (userId : String) (order : Engine.NormalizedOrder)
    (broker source : String) : Calm cfg a (executeOrder cfg userId order broker source) s := by
  unfold executeOrder
  simp only
  split
  · exact Calm.emit hs trivial rfl
  · refine (gives_placeOrder hs _ none none).bind fun r t ht hr => ?_
    refine (calm_awaitOrder ht.inv hr).bind fun found u hu => Gives.of_look ?_
    have hr : r < u.nextRef := hu.lt hr
    refine Gives.of_emit hu.inv ⟨hr, Engine.failing_noted _ _⟩ rfl fun hv => ?_
    refine Gives.of_wait hv.inv fun io x hx => Gives.of_look ?_
    exact Calm.emit hx.inv ⟨hx.lt (hv.lt hr), Engine.failing_returned _ _⟩ rfl

end Waiting

section Runs

theorem Calm.ends {α : Type} {p : M α} (h : Calm cfg a p s)
    (hidle : a = .worker → s.worker = .idle) :
    Keeps cfg a (fun _ => (contract cfg).idle a) p s :=
  Keeps.mono h fun _ _ ht => ⟨ht.1.inv, fun ha => (ht.1.worker ha).trans (hidle ha)⟩

theorem keeps_body (c : Call) (hs : (contract cfg).idle c.tag s) :
    Keeps cfg c.tag (fun _ => (contract cfg).idle c.tag) (c.body cfg) s := by
  have hcalm : ∀ {p : M Unit}, (s.Inv → Calm cfg c.tag p s) →
      Keeps cfg c.tag (fun _ => (contract cfg).idle c.tag) p s :=
    fun h => (h hs.1).ends hs.2
  cases c with
  | start => exact hcalm calm_start
  | processQueue =>
    exact Keeps.mono (keeps_processQueue ⟨hs.1, hs.2 rfl⟩) fun _ t ht => ⟨ht.1, fun _ => ht.2⟩
  | reconcileOnce => exact Keeps.mono (keeps_reconcileOnce hs.1) fun _ t ht => ⟨ht, nofun⟩
  | evaluateBrackets => exact hcalm calm_evaluateBrackets
  | placeOrder req mr =>
    exact hcalm fun h => (gives_placeOrder h req mr none).bind fun _ _ ht _ => .pure ht.inv trivial
  | placeAndWait req =>
    exact hcalm fun h => (calm_placeAndWait h req).bind fun _ _ ht => .pure ht.inv trivial
  | executeOrder userId order broker source =>
    exact hcalm fun h => calm_executeOrder h userId order broker source
  | cancelOrder oid => exact hcalm fun h => calm_cancelOrder h oid
  | modifyOrder oid changes => exact hcalm fun h => calm_modifyOrder h oid changes
  | retryOrder oid => exact hcalm fun h => calm_retryOrder h oid
  | createBracket req sl target trailing => exact hcalm fun h => calm_createBracket h req sl target trailing
  | createOco reqA reqB => exact hcalm fun h => calm_createOco h reqA reqB

theorem contract_sound (cfg : Settings) : (contract cfg).Sound (system cfg) where
  trans a s t u h h' hs := (h hs).trans (h' (h hs).inv)
  refl a s hs := .refl hs
  idle a s t h hi := ⟨(h hi.1).inv, fun ha => ((h hi.1).worker ha).trans (hi.2 ha)⟩
  others a b s e hab hg hs := by
    refine since_apply hs hg.1 fun ho => ?_
    have hb := hg.2 a ho
    have hfree := hab hb
    subst hb
    -- no effect is owned by a tag that runs beside itself
    cases a with
    | api => cases e <;> cases ho
    | _ => simp [system] at hfree
  env a s e he hs := by
    cases e with
    | elapse t =>
      have hf : Facts cfg s (.elapse t) := trivial
      exact since_apply hs hf nofun
    | stored r =>
      have hf : Facts cfg s (.stored r) := by simpa [system, Facts] using he
      exact since_apply hs hf nofun
    | _ => simp [system] at he
  code c s hs := by
    change Keeps cfg c.tag _ (c.code cfg) s
    refine Keeps.of_look ?_
    split
    · exact keeps_body c hs
    · exact hs

def initial : Pool World Effect Reply Tag := ⟨{}, []⟩

def Life (cfg : Settings) (es : List Effect) (P : Pool World Effect Reply Tag) : Prop :=
  (system cfg).Life .crash initial es P

theorem inv_initial : initial.state.Inv where
  orders _ hp := absurd hp List.not_mem_nil
  completed _ hp := absurd hp List.not_mem_nil
  unstored _ hp := absurd hp List.not_mem_nil
  objects _ hr := absurd hr (Nat.not_lt_zero _)
  rows _ hp := absurd hp List.not_mem_nil
  keys := List.nodup_nil

theorem legal_of_life {es : List Effect} {P : Pool World Effect Reply Tag} (h : Life cfg es P) :
    Legal (World.apply cfg) (fun w e => w.Inv ∧ Step cfg w e) initial.state es ∧
      P.state = replay (World.apply cfg) initial.state es := by
  have hholds : (contract cfg).Holds (system cfg) initial := by
    refine ⟨?_, ?_, .nil, fun a _ => ⟨inv_initial, fun _ => rfl⟩⟩
    · exact fun t ht => absurd ht List.not_mem_nil
    · exact fun t ht => absurd ht List.not_mem_nil
  have hcrash : ∀ s a, (system cfg).blocks a a = false → (contract cfg).idle a s →
      ∀ b, (contract cfg).idle b ((system cfg).apply .crash s) :=
    fun s a _ hs b => ⟨World.Inv.crash hs.1, fun _ => rfl⟩
  obtain ⟨hlegal, -, hstate⟩ :=
    Contract.Life.legal (contract_sound cfg) hcrash (a := .api) rfl hholds h
  suffices hstep : Legal (World.apply cfg) (Step cfg) initial.state es by
    exact ⟨hstep.with_invariant (I := World.Inv) (fun s e => inv_step) inv_initial, hstate⟩
  refine hlegal.mono fun s e he => ?_
  rcases he with (⟨b, hb⟩ | henv) | hc
  · exact .inl hb.1
  · left
    cases e with
    | elapse t => trivial
    | stored r => simpa [system, Facts] using henv
    | _ => simp [system] at henv
  · exact .inr hc

theorem inv_of_life {es : List Effect} {P : Pool World Effect Reply Tag} (h : Life cfg es P) :
    P.state.Inv := by
  obtain ⟨hlegal, hstate⟩ := legal_of_life h
  rw [hstate]
  exact hlegal.invariant (fun s e hs hg => inv_step hs hg.2) inv_initial

end Runs

end Trademetrix.Oms
