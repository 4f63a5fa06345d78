import Trademetrix.Oms.System

/-!
# What can be read off the text

A judgement on the text of the coroutines holds of each of them when it meets a few
rules: what it says of the parts carries over to the whole, and three things are known
of the parts. An order is only saved right after it was written to, a row is only loaded
after it was read, and only two texts ask for a cancellation or retire a bracket.
-/

namespace Trademetrix.Oms

open Async
open Execution (ExecutionRequest ExecutionResult)

def Elsewhere : Point → Prop
  | .cancelOrder _ => False
  | _ => True

def Plain : Effect → Prop
  | .crash | .exited _ _ _ | .create _ _ _ | .loaded _ | .upsert _ => False
  | _ => True

def Effect.writes : Effect → Option Ref
  | .queued r | .note r _ | .cancelled r _ | .modified r _ | .related r _ _ | .exhausted r
  | .retried r | .markSent r | .unanswered r _ | .answered r _ | .requeued r | .countRetry r _
  | .refused r _ | .reconciling r | .resolved r _ _ | .remote r _ _ => some r
  | _ => none

/-- A judgement on a text, on one that starts after a write to an order, and on one
that starts after these rows were read. -/
structure Judgement where
  fine {α : Type} : M α → Prop
  after {α : Type} : Ref → M α → Prop
  holding {α : Type} : List OmniOrder → M α → Prop

namespace Judgement

structure Rules (J : Judgement) : Prop where
  pure {α : Type} (a : α) : J.fine (Pure.pure a : M α)
  bind {α β : Type} {p : M α} {f : α → M β} (hp : J.fine p) (hf : ∀ a, J.fine (f a)) :
    J.fine (p >>= f)
  look : J.fine look
  wait {i : Point} (hi : Elsewhere i) : J.fine (wait i)
  emit {e : Effect} (he : Plain e) : J.fine (emit e)
  write {α : Type} {e : Effect} {r : Ref} {f : Unit → M α} (he : e.writes = some r)
    (hf : J.after r (f ())) : J.fine (Oms.emit e >>= f)
  create {α : Type} {req : ExecutionRequest} {maxRetries : Option ℤ} {exitOf : Option OrderId}
    {f : World → M α} (hf : ∀ w, J.after w.nextRef (f w)) :
    J.fine (Oms.look >>= fun w => Oms.emit (.create req maxRetries exitOf) >>= fun _ => f w)
  save (r : Ref) : J.after r (saveOrder r)
  after_bind {α β : Type} {r : Ref} {p : M α} {f : α → M β} (hp : J.after r p)
    (hf : ∀ a, J.fine (f a)) : J.after r (p >>= f)
  after_fine {α : Type} {r : Ref} {p : M α} (hp : J.fine p) : J.after r p
  readOne {α : Type} {oid : OrderId} {f : Option OmniOrder → M α}
    (hf : ∀ row, J.holding row.toList (f row)) : J.fine (loadOrder oid >>= f)
  readAll {α : Type} {f : List OmniOrder → M α} (hf : ∀ rows, J.holding rows (f rows)) :
    J.fine (loadActiveOrders >>= f)
  load {α : Type} {rows : List OmniOrder} {row : OmniOrder} {f : Unit → M α}
    (hrow : row ∈ rows) (hf : J.holding rows (f ())) : J.holding rows (Oms.emit (.loaded row) >>= f)
  holding_look {α : Type} {rows : List OmniOrder} {f : World → M α}
    (hf : ∀ w, J.holding rows (f w)) : J.holding rows (Oms.look >>= f)
  holding_bind {α β : Type} {rows : List OmniOrder} {p : M α} {f : α → M β}
    (hp : J.holding rows p) (hf : ∀ a, J.holding rows (f a)) : J.holding rows (p >>= f)
  holding_fine {α : Type} {rows : List OmniOrder} {p : M α} (hp : J.fine p) : J.holding rows p

variable {J : Judgement} {α : Type}

theorem Rules.of_look (h : J.Rules) {f : World → M α} (hf : ∀ w, J.fine (f w)) :
    J.fine (Oms.look >>= f) :=
  h.bind h.look hf

theorem Rules.of_emit (h : J.Rules) {e : Effect} {f : Unit → M α} (he : Plain e)
    (hf : J.fine (f ())) : J.fine (Oms.emit e >>= f) :=
  h.bind (h.emit he) fun _ => hf

theorem Rules.of_wait (h : J.Rules) {i : Point} {f : Reply i → M α} (hi : Elsewhere i)
    (hf : ∀ r, J.fine (f r)) : J.fine (Oms.wait i >>= f) :=
  h.bind (h.wait hi) hf

theorem Rules.written (h : J.Rules) {e : Effect} {r : Ref} {f : Unit → M α}
    (he : e.writes = some r) (hf : J.fine (f ())) :
    J.fine (Oms.emit e >>= fun _ => saveOrder r >>= f) :=
  h.write he (h.after_bind (h.save r) fun _ => hf)

theorem Rules.written_end (h : J.Rules) {e : Effect} {r : Ref} (he : e.writes = some r) :
    J.fine (Oms.emit e >>= fun _ => saveOrder r) :=
  h.write he (h.save r)

theorem fine_forEach (h : J.Rules) {γ : Type} {g : γ → M Unit} (xs : List γ)
    (hg : ∀ x, J.fine (g x)) : J.fine (forEach xs g) := by
  induction xs with
  | nil => exact h.pure _
  | cons x xs ih => exact h.bind (hg x) fun _ => ih

end Judgement

section Texts

variable {J : Judgement}

open Judgement

section Persistence

theorem fine_statement (h : J.Rules) {e : Effect} (he : Plain e) : J.fine (statement e) := by
  refine h.of_wait trivial fun io => h.bind ?_ fun _ => h.of_wait trivial fun _ => h.pure _
  unfold takeEffect
  split
  · exact h.pure _
  · exact h.emit he

theorem fine_mirrorAuditStatus (h : J.Rules) : J.fine mirrorAuditStatus :=
  h.of_wait trivial fun _ => h.of_wait trivial fun _ => h.pure _

theorem fine_removeOrder (h : J.Rules) (oid : OrderId) :
    J.fine (removeOrder oid) := fine_statement h trivial

theorem fine_saveBracketOrder (h : J.Rules) (b : Ref) : J.fine (saveBracketOrder b) :=
  h.of_look fun _ => fine_statement h trivial

theorem fine_saveOcoOrder (h : J.Rules) (id : OrderId) : J.fine (saveOcoOrder id) := by
  refine h.of_look fun w => ?_
  cases w.ocos.get id with
  | none => exact h.pure _
  | some oco => exact fine_statement h trivial

end Persistence

section Queue

theorem fine_enqueue (h : J.Rules) (item : OrderQueueItem) :
    J.fine (enqueue item) := fine_statement h trivial

theorem fine_enqueueRetry (h : J.Rules) (item : OrderQueueItem) (delay : Time) :
    J.fine (enqueueRetry item delay) :=
  h.of_look fun _ => fine_enqueue h _

theorem fine_dequeue (h : J.Rules) : J.fine dequeue := by
  refine h.of_wait trivial fun io => h.of_look fun w => ?_
  split
  · exact h.pure _
  · split
    · exact h.pure _
    · refine h.of_emit trivial (h.of_wait trivial fun _ => h.of_look fun w => ?_)
      split
      · exact h.pure _
      · split
        · exact h.bind (fine_statement h trivial) fun _ => h.pure _
        · exact h.pure _

theorem fine_removeFrom (h : J.Rules) (oid : OrderId) (n start : ℕ) :
    J.fine (removeFrom oid n start) := by
  induction n generalizing start with
  | zero => exact h.pure _
  | succ n ih =>
    refine h.of_wait trivial fun io => h.of_look fun w => h.of_wait trivial fun _ => ?_
    simp only
    split
    · exact h.pure _
    · split
      · exact ih _
      · refine h.of_wait trivial fun io => h.of_look fun w => ?_
        split
        · exact h.pure _
        · refine h.of_emit trivial (h.of_wait trivial fun _ => ?_)
          split
          · exact h.pure _
          · split
            · exact h.pure _
            · exact ih _

theorem fine_remove (h : J.Rules) (oid : OrderId) : J.fine (remove oid) :=
  h.of_wait trivial fun n => fine_removeFrom h oid n 0

end Queue

section Placing

theorem fine_deactivateBracket (h : J.Rules) (oid : OrderId) : J.fine (deactivateBracket oid) := by
  refine h.of_look fun w => ?_
  split
  · exact h.pure _
  · split
    · exact h.of_emit trivial (fine_saveBracketOrder h _)
    · exact h.pure _

theorem fine_attachAutoBracket (h : J.Rules) (r : Ref) : J.fine (attachAutoBracket r) := by
  refine h.of_look fun w => ?_
  split
  · exact h.pure _
  · exact h.of_emit trivial (fine_saveBracketOrder h _)

theorem fine_placeOrder (h : J.Rules) (req : ExecutionRequest) (maxRetries : Option ℤ)
    (exitOf : Option OrderId) : J.fine (placeOrder req maxRetries exitOf) :=
  h.create fun _ => h.after_bind (h.save _) fun _ =>
    h.written rfl (h.bind (fine_enqueue h _) fun _ => h.pure _)

theorem fine_handleBracketCompletion (h : J.Rules) (r : Ref) :
    J.fine (handleBracketCompletion r) := by
  refine h.of_look fun w => ?_
  split
  · exact h.pure _
  · refine h.of_emit trivial (h.bind (fine_saveBracketOrder h _) fun _ => h.of_look fun _ =>
      h.bind (fine_placeOrder h _ _ _) fun _ => h.of_look fun _ => ?_)
    split
    · exact h.pure _
    · refine h.of_emit trivial (h.of_look fun _ => h.bind (fine_placeOrder h _ _ _) fun _ =>
        h.of_look fun _ => ?_)
      split
      · exact h.pure _
      · exact h.of_emit trivial (fine_saveBracketOrder h _)

theorem fine_cancelSibling (h : J.Rules) (id : OrderId) : J.fine (cancelSibling id) := by
  refine h.of_look fun w => ?_
  split
  · exact h.pure _
  · split
    · exact h.written rfl ( fine_removeOrder h _)
    · exact h.pure _

theorem fine_handleOcoCompletion (h : J.Rules) (r : Ref) : J.fine (handleOcoCompletion r) := by
  refine h.of_look fun w => ?_
  split
  · exact h.pure _
  · exact h.of_emit trivial (h.bind (fine_saveOcoOrder h _) fun _ => fine_cancelSibling h _)

theorem fine_handleParentCompletion (h : J.Rules) (r : Ref) :
    J.fine (handleParentCompletion r) := by
  refine h.of_look fun w => ?_
  split
  · exact fine_handleBracketCompletion h r
  · exact fine_handleOcoCompletion h r
  · exact h.pure _

end Placing

section Api

theorem fine_cancelOcoSibling (h : J.Rules) (r : Ref) : J.fine (cancelOcoSibling r) := by
  refine h.of_look fun w => ?_
  split
  · exact h.pure _
  · split
    · exact h.pure _
    · exact h.of_emit trivial (h.bind (fine_saveOcoOrder h _) fun _ => fine_cancelSibling h _)

theorem after_finishCancel (h : J.Rules) (r : Ref) (oid : OrderId) :
    J.after r (finishCancel r oid) :=
  h.after_bind (h.save r) fun _ => h.bind (fine_removeOrder h oid) fun _ =>
    h.bind (fine_mirrorAuditStatus h) fun _ => h.bind (fine_deactivateBracket h oid) fun _ =>
      fine_cancelOcoSibling h r

theorem fine_brokerAnswered (h : J.Rules) (r : Ref) (oid : OrderId) (success : Bool)
    (message : String) :
    J.fine (brokerAnswered r oid success message) := by
  unfold brokerAnswered
  split
  · exact h.written rfl ( h.bind (fine_removeOrder h oid) fun _ =>
      h.bind (fine_mirrorAuditStatus h) fun _ => fine_deactivateBracket h oid)
  · exact h.written_end rfl

theorem fine_cancelUnqueued (h : J.Rules) (hask : ∀ id, J.fine (wait (.cancelOrder id)))
    (r : Ref) (oid : OrderId) (via : CancelVia) : J.fine (cancelUnqueued r oid via) := by
  refine h.of_look fun w => ?_
  split
  · exact h.write rfl (after_finishCancel h r oid)
  · refine h.bind (hask _) fun reply => ?_
    split
    · exact h.pure _
    · exact h.bind (fine_brokerAnswered h _ _ _ _) fun _ => fine_cancelOcoSibling h r

theorem fine_cancelOrder (h : J.Rules) (hask : ∀ id, J.fine (wait (.cancelOrder id)))
    (oid : OrderId) : J.fine (cancelOrder oid) := by
  refine h.of_look fun w => ?_
  split
  · exact h.pure _
  · split
    · exact h.emit trivial
    · split
      · refine h.bind (fine_remove h oid) fun removed => ?_
        split
        · exact h.write rfl (after_finishCancel h _ oid)
        · exact fine_cancelUnqueued h hask _ _ _
      · exact fine_cancelUnqueued h hask _ _ _

theorem fine_modifyOrder (h : J.Rules) (oid : OrderId) (changes : Changes) :
    J.fine (modifyOrder oid changes) := by
  refine h.of_look fun w => ?_
  split
  · exact h.pure _
  · split
    · exact h.emit trivial
    · split
      · exact h.written_end rfl
      · refine h.of_wait trivial fun reply => ?_
        split
        · exact h.pure _
        · split
          · exact h.written_end rfl
          · exact h.written_end rfl

theorem fine_createBracket (h : J.Rules) (req : ExecutionRequest)
    (slPrice targetPrice trailingSlPct : ℚ) :
    J.fine (createBracket req slPrice targetPrice trailingSlPct) :=
  h.bind (fine_placeOrder h _ _ _) fun _ => h.of_emit trivial (h.of_look fun _ =>
    h.of_emit trivial (fine_saveBracketOrder h _))

theorem fine_createOco (h : J.Rules) (reqA reqB : ExecutionRequest) :
    J.fine (createOco reqA reqB) :=
  h.bind (fine_placeOrder h _ _ _) fun _ => h.bind (fine_placeOrder h _ _ _) fun _ =>
    h.of_look fun _ => h.of_emit trivial (h.of_emit trivial (h.of_emit trivial
      (fine_saveOcoOrder h _)))

theorem fine_retryOrder (h : J.Rules) (oid : OrderId) : J.fine (retryOrder oid) := by
  refine h.of_look fun w => ?_
  split
  · exact h.pure _
  · simp only
    split
    · exact h.written rfl ( fine_removeOrder h _)
    · exact h.bind (fine_enqueueRetry h _ _) fun _ => h.written_end rfl

end Api

section Loops

theorem fine_handleResult (h : J.Rules) (r : Ref) (item : OrderQueueItem) (res : ExecutionResult) :
    J.fine (handleResult r item res) := by
  refine h.of_look fun w => ?_
  simp only
  split
  · exact h.written_end rfl
  · split
    · refine h.written rfl ( ?_)
      split
      · exact h.bind (fine_removeOrder h _) fun _ => h.bind (fine_attachAutoBracket h r) fun _ =>
          h.of_emit trivial (fine_handleParentCompletion h r)
      · split
        · exact fine_enqueueRetry h _ _
        · exact h.bind (fine_removeOrder h _) fun _ => h.bind (fine_attachAutoBracket h r) fun _ =>
            h.emit trivial
      · exact h.pure _
    · split
      · exact h.of_emit trivial (h.bind (fine_enqueueRetry h _ _) fun _ =>
          h.written_end rfl)
      · exact h.written rfl (
          h.bind (fine_removeOrder h _) fun _ => h.emit trivial)

theorem fine_sendOrder (h : J.Rules) (r : Ref) (item : OrderQueueItem) :
    J.fine (sendOrder r item) := by
  refine h.of_look fun w => ?_
  split
  · exact h.pure _
  · refine h.written rfl ( h.of_look fun w =>
      h.of_emit trivial (h.of_wait trivial fun reply => ?_))
    split
    · exact h.emit trivial
    · exact fine_handleResult h _ _ _

theorem fine_processQueue (h : J.Rules) : J.fine processQueue := by
  refine h.bind (fine_dequeue h) fun next => ?_
  split
  · exact h.pure _
  · refine h.of_look fun w => ?_
    split
    · exact fine_sendOrder h _ _
    · refine h.readOne fun row => ?_
      cases row with
      | none => exact h.holding_fine (h.pure _)
      | some row =>
        exact h.holding_look fun w => h.load List.mem_cons_self
          (h.holding_fine (fine_sendOrder h _ _))

theorem fine_askBroker (h : J.Rules) (userId broker : String) (args : ReconcileArgs) :
    J.fine (askBroker userId broker args) := by
  unfold askBroker
  split
  · exact h.pure _
  · refine h.of_wait trivial fun reply => ?_
    simp only
    split
    · exact h.pure _
    · exact h.of_wait trivial fun listing => h.pure _

theorem fine_reconcileOneUnknown (h : J.Rules) (cfg : Settings) (r : Ref) :
    J.fine (reconcileOneUnknown cfg r) := by
  refine h.written rfl (h.of_look fun w => h.of_emit trivial
    (h.bind (fine_askBroker h _ _ _) fun lookups => h.of_look fun w => h.write rfl ?_))
  have hclosed : ∀ oid, J.after r (do
      saveOrder r
      removeOrder oid
      emit (.recorded r)) :=
    fun oid => h.after_bind (h.save r) fun _ => h.bind (fine_removeOrder h oid) fun _ =>
      h.emit trivial
  split
  · exact h.after_fine (h.pure _)
  · exact h.save r
  · exact h.save r
  · exact hclosed _
  · exact hclosed _
  · exact h.after_bind (h.save r) fun _ => fine_enqueueRetry h _ _

theorem fine_applyRemoteStatus (h : J.Rules) (r : Ref) (remote : RemoteOrder) :
    J.fine (applyRemoteStatus r remote) := by
  refine h.of_look fun w => ?_
  split
  · exact h.pure _
  · split
    · exact h.pure _
    · refine h.written rfl ( ?_)
      split
      · exact h.pure _
      · refine h.bind (fine_removeOrder h _) fun _ => h.of_emit trivial ?_
        simp only
        split
        · exact h.bind (fine_attachAutoBracket h r) fun _ => h.of_emit trivial
            (h.bind (fine_mirrorAuditStatus h) fun _ => fine_handleParentCompletion h r)
        · exact h.bind (fine_deactivateBracket h _) fun _ => h.of_emit trivial
            (h.bind (fine_mirrorAuditStatus h) fun _ => h.pure _)

theorem fine_reconcileBroker (h : J.Rules) (key : (String × String) × List Ref) :
    J.fine (reconcileBroker key) := by
  refine h.of_wait trivial fun book => ?_
  split
  · exact h.pure _
  · refine fine_forEach h _ fun r => h.of_look fun w => ?_
    split
    · exact h.pure _
    · exact fine_applyRemoteStatus h _ _

theorem fine_reconcileOnce (h : J.Rules) (cfg : Settings) : J.fine (reconcileOnce cfg) := by
  refine h.bind ?_ fun _ => h.of_look fun _ => fine_forEach h _ (fine_reconcileBroker h)
  exact h.of_look fun _ => fine_forEach h _ (fine_reconcileOneUnknown h cfg)

theorem holding_recoverOrder (h : J.Rules) {rows : List OmniOrder} {row : OmniOrder}
    (hrow : row ∈ rows) : J.holding rows (recoverOrder row) := by
  refine h.holding_look fun w => h.load hrow (h.holding_fine ?_)
  split
  · exact fine_enqueue h _
  · exact h.pure _

theorem holding_forEach (h : J.Rules) {rows : List OmniOrder} (xs : List OmniOrder)
    (hxs : xs ⊆ rows) : J.holding rows (forEach xs recoverOrder) := by
  induction xs with
  | nil => exact h.holding_fine (h.pure _)
  | cons x xs ih =>
    refine h.holding_bind (holding_recoverOrder h (hxs List.mem_cons_self)) fun _ => ?_
    exact ih fun y hy => hxs (List.mem_cons_of_mem _ hy)

theorem fine_start (h : J.Rules) : J.fine start := by
  have hload : ∀ {α : Type} {f : Io → World → List α},
      J.fine (do
        let io : Io ← wait .statement
        let w ← look
        let _ ← wait .answer
        pure (f io w)) :=
    h.of_wait trivial fun _ => h.of_look fun _ => h.of_wait trivial fun _ => h.pure _
  refine h.bind (h.readAll fun rows => ?_) fun _ => h.emit trivial
  refine h.holding_bind (holding_forEach h rows fun _ hx => hx) fun _ => h.holding_fine ?_
  exact h.bind hload fun _ => h.bind (fine_forEach h _ fun row =>
    h.emit (e := .recoveredBracket row) trivial) fun _ => h.bind hload fun _ =>
      fine_forEach h _ fun row => h.emit (e := .recoveredOco row) trivial

end Loops

section Waiting

theorem fine_completedOrResult (h : J.Rules) (oid : OrderId) : J.fine (completedOrResult oid) := by
  refine h.of_look fun w => ?_
  split
  · exact h.pure _
  · exact h.bind
      (h.of_wait trivial fun _ => h.of_look fun _ => h.of_wait trivial fun _ => h.pure _)
      fun _ => h.pure _

theorem fine_poll (h : J.Rules) (oid : OrderId) (n : ℕ) : J.fine (poll oid n) := by
  induction n with
  | zero => exact h.pure _
  | succ n ih =>
    refine h.of_look fun w => ?_
    split
    · exact h.pure _
    · refine h.bind (fine_completedOrResult h oid) fun current => h.of_look fun w => ?_
      split
      · exact h.pure _
      · exact h.of_wait trivial fun _ => ih

theorem fine_lastLook (h : J.Rules) (r : Ref) : J.fine (lastLook r) := by
  refine h.of_look fun w => ?_
  simp only
  split
  · refine h.of_look fun w => ?_
    simp only
    split
    · exact h.of_emit trivial (h.pure _)
    · exact h.pure _
  · refine h.bind (fine_completedOrResult h _) fun other => h.of_look fun w => ?_
    generalize other.getD (Found.object r) = current
    split
    · cases current with
      | object q => exact h.of_emit trivial (h.pure _)
      | copy o => exact h.pure _
    · exact h.pure _

theorem fine_awaitOrder (h : J.Rules) (r : Ref) : J.fine (awaitOrder r) := by
  refine h.of_look fun w => h.of_wait trivial fun polls => h.bind (fine_poll h _ _) fun found => ?_
  split
  · exact h.pure _
  · exact fine_lastLook h r

theorem fine_executeOrder (h : J.Rules) (cfg : Settings) (userId : String)
    (order : Engine.NormalizedOrder)
    (broker source : String) : J.fine (executeOrder cfg userId order broker source) := by
  unfold executeOrder
  simp only
  split
  · exact h.emit trivial
  · exact h.bind (fine_placeOrder h _ _ _) fun r => h.bind (fine_awaitOrder h r) fun _ =>
      h.of_look fun _ => h.of_emit trivial (h.of_wait trivial fun _ => h.of_look fun _ =>
        h.emit trivial)

end Waiting

section BracketLoop

theorem fine_finishExit (h : J.Rules) (hexit : ∀ b leg oid, J.fine (emit (.exited b leg oid)))
    (b : Ref) (leg : Leg) (r : Ref) : J.fine (finishExit b leg r) := by
  refine h.of_look fun w => ?_
  split
  · exact h.pure _
  · exact h.bind (hexit _ _ _) fun _ => fine_saveBracketOrder h b

theorem fine_placeExit (h : J.Rules) (hexit : ∀ b leg oid, J.fine (emit (.exited b leg oid)))
    (b : Ref) (leg : Leg) (last : ℚ) : J.fine (placeExit b leg last) := by
  refine h.of_look fun w => h.bind (fine_placeOrder h _ _ _) fun r => h.of_look fun w => ?_
  split
  · exact h.bind (fine_placeOrder h _ _ _) fun r => fine_finishExit h hexit b leg r
  · exact fine_finishExit h hexit b leg r

theorem fine_evaluateBracket (h : J.Rules)
    (hexit : ∀ b leg oid, J.fine (emit (.exited b leg oid))) (quotes : Ref → Option ℚ) (b : Ref) :
    J.fine (evaluateBracket quotes b) := by
  refine h.of_look fun w => ?_
  split
  · exact h.pure _
  · split
    · exact h.pure _
    · exact fine_placeExit h hexit b _ _

theorem fine_evaluateBrackets (h : J.Rules)
    (hexit : ∀ b leg oid, J.fine (emit (.exited b leg oid))) : J.fine evaluateBrackets := by
  refine h.of_look fun w => h.bind (fine_forEach h _ fun b => h.of_look fun w => ?_) fun _ => ?_
  · split
    · exact h.of_emit trivial (fine_saveBracketOrder h b)
    · exact h.pure _
  · split
    · exact h.pure _
    · exact h.of_wait trivial fun quotes => fine_forEach h _ (fine_evaluateBracket h hexit quotes)

end BracketLoop

theorem fine_body (h : J.Rules) (hask : ∀ id, J.fine (wait (.cancelOrder id))) (cfg : Settings)
    (c : Call) (hc : c ≠ .evaluateBrackets) : J.fine (c.body cfg) := by
  cases c with
  | start => exact fine_start h
  | processQueue => exact fine_processQueue h
  | reconcileOnce => exact fine_reconcileOnce h cfg
  | evaluateBrackets => exact absurd rfl hc
  | placeOrder req mr => exact h.bind (fine_placeOrder h _ _ _) fun _ => h.pure _
  | placeAndWait req =>
    exact h.bind (h.bind (fine_placeOrder h _ _ _) fun _ => fine_awaitOrder h _) fun _ => h.pure _
  | executeOrder => exact fine_executeOrder h _ _ _ _ _
  | cancelOrder oid => exact fine_cancelOrder h hask oid
  | modifyOrder => exact fine_modifyOrder h _ _
  | retryOrder => exact fine_retryOrder h _
  | createBracket => exact fine_createBracket h _ _ _ _
  | createOco => exact fine_createOco h _ _

end Texts

section Only

def onlyJudgement (A : Point → Prop) (Q : Effect → Prop) : Judgement where
  fine p := p.Only A Q
  after _ p := p.Only A Q
  holding _ p := p.Only A Q

theorem only_rules {A : Point → Prop} {Q : Effect → Prop} (hA : ∀ i, Elsewhere i → A i)
    (hQ : ∀ e, e ≠ .crash → (∀ b leg oid, e ≠ .exited b leg oid) → Q e) :
    (onlyJudgement A Q).Rules where
  pure {α} a := show (Pure.pure a : M α).Only A Q from .pure a
  bind hp hf := Proc.Only.bind hp hf
  look := show Oms.look.Only A Q from .look
  wait {i} hi := show (Oms.wait i).Only A Q from .wait (hA i hi)
  emit {e} he := by
    refine Proc.Only.emit (hQ e ?_ ?_)
    · rintro rfl
      exact he
    · rintro b leg oid rfl
      exact he
  write {_ e _ _} he hf := by
    refine Proc.Only.bind (.emit (hQ e ?_ ?_)) fun _ => hf
    · rintro rfl
      cases he
    · rintro b leg oid rfl
      cases he
  create hf :=
    Proc.Only.bind .look fun w =>
      Proc.Only.bind (.emit (hQ _ (by rintro ⟨⟩) (by rintro _ _ _ ⟨⟩))) fun _ => hf w
  save r := by
    refine Proc.Only.bind .look fun w => Proc.Only.bind (.wait (hA _ trivial)) fun io =>
      Proc.Only.bind ?_ fun _ => Proc.Only.bind (.wait (hA _ trivial)) fun _ => .pure _
    unfold takeEffect
    split
    · exact .pure _
    · exact .emit (hQ _ (by rintro ⟨⟩) (by rintro _ _ _ ⟨⟩))
  after_bind hp hf := Proc.Only.bind hp hf
  after_fine hp := hp
  readOne hf :=
    Proc.Only.bind (.bind (.wait (hA _ trivial)) fun _ => .bind .look fun _ =>
      .bind (.wait (hA _ trivial)) fun _ => .pure _) hf
  readAll hf :=
    Proc.Only.bind (.bind (.wait (hA _ trivial)) fun _ => .bind .look fun _ =>
      .bind (.wait (hA _ trivial)) fun _ => .pure _) hf
  load _ hf := Proc.Only.bind (.emit (hQ _ (by rintro ⟨⟩) (by rintro _ _ _ ⟨⟩))) fun _ => hf
  holding_look hf := Proc.Only.bind .look hf
  holding_bind hp hf := Proc.Only.bind hp hf
  holding_fine hp := hp

end Only

end Trademetrix.Oms
