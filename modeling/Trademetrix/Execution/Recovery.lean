import Trademetrix.Async.Pool
import Trademetrix.Engine.Models
import Trademetrix.Execution.OrdersTable
import Trademetrix.Execution.Retry

/-!
# Recovery of pending orders

`reconcile_pending_orders` asks the broker of each pending order for its listing and
writes what it finds. The rows are selected once; the broker and the table are asked at
awaits of their own, between which other writers change the table. Every listing that a
broker has given is noted, which the program never reads.
-/

namespace Trademetrix.Execution.Recovery

open Async
open Engine (OrderStatus)
open Oms (Time)

structure BookEntry where
  id : String
  brokerOrderId : String
  status : OrderStatus
  deriving DecidableEq

structure Listing where
  userId : String
  broker : String
  book : List BookEntry
  deriving DecidableEq

/-- The comparison of `get_order`. -/
def BookEntry.Names (e : BookEntry) (orderId : String) : Prop :=
  e.id = orderId ∨ e.brokerOrderId = orderId

instance (e : BookEntry) (orderId : String) : Decidable (e.Names orderId) :=
  inferInstanceAs (Decidable (_ ∨ _))

structure Records where
  now : Time := 0
  orders : OrdersTable := []
  listings : List Listing := []

inductive Cause
  | unreachable
  | listed (entry : BookEntry)
  deriving DecidableEq

structure Outcome where
  orderId : String
  status : String
  remoteStatus : Option String := none
  reason : Option String := none
  deriving DecidableEq

inductive RecoveryEffect
  | lists (listing : Listing)
  | marks (o : OrderRow) (cause : Cause) (status : String)
  | returns (rows : List OrderRow) (results : List Outcome)
  /-- What other writers make of the table, and the time it is. -/
  | others (orders : OrdersTable) (now : Time)

def terminalOf (rs : String) : Option String :=
  if rs ∈ ["FILLED", "COMPLETE", "TRADED", "EXECUTED"] then some "FILLED"
  else if rs ∈ ["REJECTED", "CANCELLED", "EXPIRED"] then some rs
  else none

/-- The rows `_mark_order` writes. -/
def Marked (o r : OrderRow) : Prop := r.userId = o.userId ∧ r.brokerOrderId = o.brokerOrderId

instance (o r : OrderRow) : Decidable (Marked o r) := inferInstanceAs (Decidable (_ ∧ _))

namespace Records

def pendingStatuses : List String := ["PENDING", "SENT", "NEW"]

def pending (s : Records) : List OrderRow :=
  s.orders.filter fun r => r.status ∈ pendingStatuses ∧ r.createdAt ≤ s.now

def apply (e : RecoveryEffect) (s : Records) : Records :=
  match e with
  | .lists listing => { s with listings := listing :: s.listings }
  | .marks o _ status =>
    { s with orders := s.orders.update (fun r => Marked o r) o.brokerOrderId status }
  | .others orders now => { s with orders := orders, now := now }
  | .returns _ _ => s

end Records

inductive RecoveryPoint
  | select
  | connect (userId broker : String)
  | orderbook (userId broker : String)
  | write

/-- The replies of an await. A connection that raises is one whose exception reaches the
loop; for a query or a write the reply is whether it is carried out. -/
def RecoveryReply : RecoveryPoint → Type
  | .select | .write => Bool
  | .connect _ _ => Except Raised Bool
  | .orderbook _ _ => Except Raised (List BookEntry)

abbrev M := Proc Records RecoveryEffect RecoveryReply

def emit (e : RecoveryEffect) : M Unit := Proc.emit e

def look : M Records := Proc.look

def wait (i : RecoveryPoint) : M (RecoveryReply i) := Proc.wait i

/-- `get_orders`, where an exception reads as an empty listing. -/
def getOrders (userId broker : String) : M (List BookEntry) := do
  let reply : Except Raised (List BookEntry) ← wait (.orderbook userId broker)
  let book := match reply with
    | .ok book => book
    | .error _ => []
  emit (.lists ⟨userId, broker, book⟩)
  pure book

def getOrder (userId broker orderId : String) : M (Option BookEntry) := do
  let book ← getOrders userId broker
  pure (book.find? fun e => e.Names orderId)

/-- `_mark_order`; an exception is only logged. -/
def markOrder (o : OrderRow) (cause : Cause) (status : String) : M Unit := do
  let carried : Bool ← wait .write
  if carried then emit (.marks o cause status) else pure ()

/-- `_touch_order` writes the time of the update only, which nothing here reads. -/
def touchOrder : M Unit := do
  let _ : Bool ← wait .write
  pure ()

def reconcileOrder (o : OrderRow) : M Outcome :=
  if o.brokerOrderId = "" ∨ o.broker = "" then
    pure { orderId := o.brokerOrderId, status := "SKIPPED"
           reason := some "missing broker_order_id or broker" }
  else do
    let connected : Except Raised Bool ← wait (.connect o.userId o.broker)
    match connected with
    | .error _ => pure { orderId := o.brokerOrderId, status := "ERROR" }
    | .ok false => do
      markOrder o .unreachable "FAILED"
      pure { orderId := o.brokerOrderId, status := "FAILED" }
    | .ok true => do
      let remote ← getOrder o.userId o.broker o.brokerOrderId
      match remote with
      | none => do
        touchOrder
        pure { orderId := o.brokerOrderId, status := "UNCHANGED" }
      | some entry =>
        let rs := entry.status.value
        match terminalOf rs with
        | some status => do
          markOrder o (.listed entry) status
          pure { orderId := o.brokerOrderId, status := status, remoteStatus := some rs }
        | none => do
          touchOrder
          pure { orderId := o.brokerOrderId, status := rs, remoteStatus := some rs }

def reconcileOrders : List OrderRow → M (List Outcome)
  | [] => pure []
  | o :: rest => do
    let result ← reconcileOrder o
    let results ← reconcileOrders rest
    pure (result :: results)

/-- `reconcile_pending_orders`; a query that fails finds no orders. -/
def reconcilePendingOrders : M Unit := do
  let answered : Bool ← wait .select
  let s ← look
  let rows := if answered then s.pending else []
  let results ← reconcileOrders rows
  emit (.returns rows results)

def system : System Records RecoveryEffect RecoveryReply Unit Unit where
  apply := Records.apply
  tag _ := ()
  code _ := reconcilePendingOrders
  blocks _ _ := false
  ready _ _ _ := true
  env _ e := match e with
    | .others _ _ => true
    | _ => false

section Contract

variable {s t : Records} {o : OrderRow} {status : String}

def Reported (s : Records) (r : OrderRow) (status : String) : Prop :=
  ∃ l ∈ s.listings, l.userId = r.userId ∧ l.broker = r.broker ∧
    ∃ e ∈ l.book, e.Names r.brokerOrderId ∧ e.status.value = status

instance (s : Records) (r : OrderRow) (status : String) : Decidable (Reported s r status) :=
  inferInstanceAs (Decidable (∃ l ∈ s.listings, _ ∧ _ ∧ ∃ e ∈ l.book, _ ∧ _))

def RecoveryFacts (s : Records) : RecoveryEffect → Prop
  | .marks _ .unreachable status => status = "FAILED"
  | .marks o (.listed entry) status => status = entry.status.value ∧ Reported s o status
  | .returns rows results => results.map Outcome.orderId = rows.map OrderRow.brokerOrderId
  | _ => True

def recoveryContract : Contract Records RecoveryEffect Unit where
  rely _ s t := s.listings ⊆ t.listings
  guar _ := RecoveryFacts
  idle _ _ := True

abbrev Does {α : Type} (post : α → Records → Prop) (p : M α) (s : Records) : Prop :=
  recoveryContract.Does system () post p s

theorem Reported.of_subset (h : Reported s o status) (hs : s.listings ⊆ t.listings) :
    Reported t o status := by
  obtain ⟨l, hl, hlisted⟩ := h
  exact ⟨l, hs hl, hlisted⟩

theorem eq_of_terminalOf (v : OrderStatus) (h : terminalOf v.value = some status) :
    status = v.value := by
  cases v <;> simp [terminalOf, OrderStatus.value] at h ⊢ <;> exact h.symm

theorem does_getOrder (userId broker orderId : String) (s : Records) :
    Does (fun found t => ∀ entry, found = some entry → ∃ l ∈ t.listings, l.userId = userId ∧
      l.broker = broker ∧ entry ∈ l.book ∧ entry.Names orderId)
      (getOrder userId broker orderId) s := by
  refine Contract.Does.bind
    (?_ : Does (fun book t => ⟨userId, broker, book⟩ ∈ t.listings) _ s) ?_
  · refine Contract.Does.of_wait fun reply t _ _ => ?_
    exact Contract.Does.of_emit trivial (Contract.Does.pure List.mem_cons_self)
  · intro book t hbook
    refine Contract.Does.pure fun entry hfound => ⟨_, hbook, rfl, rfl, ?_, ?_⟩
    · exact List.mem_of_find?_eq_some hfound
    · simpa using List.find?_some hfound

theorem does_markOrder {cause : Cause} (h : ∀ t, s.listings ⊆ t.listings →
    RecoveryFacts t (.marks o cause status)) :
    Does (fun _ _ => True) (markOrder o cause status) s := by
  refine Contract.Does.of_wait fun carried t ht _ => ?_
  change Bool at carried
  split
  · exact ⟨h t ht, trivial⟩
  · exact Contract.Does.pure trivial

theorem does_touchOrder (s : Records) : Does (fun _ _ => True) touchOrder s :=
  Contract.Does.of_wait fun _ _ _ _ => Contract.Does.pure trivial

theorem does_reconcileOrder (o : OrderRow) (s : Records) :
    Does (fun result _ => result.orderId = o.brokerOrderId) (reconcileOrder o) s := by
  unfold reconcileOrder
  split
  · exact Contract.Does.pure rfl
  · refine Contract.Does.of_wait fun connected t _ _ => ?_
    change Except Raised Bool at connected
    split
    · exact Contract.Does.pure rfl
    · exact Contract.Does.bind (does_markOrder fun _ _ => rfl) fun _ _ _ => Contract.Does.pure rfl
    · refine Contract.Does.bind (does_getOrder _ _ _ t) fun found u hfound => ?_
      cases found with
      | none =>
        exact Contract.Does.bind (does_touchOrder u) fun _ _ _ => Contract.Does.pure rfl
      | some entry =>
        obtain ⟨l, hl, huser, hbroker, hentry, hnames⟩ := hfound entry rfl
        dsimp only
        split
        · next status hstatus =>
          have hvalue := eq_of_terminalOf entry.status hstatus
          have hreported : Reported u o status :=
            ⟨l, hl, huser, hbroker, entry, hentry, hnames, hvalue.symm⟩
          refine Contract.Does.bind (does_markOrder fun v hv => ?_) fun _ _ _ =>
            Contract.Does.pure rfl
          exact ⟨hvalue, hreported.of_subset hv⟩
        · exact Contract.Does.bind (does_touchOrder u) fun _ _ _ => Contract.Does.pure rfl

theorem does_reconcileOrders (rows : List OrderRow) (s : Records) :
    Does (fun results _ => results.map Outcome.orderId = rows.map OrderRow.brokerOrderId)
      (reconcileOrders rows) s := by
  induction rows generalizing s with
  | nil => exact Contract.Does.pure rfl
  | cons o rest ih =>
    refine Contract.Does.bind (does_reconcileOrder o s) fun result t hresult => ?_
    refine Contract.Does.bind (ih t) fun results u hresults => Contract.Does.pure ?_
    rw [List.map_cons, List.map_cons, hresult, hresults]

theorem recoveryContract_sound : recoveryContract.Sound system where
  trans _ _ _ _ := List.Subset.trans
  refl _ _ := List.Subset.refl _
  idle _ _ _ _ _ := trivial
  others _ _ s e _ _ := by
    cases e with
    | lists listing => exact List.subset_cons_self _ _
    | marks | returns | others => exact List.Subset.refl _
  env _ s e _ := by
    cases e with
    | lists listing => exact List.subset_cons_self _ _
    | marks | returns | others => exact List.Subset.refl _
  code _ s _ := by
    refine Contract.Does.of_wait fun answered t _ _ => Contract.Does.of_look ?_
    refine Contract.Does.bind (does_reconcileOrders _ t) fun results u hresults => ?_
    exact ⟨hresults, trivial⟩

theorem recoveryFacts_of_run {P : Pool Records RecoveryEffect RecoveryReply Unit}
    {es : List RecoveryEffect} (h : system.Run ⟨s, []⟩ es P) :
    Legal Records.apply RecoveryFacts s es := by
  have hholds : recoveryContract.Holds system ⟨s, []⟩ :=
    ⟨by simp, by simp, .nil, fun _ _ => trivial⟩
  refine (Contract.Run.legal recoveryContract_sound hholds h).1.mono fun t e he => ?_
  rcases he with ⟨_, hfacts⟩ | henv
  · exact hfacts
  · cases e with
    | others orders now => trivial
    | lists | marks | returns => cases henv

end Contract

section Law

variable {s s₀ : Records} {es : List RecoveryEffect}

def Vouched (s : Records) : RecoveryEffect → Prop
  | .marks o _ status => ∀ r ∈ s.orders, Marked o r → Reported s r status
  | _ => True

/-- An order whose broker cannot be reached is no longer there to be marked; the orders with
the id of a listed one are with the broker that lists it, or reported the same by their own. -/
def Spared (s : Records) : RecoveryEffect → Prop
  | .marks o .unreachable _ => ∀ r ∈ s.orders, ¬ Marked o r
  | .marks o (.listed entry) _ => ∀ r ∈ s.orders, Marked o r → r.broker ≠ o.broker →
    Reported s r entry.status.value
  | _ => True

instance (s : Records) : ∀ e, Decidable (Vouched s e)
  | .marks o _ status =>
    inferInstanceAs (Decidable (∀ r ∈ s.orders, Marked o r → Reported s r status))
  | .lists _ | .returns _ _ | .others _ _ => isTrue trivial

theorem not_reported_failed (s : Records) (r : OrderRow) : ¬ Reported s r "FAILED" := by
  rintro ⟨_, -, -, -, e, -, -, hstatus⟩
  cases hv : e.status <;> simp [hv, OrderStatus.value] at hstatus

theorem Reported.of_marked {o r : OrderRow} {status : String} (h : Reported s o status)
    (hmarked : Marked o r) (hbroker : r.broker = o.broker) : Reported s r status := by
  obtain ⟨l, hl, huser, hlisted, e, he, hnames, hstatus⟩ := h
  refine ⟨l, hl, huser.trans hmarked.1.symm, hlisted.trans hbroker.symm, e, he, ?_, hstatus⟩
  rw [hmarked.2]
  exact hnames

theorem vouched_iff {e : RecoveryEffect} (h : RecoveryFacts s e) : Vouched s e ↔ Spared s e := by
  cases e with
  | marks o cause status =>
    cases cause with
    | unreachable =>
      refine forall_congr' fun r => forall_congr' fun _ => ?_
      rw [show status = "FAILED" from h]
      exact ⟨fun hv hm => not_reported_failed s r (hv hm), fun hs hm => (hs hm).elim⟩
    | listed entry =>
      obtain ⟨hstatus, hreported⟩ := h
      rw [hstatus] at hreported
      refine forall_congr' fun r => forall_congr' fun _ => forall_congr' fun hmarked => ?_
      rw [hstatus]
      constructor
      · exact fun hv _ => hv
      · intro hs
        by_cases hbroker : r.broker = o.broker
        · exact hreported.of_marked hmarked hbroker
        · exact hs hbroker
  | lists | returns | others => exact Iff.rfl

structure RecoveryLaw (s₀ : Records) (es : List RecoveryEffect) : Prop where
  /-- Every order that is marked is marked as its broker reported, exactly when every mark
  is spared. -/
  exact : Legal Records.apply Vouched s₀ es ↔ Legal Records.apply Spared s₀ es
  /-- A selected order is marked when its broker cannot be reached, or as the broker reported:
  an order that a listing lacks is not. -/
  caused : ∀ before o cause status after, es = before ++ .marks o cause status :: after →
    cause = .unreachable ∨ Reported (replay Records.apply s₀ before) o status
  /-- A recovery answers for every order it selected, in their order. -/
  answered : ∀ rows results, .returns rows results ∈ es →
    results.map Outcome.orderId = rows.map OrderRow.brokerOrderId

theorem recovery_law {P : Pool Records RecoveryEffect RecoveryReply Unit}
    (h : system.Run ⟨s₀, []⟩ es P) : RecoveryLaw s₀ es := by
  have hfacts := recoveryFacts_of_run h
  refine ⟨hfacts.congr fun _ _ he => vouched_iff he, ?_, ?_⟩
  · rintro before o cause status after rfl
    have hat := hfacts.at
    cases cause with
    | unreachable => exact .inl rfl
    | listed entry => exact .inr hat.2
  · intro rows results hreturns
    obtain ⟨before, after, rfl⟩ := List.append_of_mem hreturns
    exact hfacts.at

def broker (book : Option (List BookEntry)) : (i : RecoveryPoint) → RecoveryReply i
  | .select => true
  | .connect _ _ => (.ok book.isSome : Except Raised Bool)
  | .orderbook _ _ => (.ok (book.getD []) : Except Raised (List BookEntry))
  | .write => true

def pendingRow : OrderRow where
  id := 0
  userId := "u1"
  clientOrderId := "r1"
  broker := "dhan"
  brokerOrderId := "b1"
  createdAt := 0

/-- An order that is listed as filled is marked so. -/
theorem recovery_law_listed : ∃ es P, system.Run ⟨{ orders := [pendingRow] }, []⟩ es P ∧
    P.state.orders.map OrderRow.status = ["FILLED"] ∧
      Legal Records.apply Vouched { orders := [pendingRow] } es ∧
        RecoveryLaw { orders := [pendingRow] } es := by
  obtain ⟨es, P, hrun, hfilled, hlegal⟩ := System.exists_run system ⟨{ orders := [pendingRow] }, []⟩
    (.start () :: List.replicate 4 (.resume 0
      (broker (some [⟨"b0", "b0", .rejected⟩, ⟨"b1", "b1", .filled⟩]))))
    (p := fun es P => P.state.orders.map OrderRow.status = ["FILLED"] ∧
      Legal Records.apply Vouched { orders := [pendingRow] } es) (by decide)
  exact ⟨es, P, hrun, hfilled, hlegal, recovery_law hrun⟩

/-- An order whose broker cannot be reached is marked as failed. -/
theorem recovery_unreachable : ∃ es P, system.Run ⟨{ orders := [pendingRow] }, []⟩ es P ∧
    P.state.orders.map OrderRow.status = ["FAILED"] ∧
      ¬ Legal Records.apply Vouched { orders := [pendingRow] } es :=
  System.exists_run system ⟨{ orders := [pendingRow] }, []⟩
    (.start () :: List.replicate 3 (.resume 0 (broker none)))
    (p := fun es P => P.state.orders.map OrderRow.status = ["FAILED"] ∧
      ¬ Legal Records.apply Vouched { orders := [pendingRow] } es) (by decide)

end Law

end Trademetrix.Execution.Recovery
