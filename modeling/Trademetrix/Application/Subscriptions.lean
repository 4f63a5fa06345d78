import Mathlib.Data.Int.Notation
import Mathlib.Tactic.Common
import Trademetrix.LastWrite

/-!
# Subscription webhooks

`SubscriptionService.handle_webhook`: an event of the payment provider is
looked up among the processed ones, updates some columns of its subscription's
row and is then marked as processed. A read of the processed events that fails
counts as not found, a mark that fails is only logged. Times are Unix seconds.
-/

namespace Trademetrix.Application

inductive SubscriptionStatus
  | created | authenticated | active | halted | cancelled | completed | expired
  deriving DecidableEq, Repr

/-- The event types that the handler knows, without `subscription.` in front. -/
inductive WebhookEvent
  | activated | authenticated | charged | pending | halted | cancelled | completed
  | other (event : String)
  deriving DecidableEq

structure SubscriptionEntity where
  id : String
  planId : String
  currentStart : Option ℤ := none
  currentEnd : Option ℤ := none
  endAt : Option ℤ := none
  deriving DecidableEq

structure WebhookPayload where
  event : WebhookEvent
  id : String
  entity : Option SubscriptionEntity
  deriving DecidableEq

structure SubscriptionRow where
  tier : String
  status : SubscriptionStatus
  currentPeriodStart : Option ℤ := none
  currentPeriodEnd : Option ℤ := none
  deriving DecidableEq

structure RowUpdates where
  status : Option SubscriptionStatus := none
  tier : Option String := none
  currentPeriodStart : Option (Option ℤ) := none
  currentPeriodEnd : Option (Option ℤ) := none

def SubscriptionRow.put (row : SubscriptionRow) (u : RowUpdates) : SubscriptionRow where
  tier := u.tier.getD row.tier
  status := u.status.getD row.status
  currentPeriodStart := u.currentPeriodStart.getD row.currentPeriodStart
  currentPeriodEnd := u.currentPeriodEnd.getD row.currentPeriodEnd

structure RazorpayPlans where
  monthly : String
  quarterly : String
  halfyearly : String
  yearly : String

def RazorpayPlans.tierForPlan (plans : RazorpayPlans) (planId : String) : Option String :=
  if planId = plans.yearly then some "yearly"
  else if planId = plans.halfyearly then some "halfyearly"
  else if planId = plans.quarterly then some "quarterly"
  else if planId = plans.monthly then some "monthly"
  else none

/-- `_ts`: a missing time and 0 are null. -/
def ts (val : Option ℤ) : Option ℤ := val.filter fun t => decide (t ≠ 0)

def WebhookEvent.updates (tier : String) (entity : SubscriptionEntity) :
    WebhookEvent → Option RowUpdates
  | .activated | .authenticated =>
    let periodEnd := if (ts entity.currentEnd).isNone then ts entity.endAt else ts entity.currentEnd
    some {
      status := some .active
      tier := some tier
      currentPeriodStart := some (ts entity.currentStart)
      currentPeriodEnd := some periodEnd }
  | .charged =>
    if (ts entity.currentEnd).isSome then
      some {
        currentPeriodEnd := some (ts entity.currentEnd)
        currentPeriodStart := some (ts entity.currentStart) }
    else none
  | .pending | .halted => some { status := some .halted }
  | .cancelled =>
    some { status := some .cancelled, currentPeriodEnd := some (ts entity.currentEnd) }
  | .completed =>
    some { status := some .completed, currentPeriodEnd := some (ts entity.currentEnd) }
  | .other _ => none

structure WebhookIo where
  reads : Bool := true
  updates : Bool := true
  marks : Bool := true

/-- A request as it arrives; `body` is none where it is no JSON. -/
structure Delivery where
  body : Option WebhookPayload
  verified : Bool := true
  io : WebhookIo := {}

inductive WebhookError
  | invalidSignature | invalidJson | missingEventOrId | missingEntity
  | unknownPlan (planId : String)
  | store

inductive WebhookReply
  | alreadyProcessed
  | processed (event : WebhookEvent) (subscriptionId tier : String)

structure SubscriptionStore where
  subscriptions : String → Option SubscriptionRow
  processed : List String := []

namespace SubscriptionStore

variable (plans : RazorpayPlans) (w : SubscriptionStore)

def isEventProcessed (io : WebhookIo) (eventId : String) : Bool :=
  io.reads && decide (eventId ∈ w.processed)

def markEventProcessed (io : WebhookIo) (eventId : String) : SubscriptionStore :=
  if io.marks then { w with processed := w.processed ++ [eventId] } else w

def updateSubscriptionRow (razorpaySubId : String) (updates : RowUpdates) : SubscriptionStore :=
  { w with
    subscriptions := fun id =>
      if id = razorpaySubId then (w.subscriptions id).map fun row => row.put updates
      else w.subscriptions id }

def handleWebhook (d : Delivery) : SubscriptionStore × Except WebhookError WebhookReply :=
  if !d.verified then (w, .error .invalidSignature)
  else match d.body with
  | none => (w, .error .invalidJson)
  | some p =>
    if p.event = .other "" ∨ p.id = "" then (w, .error .missingEventOrId)
    else if w.isEventProcessed d.io p.id then (w, .ok .alreadyProcessed)
    else match p.entity with
    | none => (w, .error .missingEntity)
    | some entity =>
      match plans.tierForPlan entity.planId with
      | none => (w, .error (.unknownPlan entity.planId))
      | some tier =>
        match p.event.updates tier entity with
        | none => (w.markEventProcessed d.io p.id, .ok (.processed p.event entity.id tier))
        | some updates =>
          -- an update that raises leaves the event unmarked
          if d.io.updates then
            ((w.updateSubscriptionRow entity.id updates).markEventProcessed d.io p.id,
              .ok (.processed p.event entity.id tier))
          else (w, .error .store)

def run (ds : List Delivery) : SubscriptionStore :=
  ds.foldl (fun w d => (w.handleWebhook plans d).1) w

end SubscriptionStore

end Trademetrix.Application

/-!
# Subscription events in any order

A run of the handler applies some of the delivered events to the row, each
column of which keeps the last write. Events of one subscription, delivered in
any order and any number of times, with reads, updates and marks that may fail,
settle the row when all that write a column write the same value into it.
-/

namespace Trademetrix.Application

def SubscriptionStatus.IsFinal (status : SubscriptionStatus) : Prop :=
  status = .cancelled ∨ status = .completed

instance (status : SubscriptionStatus) : Decidable status.IsFinal := inferInstanceAs (Decidable (_ ∨ _))

theorem final_ne_active {status : SubscriptionStatus} (h : status.IsFinal) : status ≠ .active := by
  rcases h with rfl | rfl <;> decide

/-- A period end that does not move backwards or become null. -/
def Forward (old new : Option ℤ) : Prop := ∀ t ∈ old, ∃ t' ∈ new, t ≤ t'

instance (old new : Option ℤ) : Decidable (Forward old new) :=
  inferInstanceAs (Decidable (∀ t ∈ old, ∃ t' ∈ new, t ≤ t'))

theorem Forward.refl (t : Option ℤ) : Forward t t := fun x hx => ⟨x, hx, Int.le_refl x⟩

structure Column (β : Type) where
  read : SubscriptionRow → β
  write : RowUpdates → Option β
  read_put : ∀ row u, read (row.put u) = (write u).getD (read row)

def Column.status : Column SubscriptionStatus := ⟨SubscriptionRow.status, RowUpdates.status, fun _ _ => rfl⟩

def Column.periodEnd : Column (Option ℤ) :=
  ⟨SubscriptionRow.currentPeriodEnd, RowUpdates.currentPeriodEnd, fun _ _ => rfl⟩

namespace WebhookPayload

variable (plans : RazorpayPlans) (p : WebhookPayload)

def update : Option RowUpdates :=
  if p.event = .other "" ∨ p.id = "" then none
  else p.entity.bind fun entity =>
    (plans.tierForPlan entity.planId).bind fun tier => p.event.updates tier entity

def sets {β : Type} (c : Column β) : Option β := (p.update plans).bind c.write

end WebhookPayload

def SubscriptionRow.after (plans : RazorpayPlans) (row : SubscriptionRow) (ps : List WebhookPayload) :
    SubscriptionRow :=
  ps.foldl (fun row p => ((p.update plans).map row.put).getD row) row

theorem Column.read_after {β : Type} (c : Column β) (plans : RazorpayPlans) (row : SubscriptionRow)
    (ps : List WebhookPayload) :
    c.read (row.after plans ps) = lastWrite (fun p => p.sets plans c) (c.read row) ps := by
  induction ps generalizing row with
  | nil => rfl
  | cons p ps ih =>
    have hstep : c.read (((p.update plans).map row.put).getD row) =
        (p.sets plans c).getD (c.read row) := by
      rw [WebhookPayload.sets]
      cases p.update plans with
      | none => rfl
      | some u => exact c.read_put row u
    exact (ih _).trans (congrArg (lastWrite _ · ps) hstep)

namespace SubscriptionStore

variable {plans : RazorpayPlans} {w : SubscriptionStore} {s : String} {S : List WebhookPayload}
  {row : SubscriptionRow} {p : WebhookPayload} {d : Delivery} {ds : List Delivery}

def applies (plans : RazorpayPlans) (w : SubscriptionStore) (d : Delivery) : Option WebhookPayload :=
  d.body.filter fun p =>
    d.verified && !w.isEventProcessed d.io p.id && (p.update plans).isSome && d.io.updates

def applied (plans : RazorpayPlans) (w : SubscriptionStore) : List Delivery → List WebhookPayload
  | [] => []
  | d :: ds => (w.applies plans d).toList ++ applied plans (w.handleWebhook plans d).1 ds

theorem applies_eq_some : w.applies plans d = some p ↔
    d.body = some p ∧ d.verified ∧ w.isEventProcessed d.io p.id = false ∧
      (p.update plans).isSome ∧ d.io.updates := by
  simp [applies, Option.filter_eq_some_iff, and_assoc]

@[simp] theorem markEventProcessed_subscriptions (io : WebhookIo) (id : String) :
    (w.markEventProcessed io id).subscriptions = w.subscriptions := by
  rw [markEventProcessed]
  split <;> rfl

theorem mem_markEventProcessed {io : WebhookIo} {id x : String}
    (h : x ∈ (w.markEventProcessed io id).processed) : x ∈ w.processed ∨ x = id := by
  rw [markEventProcessed] at h
  split at h
  · simpa using h
  · exact .inl h

theorem handleWebhook_spec (plans : RazorpayPlans) (w : SubscriptionStore) (d : Delivery) :
    (∃ p entity u, w.applies plans d = some p ∧ p.entity = some entity ∧ p.update plans = some u ∧
        (w.handleWebhook plans d).1 =
          (w.updateSubscriptionRow entity.id u).markEventProcessed d.io p.id) ∨
      w.applies plans d = none ∧ (w.handleWebhook plans d).1.subscriptions = w.subscriptions ∧
        ∀ x ∈ (w.handleWebhook plans d).1.processed, x ∈ w.processed ∨
          ∃ p, d.body = some p ∧ p.id = x ∧ p.update plans = none := by
  rw [handleWebhook]
  split
  · next hunverified =>
    have hnone : w.applies plans d = none := by
      refine Option.eq_none_iff_forall_ne_some.mpr fun p h => ?_
      simp [(applies_eq_some.mp h).2.1] at hunverified
    exact .inr ⟨hnone, rfl, fun x hx => .inl hx⟩
  · next hverified =>
    cases hbody : d.body with
    | none => exact .inr ⟨by simp [applies, hbody], rfl, fun x hx => .inl hx⟩
    | some p =>
      dsimp only
      split
      · next hmissing =>
        exact .inr ⟨by simp [applies, hbody, WebhookPayload.update, hmissing], rfl, fun x hx => .inl hx⟩
      · next hpresent =>
        split
        · next hprocessed =>
          exact .inr ⟨by simp [applies, hbody, hprocessed], rfl, fun x hx => .inl hx⟩
        · next hnew =>
          have hidle : p.update plans = none → w.applies plans d = none := by
            intro hupdate
            simp [applies, hbody, hupdate]
          cases hentity : p.entity with
          | none =>
            have hupdate : p.update plans = none := by simp [WebhookPayload.update, hentity]
            exact .inr ⟨hidle hupdate, rfl, fun x hx => .inl hx⟩
          | some entity =>
            cases htier : plans.tierForPlan entity.planId with
            | none =>
              have hupdate : p.update plans = none := by
                simp [WebhookPayload.update, hentity, htier]
              exact .inr ⟨hidle hupdate, by simp only [htier], fun x hx => .inl (by simpa only [htier] using hx)⟩
            | some tier =>
              have hupdate : p.update plans = p.event.updates tier entity := by
                simp [WebhookPayload.update, hpresent, hentity, htier]
              simp only [htier]
              cases hu : p.event.updates tier entity with
              | none =>
                rw [hu] at hupdate
                refine .inr ⟨hidle hupdate, markEventProcessed_subscriptions _ _, fun x hx => ?_⟩
                rcases mem_markEventProcessed hx with hx | hx
                · exact .inl hx
                · exact .inr ⟨p, rfl, hx.symm, hupdate⟩
              | some u =>
                rw [hu] at hupdate
                cases hio : d.io.updates with
                | false => exact .inr ⟨by simp [applies, hbody, hio], rfl, fun x hx => .inl hx⟩
                | true =>
                  refine .inl ⟨p, entity, u, ?_, hentity, hupdate, rfl⟩
                  simp_all [applies_eq_some]

structure NewEvents (w : SubscriptionStore) (s : String) (S : List WebhookPayload) : Prop where
  ofSubscription : ∀ p ∈ S, ∀ entity ∈ p.entity, entity.id = s
  unprocessed : ∀ p ∈ S, p.id ∉ w.processed
  distinct : ∀ p ∈ S, ∀ q ∈ S, p.id = q.id → p = q

def From (S : List WebhookPayload) (ds : List Delivery) : Prop := ∀ d ∈ ds, ∃ p ∈ S, d.body = some p

/-- The requests carry the events, each of them any number of times and at least once verified and
with a store that takes its update. -/
structure Delivers (S : List WebhookPayload) (ds : List Delivery) : Prop where
  only : From S ds
  all : ∀ p ∈ S, ∃ d ∈ ds, d.body = some p ∧ d.verified ∧ d.io.updates

/-- What is asked of the runs over the events: one final status and period end, a subscription that
was cancelled or completed is not active later, and the period end never moves back. -/
structure Settles (plans : RazorpayPlans) (w : SubscriptionStore) (s : String)
    (S : List WebhookPayload) : Prop where
  confluent : ∀ ds ds', Delivers S ds → Delivers S ds' →
    ((w.run plans ds).subscriptions s).map (fun row => (row.status, row.currentPeriodEnd)) =
      ((w.run plans ds').subscriptions s).map fun row => (row.status, row.currentPeriodEnd)
  notReactivated : ∀ earlier later, From S (earlier ++ later) →
    ∀ row ∈ (w.run plans earlier).subscriptions s, row.status.IsFinal →
      ∀ row' ∈ (w.run plans (earlier ++ later)).subscriptions s, row'.status ≠ .active
  forward : ∀ ds d, From S (ds ++ [d]) →
    ∀ row ∈ (w.run plans ds).subscriptions s, ∀ row' ∈ (w.run plans (ds ++ [d])).subscriptions s,
      Forward row.currentPeriodEnd row'.currentPeriodEnd

/-- The events that write a column write the same into it; they do not activate a row that is
cancelled or completed, and the period end they write is no step back from the row's. -/
structure Agree (plans : RazorpayPlans) (row : SubscriptionRow) (S : List WebhookPayload) : Prop where
  status : ∀ p ∈ S, ∀ q ∈ S, ∀ a ∈ p.sets plans .status, ∀ b ∈ q.sets plans .status, a = b
  periodEnd : ∀ p ∈ S, ∀ q ∈ S, ∀ a ∈ p.sets plans .periodEnd, ∀ b ∈ q.sets plans .periodEnd, a = b
  notReactivated : row.status.IsFinal → ∀ p ∈ S, p.sets plans .status ≠ some .active
  forward : ∀ p ∈ S, ∀ a ∈ p.sets plans .periodEnd, Forward row.currentPeriodEnd a

theorem subscriptions_handleWebhook (hs : ∀ p ∈ d.body, ∀ entity ∈ p.entity, entity.id = s) :
    (w.handleWebhook plans d).1.subscriptions s =
      (w.subscriptions s).map fun row => row.after plans (w.applies plans d).toList := by
  rcases handleWebhook_spec plans w d with ⟨p, entity, u, happlies, hentity, hupdate, hw⟩ |
    ⟨hnone, hsame, -⟩
  · have hid : entity.id = s := hs p (applies_eq_some.mp happlies).1 entity hentity
    simp [hw, updateSubscriptionRow, hid, happlies, SubscriptionRow.after, hupdate]
  · simp [hsame, hnone, SubscriptionRow.after]

theorem run_cons (ds : List Delivery) :
    w.run plans (d :: ds) = (w.handleWebhook plans d).1.run plans ds := rfl

theorem run_append (ds ds' : List Delivery) :
    w.run plans (ds ++ ds') = (w.run plans ds).run plans ds' := List.foldl_append

theorem subscriptions_run (hs : ∀ p ∈ S, ∀ entity ∈ p.entity, entity.id = s) (hfrom : From S ds) :
    (w.run plans ds).subscriptions s =
      (w.subscriptions s).map fun row => row.after plans (applied plans w ds) := by
  induction ds generalizing w with
  | nil => simp [run, applied, SubscriptionRow.after]
  | cons d ds ih =>
    have hd : ∀ p ∈ d.body, ∀ entity ∈ p.entity, entity.id = s := by
      intro p hp
      obtain ⟨q, hq, hbody⟩ := hfrom d List.mem_cons_self
      obtain rfl : q = p := Option.some.inj (hbody.symm.trans hp)
      exact hs q hq
    rw [run_cons, ih fun x hx => hfrom x (List.mem_cons_of_mem d hx), subscriptions_handleWebhook hd,
      Option.map_map]
    congr 1
    funext row
    exact List.foldl_append.symm

theorem applied_append (ds ds' : List Delivery) :
    applied plans w (ds ++ ds') = applied plans w ds ++ applied plans (w.run plans ds) ds' := by
  induction ds generalizing w with
  | nil => rfl
  | cons d ds ih => rw [List.cons_append, applied, applied, ih, List.append_assoc, run_cons]

theorem applied_from (hfrom : From S ds) : ∀ p ∈ applied plans w ds, p ∈ S := by
  induction ds generalizing w with
  | nil => exact fun p hp => absurd hp List.not_mem_nil
  | cons d ds ih =>
    intro p hp
    rcases List.mem_append.mp hp with hp | hp
    · obtain ⟨q, hq, hbody⟩ := hfrom d List.mem_cons_self
      have := (applies_eq_some.mp (Option.mem_toList.mp hp)).1
      rwa [Option.some.inj (this.symm.trans hbody)]
    · exact ih (fun x hx => hfrom x (List.mem_cons_of_mem d hx)) p hp

theorem mem_applied (hdistinct : ∀ p ∈ S, ∀ q ∈ S, p.id = q.id → p = q) (hfrom : From S ds)
    (past : List WebhookPayload)
    (hpast : ∀ q ∈ S, q.id ∈ w.processed → (q.update plans).isSome → q ∈ past)
    (hp : p ∈ S) (hupdate : (p.update plans).isSome) (hd : d ∈ ds) (hbody : d.body = some p)
    (hverified : d.verified) (hio : d.io.updates) : p ∈ past ++ applied plans w ds := by
  induction ds generalizing w past with
  | nil => cases hd
  | cons x ds ih =>
    have hrest : From S ds := fun y hy => hfrom y (List.mem_cons_of_mem x hy)
    have hpast' : ∀ q ∈ S, q.id ∈ (w.handleWebhook plans x).1.processed →
        (q.update plans).isSome → q ∈ past ++ (w.applies plans x).toList := by
      intro q hq hprocessed hsome
      obtain ⟨r, hr, hrbody⟩ := hfrom x List.mem_cons_self
      rcases handleWebhook_spec plans w x with ⟨r', entity, u, happlies, -, -, hw⟩ | ⟨-, -, hmarks⟩
      · rw [hw] at hprocessed
        rcases mem_markEventProcessed hprocessed with hold | hid
        · exact List.mem_append_left _ (hpast q hq hold hsome)
        · have hrr : r' = r := Option.some.inj ((applies_eq_some.mp happlies).1.symm.trans hrbody)
          rw [hdistinct q hq r' (hrr ▸ hr) hid, happlies]
          simp
      · rcases hmarks _ hprocessed with hold | ⟨r', hr', hid, hnone⟩
        · exact List.mem_append_left _ (hpast q hq hold hsome)
        · have hrr : r' = r := Option.some.inj (hr'.symm.trans hrbody)
          rw [← hdistinct r' (hrr ▸ hr) q hq hid, hnone] at hsome
          cases hsome
    rw [applied, ← List.append_assoc]
    rcases List.mem_cons.mp hd with rfl | hd
    · cases hprocessed : w.isEventProcessed d.io p.id with
      | true =>
        have hid : p.id ∈ w.processed := by
          rw [isEventProcessed, Bool.and_eq_true, decide_eq_true_eq] at hprocessed
          exact hprocessed.2
        simp [hpast p hp hid hupdate]
      | false =>
        have happlies : w.applies plans d = some p :=
          applies_eq_some.mpr ⟨hbody, hverified, hprocessed, hupdate, hio⟩
        simp [happlies]
    · exact ih hrest _ hpast' hd

theorem update_isSome {β : Type} {c : Column β} {a : β} (h : p.sets plans c = some a) :
    (p.update plans).isSome := by
  obtain ⟨u, hu, -⟩ := Option.bind_eq_some_iff.mp h
  rw [hu]
  rfl

theorem column_confluent {β : Type} (c : Column β) (hnew : NewEvents w s S) (row : SubscriptionRow)
    (hagree : ∀ p ∈ S, ∀ q ∈ S, ∀ a ∈ p.sets plans c, ∀ b ∈ q.sets plans c, a = b)
    {ds' : List Delivery} (hds : Delivers S ds) (hds' : Delivers S ds') :
    c.read (row.after plans (applied plans w ds)) = c.read (row.after plans (applied plans w ds')) := by
  have hreach : ∀ {xs ys : List Delivery}, Delivers S xs → Delivers S ys →
      ∀ p ∈ applied plans w xs, (p.sets plans c).isSome → p ∈ applied plans w ys := by
    intro xs ys hxs hys p hp hsome
    have hpS := applied_from hxs.only p hp
    obtain ⟨a, ha⟩ := Option.isSome_iff_exists.mp hsome
    obtain ⟨d, hd, hbody, hverified, hio⟩ := hys.all p hpS
    exact mem_applied hnew.distinct hys.only [] (fun q hq h => absurd h (hnew.unprocessed q hq)) hpS
      (update_isSome ha) hd hbody hverified hio
  rw [Column.read_after, Column.read_after]
  exact lastWrite_congr
    (fun p hp q hq => hagree p (applied_from hds.only p hp) q (applied_from hds'.only q hq))
    (hreach hds hds') (hreach hds' hds)

theorem column_change {β : Type} (c : Column β) (row : SubscriptionRow)
    (hagree : ∀ p ∈ S, ∀ q ∈ S, ∀ a ∈ p.sets plans c, ∀ b ∈ q.sets plans c, a = b)
    {ds' : List Delivery} (hfrom : From S (ds ++ ds')) :
    c.read (row.after plans (applied plans w (ds ++ ds'))) =
        c.read (row.after plans (applied plans w ds)) ∨
      ∃ q ∈ S, q.sets plans c = some (c.read (row.after plans (applied plans w (ds ++ ds')))) ∧
        c.read (row.after plans (applied plans w ds)) = c.read row := by
  have hbefore := c.read_after plans row (applied plans w ds)
  have hafter := c.read_after plans row (applied plans w ds ++ applied plans (w.run plans ds) ds')
  rw [lastWrite_append, ← hbefore] at hafter
  rw [applied_append]
  rcases lastWrite_cases (fun p => p.sets plans c) (c.read (row.after plans (applied plans w ds)))
      (applied plans (w.run plans ds) ds') with ⟨-, hkept⟩ | ⟨q, hq, hwrite⟩
  · exact .inl (hafter.trans hkept)
  · rw [← hafter] at hwrite
    have hqS := applied_from (fun x hx => hfrom x (List.mem_append_right _ hx)) q hq
    rcases lastWrite_cases (fun p => p.sets plans c) (c.read row) (applied plans w ds) with
      ⟨-, hkept⟩ | ⟨m, hm, hwrite'⟩
    · exact .inr ⟨q, hqS, hwrite, hbefore.trans hkept⟩
    · rw [← hbefore] at hwrite'
      have hmS := applied_from (fun x hx => hfrom x (List.mem_append_left _ hx)) m hm
      exact .inl (hagree q hqS m hmS _ hwrite _ hwrite')

def anew (p : WebhookPayload) : Delivery := { body := some p, io := { reads := false } }

theorem delivers_anew (hp : p ∈ S) : Delivers S (S.map anew ++ [anew p]) := by
  constructor
  · intro d hd
    rcases List.mem_append.mp hd with hd | hd
    · obtain ⟨q, hq, rfl⟩ := List.mem_map.mp hd
      exact ⟨q, hq, rfl⟩
    · rw [List.mem_singleton.mp hd]
      exact ⟨p, hp, rfl⟩
  · intro q hq
    exact ⟨anew q, List.mem_append_left _ (List.mem_map_of_mem hq), rfl, rfl, rfl⟩

theorem column_anew {β : Type} (c : Column β) (ds : List Delivery) (hnew : NewEvents w s S) (hp : p ∈ S) {a : β}
    (ha : p.sets plans c = some a) (hrow : (w.run plans ds).subscriptions s = some row) :
    ∃ row', (w.run plans (ds ++ [anew p])).subscriptions s = some row' ∧ c.read row' = a := by
  have happlies : (w.run plans ds).applies plans (anew p) = some p :=
    applies_eq_some.mpr ⟨rfl, rfl, rfl, update_isSome ha, rfl⟩
  have hs : ∀ q ∈ (anew p).body, ∀ entity ∈ q.entity, entity.id = s := by
    rintro q ⟨⟩
    exact hnew.ofSubscription p hp
  refine ⟨row.after plans [p], ?_, ?_⟩
  · rw [run_append]
    change ((w.run plans ds).handleWebhook plans (anew p)).1.subscriptions s = _
    rw [subscriptions_handleWebhook hs, hrow, happlies]
    rfl
  · rw [Column.read_after, ← List.nil_append [p], lastWrite_concat, ha]
    rfl

theorem get_run (hrow : w.subscriptions s = some row) (hnew : NewEvents w s S) (hfrom : From S ds) :
    (w.run plans ds).subscriptions s = some (row.after plans (applied plans w ds)) := by
  rw [subscriptions_run hnew.ofSubscription hfrom, hrow, Option.map_some]

theorem column_agree {β : Type} (c : Column β) (hrow : w.subscriptions s = some row)
    (hnew : NewEvents w s S)
    (hconfluent : ∀ ds ds', Delivers S ds → Delivers S ds' →
      c.read (row.after plans (applied plans w ds)) = c.read (row.after plans (applied plans w ds'))) :
    ∀ p ∈ S, ∀ q ∈ S, ∀ a ∈ p.sets plans c, ∀ b ∈ q.sets plans c, a = b := by
  have hlast : ∀ p ∈ S, ∀ a ∈ p.sets plans c,
      c.read (row.after plans (applied plans w (S.map anew ++ [anew p]))) = a := by
    intro p hp a ha
    have hmap : From S (S.map anew) := fun d hd =>
      (delivers_anew hp).only d (List.mem_append_left _ hd)
    obtain ⟨row', hrow', hread⟩ := column_anew c _ hnew hp ha (get_run hrow hnew hmap)
    rw [get_run hrow hnew (delivers_anew hp).only] at hrow'
    rw [Option.some.inj hrow', hread]
  intro p hp q hq a ha b hb
  rw [← hlast p hp a ha, ← hlast q hq b hb]
  exact hconfluent _ _ (delivers_anew hp) (delivers_anew hq)

theorem Settles.agree (hrow : w.subscriptions s = some row) (hnew : NewEvents w s S)
    (h : Settles plans w s S) : Agree plans row S := by
  have hboth : ∀ ds ds', Delivers S ds → Delivers S ds' →
      ((row.after plans (applied plans w ds)).status,
        (row.after plans (applied plans w ds)).currentPeriodEnd) =
      ((row.after plans (applied plans w ds')).status,
        (row.after plans (applied plans w ds')).currentPeriodEnd) := by
    intro ds ds' hds hds'
    have heq := h.confluent ds ds' hds hds'
    rw [get_run hrow hnew hds.only, get_run hrow hnew hds'.only] at heq
    exact Option.some.inj heq
  have hone : ∀ p ∈ S, From S ([] ++ [anew p]) := by
    intro p hp d hd
    rw [List.nil_append, List.mem_singleton] at hd
    exact ⟨p, hp, by rw [hd]; rfl⟩
  constructor
  · exact column_agree .status hrow hnew fun ds ds' hds hds' => (Prod.mk.inj (hboth ds ds' hds hds')).1
  · exact column_agree .periodEnd hrow hnew fun ds ds' hds hds' =>
      (Prod.mk.inj (hboth ds ds' hds hds')).2
  · intro hfinal p hp ha
    obtain ⟨row', hrow', hread⟩ := column_anew .status [] hnew hp ha hrow
    exact h.notReactivated [] [anew p] (hone p hp) row hrow hfinal row' hrow' hread
  · intro p hp a ha
    obtain ⟨row', hrow', hread⟩ := column_anew .periodEnd [] hnew hp ha hrow
    rw [← hread]
    exact h.forward [] (anew p) (hone p hp) row hrow row' hrow'

theorem Agree.settles (hrow : w.subscriptions s = some row) (hnew : NewEvents w s S)
    (h : Agree plans row S) : Settles plans w s S := by
  constructor
  · intro ds ds' hds hds'
    rw [get_run hrow hnew hds.only, get_run hrow hnew hds'.only]
    have hstatus := column_confluent .status hnew row h.status hds hds'
    have hend := column_confluent .periodEnd hnew row h.periodEnd hds hds'
    exact congrArg some (Prod.ext hstatus hend)
  · intro earlier later hfrom row₁ hrow₁ hfinal row₂ hrow₂ hactive
    rw [get_run hrow hnew fun d hd => hfrom d (List.mem_append_left _ hd)] at hrow₁
    rw [get_run hrow hnew hfrom] at hrow₂
    obtain rfl := Option.some.inj hrow₁
    obtain rfl := Option.some.inj hrow₂
    rcases column_change .status row h.status hfrom with hsame | ⟨q, hq, hwrite, hkept⟩
    · exact final_ne_active hfinal (hsame.symm.trans hactive)
    · have hrowFinal : row.status.IsFinal := by
        have hkept' : (row.after plans (applied plans w earlier)).status = row.status := hkept
        rwa [← hkept']
      exact h.notReactivated hrowFinal q hq (hwrite.trans (congrArg some hactive))
  · intro ds d hfrom row₁ hrow₁ row₂ hrow₂
    rw [get_run hrow hnew fun x hx => hfrom x (List.mem_append_left _ hx)] at hrow₁
    rw [get_run hrow hnew hfrom] at hrow₂
    obtain rfl := Option.some.inj hrow₁
    obtain rfl := Option.some.inj hrow₂
    rcases column_change .periodEnd row h.periodEnd hfrom with hsame | ⟨q, hq, hwrite, hkept⟩
    · have hsame' : (row.after plans (applied plans w (ds ++ [d]))).currentPeriodEnd =
          (row.after plans (applied plans w ds)).currentPeriodEnd := hsame
      rw [hsame']
      exact Forward.refl _
    · have hkept' : (row.after plans (applied plans w ds)).currentPeriodEnd =
          row.currentPeriodEnd := hkept
      rw [hkept']
      exact h.forward q hq _ hwrite

/-- The events settle the row exactly when they agree. -/
theorem settles_iff (plans : RazorpayPlans) (w : SubscriptionStore) (s : String)
    (S : List WebhookPayload) (row : SubscriptionRow) (hrow : w.subscriptions s = some row)
    (hnew : NewEvents w s S) : Settles plans w s S ↔ Agree plans row S :=
  ⟨Settles.agree hrow hnew, Agree.settles hrow hnew⟩

def created : SubscriptionStore where
  subscriptions id := if id = "sub_1" then some ⟨"monthly", .created, none, none⟩ else none

def monthlyPlans : RazorpayPlans := ⟨"plan_m", "plan_q", "plan_h", "plan_y"⟩

def activatedEvent : WebhookPayload :=
  ⟨.activated, "evt_1", some { id := "sub_1", planId := "plan_m", currentEnd := some 2000 }⟩

def chargedEvent : WebhookPayload :=
  ⟨.charged, "evt_2", some { id := "sub_1", planId := "plan_m", currentEnd := some 2000 }⟩

def cancelledEvent : WebhookPayload :=
  ⟨.cancelled, "evt_3", some { id := "sub_1", planId := "plan_m" }⟩

theorem settles_charged : Settles monthlyPlans created "sub_1" [activatedEvent, chargedEvent] := by
  refine (settles_iff monthlyPlans created "sub_1" [activatedEvent, chargedEvent]
    ⟨"monthly", .created, none, none⟩ rfl ⟨?_, ?_, ?_⟩).mpr ⟨?_, ?_, ?_, ?_⟩
  all_goals decide

/-- Cancelled and then, late, activated, the subscription is active; in the other order it is
cancelled and its period end null. -/
theorem late_activation_reactivates :
    ¬ Settles monthlyPlans created "sub_1" [activatedEvent, cancelledEvent] ∧
      (created.run monthlyPlans [{ body := cancelledEvent }, { body := activatedEvent }]).subscriptions
        "sub_1" = some ⟨"monthly", .active, none, some 2000⟩ ∧
      (created.run monthlyPlans [{ body := activatedEvent }, { body := cancelledEvent }]).subscriptions
        "sub_1" = some ⟨"monthly", .cancelled, none, none⟩ := by
  refine ⟨fun h => ?_, by decide, by decide⟩
  have hfrom : From [activatedEvent, cancelledEvent]
      ([{ body := cancelledEvent }] ++ [{ body := activatedEvent }]) := by
    simp [From]
  exact h.notReactivated _ _ hfrom ⟨"monthly", .cancelled, none, none⟩ (by decide)
    (by decide) ⟨"monthly", .active, none, some 2000⟩ (by decide) rfl

end SubscriptionStore

end Trademetrix.Application
