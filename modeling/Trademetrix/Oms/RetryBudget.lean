import Trademetrix.Oms.Legal

/-!
# The retry budget

How often one order is sent on account of failures and lost replies. `Attempts`
counts these sends over every life of the process; the send of what a partial fill
left over is not one of them. A send is owed by an order that waits in the queue for
one, or that the worker is about to send.
-/

namespace Trademetrix.Oms

open Async
open Execution (ExecutionRequest ExecutionResult)

/-- Per order: the counted sends, and whether it was last put in the queue for the
rest of a partial fill. `counted` says which kind of send the worker prepares. -/
structure Attempts where
  sends : OrderId → ℕ := fun _ => 0
  remainder : OrderId → Bool := fun _ => false
  counted : Bool := true

def Attempts.putBack (g : Attempts) (oid : OrderId) (remainder : Bool) : Attempts :=
  { g with remainder := Function.update g.remainder oid remainder }

def noteAttempts (cfg : Settings) (w : World) (e : Effect) (g : Attempts) : Attempts :=
  match e with
  | .queued r | .retried r | .requeued r => g.putBack (w.heap r).omsOrderId false
  | .answered r res =>
    if res.state = .partiallyFilled ∧ 0 < (w.heap r).remaining res then
      g.putBack (w.heap r).omsOrderId true
    else g
  | .resolved r args lookups =>
    if (reconcile cfg.fromisoformat cfg.obs args lookups w.now).verdict = .notFound then
      g.putBack (w.heap r).omsOrderId false
    else g
  | .markSent r => { g with counted := !g.remainder (w.heap r).omsOrderId }
  | .post r =>
    { g with
      sends := Function.update g.sends (w.heap r).omsOrderId
        (g.sends (w.heap r).omsOrderId + if g.counted then 1 else 0) }
  | _ => g

/-- A send on account of a failure or a lost reply is one of the first
`1 + max_retries`. -/
def BudgetStep (cfg : Settings) (x : World × Attempts) (e : Effect) : Prop :=
  match e with
  | .post r =>
    (noteAttempts cfg x.1 e x.2).sends (x.1.heap r).omsOrderId ≤ 1 + (x.1.heap r).maxRetries
  | _ => True

instance (cfg : Settings) (x : World × Attempts) (e : Effect) : Decidable (BudgetStep cfg x e) := by
  apply Effect.casesOn (motive := fun e => Decidable (BudgetStep cfg x e)) e <;> intros <;>
    (dsimp only [BudgetStep]; infer_instance)

def waiting (g : Attempts) (o : OmniOrder) : ℕ :=
  if o.state = .queued ∧ g.remainder o.omsOrderId = false then 1 else 0

/-- What keeps to the budget: every retry finds some of it left, `place_order` queues an
order never sent, and a row loaded from the store knows of the sends so far. -/
def WithinBudget (cfg : Settings) (x : World × Attempts) : Effect → Prop
  | .queued r => (x.1.heap r).sentAt = none
  | .retried r | .countRetry r _ => (x.1.heap r).retryCount < (x.1.heap r).maxRetries
  | .resolved r args lookups =>
    (reconcile cfg.fromisoformat cfg.obs args lookups x.1.now).verdict = .notFound →
      (x.1.heap r).retryCount < (x.1.heap r).maxRetries
  | .loaded row =>
    (∀ r < x.1.nextRef, (x.1.heap r).omsOrderId ≠ row.omsOrderId) ∧
      row.retryCount ≤ row.maxRetries ∧
      (row.sentAt = none → x.2.sends row.omsOrderId = 0) ∧
      x.2.sends row.omsOrderId + waiting x.2 row ≤ row.retryCount + 1
  | _ => True

instance (cfg : Settings) (x : World × Attempts) (e : Effect) :
    Decidable (WithinBudget cfg x e) := by
  apply Effect.casesOn (motive := fun e => Decidable (WithinBudget cfg x e)) e <;> intros <;>
    (dsimp only [WithinBudget]; infer_instance)

section Step

variable {cfg : Settings} {w : World} {g : Attempts} {e : Effect}

/-- The sends still owed to an order. A refused order is counted again once its retry
is. -/
def owed (x : World × Attempts) (r : Ref) : ℕ :=
  (if x.1.worker = .counting r then 0 else waiting x.2 (x.1.heap r)) +
    if x.1.worker = .preparing r ∧ x.2.counted = true then 1 else 0

structure Budgeted (x : World × Attempts) : Prop where
  unique : Unique x.1
  within : ∀ r < x.1.nextRef,
    x.2.sends (x.1.heap r).omsOrderId + owed x r ≤ (x.1.heap r).retryCount + 1
  budget : ∀ r < x.1.nextRef, (x.1.heap r).retryCount ≤ (x.1.heap r).maxRetries
  unsent : ∀ r < x.1.nextRef, (x.1.heap r).sentAt = none → x.2.sends (x.1.heap r).omsOrderId = 0
  busy : ∀ r, x.1.worker = .preparing r ∨ x.1.worker = .counting r → Sent x.1 r
  fresh : ∀ oid, x.1.nextOid ≤ oid → x.2.sends oid = 0

theorem budgetStep (hs : Step cfg w e) (h : Budgeted (w, g)) : BudgetStep cfg (w, g) e := by
  cases e with
  | post r =>
    have hf : Facts cfg w (.post r) := hs.of_ne nofun
    have hwithin := h.within r hf.1.1
    have hbudget := h.budget r hf.1.1
    have howed : owed (w, g) r = waiting g (w.heap r) + if g.counted = true then 1 else 0 := by
      simp [owed, hf.2]
    simp only [BudgetStep, noteAttempts, Function.update_self]
    simp only at hwithin hbudget
    omega
  | _ => trivial

theorem putBack_remainder_ne {oid q : OrderId} (h : q ≠ oid) (b : Bool) :
    (g.putBack oid b).remainder q = g.remainder q := by
  simp [Attempts.putBack, h]

theorem noteAttempts_counted (hm : ∀ q, e ≠ .markSent q) :
    (noteAttempts cfg w e g).counted = g.counted := by
  cases e with
  | markSent q => exact absurd rfl (hm q)
  | answered q res | resolved q args lookups =>
    simp only [noteAttempts]
    split <;> rfl
  | _ => rfl

theorem noteAttempts_sends (hp : ∀ q, e ≠ .post q) : (noteAttempts cfg w e g).sends = g.sends := by
  cases e with
  | post q => exact absurd rfl (hp q)
  | answered q res | resolved q args lookups =>
    simp only [noteAttempts]
    split <;> rfl
  | _ => rfl

theorem noteAttempts_remainder {oid : OrderId}
    (h : ∀ r f, e.onOrder cfg w = some (r, f) → (w.heap r).omsOrderId ≠ oid) :
    (noteAttempts cfg w e g).remainder oid = g.remainder oid := by
  cases e with
  | queued r | retried r | requeued r => exact putBack_remainder_ne (h r _ rfl).symm _
  | answered r res | resolved r args lookups =>
    simp only [noteAttempts]
    split
    · exact putBack_remainder_ne (h r _ rfl).symm _
    · rfl
  | _ => rfl

theorem worker_frame {q : Ref} (hf : Facts cfg w e)
    (h : ∀ r f, e.onOrder cfg w = some (r, f) → q ≠ r) (hp : e ≠ .post q) (ha : e ≠ .abandoned q) :
    ((World.apply cfg e w).worker = .counting q ↔ w.worker = .counting q) ∧
      ((World.apply cfg e w).worker = .preparing q ↔ w.worker = .preparing q) := by
  by_cases ho : owner e = some .worker
  · cases e with
    | markSent r =>
      have hne := h r _ rfl
      simp [World.apply, hf.2.1, hne.symm]
    | post r =>
      have hne : r ≠ q := fun heq => hp (heq ▸ rfl)
      simp [World.apply, hf.2, hne]
    | abandoned r => simp [World.apply, hf.2]
    | unanswered r | answered r | refused r => simp [World.apply, hf.2]
    | requeued r =>
      have hne := h r _ rfl
      simp [World.apply, hf.2.1, hne.symm]
    | countRetry r =>
      have hne := h r _ rfl
      simp [World.apply, hf.2, hne.symm]
    | _ => cases ho
  · rw [apply_worker ho (facts_ne_crash hf)]
    exact ⟨Iff.rfl, Iff.rfl⟩

theorem owed_frame {q : Ref} (hf : Facts cfg w e) (hu : Unique w) (hq : q < w.nextRef)
    (hheap : (World.apply cfg e w).heap q = w.heap q)
    (h : ∀ r f, e.onOrder cfg w = some (r, f) → r < w.nextRef ∧ q ≠ r)
    (hp : e ≠ .post q) (ha : e ≠ .abandoned q) :
    owed (track (World.apply cfg) (noteAttempts cfg) e (w, g)) q = owed (w, g) q := by
  obtain ⟨hcounting, hpreparing⟩ := worker_frame hf (fun r f ho => (h r f ho).2) hp ha
  have hrem : (noteAttempts cfg w e g).remainder (w.heap q).omsOrderId =
      g.remainder (w.heap q).omsOrderId := by
    refine noteAttempts_remainder fun r f ho heq => ?_
    exact (h r f ho).2 (hu q hq r (h r f ho).1 heq.symm)
  have hprep : (World.apply cfg e w).worker = .preparing q ∧
      (noteAttempts cfg w e g).counted = true ↔ w.worker = .preparing q ∧ g.counted = true := by
    rw [hpreparing]
    refine and_congr_right fun hw => ?_
    rw [noteAttempts_counted]
    rintro r rfl
    have hidle := hf.2.1
    rw [hw] at hidle
    cases hidle
  simp only [owed, waiting, track, hheap, hrem, hcounting, hprep]

theorem waiting_le_one (g : Attempts) (o : OmniOrder) : waiting g o ≤ 1 := by
  unfold waiting
  split <;> omega

theorem waiting_of_ne {o : OmniOrder} (h : o.state ≠ .queued) : waiting g o = 0 := by
  simp [waiting, h]

theorem owed_sending {x : World × Attempts} {r s : Ref} (h : x.1.worker = .sending s) :
    owed x r = waiting x.2 (x.1.heap r) := by
  simp [owed, h]

theorem owed_idle {x : World × Attempts} {r : Ref} (h : x.1.worker = .idle) :
    owed x r = waiting x.2 (x.1.heap r) := by
  simp [owed, h]

theorem owed_le {x y : World × Attempts} {r : Ref} {d : ℕ} (hworker : y.1.worker = x.1.worker)
    (hcounted : y.2.counted = x.2.counted)
    (h : waiting y.2 (y.1.heap r) ≤ waiting x.2 (x.1.heap r) + d) : owed y r ≤ owed x r + d := by
  simp only [owed, hworker, hcounted]
  split
  · omega
  · omega

theorem waiting_write {q : Ref} {f : OmniOrder → OmniOrder} (hf : Facts cfg w e)
    (ho : e.onOrder cfg w = some (q, f))
    (hown : owner e ≠ some .worker) (hqueued : e ≠ .queued q) :
    waiting (noteAttempts cfg w e g) (f (w.heap q)) + (w.heap q).retryCount ≤
      waiting g (w.heap q) + (f (w.heap q)).retryCount := by
  have hone := waiting_le_one (noteAttempts cfg w e g) (f (w.heap q))
  cases e with
  | cancelled r via =>
    cases via <;> cases ho <;> rw [waiting_of_ne (by simp [OmniOrder.cancel])] <;>
      exact Nat.add_le_add_right (Nat.zero_le _) _
  | queued r =>
    cases ho
    exact absurd rfl hqueued
  | note r | modified r | related r =>
    cases ho
    exact le_rfl
  | exhausted r | reconciling r =>
    cases ho
    rw [waiting_of_ne (by simp [OmniOrder.exhausted, OmniOrder.reconciling])]
    exact Nat.add_le_add_right (Nat.zero_le _) _
  | retried r =>
    cases ho
    simp only [OmniOrder.retried] at hone ⊢
    omega
  | remote r entry target =>
    cases ho
    have hmem := OmniOrder.remoteTarget_mem hf.2.2.1
    have hne : target ≠ .queued := by
      rintro rfl
      simp at hmem
    rw [waiting_of_ne hne]
    exact Nat.add_le_add_right (Nat.zero_le _) _
  | resolved r args lookups =>
    cases ho
    have hfound : (reconcile cfg.fromisoformat cfg.obs args lookups w.now).verdict = .accepted →
        (reconcile cfg.fromisoformat cfg.obs args lookups w.now).found.isSome = true :=
      reconcile_accepted
    rcases OmniOrder.resolve_queued (w.heap q) hfound with ⟨-, hrc⟩ | ⟨hst, hrc⟩
    · omega
    · rw [waiting_of_ne hst]
      omega
  | markSent r | unanswered r | answered r | requeued r | countRetry r | refused r =>
    exact absurd rfl hown
  | _ => cases ho

theorem owed_worker {q : Ref} {f : OmniOrder → OmniOrder} (hf : Facts cfg w e)
    (ho : e.onOrder cfg w = some (q, f)) (hown : owner e = some .worker) :
    owed (track (World.apply cfg) (noteAttempts cfg) e (w, g)) q + (w.heap q).retryCount ≤
      owed (w, g) q + (f (w.heap q)).retryCount := by
  cases e with
  | markSent r =>
    cases ho
    have hst := StateMachine.canTransition_sent.mp hf.2.2
    simp only [owed, track, World.apply, World.modify_heap_self, noteAttempts, waiting, hf.2.1, hst,
      OmniOrder.markSent]
    cases hrem : g.remainder (w.heap q).omsOrderId <;> simp
  | unanswered r res | refused r res =>
    cases ho
    simp [owed, track, World.apply, waiting, OmniOrder.unanswered, OmniOrder.refused]
  | answered r res =>
    cases ho
    have hid : (OmniOrder.answered res (w.heap q)).omsOrderId = (w.heap q).omsOrderId := rfl
    have hrc : (OmniOrder.answered res (w.heap q)).retryCount = (w.heap q).retryCount := rfl
    have hzero : waiting (noteAttempts cfg w (.answered q res) g)
        (OmniOrder.answered res (w.heap q)) = 0 := by
      by_cases hrest : res.state = .partiallyFilled ∧ 0 < (w.heap q).remaining res
      · simp [waiting, noteAttempts, hrest, hid, Attempts.putBack]
      · refine waiting_of_ne ?_
        simp only [OmniOrder.answered]
        split
        · simp
        · next hpart => simp_all
        · simp
    simp only [owed, track, World.apply, World.modify_heap_self, hzero, hrc]
    simp
  | requeued r =>
    cases ho
    simp [owed, track, World.apply, OmniOrder.requeued]
  | countRetry r res =>
    cases ho
    have hone := waiting_le_one g (OmniOrder.countRetry res (w.heap q))
    have hrc : (OmniOrder.countRetry res (w.heap q)).retryCount = (w.heap q).retryCount + 1 := rfl
    simp only [owed, track, World.apply, World.modify_heap_self, noteAttempts, hrc]
    simp
    omega
  | _ => first | cases hown; done | cases ho

theorem budget_write {q : Ref} {f : OmniOrder → OmniOrder} (ho : e.onOrder cfg w = some (q, f))
    (hc : WithinBudget cfg (w, g) e) (hb : (w.heap q).retryCount ≤ (w.heap q).maxRetries) :
    (w.heap q).retryCount ≤ (f (w.heap q)).retryCount ∧
      (f (w.heap q)).retryCount ≤ (f (w.heap q)).maxRetries := by
  cases e with
  | cancelled r via => cases via <;> cases ho <;> exact ⟨le_rfl, hb⟩
  | retried r | countRetry r res =>
    cases ho
    have hleft : (w.heap q).retryCount < (w.heap q).maxRetries := hc
    exact ⟨Nat.le_succ _, hleft⟩
  | resolved r args lookups =>
    cases ho
    have hmax : (OmniOrder.resolve (reconcile cfg.fromisoformat cfg.obs args lookups w.now)
        (w.heap q)).maxRetries = (w.heap q).maxRetries := by
      unfold OmniOrder.resolve
      split <;> rfl
    have hfound : (reconcile cfg.fromisoformat cfg.obs args lookups w.now).verdict = .accepted →
        (reconcile cfg.fromisoformat cfg.obs args lookups w.now).found.isSome = true :=
      reconcile_accepted
    rw [hmax]
    rcases OmniOrder.resolve_queued (w.heap q) hfound with ⟨hv, hrc⟩ | ⟨-, hrc⟩
    · have hleft : (w.heap q).retryCount < (w.heap q).maxRetries := hc hv
      omega
    · omega
  | queued r | note r | modified r | related r | exhausted r | markSent r | unanswered r
  | answered r | requeued r | refused r | reconciling r | remote r =>
    cases ho
    exact ⟨le_rfl, hb⟩
  | _ => cases ho

theorem within_write {q : Ref} {f : OmniOrder → OmniOrder} (hf : Facts cfg w e)
    (h : Budgeted (w, g)) (hq : q < w.nextRef) (ho : e.onOrder cfg w = some (q, f))
    (hc : WithinBudget cfg (w, g) e) :
    g.sends (w.heap q).omsOrderId +
        owed (track (World.apply cfg) (noteAttempts cfg) e (w, g)) q ≤
      (f (w.heap q)).retryCount + 1 := by
  have hwithin : g.sends (w.heap q).omsOrderId + owed (w, g) q ≤ (w.heap q).retryCount + 1 :=
    h.within q hq
  by_cases hqueued : e = .queued q
  · subst hqueued
    cases ho
    have hunsent : (w.heap q).sentAt = none := hc
    have hzero : g.sends (w.heap q).omsOrderId = 0 := h.unsent q hq hunsent
    have hidle : w.worker ≠ .preparing q := by
      intro hw
      have hsent := (h.busy q (.inl hw)).2
      simp [hunsent] at hsent
    have howed : owed (track (World.apply cfg) (noteAttempts cfg) (.queued q) (w, g)) q ≤ 1 := by
      have hone := waiting_le_one (noteAttempts cfg w (.queued q) g)
        { w.heap q with state := .queued }
      have hw' : (World.apply cfg (.queued q) w).worker = w.worker := rfl
      simp only [owed, track, hw', hidle, false_and, if_false]
      simp only [World.apply, World.modify_heap_self]
      split <;> omega
    omega
  · by_cases hown : owner e = some .worker
    · have hstep := owed_worker (g := g) hf ho hown
      omega
    · have hwait := waiting_write (g := g) hf ho hown hqueued
      have hm : ∀ r, e ≠ .markSent r := by
        rintro r rfl
        exact hown rfl
      have hstep : owed (track (World.apply cfg) (noteAttempts cfg) e (w, g)) q ≤
          owed (w, g) q + ((f (w.heap q)).retryCount - (w.heap q).retryCount) := by
        refine owed_le (apply_worker hown (facts_ne_crash hf)) (noteAttempts_counted hm) ?_
        obtain ⟨worker, probing, heq⟩ := apply_onOrder ho
        simp only [track, heq, World.modify_heap_self]
        omega
      have hmono := (budget_write ho hc (h.budget q hq)).1
      omega

theorem within_post {r : Ref} (hf : Facts cfg w (.post r)) (h : Budgeted (w, g)) :
    (noteAttempts cfg w (.post r) g).sends (w.heap r).omsOrderId +
        owed (track (World.apply cfg) (noteAttempts cfg) (.post r) (w, g)) r ≤
      (w.heap r).retryCount + 1 := by
  have hwithin : g.sends (w.heap r).omsOrderId + owed (w, g) r ≤ (w.heap r).retryCount + 1 :=
    h.within r hf.1.1
  have hbefore : owed (w, g) r = waiting g (w.heap r) + if g.counted = true then 1 else 0 := by
    simp [owed, hf.2]
  have hafter : owed (track (World.apply cfg) (noteAttempts cfg) (.post r) (w, g)) r =
      waiting g (w.heap r) := owed_sending (s := r) rfl
  have hsends : (noteAttempts cfg w (.post r) g).sends (w.heap r).omsOrderId =
      g.sends (w.heap r).omsOrderId + if g.counted = true then 1 else 0 := by
    simp [noteAttempts]
  omega

theorem newObject_budgeted {o : OmniOrder} (h : Budgeted (w, g)) (hc : WithinBudget cfg (w, g) e)
    (hn : e.newObject cfg w = some o) :
    g.sends o.omsOrderId + waiting g o ≤ o.retryCount + 1 ∧ o.retryCount ≤ o.maxRetries ∧
      (o.sentAt = none → g.sends o.omsOrderId = 0) := by
  cases e with
  | create req mr x =>
    cases hn
    have hzero : g.sends w.nextOid = 0 := h.fresh w.nextOid le_rfl
    have hwait := waiting_of_ne (g := g) (o := newOrder cfg.sha256 w.nextOid req mr)
      (by simp [newOrder])
    refine ⟨?_, Nat.zero_le _, fun _ => hzero⟩
    rw [hwait]
    change g.sends w.nextOid + 0 ≤ 0 + 1
    omega
  | loaded row =>
    cases hn
    exact ⟨hc.2.2.2, hc.2.1, hc.2.2.1⟩
  | _ => cases hn

theorem budgeted_within (hw : w.Inv) (hf : Facts cfg w e) (h : Budgeted (w, g))
    (hc : WithinBudget cfg (w, g) e) (q : Ref) (hq : q < (World.apply cfg e w).nextRef) :
    (noteAttempts cfg w e g).sends ((World.apply cfg e w).heap q).omsOrderId +
        owed (track (World.apply cfg) (noteAttempts cfg) e (w, g)) q ≤
      ((World.apply cfg e w).heap q).retryCount + 1 := by
  by_cases hpost : ∃ r, e = .post r
  · obtain ⟨r, rfl⟩ := hpost
    have hlt : q < w.nextRef := hq
    by_cases hqr : q = r
    · subst hqr
      exact within_post hf h
    · have hne : (w.heap q).omsOrderId ≠ (w.heap r).omsOrderId :=
        fun heq => hqr (h.unique q hlt r hf.1.1 heq)
      have hsame : q ≠ r := hqr
      rw [owed_frame hf h.unique hlt rfl nofun (by simpa using Ne.symm hsame) nofun]
      have hsends : (noteAttempts cfg w (.post r) g).sends (w.heap q).omsOrderId =
          g.sends (w.heap q).omsOrderId := by
        simp [noteAttempts, hne]
      have hwithin := h.within q hlt
      change (noteAttempts cfg w (.post r) g).sends (w.heap q).omsOrderId + _ ≤ _
      rw [hsends]
      exact hwithin
  · have hp : ∀ r, e ≠ .post r := fun r he => hpost ⟨r, he⟩
    rw [noteAttempts_sends hp]
    rcases object_cases (.inl hf) hq with ⟨hlt, heq⟩ | ⟨f, hlt, ho, heq⟩ | ⟨o, rfl, hn, heq⟩
    · by_cases ha : e = .abandoned q
      · subst ha
        rw [owed_idle rfl, heq]
        have hwithin : g.sends (w.heap q).omsOrderId + owed (w, g) q ≤ (w.heap q).retryCount + 1 :=
          h.within q hlt
        rw [owed_sending hf.2] at hwithin
        exact hwithin
      · by_cases ht : ∃ f, e.onOrder cfg w = some (q, f)
        · obtain ⟨f, ho⟩ := ht
          obtain ⟨worker, probing, happ⟩ := apply_onOrder ho
          have hf' : (World.apply cfg e w).heap q = f (w.heap q) := by
            rw [happ]
            exact w.modify_heap_self q f
          rw [hf', (onOrder_keeps ho _).1]
          exact within_write hf h hlt ho hc
        · have hother : ∀ r f, e.onOrder cfg w = some (r, f) → r < w.nextRef ∧ q ≠ r := by
            intro r f ho
            refine ⟨(onOrder_ok ho hw hf).1, ?_⟩
            rintro rfl
            exact ht ⟨f, ho⟩
          rw [owed_frame hf h.unique hlt heq hother (hp q) ha, heq]
          exact h.within q hlt
    · rw [heq, (onOrder_keeps ho _).1]
      exact within_write hf h hlt ho hc
    · obtain ⟨hwithin, -, -⟩ := newObject_budgeted h hc hn
      have howed : owed (track (World.apply cfg) (noteAttempts cfg) e (w, g)) w.nextRef =
          waiting g o := by
        have hfree : ∀ r, w.worker = .preparing r ∨ w.worker = .counting r → r ≠ w.nextRef :=
          fun r hr => (h.busy r hr).1.ne
        have hown : owner e ≠ some .worker := by
          cases e <;> first | (cases hn; done) | exact nofun
        have hsame : (World.apply cfg e w).worker = w.worker :=
          apply_worker hown (facts_ne_crash hf)
        have hg : noteAttempts cfg w e g = g := by
          cases e <;> first | (cases hn; done) | rfl
        have hcounting : w.worker ≠ .counting w.nextRef := fun hw => hfree _ (.inr hw) rfl
        have hpreparing : w.worker ≠ .preparing w.nextRef := fun hw => hfree _ (.inl hw) rfl
        simp [owed, track, hsame, hcounting, hpreparing, hg, heq]
      rw [heq, howed]
      exact hwithin

theorem budgeted_budget (hf : Facts cfg w e) (h : Budgeted (w, g))
    (hc : WithinBudget cfg (w, g) e) (q : Ref) (hq : q < (World.apply cfg e w).nextRef) :
    ((World.apply cfg e w).heap q).retryCount ≤ ((World.apply cfg e w).heap q).maxRetries := by
  rcases object_cases (.inl hf) hq with ⟨hlt, heq⟩ | ⟨f, hlt, ho, heq⟩ | ⟨o, -, hn, heq⟩
  · rw [heq]
    exact h.budget q hlt
  · rw [heq]
    exact (budget_write ho hc (h.budget q hlt)).2
  · rw [heq]
    exact (newObject_budgeted h hc hn).2.1

theorem budgeted_unsent (hf : Facts cfg w e) (h : Budgeted (w, g))
    (hc : WithinBudget cfg (w, g) e) (q : Ref) (hq : q < (World.apply cfg e w).nextRef)
    (hnone : ((World.apply cfg e w).heap q).sentAt = none) :
    (noteAttempts cfg w e g).sends ((World.apply cfg e w).heap q).omsOrderId = 0 := by
  by_cases hpost : ∃ r, e = .post r
  · obtain ⟨r, rfl⟩ := hpost
    have hlt : q < w.nextRef := hq
    have hne : (w.heap q).omsOrderId ≠ (w.heap r).omsOrderId := by
      intro heq
      obtain rfl := h.unique q hlt r hf.1.1 heq
      have hsome := hf.1.2
      have hnone' : (w.heap q).sentAt = none := hnone
      simp [hnone'] at hsome
    have hzero : g.sends (w.heap q).omsOrderId = 0 := h.unsent q hlt hnone
    have hkeep : (World.apply cfg (.post r) w).heap q = w.heap q := rfl
    simp [noteAttempts, hkeep, hne, hzero]
  · rw [noteAttempts_sends fun r he => hpost ⟨r, he⟩]
    rcases object_cases (.inl hf) hq with ⟨hlt, heq⟩ | ⟨f, hlt, ho, heq⟩ | ⟨o, -, hn, heq⟩
    · rw [heq] at hnone ⊢
      exact h.unsent q hlt hnone
    · rw [heq] at hnone
      rw [heq, (onOrder_keeps ho _).1]
      refine h.unsent q hlt ?_
      by_contra hsome
      have hkeep := (onOrder_keeps ho (w.heap q)).2 (Option.isSome_iff_ne_none.mpr hsome)
      simp [hnone] at hkeep
    · rw [heq] at hnone ⊢
      exact (newObject_budgeted h hc hn).2.2 hnone

theorem budgeted_busy (hf : Facts cfg w e) (h : Budgeted (w, g)) (r : Ref)
    (hr : (World.apply cfg e w).worker = .preparing r ∨ (World.apply cfg e w).worker = .counting r) :
    Sent (World.apply cfg e w) r := by
  have hst := stable_apply hf
  have hkeep : Sent w r → Sent (World.apply cfg e w) r :=
    fun hs => ⟨hs.1.trans_le hst.refs, hst.sent r hs.1 hs.2⟩
  by_cases ho : owner e = some .worker
  · cases e with
    | markSent q =>
      have hqr : q = r := by simpa [World.apply] using hr
      subst hqr
      exact ⟨hf.1, by simp [World.apply, OmniOrder.markSent]⟩
    | requeued q =>
      have hqr : q = r := by simpa [World.apply] using hr
      subst hqr
      exact hkeep hf.1
    | post q | abandoned q | unanswered q | answered q | countRetry q | refused q =>
      simp [World.apply] at hr
    | _ => cases ho
  · rw [apply_worker ho (facts_ne_crash hf)] at hr
    exact hkeep (h.busy r hr)

theorem budgeted_fresh (hw : w.Inv) (hf : Facts cfg w e) (h : Budgeted (w, g)) (oid : OrderId)
    (hoid : (World.apply cfg e w).nextOid ≤ oid) : (noteAttempts cfg w e g).sends oid = 0 := by
  have hold : w.nextOid ≤ oid := (nextOid_step (.inl hf)).trans hoid
  have hzero : g.sends oid = 0 := h.fresh oid hold
  by_cases hpost : ∃ r, e = .post r
  · obtain ⟨r, rfl⟩ := hpost
    have hne : oid ≠ (w.heap r).omsOrderId := ((hw.objects r hf.1.1).2.trans_le hold).ne'
    simp [noteAttempts, hne, hzero]
  · rw [noteAttempts_sends fun r he => hpost ⟨r, he⟩]
    exact hzero

theorem budgeted_step (hw : w.Inv) (hs : Step cfg w e) (h : Budgeted (w, g))
    (hc : WithinBudget cfg (w, g) e) :
    Budgeted (track (World.apply cfg) (noteAttempts cfg) e (w, g)) := by
  have hnew : LoadsNew w e := by
    rintro row rfl
    exact hc.1
  rcases hs with hf | rfl
  · exact ⟨unique_step hw (.inl hf) hnew h.unique, budgeted_within hw hf h hc,
      budgeted_budget hf h hc, budgeted_unsent hf h hc, budgeted_busy hf h,
      budgeted_fresh hw hf h⟩
  · -- the objects die with the process
    refine ⟨fun q hq => absurd hq (Nat.not_lt_zero _), fun q hq => absurd hq (Nat.not_lt_zero _),
      fun q hq => absurd hq (Nat.not_lt_zero _), fun q hq => absurd hq (Nat.not_lt_zero _), ?_,
      h.fresh⟩
    intro r hr
    simp [track, World.apply, World.crash] at hr

end Step

section Runs

variable {cfg : Settings}

/-- In no run is an order sent more than `1 + max_retries` times on account of failures
and lost replies. -/
def KeepsBudget (cfg : Settings) (es : List Effect) : Prop :=
  Legal (track (World.apply cfg) (noteAttempts cfg)) (BudgetStep cfg) (initial.state, {}) es

instance (es : List Effect) : Decidable (KeepsBudget cfg es) :=
  inferInstanceAs (Decidable (Legal _ _ _ _))

end Runs

end Trademetrix.Oms
