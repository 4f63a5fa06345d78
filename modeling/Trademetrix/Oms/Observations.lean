import Trademetrix.Oms.Legal

/-!
# Observations before a resend

An order whose send was never answered may be sent again once the broker has been
asked often enough and has answered each time that it holds no such order. `Watch`
counts those answers from what the broker said, beside the counter the order
carries. `strict` asks for each of them to come after the grace window.
-/

namespace Trademetrix.Oms

open Async
open Execution (ExecutionRequest ExecutionResult)

def allOrders (items : List (Option Fields)) : Bool :=
  items.all fun item => item.any fun d => (d.get "orderId").truthy

def answersCorrelation : HttpReply → Bool
  | .notFound => true
  | .body (.object d) => (d.get "orderId").truthy
  | .body (.list items) => allOrders items
  | _ => false

def answersListing : HttpReply → Bool
  | .body (.list items) => allOrders items
  | _ => false

def definitiveAbsence (cfg : Settings) (args : ReconcileArgs) (lookups : Lookups) : Bool :=
  match lookups.correlation, lookups.listing with
  | some correlation, some listing =>
    answersCorrelation correlation && answersListing listing &&
      (byCorrelation args.correlationId (lookupByCorrelation correlation)).1.isEmpty &&
      (byAttributes cfg.fromisoformat args.expectedAttributes args.sentAt
        (listOrders listing)).1.isEmpty
  | _, _ => false

/-- Per order: the definitive absences in a row since its last send, the time
recorded for that send, whether it is still unanswered, and whether several broker
orders were found for it. -/
structure Watch where
  streak : OrderId → ℕ := fun _ => 0
  sent : OrderId → Option Time := fun _ => none
  unsettled : OrderId → Bool := fun _ => false
  ambiguous : OrderId → Bool := fun _ => false

def graceOver (cfg : Settings) (now : Time) (sent : Option Time) : Bool :=
  sent.any fun t => t + cfg.obs.grace ≤ now

def observes (cfg : Settings) (strict : Bool) (now : Time) (sent : Option Time)
    (args : ReconcileArgs) (lookups : Lookups) : Bool :=
  definitiveAbsence cfg args lookups && (!strict || graceOver cfg now sent)

def noteWatch (cfg : Settings) (strict : Bool) (w : World) (e : Effect) (g : Watch) : Watch :=
  match e with
  | .markSent r => { g with sent := Function.update g.sent (w.heap r).omsOrderId (some w.now) }
  | .post r =>
    { g with
      streak := Function.update g.streak (w.heap r).omsOrderId 0
      unsettled := Function.update g.unsettled (w.heap r).omsOrderId true }
  | .answered r _ | .requeued r | .refused r _ =>
    { g with unsettled := Function.update g.unsettled (w.heap r).omsOrderId false }
  | .resolved r args lookups =>
    let oid := (w.heap r).omsOrderId
    let verdict := (reconcile cfg.fromisoformat cfg.obs args lookups w.now).verdict
    { g with
      streak := Function.update g.streak oid
        (if observes cfg strict w.now (g.sent oid) args lookups then g.streak oid + 1 else 0)
      unsettled := Function.update g.unsettled oid
        (g.unsettled oid && verdict ∈ [ReconcileVerdict.unknown, .ambiguous])
      ambiguous := Function.update g.ambiguous oid
        (g.ambiguous oid || 1 < (foundOrders cfg.fromisoformat args lookups).length) }
  | _ => g

def answersSend : Effect → Bool
  | .answered _ _ | .requeued _ => true
  | _ => false

/-- An order whose send was never answered is only put back in the queue after
enough observations in a row, once the grace window is over. -/
def ResendStep (cfg : Settings) (strict : Bool) (x : World × Watch) (e : Effect) : Prop :=
  ∀ oid ∈ requeues cfg x.1 e, x.2.unsettled oid = true → answersSend e = false →
    max 1 cfg.obs.needed ≤ (noteWatch cfg strict x.1 e x.2).streak oid ∧
      graceOver cfg x.1.now (x.2.sent oid) = true

instance (cfg : Settings) (strict : Bool) (x : World × Watch) (e : Effect) :
    Decidable (ResendStep cfg strict x e) :=
  inferInstanceAs (Decidable (∀ _ ∈ _, _))

/-- What keeps the order's own counter to observations: only observations raise it,
it is zero at each send, no lookup is under way at a send, and only orders whose
send was answered are put in the queue in another way. -/
def CountsObservations (cfg : Settings) (strict : Bool) (x : World × Watch) : Effect → Prop
  | .queued r | .retried r => x.2.unsettled (x.1.heap r).omsOrderId = false
  | .loaded row =>
    (∀ r < x.1.nextRef, (x.1.heap r).omsOrderId ≠ row.omsOrderId) ∧
      row.notFoundObservations ≤ x.2.streak row.omsOrderId ∧
      row.sentAt = x.2.sent row.omsOrderId ∧
      (row.state = .queued → x.2.unsettled row.omsOrderId = false)
  | .markSent r => x.1.probing.map Prod.fst ≠ some r
  | .post r => x.1.probing.map Prod.fst ≠ some r ∧ (x.1.heap r).notFoundObservations = 0
  | .resolved r args lookups =>
    x.2.ambiguous (x.1.heap r).omsOrderId = false ∧
      (args.brokerOrderId = "" → foundOrders cfg.fromisoformat args lookups = [] →
        observes cfg strict x.1.now (x.2.sent (x.1.heap r).omsOrderId) args lookups = true)
  | _ => True

instance (cfg : Settings) (strict : Bool) (x : World × Watch) (e : Effect) :
    Decidable (CountsObservations cfg strict x e) := by
  apply Effect.casesOn (motive := fun e => Decidable (CountsObservations cfg strict x e)) e <;> intros <;>
    (dsimp only [CountsObservations]; infer_instance)

section Step

variable {cfg : Settings} {strict : Bool} {w : World} {g : Watch} {e : Effect}

/-- The order's counter is at most the number of observations in a row, and the
times it keeps are those of its last send. -/
structure Watching (x : World × Watch) : Prop where
  unique : Unique x.1
  counted : ∀ r < x.1.nextRef, x.2.ambiguous (x.1.heap r).omsOrderId = false →
    (x.1.heap r).notFoundObservations ≤ x.2.streak (x.1.heap r).omsOrderId
  sent : ∀ r < x.1.nextRef, (x.1.heap r).sentAt = x.2.sent (x.1.heap r).omsOrderId
  probing : ∀ r args, x.1.probing = some (r, args) → r < x.1.nextRef ∧
    args.sentAt = (x.1.heap r).sentAt
  fresh : ∀ oid, x.1.nextOid ≤ oid → x.2.sent oid = none

theorem resendStep (hs : Step cfg w e) (hw : Watching (w, g))
    (hc : CountsObservations cfg strict (w, g) e) : ResendStep cfg strict (w, g) e := by
  intro oid hoid hopen hans
  have hopen' : g.unsettled oid = true := hopen
  cases requeue_of_requeues hs hoid with
  | placed r | retried r =>
    have hset : g.unsettled (w.heap r).omsOrderId = false := hc
    rw [hset] at hopen'
    cases hopen'
  | refused r => cases hans
  | rest r res hres => cases hans
  | loaded row hrow =>
    have hset : g.unsettled row.omsOrderId = false := hc.2.2.2 hrow
    rw [hset] at hopen'
    cases hopen'
  | notFound r args lookups hout =>
    obtain ⟨⟨hlt, -⟩, hprobe, hargs⟩ := hs.facts rfl
    obtain ⟨hobs, t, ht, hgrace⟩ := reconcile_notFound hout
    obtain ⟨hid, hfound⟩ := reconcile_open (.inr hout)
    have hseen := hc.2 hid hfound
    have hcount : (w.heap r).notFoundObservations ≤ g.streak (w.heap r).omsOrderId :=
      hw.counted r hlt hc.1
    have hsent : g.sent (w.heap r).omsOrderId = some t := by
      rw [← hw.sent r hlt, ← (hw.probing r args hprobe).2, ht]
    refine ⟨?_, by simp [graceOver, hsent, hgrace]⟩
    have hstreak : (noteWatch cfg strict w (.resolved r args lookups) g).streak
        (w.heap r).omsOrderId = g.streak (w.heap r).omsOrderId + 1 := by
      simp [noteWatch, hseen]
    change max 1 cfg.obs.needed ≤ (noteWatch cfg strict w _ g).streak _
    rw [hstreak]
    omega

theorem noteWatch_eq (cfg : Settings) (strict : Bool) (w : World) (g : Watch)
    (hm : ∀ q, e ≠ .markSent q) (hp : ∀ q, e ≠ .post q)
    (hr : ∀ q args lookups, e ≠ .resolved q args lookups) :
    (noteWatch cfg strict w e g).streak = g.streak ∧ (noteWatch cfg strict w e g).sent = g.sent ∧
      (noteWatch cfg strict w e g).ambiguous = g.ambiguous := by
  cases e with
  | markSent q => exact absurd rfl (hm q)
  | post q => exact absurd rfl (hp q)
  | resolved q args lookups => exact absurd rfl (hr q args lookups)
  | _ => exact ⟨rfl, rfl, rfl⟩

theorem probing_cases (hs : Step cfg w e) {r : Ref} {args : ReconcileArgs}
    (h : (World.apply cfg e w).probing = some (r, args)) :
    w.probing = some (r, args) ∨ e = .lookup r args := by
  by_cases ho : owner e = some .reconciler
  · cases e with
    | lookup q args' =>
      cases h
      exact .inr rfl
    | resolved q args' lookups => cases h
    | _ => cases ho
  · rcases hs with hf | rfl
    · rw [(apply_probing ho (facts_ne_crash hf)).1] at h
      exact .inl h
    · cases h

theorem watching_lookups (hs : Step cfg w e) (hw : Watching (w, g))
    (hm : ∀ q, e ≠ .markSent q) (r : Ref) (args : ReconcileArgs)
    (h : (World.apply cfg e w).probing = some (r, args)) :
    r < (World.apply cfg e w).nextRef ∧
      args.sentAt = ((World.apply cfg e w).heap r).sentAt := by
  have hf : Facts cfg w e := by
    rcases hs with hf | rfl
    · exact hf
    · cases h
  have hold : r < w.nextRef ∧ args.sentAt = (w.heap r).sentAt := by
    rcases probing_cases hs h with h | rfl
    · exact hw.probing r args h
    · obtain ⟨hsent, rfl⟩ := hf
      exact ⟨hsent.1, rfl⟩
  have hlt := hold.1.trans_le (stable_apply hf).refs
  refine ⟨hlt, hold.2.trans ?_⟩
  rcases object_cases hs hlt with ⟨-, heq⟩ | ⟨f, -, ho, heq⟩ | ⟨o, hr, -, -⟩
  · rw [heq]
  · rw [heq, onOrder_sentAt ho hm]
  · exact absurd hr hold.1.ne

theorem watching_markSent {r : Ref} (hinv : w.Inv) (hs : Step cfg w (.markSent r))
    (hw : Watching (w, g)) (hc : CountsObservations cfg strict (w, g) (.markSent r)) :
    Watching (track (World.apply cfg) (noteWatch cfg strict) (.markSent r) (w, g)) := by
  have hr : r < w.nextRef := (hs.facts rfl).1
  have hu := unique_step hinv hs (loadsNew_of_ne (by simp)) hw.unique
  have hother : ∀ q < w.nextRef, q ≠ r → (w.heap q).omsOrderId ≠ (w.heap r).omsOrderId :=
    fun q hq hqr h => hqr (hw.unique q hq r hr h)
  constructor
  case unique => exact hu
  all_goals simp only [track, noteWatch, World.apply]
  case counted =>
    intro q hq ha
    by_cases hqr : q = r
    · subst hqr
      simp only [World.modify_heap_self] at ha ⊢
      exact hw.counted q hq ha
    · simp only [World.modify_heap_ne w _ hqr] at ha ⊢
      exact hw.counted q hq ha
  case sent =>
    intro q hq
    by_cases hqr : q = r
    · subst hqr
      simp [OmniOrder.markSent]
    · have hne := hother q hq hqr
      simpa [World.modify_heap_ne w _ hqr, Function.update_of_ne hne] using hw.sent q hq
  case probing =>
    intro q args hq
    have hold : w.probing = some (q, args) := hq
    have hqr : q ≠ r := by
      rintro rfl
      exact hc (by rw [hold]; rfl)
    have hargs := hw.probing q args hold
    exact ⟨hargs.1, by rw [World.modify_heap_ne w _ hqr]; exact hargs.2⟩
  case fresh =>
    intro oid h
    have hid : oid ≠ (w.heap r).omsOrderId := ((hinv.objects r hr).2.trans_le h).ne'
    simpa only [Function.update_of_ne hid] using hw.fresh oid h

theorem watching_post {r : Ref} (hinv : w.Inv) (hs : Step cfg w (.post r))
    (hw : Watching (w, g)) (hc : CountsObservations cfg strict (w, g) (.post r)) :
    Watching (track (World.apply cfg) (noteWatch cfg strict) (.post r) (w, g)) := by
  have hr : r < w.nextRef := (hs.of_ne nofun).1.1
  have hu := unique_step hinv hs (loadsNew_of_ne (by simp)) hw.unique
  constructor
  case unique => exact hu
  all_goals simp only [track, noteWatch, World.apply]
  case counted =>
    intro q hq ha
    by_cases hqr : q = r
    · subst hqr
      have hzero : (w.heap q).notFoundObservations = 0 := hc.2
      simp [hzero]
    · have hid : (w.heap q).omsOrderId ≠ (w.heap r).omsOrderId :=
        fun h => hqr (hw.unique q hq r hr h)
      simpa only [Function.update_of_ne hid] using hw.counted q hq ha
  case sent => exact hw.sent
  case probing => exact hw.probing
  case fresh => exact hw.fresh

theorem counted_resolve {o : OmniOrder} {args : ReconcileArgs} {lookups : Lookups} {n : ℕ}
    (hn : o.notFoundObservations ≤ n)
    (hone : (foundOrders cfg.fromisoformat args lookups).length ≤ 1)
    (hseen : args.brokerOrderId = "" → foundOrders cfg.fromisoformat args lookups = [] →
      observes cfg strict w.now (g.sent o.omsOrderId) args lookups = true) :
    (o.resolve (reconcile cfg.fromisoformat cfg.obs args lookups w.now)).notFoundObservations ≤
      if observes cfg strict w.now (g.sent o.omsOrderId) args lookups then n + 1 else 0 := by
  have hopen : ∀ {v}, (reconcile cfg.fromisoformat cfg.obs args lookups w.now).verdict = v →
      v = .unknown ∨ v = .notFound →
      observes cfg strict w.now (g.sent o.omsOrderId) args lookups = true := by
    intro v hv hvv
    obtain ⟨hid, hfound⟩ := reconcile_open (by rwa [← hv] at hvv)
    exact hseen hid hfound
  unfold OmniOrder.resolve
  split
  · exact Nat.zero_le _
  · next hv hf =>
    have hsome := reconcile_accepted hv
    rw [hf] at hsome
    cases hsome
  · exact Nat.zero_le _
  · next hv =>
    have htwo := reconcile_ambiguous hv
    omega
  · next hv =>
    simp only [hopen hv (.inr rfl), if_true]
    omega
  · next hv =>
    simp only [hopen hv (.inl rfl), if_true]
    omega

theorem watching_resolved {r : Ref} {args : ReconcileArgs} {lookups : Lookups} (hinv : w.Inv)
    (hs : Step cfg w (.resolved r args lookups)) (hw : Watching (w, g))
    (hc : CountsObservations cfg strict (w, g) (.resolved r args lookups)) :
    Watching (track (World.apply cfg) (noteWatch cfg strict) (.resolved r args lookups) (w, g)) := by
  have hr : r < w.nextRef := (hs.facts rfl).1.1
  refine ⟨unique_step hinv hs (loadsNew_of_ne (by simp)) hw.unique, fun q hq ha => ?_, fun q hq => ?_,
    watching_lookups hs hw nofun, hw.fresh⟩
  · by_cases hqr : q = r
    · subst hqr
      simp only [track, noteWatch, World.apply, World.modify_heap_self,
        (OmniOrder.resolve_eq _ _).1, Function.update_self, Bool.or_eq_false_iff,
        decide_eq_false_iff_not, not_lt] at ha ⊢
      exact counted_resolve (hw.counted q hq ha.1) ha.2 hc.2
    · have hid : (w.heap q).omsOrderId ≠ (w.heap r).omsOrderId :=
        fun h => hqr (hw.unique q hq r hr h)
      simp only [track, noteWatch, World.apply, World.modify_heap_ne w _ hqr,
        Function.update_of_ne hid] at ha ⊢
      exact hw.counted q hq ha
  · rcases object_cases hs hq with ⟨hlt, heq⟩ | ⟨f, hlt, ho, heq⟩ | ⟨o, -, hn, -⟩
    · simp only [track, heq]
      exact hw.sent q hlt
    · simp only [track, heq, onOrder_sentAt ho nofun, (onOrder_keeps ho _).1]
      exact hw.sent q hlt
    · cases hn

theorem newObject_watch {o : OmniOrder} (hw : Watching (w, g))
    (hc : CountsObservations cfg strict (w, g) e) (hn : e.newObject cfg w = some o) :
    o.notFoundObservations ≤ g.streak o.omsOrderId ∧ o.sentAt = g.sent o.omsOrderId := by
  cases e with
  | create req mr x =>
    cases hn
    exact ⟨Nat.zero_le _, (hw.fresh w.nextOid le_rfl).symm⟩
  | loaded row =>
    cases hn
    exact ⟨hc.2.1, hc.2.2.1⟩
  | _ => cases hn

theorem watching_step (hinv : w.Inv) (hs : Step cfg w e) (hw : Watching (w, g))
    (hc : CountsObservations cfg strict (w, g) e) :
    Watching (track (World.apply cfg) (noteWatch cfg strict) e (w, g)) := by
  by_cases hm : ∃ r, e = .markSent r
  · obtain ⟨r, rfl⟩ := hm
    exact watching_markSent hinv hs hw hc
  by_cases hp : ∃ r, e = .post r
  · obtain ⟨r, rfl⟩ := hp
    exact watching_post hinv hs hw hc
  by_cases hv : ∃ r args lookups, e = .resolved r args lookups
  · obtain ⟨r, args, lookups, rfl⟩ := hv
    exact watching_resolved hinv hs hw hc
  -- any other effect leaves the counters of the objects there are alone
  have hm' : ∀ q, e ≠ .markSent q := fun q h => hm ⟨q, h⟩
  have hv' : ∀ q args lookups, e ≠ .resolved q args lookups := fun q args l h => hv ⟨q, args, l, h⟩
  have hnew : LoadsNew w e := by
    rintro row rfl
    exact hc.1
  obtain ⟨hstreak, hsent, hamb⟩ := noteWatch_eq cfg strict w g hm' (fun q h => hp ⟨q, h⟩) hv'
  refine ⟨unique_step hinv hs hnew hw.unique, fun q hq ha => ?_, fun q hq => ?_,
    watching_lookups hs hw hm', fun oid h => ?_⟩
  · simp only [track, hstreak, hamb] at hq ha ⊢
    rcases object_cases hs hq with ⟨hlt, heq⟩ | ⟨f, hlt, ho, heq⟩ | ⟨o, -, hn, heq⟩
    · rw [heq] at ha ⊢
      exact hw.counted q hlt ha
    · rw [heq, (onOrder_keeps ho _).1] at ha
      rw [heq, (onOrder_keeps ho _).1, onOrder_observations ho hv']
      exact hw.counted q hlt ha
    · rw [heq]
      exact (newObject_watch hw hc hn).1
  · simp only [track, hsent] at hq ⊢
    rcases object_cases hs hq with ⟨hlt, heq⟩ | ⟨f, hlt, ho, heq⟩ | ⟨o, -, hn, heq⟩
    · rw [heq]
      exact hw.sent q hlt
    · rw [heq, (onOrder_keeps ho _).1, onOrder_sentAt ho hm']
      exact hw.sent q hlt
    · rw [heq]
      exact (newObject_watch hw hc hn).2
  · simp only [track, hsent]
    exact hw.fresh oid ((nextOid_step hs).trans h)

end Step

section Runs

variable {cfg : Settings} {strict : Bool}

/-- No run of the order manager resends an unanswered order before enough
observations. -/
def ResendsObserved (cfg : Settings) (strict : Bool) (es : List Effect) : Prop :=
  Legal (track (World.apply cfg) (noteWatch cfg strict)) (ResendStep cfg strict)
    (initial.state, {}) es

instance (es : List Effect) : Decidable (ResendsObserved cfg strict es) :=
  inferInstanceAs (Decidable (Legal _ _ _ _))

theorem resends_observed (strict : Bool) {es : List Effect} {P : Pool World Effect Reply Tag}
    (h : Life cfg es P)
    (hc : Legal (track (World.apply cfg) (noteWatch cfg strict)) (CountsObservations cfg strict)
      (initial.state, {}) es) :
    ResendsObserved cfg strict es := by
  have hlegal := ((legal_of_life h).1.track (noteWatch cfg strict) {}).and hc
  have hinit : Watching (initial.state, {}) :=
    ⟨fun q hq => absurd hq (Nat.not_lt_zero _), fun q hq => absurd hq (Nat.not_lt_zero _),
      fun q hq => absurd hq (Nat.not_lt_zero _), nofun, fun _ _ => rfl⟩
  refine (hlegal.with_invariant (I := Watching) (fun x e hx hg => ?_) hinit).mono fun x e hx => ?_
  · exact watching_step hg.1.1 hg.1.2 hx hg.2
  · exact resendStep hx.2.1.2 hx.1 hx.2.2

/-- Place `buyTen`, leave its send unanswered and wait out the grace window. -/
def loseTen : List Act :=
  alone .start 6 {} ++ alone (.placeOrder buyTen none) 6 {} ++
    alone .processQueue 7 { placed := some { indeterminate := true } } ++
    [.env (.elapse (seconds 45))]

theorem absentThrice_resends_observed :
    ∃ es P, Life bare es P ∧ (P.state.heap 0).state = .queued ∧ ResendsObserved bare true es := by
  obtain ⟨es, P, hrun, hqueued, hcounts⟩ := (system bare).exists_run initial
    (loseTen ++ alone .reconcileOnce 6 {} ++ alone .reconcileOnce 6 {} ++ alone .reconcileOnce 8 {})
    (p := fun es P => (P.state.heap 0).state = .queued ∧
      Legal (track (World.apply bare) (noteWatch bare true)) (CountsObservations bare true)
        (initial.state, {}) es)
    (by decide +kernel)
  exact ⟨es, P, hrun.life, hqueued, resends_observed true hrun.life hcounts⟩

/-- Two lookups that timed out and one absence pass for three absences. -/
theorem failures_resend_unobserved : ∃ es P, Life bare es P ∧ ¬ ResendsObserved bare false es := by
  obtain ⟨es, P, hrun, hbad⟩ := (system bare).exists_run initial
    (loseTen ++ alone .reconcileOnce 5 { correlation := .failed "ConnectTimeout" } ++
      alone .reconcileOnce 5 { correlation := .failed "ConnectTimeout" } ++
      alone .reconcileOnce 8 {})
    (p := fun es _ => ¬ ResendsObserved bare false es)
    (by decide +kernel)
  exact ⟨es, P, hrun.life, hbad⟩

end Runs

end Trademetrix.Oms
