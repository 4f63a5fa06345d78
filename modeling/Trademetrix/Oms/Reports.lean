import Trademetrix.Oms.Fills
import Trademetrix.Oms.Observations
import Trademetrix.Oms.Cancellation

/-!
# What the engine gate reports of an order

`execute_order` turns the record `place_and_wait` hands it into a verdict. `Lives`
remembers, over every life of the process, which orders may have a live order at the
broker as far as its answers tell, and which have been reported failed. `keepsOpen`
says of an answer whether the broker keeps the rest of a partial fill working.
-/

namespace Trademetrix.Oms

open Async
open Execution (ExecutionRequest ExecutionResult)

structure Lives where
  out : OrderId → Bool := fun _ => false
  denied : OrderId → Bool := fun _ => false

/-- Whether a broker order may be live after an effect on its order. A verdict that the
broker has no such order counts when the lookups of that round answered it. -/
def Effect.outAfter (cfg : Settings) (keepsOpen : ExecutionResult → Bool) (w : World)
    (out : Bool) : Effect → Bool
  | .post _ => true
  | .requeued _ | .refused _ _ | .cancelled _ (.confirmed _) => false
  | .answered _ res => match res.state with
    | .filled => false
    | .partiallyFilled => keepsOpen res
    | _ => out
  | .resolved _ args lookups =>
    match (reconcile cfg.fromisoformat cfg.obs args lookups w.now).verdict with
    | .rejected => false
    | .notFound => out && !definitiveAbsence cfg args lookups
    | _ => out
  | .remote _ _ target => out && target = .partialFill
  | _ => out

def noteLives (cfg : Settings) (keepsOpen : ExecutionResult → Bool) (w : World) (e : Effect)
    (g : Lives) : Lives :=
  match e with
  | .reported r _ verdict =>
    if verdict.failing then
      { g with denied := Function.update g.denied (w.heap r).omsOrderId true }
    else g
  | e => match e.subject cfg w with
    | some r =>
      { g with
        out := Function.update g.out (w.heap r).omsOrderId
          (e.outAfter cfg keepsOpen w (g.out (w.heap r).omsOrderId)) }
    | none => g

def Effect.denies : Effect → Bool
  | .reported _ _ verdict => verdict.failing
  | _ => false

/-- An order reported failed is closed and has nothing live at the broker, and it is not
sent afterwards. -/
def ReportStep (x : World × Lives) : Effect → Prop
  | .reported r _ verdict =>
    verdict.failing = true →
      (x.1.heap r).state ∈ deadStates ∧ x.2.out (x.1.heap r).omsOrderId = false
  | .post r => x.2.denied (x.1.heap r).omsOrderId = false
  | _ => True

instance (x : World × Lives) (e : Effect) : Decidable (ReportStep x e) := by
  apply Effect.casesOn (motive := fun e => Decidable (ReportStep x e)) e <;> intros <;>
    (dsimp only [ReportStep]; infer_instance)

def quietStates : List OMSOrderState :=
  [.new, .validated, .queued, .cancelled, .rejected, .expired]

/-- What keeps the verdicts true: the gate reads a closed or a placed order, its own; the
order is closed, queued or reconciled only from a state the write was meant for; a closed
order is not taken up again. -/
def ReportsSettled (cfg : Settings) (keepsOpen : ExecutionResult → Bool) (x : World × Lives) :
    Effect → Prop
  | .reported r found _ =>
    Engine.succeeds found.state = true ∨ found.state ∈ deadStates ∧ (x.1.heap r).state ∈ deadStates
  | .queued r => (x.1.heap r).state = .new
  | .retried r =>
    (x.1.heap r).state ∉ .sent :: deadStates ∧ x.2.out (x.1.heap r).omsOrderId = false
  | .exhausted r => (x.1.heap r).state ≠ .sent ∧ x.2.out (x.1.heap r).omsOrderId = false
  | .cancelled r via =>
    (x.1.heap r).state ≠ .sent ∧
      (via.isLocal = true → x.2.out (x.1.heap r).omsOrderId = false)
  | .answered _ res => res.state = .partiallyFilled → keepsOpen res = false
  | .reconciling r => (x.1.heap r).state ∈ [OMSOrderState.unknown, .reconciling]
  | .resolved r args lookups =>
    (x.1.heap r).state = .reconciling ∧
      ((reconcile cfg.fromisoformat cfg.obs args lookups x.1.now).verdict = .notFound →
        definitiveAbsence cfg args lookups = true)
  | .remote r _ _ => (x.1.heap r).state ∉ .sent :: quietStates
  | .loaded row =>
    (∀ r < x.1.nextRef, (x.1.heap r).omsOrderId ≠ row.omsOrderId) ∧
      x.2.denied row.omsOrderId = false ∧
      (row.state ∈ quietStates → x.2.out row.omsOrderId = false)
  | _ => True

instance (cfg : Settings) (keepsOpen : ExecutionResult → Bool) (x : World × Lives) (e : Effect) :
    Decidable (ReportsSettled cfg keepsOpen x e) := by
  apply Effect.casesOn (motive := fun e => Decidable (ReportsSettled cfg keepsOpen x e)) e <;> intros <;>
    (dsimp only [ReportsSettled]; infer_instance)

section Step

variable {cfg : Settings} {keepsOpen : ExecutionResult → Bool} {w : World} {g : Lives} {e : Effect}
  {st : Stage} {state state' : OMSOrderState} {out out' denied : Bool}

/-- What the state of an order, and where the worker is with it, say of its life at the
broker. -/
structure Settled (st : Stage) (state : OMSOrderState) (out denied : Bool) : Prop where
  quiet : state ∈ quietStates → out = false
  denied : denied = true → state ∈ deadStates
  preparing : st = .preparing → state = .sent ∧ out = false
  sending : st = .sending → state = .sent

theorem quiet_of_dead (h : state ∈ deadStates) : state ∈ quietStates := by
  cases state <;> simp [deadStates, quietStates] at h ⊢

theorem of_not_denied (h : denied = false) : denied = true → state ∈ deadStates := by
  intro hd
  rw [h] at hd
  cases hd

namespace Settled

theorem not_denied (h : Settled st state out denied) (hs : state ∉ deadStates) :
    denied = false := by
  by_contra hd
  exact hs (h.denied (by simpa using hd))

theorem of_write (h : Settled st state out denied) (hs : state ≠ .sent)
    (hq : state' ∈ quietStates → out' = false) (hd : denied = true → state' ∈ deadStates) :
    Settled st state' out' denied := by
  refine ⟨hq, hd, ?_, ?_⟩
  · intro hst
    exact absurd (h.preparing hst).1 hs
  · intro hst
    exact absurd (h.sending hst) hs

theorem of_off (hst : st ≠ .preparing) (hst' : st ≠ .sending)
    (hq : state ∈ quietStates → out = false) (hd : denied = true → state ∈ deadStates) :
    Settled st state out denied :=
  ⟨hq, hd, fun h => absurd h hst, fun h => absurd h hst'⟩

theorem off (hq : state ∈ quietStates → out = false) (hd : denied = true → state ∈ deadStates) :
    Settled .off state out denied :=
  of_off (by decide) (by decide) hq hd

end Settled

theorem settled_subject {r : Ref} (hf : Facts cfg w e) (hr : e.subject cfg w = some r)
    (hc : ReportsSettled cfg keepsOpen (w, g) e)
    (h : Settled (stageOf w (w.heap r).omsOrderId) (w.heap r).state
      (g.out (w.heap r).omsOrderId) (g.denied (w.heap r).omsOrderId)) :
    Settled (e.stage (stageOf w (w.heap r).omsOrderId)) ((World.apply cfg e w).heap r).state
      (e.outAfter cfg keepsOpen w (g.out (w.heap r).omsOrderId))
      (g.denied (w.heap r).omsOrderId) := by
  cases e with
  | queued q =>
    cases hr
    have hnew : (w.heap q).state = .new := hc
    rw [hnew] at h
    simp only [World.apply, World.modify_heap_self]
    exact h.of_write (by decide) (fun _ => h.quiet (by decide)) (of_not_denied (h.not_denied (by decide)))
  | note q | modified q | related q =>
    cases hr
    simp only [World.apply, World.modify_heap_self]
    exact h
  | cancelled q via =>
    obtain ⟨hsent, hout⟩ := hc
    cases via with
    | confirmed message =>
      cases hr
      simp only [World.apply, World.modify_heap_self]
      exact h.of_write hsent (fun _ => rfl) fun _ => by simp [OmniOrder.cancel, deadStates]
    | dequeued | notRemoved | noBrokerId | sibling =>
      cases hr
      simp only [World.apply, World.modify_heap_self]
      exact h.of_write hsent (fun _ => hout rfl) fun _ => by simp [OmniOrder.cancel, deadStates]
  | exhausted q =>
    cases hr
    simp only [World.apply, World.modify_heap_self]
    exact h.of_write hc.1 (fun _ => hc.2) fun _ => by simp [OmniOrder.exhausted, deadStates]
  | retried q =>
    cases hr
    obtain ⟨hlive, hout⟩ := hc
    have hlive : (w.heap q).state ≠ .sent ∧ (w.heap q).state ∉ deadStates := by
      simpa [not_or] using hlive
    simp only [World.apply, World.modify_heap_self]
    exact h.of_write hlive.1 (fun _ => hout) (of_not_denied (h.not_denied hlive.2))
  | markSent q =>
    cases hr
    have hqueued : (w.heap q).state = .queued := StateMachine.canTransition_sent.mp hf.2.2
    rw [hqueued] at h
    have hout := h.quiet (by decide)
    have hden := h.not_denied (by decide)
    simp only [World.apply, World.modify_heap_self]
    exact ⟨fun _ => hout, of_not_denied hden, fun _ => ⟨rfl, hout⟩, by rintro ⟨⟩⟩
  | post q =>
    cases hr
    have hst : stageOf w (w.heap r).omsOrderId = .preparing := by simp [stageOf, hf.2]
    have hsent : (w.heap r).state = .sent := (h.preparing hst).1
    rw [show (World.apply cfg (.post r) w).heap r = w.heap r from rfl]
    rw [hsent] at h ⊢
    exact ⟨fun hq => absurd hq (by decide), h.denied, by rintro ⟨⟩, fun _ => rfl⟩
  | abandoned q =>
    cases hr
    have hsent := h.sending (sending_stage hf.2)
    rw [show (World.apply cfg (.abandoned r) w).heap r = w.heap r from rfl]
    exact .off h.quiet h.denied
  | unanswered q res =>
    cases hr
    have hsent := h.sending (sending_stage hf.2)
    simp only [World.apply, World.modify_heap_self]
    refine .off (fun hq => ?_) (of_not_denied (h.not_denied (by simp [hsent, deadStates])))
    simp [OmniOrder.unanswered, quietStates] at hq
  | answered q res =>
    cases hr
    have hsent := h.sending (sending_stage hf.2)
    simp only [World.apply, World.modify_heap_self]
    refine .off (fun hq => ?_) (of_not_denied (h.not_denied (by simp [hsent, deadStates])))
    simp only [OmniOrder.answered, Effect.outAfter] at hq ⊢
    cases hres : res.state with
    | filled => rfl
    | partiallyFilled => exact hc hres
    | _ => simp [hres, quietStates] at hq
  | requeued q =>
    cases hr
    have hsent := h.sending (sending_stage hf.2.1)
    simp only [World.apply, World.modify_heap_self]
    exact .of_off (by rintro ⟨⟩) (by rintro ⟨⟩) (fun _ => rfl)
      (of_not_denied (h.not_denied (by simp [hsent, deadStates])))
  | countRetry q res =>
    cases hr
    simp only [World.apply, World.modify_heap_self]
    exact .off h.quiet h.denied
  | refused q res =>
    cases hr
    simp only [World.apply, World.modify_heap_self]
    exact .off (fun _ => rfl) fun _ => by simp [OmniOrder.refused, deadStates]
  | reconciling q =>
    cases hr
    have hstate : (w.heap q).state ∈ [OMSOrderState.unknown, .reconciling] := hc
    simp only [World.apply, World.modify_heap_self]
    refine h.of_write ?_ (fun hq => ?_) ?_
    · rintro hs
      simp [hs] at hstate
    · simp [OmniOrder.reconciling, quietStates] at hq
    · refine of_not_denied (h.not_denied fun hd => ?_)
      simp only [deadStates, List.mem_cons, List.not_mem_nil, or_false] at hd hstate
      rcases hstate with hs | hs <;> simp [hs] at hd
  | resolved q args lookups =>
    cases hr
    obtain ⟨hstate, habsent⟩ := hc
    simp only at hstate habsent
    rw [hstate] at h
    simp only [World.apply, World.modify_heap_self]
    refine h.of_write (by decide) ?_ (of_not_denied (h.not_denied (by decide)))
    intro hq
    rw [OmniOrder.resolve_state, hstate] at hq
    simp only [OmniOrder.resolvedState] at hq
    simp only [Effect.outAfter]
    split at hq
    · simp [quietStates] at hq
    · simp [quietStates] at hq
    · next hv => simp [hv]
    · simp [quietStates] at hq
    · next hv => simp [hv, habsent hv]
    · simp [quietStates] at hq
  | remote q entry target =>
    cases hr
    have hstate : (w.heap q).state ≠ .sent ∧ (w.heap q).state ∉ quietStates := by
      simpa [ReportsSettled, not_or] using hc
    have hden := h.not_denied fun hd => hstate.2 (quiet_of_dead hd)
    simp only [World.apply, World.modify_heap_self]
    refine h.of_write hstate.1 (fun hq => ?_) (of_not_denied hden)
    have hne : target ≠ .partialFill := by
      rintro rfl
      have hq : OMSOrderState.partialFill ∈ quietStates := hq
      exact absurd hq (by decide)
    simp [Effect.outAfter, hne]
  | _ => cases hr

structure Known (x : World × Lives) : Prop where
  unique : Unique x.1
  busy : Busy x.1
  settled : ∀ r < x.1.nextRef,
    Settled (stageOf x.1 (x.1.heap r).omsOrderId) (x.1.heap r).state
      (x.2.out (x.1.heap r).omsOrderId) (x.2.denied (x.1.heap r).omsOrderId)
  fresh : ∀ oid, x.1.nextOid ≤ oid → x.2.out oid = false ∧ x.2.denied oid = false

theorem reportStep (hs : Step cfg w e) (h : Known (w, g))
    (hc : ReportsSettled cfg keepsOpen (w, g) e) : ReportStep (w, g) e := by
  cases e with
  | reported r found verdict =>
    intro hfail
    obtain ⟨hr, hverdict⟩ : r < w.nextRef ∧ verdict.failing = !Engine.succeeds found.state :=
      hs.of_ne nofun
    have hdead : (w.heap r).state ∈ deadStates := by
      rcases hc with hs | hd
      · simp [hverdict, hs] at hfail
      · exact hd.2
    exact ⟨hdead, (h.settled r hr).quiet (quiet_of_dead hdead)⟩
  | post r =>
    obtain ⟨hsent, hworker⟩ : Sent w r ∧ w.worker = .preparing r := hs.of_ne nofun
    have hset := h.settled r hsent.1
    have hstage : stageOf w (w.heap r).omsOrderId = .preparing := by simp [stageOf, hworker]
    refine hset.not_denied ?_
    rw [(hset.preparing hstage).1]
    decide
  | _ => trivial

theorem known_other (hw : w.Inv) (hf : Facts cfg w e) (hn : e.subject cfg w = none)
    (hu : Unique (World.apply cfg e w)) (hb : Busy (World.apply cfg e w))
    (hc : ReportsSettled cfg keepsOpen (w, g) e) (h : Known (w, g)) :
    Known (World.apply cfg e w, g) := by
  have hstage : ∀ oid, stageOf (World.apply cfg e w) oid = stageOf w oid :=
    fun oid => stage_of_other hf h.busy (by simp [hn])
  refine ⟨hu, hb, fun q hq => ?_, fun oid hoid => ?_⟩
  · simp only [hstage]
    rcases object_cases (.inl hf) hq with ⟨hlt, heq⟩ | ⟨f, -, ho, -⟩ | ⟨o, rfl, hnew, heq⟩
    · rw [heq]
      exact h.settled q hlt
    · rw [subject_of_onOrder ho] at hn
      cases hn
    · rw [heq]
      cases e with
      | create req mr x =>
        cases hnew
        obtain ⟨hout, hden⟩ := h.fresh w.nextOid le_rfl
        have hst : stageOf w (newOrder cfg.sha256 w.nextOid req mr).omsOrderId = .off :=
          stageOf_new hw h.busy
        rw [hst]
        refine .off (fun _ => hout) fun hd => ?_
        exact absurd (hden.symm.trans hd) (by decide)
      | loaded row =>
        cases hnew
        obtain ⟨hfresh, hden, hout⟩ := hc
        have hst : stageOf w o.omsOrderId = .off := by
          by_contra hne
          unfold stageOf at hne
          cases hwk : w.worker with
          | idle => simp [hwk] at hne
          | preparing q | sending q | counting q =>
            have hlt := h.busy q (by rw [hwk]; rfl)
            simp [hwk, hfresh q hlt] at hne
        rw [hst]
        refine .off hout fun hd => ?_
        exact absurd (hden.symm.trans hd) (by decide)
      | _ => cases hnew
  · exact h.fresh oid ((nextOid_step (.inl hf)).trans hoid)

theorem noteLives_subject {r : Ref} (h : e.subject cfg w = some r) :
    noteLives cfg keepsOpen w e g =
      { g with
        out := Function.update g.out (w.heap r).omsOrderId
          (e.outAfter cfg keepsOpen w (g.out (w.heap r).omsOrderId)) } := by
  unfold noteLives
  split
  · cases h
  · rw [h]

theorem noteLives_other (hn : e.subject cfg w = none)
    (hr : ∀ r found verdict, e ≠ .reported r found verdict) :
    noteLives cfg keepsOpen w e g = g := by
  unfold noteLives
  split
  · exact absurd rfl (hr _ _ _)
  · rw [hn]

theorem known_subject (hw : w.Inv) {r : Ref} (hf : Facts cfg w e) (hr : e.subject cfg w = some r)
    (hu : Unique (World.apply cfg e w)) (hb : Busy (World.apply cfg e w))
    (hc : ReportsSettled cfg keepsOpen (w, g) e) (h : Known (w, g)) :
    Known (track (World.apply cfg) (noteLives cfg keepsOpen) e (w, g)) := by
  have hlt := subject_lt hw hf hr
  have hid : ((World.apply cfg e w).heap r).omsOrderId = (w.heap r).omsOrderId :=
    (stable_apply hf).same r hlt
  simp only [track, noteLives_subject hr]
  refine ⟨hu, hb, fun q hq => ?_, fun oid hoid => ?_⟩
  · simp only at hq ⊢
    by_cases hqr : q = r
    · subst hqr
      rw [hid, Function.update_self, stage_of_subject hf hr]
      exact settled_subject hf hr hc (h.settled q hlt)
    · have hql : q < w.nextRef := nextRef_of_subject hf hr ▸ hq
      have heq : (World.apply cfg e w).heap q = w.heap q := by
        refine heap_of_subject hf hql ?_
        rw [hr]
        exact fun hrq => hqr (Option.some.inj hrq).symm
      have hne : (w.heap q).omsOrderId ≠ (w.heap r).omsOrderId :=
        fun hqr' => hqr (h.unique q hql r hlt hqr')
      rw [heq, Function.update_of_ne hne, stage_of_other hf h.busy]
      · exact h.settled q hql
      · intro r' hr'
        rw [hr] at hr'
        cases hr'
        exact hne.symm
  · have hold := (nextOid_step (.inl hf)).trans hoid
    have hne : oid ≠ (w.heap r).omsOrderId := ((hw.objects r hlt).2.trans_le hold).ne'
    simp only [Function.update_of_ne hne]
    exact h.fresh oid hold

theorem known_reported (hw : w.Inv) {r : Ref} {found : OmniOrder} {verdict : Engine.Verdict}
    (hf : Facts cfg w (.reported r found verdict))
    (hc : ReportsSettled cfg keepsOpen (w, g) (.reported r found verdict)) (h : Known (w, g)) :
    Known (track (World.apply cfg) (noteLives cfg keepsOpen) (.reported r found verdict) (w, g)) := by
  obtain ⟨hr, hverdict⟩ := hf
  simp only [track, noteLives, World.apply]
  split
  · next hfail =>
    have hdead : (w.heap r).state ∈ deadStates := by
      rcases hc with hs | hd
      · simp [hverdict, hs] at hfail
      · exact hd.2
    refine ⟨h.unique, h.busy, fun q hq => ?_, fun oid hoid => ?_⟩
    · by_cases hqr : (w.heap q).omsOrderId = (w.heap r).omsOrderId
      · have hset := h.settled q hq
        obtain rfl := h.unique q hq r hr hqr
        exact ⟨hset.quiet, fun _ => hdead, hset.preparing, hset.sending⟩
      · simp only [Function.update_of_ne hqr]
        exact h.settled q hq
    · have hne : oid ≠ (w.heap r).omsOrderId := ((hw.objects r hr).2.trans_le hoid).ne'
      simp only [Function.update_of_ne hne]
      exact h.fresh oid hoid
  · exact h

theorem known_step (hw : w.Inv) (hs : Step cfg w e) (hc : ReportsSettled cfg keepsOpen (w, g) e)
    (h : Known (w, g)) : Known (track (World.apply cfg) (noteLives cfg keepsOpen) e (w, g)) := by
  have hnew : LoadsNew w e := by
    rintro row rfl
    exact hc.1
  have hu := unique_step hw hs hnew h.unique
  have hb := busy_step hs h.busy
  rcases hs with hf | rfl
  · cases hsub : e.subject cfg w with
    | some r => exact known_subject hw hf hsub hu hb hc h
    | none =>
      by_cases hr : ∃ r found verdict, e = .reported r found verdict
      · obtain ⟨r, found, verdict, rfl⟩ := hr
        exact known_reported hw hf hc h
      · have hnote : noteLives cfg keepsOpen w e g = g :=
          noteLives_other hsub fun r found verdict he => hr ⟨r, found, verdict, he⟩
        simp only [track, hnote]
        exact known_other hw hf hsub hu hb hc h
  · exact ⟨hu, hb, fun q hq => absurd hq (Nat.not_lt_zero _), h.fresh⟩

end Step

section Runs

variable {cfg : Settings} {keepsOpen : ExecutionResult → Bool}

def ReportsTruly (cfg : Settings) (keepsOpen : ExecutionResult → Bool) (es : List Effect) : Prop :=
  Legal (track (World.apply cfg) (noteLives cfg keepsOpen)) ReportStep (initial.state, {}) es

instance (es : List Effect) : Decidable (ReportsTruly cfg keepsOpen es) :=
  inferInstanceAs (Decidable (Legal _ _ _ _))

theorem reports_truly {es : List Effect} {P : Pool World Effect Reply Tag} (h : Life cfg es P)
    (hc : Legal (track (World.apply cfg) (noteLives cfg keepsOpen)) (ReportsSettled cfg keepsOpen)
      (initial.state, {}) es) :
    ReportsTruly cfg keepsOpen es := by
  have hlegal := ((legal_of_life h).1.track (noteLives cfg keepsOpen) {}).and hc
  have hinit : Known (initial.state, {}) :=
    ⟨fun q hq => absurd hq (Nat.not_lt_zero _), fun _ hr => (Option.some_ne_none _ hr.symm).elim,
      fun q hq => absurd hq (Nat.not_lt_zero _), fun _ _ => ⟨rfl, rfl⟩⟩
  refine (hlegal.with_invariant (I := Known) ?_ hinit).mono ?_
  · intro x e hx hg
    exact known_step hg.1.1 hg.1.2 hg.2 hx
  · intro x e hx
    exact reportStep hx.2.1.2 hx.1 hx.2.2

def buyTenOrder : Engine.NormalizedOrder where
  symbol := "RELIANCE"
  exchange := .nse
  side := .buy
  orderType := .market
  product := .intraday
  quantity := 10

/-- The gate places `buyTenOrder`, the worker sends it and gets `answer`, and the gate
reads the order. -/
def gateOrder (answer : ExecutionResult) : List Act :=
  alone .start 6 {} ++ [.start (.executeOrder "u1" buyTenOrder "dhan" "manual")] ++
    Outside.times {} 6 ++ [.start .processQueue] ++
    List.replicate 5 (.resume 1 ({ placed := some answer } : Outside).reply) ++
    Outside.times {} 2

/-- The broker refuses the order, and the gate reports it rejected. -/
theorem refusedOrder_reports_truly :
    ∃ es P, Life bare es P ∧ (es.getLast?.map Effect.denies = some true) ∧
      ReportsTruly bare (fun _ => false) es := by
  obtain ⟨es, P, hrun, hlast, hc⟩ := (system bare).exists_run initial
    (gateOrder { success := false, state := .rejected, message := "no margin" })
    (p := fun es P => es.getLast?.map Effect.denies = some true ∧
      Legal (track (World.apply bare) (noteLives bare fun _ => false))
        (ReportsSettled bare fun _ => false) (initial.state, {}) es)
    (by decide)
  exact ⟨es, P, hrun.life, hlast, reports_truly hrun.life hc⟩

/-- The send is never answered, the order is UNKNOWN, and the gate reports it rejected. -/
theorem unknownOrder_reported_failed : ∃ es P, Life bare es P ∧
    (P.state.heap 0).state = .unknown ∧ ¬ ReportsTruly bare (fun _ => false) es := by
  obtain ⟨es, P, hrun, hstate, hbad⟩ := (system bare).exists_run initial
    (gateOrder { indeterminate := true })
    (p := fun es P => (P.state.heap 0).state = .unknown ∧
      ¬ ReportsTruly bare (fun _ => false) es)
    (by decide)
  exact ⟨es, P, hrun.life, hstate, hbad⟩

end Runs

end Trademetrix.Oms
