import Trademetrix.Oms.Legal

/-!
# State changes of orders

Which effects move an order along the transition table, whatever runs beside
them. `Last` remembers the state each order was last given, over every object
and every life of the process.
-/

namespace Trademetrix.Oms

open Async
open Execution (ExecutionRequest ExecutionResult)

abbrev Last := OrderId → Option OMSOrderState

def stateGiven (cfg : Settings) (w : World) (e : Effect) : Option (OrderId × OMSOrderState) :=
  match e.onOrder cfg w with
  | some (r, f) => some ((w.heap r).omsOrderId, (f (w.heap r)).state)
  | none => (e.newObject cfg w).map fun o => (o.omsOrderId, o.state)

def noteState (cfg : Settings) (w : World) (e : Effect) (last : Last) : Last :=
  match stateGiven cfg w e with
  | some (oid, state) => fun q => if q = oid then some state else last q
  | none => last

def Follows (before after : OMSOrderState) : Prop :=
  after = before ∨ StateMachine.canTransition before after = true

instance (before after : OMSOrderState) : Decidable (Follows before after) :=
  inferInstanceAs (Decidable (_ ∨ _))

/-- Whatever state an order is given follows the one it was in, and is that one
when that one is terminal. -/
def TableStep (cfg : Settings) (x : World × Last) (e : Effect) : Prop :=
  ∀ given ∈ stateGiven cfg x.1 e, ∀ before ∈ x.2 given.1,
    Follows before given.2 ∧ (before ∈ terminalOmsStates → given.2 = before)

instance (cfg : Settings) (x : World × Last) (e : Effect) : Decidable (TableStep cfg x e) :=
  inferInstanceAs (Decidable (∀ _ ∈ _, ∀ _ ∈ _, _))

theorem Follows.of_terminal {before after : OMSOrderState} (h : Follows before after)
    (hterm : before ∈ terminalOmsStates) : after = before := by
  rcases h with h | h
  · exact h
  · have hterm' : StateMachine.isTerminal before = true := by
      simpa [StateMachine.isTerminal, terminalOmsStates] using hterm
    rw [StateMachine.canTransition_of_terminal hterm'] at h
    cases h

/-- What a write has to find: the order in the state the coroutine left it in, and a
branch that has an edge. -/
def Undisturbed (cfg : Settings) (x : World × Last) : Effect → Prop
  | .queued r => (x.1.heap r).state = .new
  | .cancelled r .dequeued => (x.1.heap r).state = .queued
  | .cancelled r .notRemoved | .cancelled r (.confirmed _) =>
    (x.1.heap r).state ∈ [OMSOrderState.queued, .pending, .partialFill, .unknown, .reconciling]
  | .exhausted r =>
    (x.1.heap r).state ∈
      [OMSOrderState.new, .validated, .queued, .sent, .unknown, .reconciling, .pending,
        .partialFill, .rejected]
  | .retried r => (x.1.heap r).state ∈ [OMSOrderState.new, .validated, .queued, .partialFill]
  | .unanswered r _ | .refused r _ => (x.1.heap r).state = .sent
  | .answered r res =>
    (x.1.heap r).state = .sent ∧ ¬ (res.state = .partiallyFilled ∧ 0 < (x.1.heap r).remaining res)
  | .requeued _ => False
  | .reconciling r => (x.1.heap r).state ∈ [OMSOrderState.unknown, .reconciling]
  | .resolved r args lookups =>
    (x.1.heap r).state = .reconciling ∧
      (reconcile cfg.fromisoformat cfg.obs args lookups x.1.now).verdict ≠ .notFound
  | .loaded row =>
    (∀ r < x.1.nextRef, (x.1.heap r).omsOrderId ≠ row.omsOrderId) ∧
      ∀ before ∈ x.2 row.omsOrderId, row.state = before
  | _ => True

instance decidableCancelled (cfg : Settings) (x : World × Last) (r : Ref) (via : CancelVia) :
    Decidable (Undisturbed cfg x (.cancelled r via)) := by
  apply CancelVia.casesOn (motive := fun via => Decidable (Undisturbed cfg x (.cancelled r via)))
    via <;> intros <;> (dsimp only [Undisturbed]; infer_instance)

instance (cfg : Settings) (x : World × Last) (e : Effect) : Decidable (Undisturbed cfg x e) := by
  apply Effect.casesOn (motive := fun e => Decidable (Undisturbed cfg x e)) e <;> intros <;>
    first | infer_instance | (dsimp only [Undisturbed]; infer_instance)

section Step

variable {cfg : Settings} {w : World} {last : Last} {e : Effect}

/-- The record of last states agrees with the objects, and knows no order before
its id is minted. -/
structure Tracks (x : World × Last) : Prop where
  objects : ∀ r < x.1.nextRef, x.2 (x.1.heap r).omsOrderId = some (x.1.heap r).state
  unique : Unique x.1
  fresh : ∀ oid, x.1.nextOid ≤ oid → x.2 oid = none

theorem follows_of_mem {s t : OMSOrderState} {l : List OMSOrderState} (hm : s ∈ l)
    (hl : ∀ s ∈ l, Follows s t) : Follows s t := hl s hm

theorem follows_onOrder {r : Ref} {f : OmniOrder → OmniOrder}
    (h : e.onOrder cfg w = some (r, f)) (hf : Facts cfg w e) (hu : Undisturbed cfg (w, last) e) :
    Follows (w.heap r).state (f (w.heap r)).state := by
  cases e with
  | cancelled q via =>
    cases via with
    | dequeued =>
      cases h
      exact follows_of_mem (t := .cancelled) (List.mem_singleton.mpr hu) (by decide)
    | notRemoved | confirmed =>
      cases h
      exact follows_of_mem (t := .cancelled) hu (by decide)
    | noBrokerId =>
      cases h
      exact .inr hf.2.2.2
    | sibling =>
      cases h
      exact .inr hf.2
  | queued q =>
    cases h
    exact follows_of_mem (t := .queued) (List.mem_singleton.mpr hu) (by decide)
  | exhausted q =>
    cases h
    exact follows_of_mem (t := .rejected) hu (by decide)
  | retried q =>
    cases h
    exact follows_of_mem (t := .queued) hu (by decide)
  | reconciling q =>
    cases h
    exact follows_of_mem (t := .reconciling) hu (by decide)
  | note q | modified q | related q | countRetry q =>
    cases h
    exact .inl rfl
  | markSent q =>
    cases h
    exact .inr hf.2.2
  | unanswered q =>
    cases h
    exact follows_of_mem (t := .unknown) (List.mem_singleton.mpr hu) (by decide)
  | refused q =>
    cases h
    exact follows_of_mem (t := .rejected) (List.mem_singleton.mpr hu) (by decide)
  | answered q res =>
    cases h
    obtain ⟨hsent, hrest⟩ := hu
    simp only [OmniOrder.answered]
    rw [hsent]
    split
    · decide
    · next hpart =>
      rw [if_neg fun hlt => hrest ⟨hpart, hlt⟩]
      decide
    · decide
  | requeued q => exact hu.elim
  | resolved q args lookups =>
    cases h
    obtain ⟨hrec, hverdict⟩ := hu
    rw [OmniOrder.resolve_state, hrec]
    unfold OmniOrder.resolvedState
    split
    · decide
    · exact .inl rfl
    · decide
    · decide
    · next hv => exact absurd hv hverdict
    · decide
  | remote q entry target =>
    cases h
    exact .inr hf.2.1
  | _ => cases h

theorem tableStep (hw : w.Inv) (ht : Tracks (w, last)) (hs : Step cfg w e)
    (hu : Undisturbed cfg (w, last) e) : TableStep cfg (w, last) e := by
  suffices hfollows : ∀ given ∈ stateGiven cfg w e, ∀ before ∈ last given.1,
      Follows before given.2 from
    fun given hg before hb => ⟨hfollows given hg before hb, (hfollows given hg before hb).of_terminal⟩
  intro given hgiven before hbefore
  simp only [stateGiven] at hgiven
  cases ho : e.onOrder cfg w with
  | some rf =>
    obtain ⟨r, f⟩ := rf
    rw [ho] at hgiven
    cases hgiven
    have hf := hs.facts ho
    have hlast := ht.objects r (onOrder_ok ho hw hf).1
    have heq : (w.heap r).state = before := Option.some.inj (hlast.symm.trans hbefore)
    exact heq ▸ follows_onOrder ho hf hu
  | none =>
    rw [ho] at hgiven
    cases e with
    | create req mr x =>
      cases hgiven
      have hsome : last w.nextOid = some before := hbefore
      have hnone : last w.nextOid = none := ht.fresh w.nextOid le_rfl
      rw [hnone] at hsome
      cases hsome
    | loaded row =>
      cases hgiven
      exact .inl (hu.2 before hbefore)
    | cancelled q via => cases via <;> cases ho
    | _ => cases hgiven

theorem minted_before (hw : w.Inv) (hs : Step cfg w e) {oid : OrderId}
    (hoid : (World.apply cfg e w).nextOid ≤ oid) :
    w.nextOid ≤ oid ∧ ∀ given ∈ stateGiven cfg w e, given.1 ≠ oid := by
  rcases hs with hf | rfl
  · have hle : w.nextOid ≤ oid := (stable_apply hf).oids.trans hoid
    refine ⟨hle, fun given hg => ?_⟩
    simp only [stateGiven] at hg
    cases ho : e.onOrder cfg w with
    | some rf =>
      obtain ⟨r, f⟩ := rf
      rw [ho] at hg
      cases hg
      exact ((hw.objects r (onOrder_ok ho hw hf).1).2.trans_le hle).ne
    | none =>
      rw [ho] at hg
      cases e with
      | create req mr x =>
        cases hg
        obtain ⟨os, hadd, -⟩ := World.addOrder_eq cfg { w with nextOid := w.nextOid + 1 }
          (newOrder cfg.sha256 w.nextOid req mr)
        simp only [World.apply, hadd] at hoid
        exact (Nat.lt_of_succ_le hoid).ne
      | loaded row =>
        cases hg
        exact (hf.2.trans_le hle).ne
      | cancelled q via => cases via <;> cases ho
      | _ => cases hg
  · exact ⟨hoid, by simp [stateGiven, Effect.onOrder, Effect.newObject]⟩

theorem tracks_step (hw : w.Inv) (ht : Tracks (w, last)) (hs : Step cfg w e)
    (hu : Undisturbed cfg (w, last) e) :
    Tracks (track (World.apply cfg) (noteState cfg) e (w, last)) := by
  have hnew : LoadsNew w e := by
    rintro row rfl
    exact hu.1
  refine ⟨fun q hq => ?_, unique_step hw hs hnew ht.unique, fun oid hoid => ?_⟩
  · simp only [track, noteState, stateGiven] at hq ⊢
    cases ho : e.onOrder cfg w with
    | some rf =>
      obtain ⟨r, f⟩ := rf
      obtain ⟨worker, probing, heq⟩ := apply_onOrder ho
      have hr := (onOrder_ok ho hw (hs.facts ho)).1
      rw [heq] at hq ⊢
      by_cases hqr : q = r
      · subst hqr
        simp [(onOrder_keeps ho (w.heap q)).1]
      · have hne : (w.heap q).omsOrderId ≠ (w.heap r).omsOrderId :=
          fun h => hqr (ht.unique q hq r hr h)
        simp only [World.modify_heap_ne w f hqr, if_neg hne]
        exact ht.objects q hq
    | none =>
      cases hn : e.newObject cfg w with
      | some o =>
        obtain ⟨k, -, heq⟩ := apply_newObject hn
        obtain ⟨os, hadd, -⟩ := World.addOrder_eq cfg { w with nextOid := k } o
        rw [heq, hadd] at hq ⊢
        rcases Nat.lt_succ_iff_lt_or_eq.mp hq with hq | rfl
        · simp only [Option.map_some, if_neg hq.ne, if_neg (newObject_new hw hnew hn q hq)]
          exact ht.objects q hq
        · simp
      | none =>
        rcases hs with hf | rfl
        · obtain ⟨hheap, href⟩ := apply_heap ho hn (facts_ne_crash hf)
          rw [href] at hq
          rw [hheap]
          exact ht.objects q hq
        · exact absurd hq (Nat.not_lt_zero _)
  · have hold : w.nextOid ≤ oid ∧ ∀ given ∈ stateGiven cfg w e, given.1 ≠ oid :=
      minted_before hw hs hoid
    simp only [track, noteState]
    cases hg : stateGiven cfg w e with
    | none => exact ht.fresh oid hold.1
    | some given =>
      simp only [if_neg (hold.2 given hg).symm]
      exact ht.fresh oid hold.1

end Step

section Runs

variable {cfg : Settings}

def unheard : Last := fun _ => none

/-- Every state change of a run is an edge of the table and none leaves a terminal
state. -/
def KeepsTable (cfg : Settings) (es : List Effect) : Prop :=
  Legal (track (World.apply cfg) (noteState cfg)) (TableStep cfg) (initial.state, unheard) es

instance (cfg : Settings) (es : List Effect) : Decidable (KeepsTable cfg es) :=
  inferInstanceAs (Decidable (Legal _ _ _ _))

/-- A run whose writes are all undisturbed keeps to the table. -/
theorem keepsTable_of_undisturbed {es : List Effect} {P : Pool World Effect Reply Tag}
    (h : Life cfg es P)
    (hu : Legal (track (World.apply cfg) (noteState cfg)) (Undisturbed cfg)
      (initial.state, unheard) es) :
    KeepsTable cfg es := by
  have hlegal := ((legal_of_life h).1.track (noteState cfg) unheard).and hu
  have hinit : Tracks (initial.state, unheard) :=
    ⟨fun r hr => absurd hr (Nat.not_lt_zero _), fun q hq => absurd hq (Nat.not_lt_zero _),
      fun _ _ => rfl⟩
  refine (hlegal.with_invariant (I := Tracks) (fun x e hx hg => ?_) hinit).mono fun x e hx => ?_
  · exact tracks_step hg.1.1 hx hg.1.2 hg.2
  · obtain ⟨ht, ⟨hw, hs⟩, hu⟩ := hx
    exact tableStep hw ht hs hu

/-- Place `buyTen` and have the broker fill it. -/
def fillTen : List Act :=
  alone .start 6 {} ++ alone (.placeOrder buyTen none) 6 {} ++
    alone .processQueue 11 { placed := some filledTen }

theorem fillTen_keepsTable :
    ∃ es P, Life bare es P ∧ (P.state.heap 0).state = .filled ∧ KeepsTable bare es := by
  obtain ⟨es, P, hrun, hfilled, hu⟩ := (system bare).exists_run initial fillTen
    (p := fun es P => (P.state.heap 0).state = .filled ∧
      Legal (track (World.apply bare) (noteState bare)) (Undisturbed bare)
        (initial.state, unheard) es)
    (by decide)
  exact ⟨es, P, hrun.life, hfilled, keepsTable_of_undisturbed hrun.life hu⟩

/-- `retry_order` takes a filled order back to the queue. -/
theorem retry_leaves_filled : ∃ es P, Life bare es P ∧ ¬ KeepsTable bare es := by
  obtain ⟨es, P, hrun, hbad⟩ := (system bare).exists_run initial
    (fillTen ++ alone (.retryOrder 0) 4 {}) (p := fun es _ => ¬ KeepsTable bare es)
    (by decide)
  exact ⟨es, P, hrun.life, hbad⟩

end Runs

end Trademetrix.Oms
