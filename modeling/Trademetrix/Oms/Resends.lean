import Trademetrix.Oms.Custody
import Trademetrix.Oms.Intent

/-!
# Resends of one intent

What a send reads is the order object, and what a restart reads is the row. Beside the
run it is noted which request each order was placed for; the request rebuilt from an
object or a row is the same intent as long as no step takes a material attribute away.
-/

namespace Trademetrix.Oms

open Async
open Execution (ExecutionRequest ExecutionResult)

abbrev Asked := OrderId → Option ExecutionRequest

def noteAsked (w : World) (e : Effect) (asked : Asked) : Asked :=
  match e with
  | .create req _ _ => Function.update asked w.nextOid (some req)
  | _ => asked

/-- The request rebuilt from the record has the attributes of the one it was stored for,
and is the intent the record names. -/
structure Faithful (sha256 : String → String) (req : ExecutionRequest) (o : OmniOrder) : Prop where
  attributes : materialAttributes (buildExecutionRequest o) = materialAttributes req
  intent : sameIntent sha256 o.intentFingerprint (buildExecutionRequest o) = true

def KeptIntent (cfg : Settings) (asked : Asked) (o : OmniOrder) : Prop :=
  ∃ req, asked o.omsOrderId = some req ∧ Faithful cfg.sha256 req o

structure IntentsKept (cfg : Settings) (x : World × Asked) : Prop where
  objects : ∀ r < x.1.nextRef, KeptIntent cfg x.2 (x.1.heap r)
  rows : ∀ p ∈ x.1.rows, KeptIntent cfg x.2 p.2

/-- A request is taken with no zero strike and with an instrument type, and the quantity
of an order stays what it was, through partial fills and modifications. -/
def KeepsIntent (x : World × Asked) : Effect → Prop
  | .create req _ _ => req.strikePrice ≠ some 0 ∧ req.instrumentType ≠ ""
  | .answered r res =>
    res.state = .partiallyFilled → 0 < (x.1.heap r).remaining res → res.filledQty = 0
  | .modified r changes => changes.quantity.getD (x.1.heap r).quantity = (x.1.heap r).quantity
  | _ => True

instance (x : World × Asked) (e : Effect) : Decidable (KeepsIntent x e) := by
  apply Effect.casesOn (motive := fun e => Decidable (KeepsIntent x e)) e <;> intros <;>
    (dsimp only [KeepsIntent]; infer_instance)

section Step

variable {cfg : Settings} {w : World} {asked : Asked} {e : Effect} {r : Ref} {o o' : OmniOrder}
  {f : OmniOrder → OmniOrder} {req : ExecutionRequest}

theorem faithful_newOrder (hsha : ∀ s, (cfg.sha256 s).length = 64) (oid : OrderId)
    (mr : Option ℤ) :
    Faithful cfg.sha256 req (newOrder cfg.sha256 oid req mr) ↔
      req.strikePrice ≠ some 0 ∧ req.instrumentType ≠ "" := by
  refine Iff.trans ⟨Faithful.attributes, fun h => ⟨h, sameIntent_iff.mpr ⟨?_, ?_⟩⟩⟩
    (materialAttributes_rebuilt oid mr)
  · exact intentFingerprint_ne_empty hsha req
  · exact intentFingerprint_congr h.symm

theorem Faithful.congr (h : Faithful cfg.sha256 req o)
    (hattr : materialAttributes (buildExecutionRequest o') =
      materialAttributes (buildExecutionRequest o))
    (hname : o'.intentFingerprint = o.intentFingerprint) : Faithful cfg.sha256 req o' := by
  have hsame := sameIntent_iff.mp h.intent
  refine ⟨hattr.trans h.attributes, sameIntent_iff.mpr ⟨hname ▸ hsame.1, ?_⟩⟩
  rw [hname, hsame.2]
  exact (intentFingerprint_congr hattr).symm

theorem onOrder_rebuilt (ho : e.onOrder cfg w = some (r, f))
    (hquantity : (f o).quantity = o.quantity) :
    materialAttributes (buildExecutionRequest (f o)) =
        materialAttributes (buildExecutionRequest o) ∧
      (f o).intentFingerprint = o.intentFingerprint := by
  have hsame : ∀ q : ℤ, q = o.quantity →
      materialAttributes (buildExecutionRequest { o with quantity := q }) =
        materialAttributes (buildExecutionRequest o) := by
    rintro q rfl
    rfl
  cases e with
  | cancelled q via => cases via <;> cases ho <;> exact ⟨rfl, rfl⟩
  | modified q changes =>
    cases ho
    exact ⟨hsame _ hquantity, rfl⟩
  | answered q res =>
    cases ho
    exact ⟨hsame _ hquantity, rfl⟩
  | resolved q args lookups =>
    cases ho
    unfold OmniOrder.resolve
    split <;> exact ⟨rfl, rfl⟩
  | _ => cases ho <;> exact ⟨rfl, rfl⟩

theorem keepsIntent_iff (ho : e.onOrder cfg w = some (r, f)) :
    KeepsIntent (w, asked) e ↔ (f (w.heap r)).quantity = (w.heap r).quantity := by
  cases e with
  | cancelled q via => cases via <;> cases ho <;> exact ⟨fun _ => rfl, fun _ => trivial⟩
  | modified q changes =>
    cases ho
    exact Iff.rfl
  | answered q res =>
    cases ho
    simp only [KeepsIntent, OmniOrder.answered]
    by_cases hrest : res.state = .partiallyFilled ∧ 0 < (w.heap r).remaining res
    · rw [if_pos hrest, OmniOrder.remaining]
      refine ⟨fun h => ?_, fun h _ _ => by omega⟩
      have hzero := h hrest.1 hrest.2
      omega
    · rw [if_neg hrest]
      exact ⟨fun _ => rfl, fun _ hp hleft => absurd ⟨hp, hleft⟩ hrest⟩
  | resolved q args lookups =>
    cases ho
    exact ⟨fun _ => resolve_quantity _ _, fun _ => trivial⟩
  | _ => cases ho <;> exact ⟨fun _ => rfl, fun _ => trivial⟩

theorem KeptIntent.congr (h : KeptIntent cfg asked o) (hid : o'.omsOrderId = o.omsOrderId)
    (hattr : materialAttributes (buildExecutionRequest o') =
      materialAttributes (buildExecutionRequest o))
    (hname : o'.intentFingerprint = o.intentFingerprint) : KeptIntent cfg asked o' := by
  obtain ⟨req, hreq, hkept⟩ := h
  exact ⟨req, hid ▸ hreq, hkept.congr hattr hname⟩

theorem KeptIntent.noted (h : KeptIntent cfg asked o) (hfresh : ∀ oid, w.nextOid ≤ oid → asked oid = none) :
    KeptIntent cfg (noteAsked w e asked) o := by
  obtain ⟨req, hreq, hkept⟩ := h
  refine ⟨req, ?_, hkept⟩
  cases e with
  | create req' mr exitOf =>
    have hne : o.omsOrderId ≠ w.nextOid := by
      intro hid
      rw [hid, hfresh _ le_rfl] at hreq
      cases hreq
    exact (Function.update_of_ne hne _ _).trans hreq
  | _ => exact hreq

theorem keptIntent_onOrder (ho : e.onOrder cfg w = some (r, f)) (h : KeptIntent cfg asked (w.heap r)) :
    KeptIntent cfg asked (f (w.heap r)) ↔ KeepsIntent (w, asked) e := by
  have hid := (onOrder_keeps ho (w.heap r)).1
  refine ⟨fun h' => ?_, fun hk => ?_⟩
  · obtain ⟨req, hreq, hold⟩ := h
    obtain ⟨req', hreq', hnew⟩ := h'
    rw [hid, hreq] at hreq'
    cases hreq'
    have hattr := hnew.attributes.trans hold.attributes.symm
    exact (keepsIntent_iff ho).mpr (materialAttributes_inj.mp hattr).2.1
  · have hquantity : (f (w.heap r)).quantity = (w.heap r).quantity := (keepsIntent_iff ho).mp hk
    obtain ⟨hattr, hname⟩ := onOrder_rebuilt ho hquantity
    exact h.congr hid hattr hname

theorem keptIntent_create (hsha : ∀ s, (cfg.sha256 s).length = 64) (mr : Option ℤ)
    (exitOf : Option OrderId) :
    KeptIntent cfg (noteAsked w (.create req mr exitOf) asked) (newOrder cfg.sha256 w.nextOid req mr) ↔
      KeepsIntent (w, asked) (.create req mr exitOf) := by
  have hasked : noteAsked w (.create req mr exitOf) asked w.nextOid = some req :=
    Function.update_self _ _ _
  refine ⟨?_, fun hk => ⟨req, hasked, (faithful_newOrder hsha _ mr).mpr hk⟩⟩
  rintro ⟨req', hreq', hfaithful⟩
  cases hasked.symm.trans hreq'
  exact (faithful_newOrder hsha _ mr).mp hfaithful

theorem noteAsked_onOrder (ho : e.onOrder cfg w = some (r, f)) : noteAsked w e asked = asked := by
  cases e <;> first | rfl | cases ho

theorem keepsIntent_of_kept (hsha : ∀ s, (cfg.sha256 s).length = 64)
    (hs : w.Inv ∧ Step cfg w e) (hx : IntentsKept cfg (w, asked))
    (hx' : IntentsKept cfg (track (World.apply cfg) noteAsked e (w, asked))) :
    KeepsIntent (w, asked) e := by
  cases ho : e.onOrder cfg w with
  | some rf =>
    obtain ⟨r, f⟩ := rf
    have hr := (onOrder_ok ho hs.1 (hs.2.facts ho)).1
    obtain ⟨worker, probing, heq⟩ := apply_onOrder ho
    have hnew := hx'.objects r (by
      simp only [track, heq]
      exact hr)
    simp only [track, noteAsked_onOrder ho, heq] at hnew
    rw [show ({ w.modify r f with worker := worker, probing := probing } : World).heap r =
      f (w.heap r) from w.modify_heap_self r f] at hnew
    exact (keptIntent_onOrder ho (hx.objects r hr)).mp hnew
  | none =>
    cases e with
    | create req mr exitOf =>
      have hnew := hx'.objects w.nextRef (by
        obtain ⟨os, heq, -⟩ := World.addOrder_eq cfg { w with nextOid := w.nextOid + 1 }
          (newOrder cfg.sha256 w.nextOid req mr)
        simp only [track, World.apply, heq]
        exact Nat.lt_succ_self _)
      simp only [track, create_object] at hnew
      exact (keptIntent_create hsha mr exitOf).mp hnew
    | answered | modified => cases ho
    | _ => trivial

end Step

section Run

variable {cfg : Settings} {w : World} {g : Trace} {asked : Asked} {e : Effect} {r : Ref}

structure Told (cfg : Settings) (w : World) (g : Trace) (asked : Asked) : Prop where
  current : Current (w, g)
  made : ∀ r < w.nextRef, g.made r
  fresh : ∀ oid, w.nextOid ≤ oid → asked oid = none
  kept : ∀ o, g.seen o → KeptIntent cfg asked o

theorem Told.intentsKept (h : Told cfg w g asked) : IntentsKept cfg (w, asked) :=
  ⟨fun r hr => h.kept _ (h.current.objects r (h.made r hr)),
    fun p hp => h.kept _ (h.current.rows p hp)⟩

theorem keptIntent_touched (hsha : ∀ s, (cfg.sha256 s).length = 64) (hs : w.Inv ∧ Step cfg w e)
    (hstores : Stores (w, g) e) (hk : KeepsIntent (w, asked) e) (hx : Told cfg w g asked)
    (ht : e.touches w = some r) :
    KeptIntent cfg (noteAsked w e asked) ((World.apply cfg e w).heap r) := by
  cases ho : e.onOrder cfg w with
  | some rf =>
    obtain ⟨q, f⟩ := rf
    cases (onOrder_touches ho).symm.trans ht
    have hr := (onOrder_ok ho hs.1 (hs.2.facts ho)).1
    obtain ⟨worker, probing, heq⟩ := apply_onOrder ho
    rw [noteAsked_onOrder ho, heq]
    rw [show ({ w.modify r f with worker := worker, probing := probing } : World).heap r =
      f (w.heap r) from w.modify_heap_self r f]
    exact (keptIntent_onOrder ho (hx.intentsKept.objects r hr)).mpr hk
  | none =>
    cases e with
    | create req mr exitOf =>
      cases ht
      rw [create_object]
      exact (keptIntent_create hsha mr exitOf).mpr hk
    | loaded row =>
      cases ht
      obtain ⟨os, heq, -⟩ := World.addOrder_eq cfg w row
      simp only [World.apply, heq, if_true]
      exact hx.kept row hstores
    | cancelled q via => cases via <;> cases ho
    | _ => first | cases ho; done | cases ht

theorem made_step (hc : e ≠ .crash) (hs : Step cfg w e) (hmade : ∀ r < w.nextRef, g.made r) :
    ∀ r < (World.apply cfg e w).nextRef, (noteTrace cfg w e g).made r := by
  intro r hr
  rcases object_cases hs hr with ⟨hlt, -⟩ | ⟨f, hlt, -, -⟩ | ⟨o, rfl, hn, -⟩
  · exact .inr ⟨hc, hmade r hlt⟩
  · exact .inr ⟨hc, hmade r hlt⟩
  · left
    cases e <;> first | rfl | cases hn

theorem fresh_step (hs : Step cfg w e) (hfresh : ∀ oid, w.nextOid ≤ oid → asked oid = none) :
    ∀ oid, (World.apply cfg e w).nextOid ≤ oid → noteAsked w e asked oid = none := by
  intro oid hoid
  have hold := hfresh oid ((nextOid_step hs).trans hoid)
  cases e with
  | create req mr exitOf =>
    have hne : oid ≠ w.nextOid := by
      obtain ⟨os, heq, -⟩ := World.addOrder_eq cfg { w with nextOid := w.nextOid + 1 }
        (newOrder cfg.sha256 w.nextOid req mr)
      simp only [World.apply, heq] at hoid
      exact (Nat.lt_of_succ_le hoid).ne'
    exact (Function.update_of_ne hne _ _).trans hold
  | _ => exact hold

theorem told_step (hsha : ∀ s, (cfg.sha256 s).length = 64) (hs : w.Inv ∧ Step cfg w e)
    (hstores : Stores (w, g) e ∨ e = .crash) (hk : KeepsIntent (w, asked) e)
    (hx : Told cfg w g asked) :
    Told cfg (World.apply cfg e w) (noteTrace cfg w e g) (noteAsked w e asked) := by
  rcases hstores with hstores | rfl
  · refine ⟨current_apply hstores hx.current, made_step hstores.ne_crash hs.2 hx.made,
      fresh_step hs.2 hx.fresh, fun o ho => ?_⟩
    rcases ho with ⟨r, ht, rfl⟩ | ho
    · exact keptIntent_touched hsha hs hstores hk hx ht
    · exact (hx.kept o ho).noted hx.fresh
  · refine ⟨current_crash hx.current, fun r hr => absurd hr (Nat.not_lt_zero r), hx.fresh,
      fun o ho => ?_⟩
    rcases ho with ⟨r, ht, -⟩ | ho
    · cases ht
    · exact hx.kept o ho

/-- Every order object and every row rebuilds to the intent it was placed with, in every
state of a run, exactly when each step of the run meets the condition. -/
theorem intents_kept_iff (hsha : ∀ s, (cfg.sha256 s).length = 64) {es : List Effect}
    {P : Pool World Effect Reply Tag} (h : Life cfg es P) :
    Always (track (World.apply cfg) noteAsked) (IntentsKept cfg) (initial.state, fun _ => none)
        es ↔
      Legal (track (World.apply cfg) noteAsked) KeepsIntent (initial.state, fun _ => none) es := by
  have hsteps := (legal_of_life h).1
  constructor
  · intro halways
    refine (hsteps.track noteAsked fun _ => none).of_always (P := IntentsKept cfg) ?_ halways
    exact fun x e hs hx hx' => keepsIntent_of_kept hsha hs hx hx'
  · intro hlegal
    let both := track (track (World.apply cfg) (noteTrace cfg)) fun y e => noteAsked y.1 e
    have hπ : ∀ e y, ((both e y).1.1, (both e y).2) =
        track (World.apply cfg) noteAsked e (y.1.1, y.2) := fun _ _ => rfl
    have hkeeps := (legal_map (π := fun y => (y.1.1, y.2)) hπ ((initial.state, {}), fun _ => none)
      es).mpr hlegal
    have hall := ((hsteps.track (noteTrace cfg) {}).and (stores_of_life h)).track
      (fun y e => noteAsked y.1 e) fun _ => none
    have hinit : Told cfg initial.state {} fun _ => none :=
      ⟨⟨fun _ hr => hr.elim, fun _ hp => absurd hp List.not_mem_nil⟩,
        fun r hr => absurd hr (Nat.not_lt_zero r), fun _ _ => rfl, fun _ ho => ho.elim⟩
    have htold := (hall.and hkeeps).always (I := fun y => Told cfg y.1.1 y.1.2 y.2)
      (fun y e hy hg => told_step hsha hg.1.1 hg.1.2 hg.2 hy) hinit
    exact (always_map (π := fun y => (y.1.1, y.2)) hπ ((initial.state, {}), fun _ => none)
      es).mp (htold.mono fun y hy => hy.intentsKept)

def digested : Settings := { bare with sha256 := digestOf }

/-- `buyTen` is refused once by the network and sent again as the same intent. -/
theorem intents_kept_resent :
    ∃ es P, Life digested es P ∧ (P.state.heap 0).retryCount = 1 ∧
      (P.state.heap 0).state = .filled ∧
      Always (track (World.apply digested) noteAsked) (IntentsKept digested)
        (initial.state, fun _ => none) es := by
  obtain ⟨es, P, hrun, hretried, hfilled, hc⟩ := (system digested).exists_run initial
    (alone .start 6 {} ++ alone (.placeOrder buyTen none) 6 {} ++
      alone .processQueue 9
        { placed := some { errorCode := "NETWORK_ERROR", state := .rejected } } ++
      [.env (.elapse (seconds 2))] ++ alone .processQueue 11 { placed := some filledTen })
    (p := fun es P => (P.state.heap 0).retryCount = 1 ∧ (P.state.heap 0).state = .filled ∧
      Legal (track (World.apply digested) noteAsked) KeepsIntent
        (initial.state, fun _ => none) es)
    (by decide)
  have hsha : ∀ text, (digested.sha256 text).length = 64 := length_digestOf
  exact ⟨es, P, hrun.life, hretried, hfilled, (intents_kept_iff hsha hrun.life).mpr hc⟩

def zeroStrike : ExecutionRequest :=
  { userId := "u1", broker := "dhan", symbol := "NIFTY", side := "BUY", quantity := 50
    instrumentType := "FUT", expiryDate := some "2026-01-29", strikePrice := some 0 }

/-- The record of a future with a zero strike has no strike: what is sent for it is no
longer the intent that was recorded. -/
theorem intents_lost :
    ∃ es P, Life digested es P ∧ (P.state.heap 0).state = .queued ∧
      buildExecutionRequest (P.state.heap 0) = { zeroStrike with
        strikePrice := none, executionRequestId := "0" } ∧
      sameIntent digested.sha256 (P.state.heap 0).intentFingerprint
        (buildExecutionRequest (P.state.heap 0)) = false ∧
      ¬ IntentsKept digested (replay (track (World.apply digested) noteAsked)
        (initial.state, fun _ => none) es) := by
  obtain ⟨es, P, hrun, hqueued, hbuilt, hother, hat, hmade⟩ := (system digested).exists_run initial
    (alone .start 6 {} ++ alone (.placeOrder zeroStrike none) 6 {})
    (p := fun es P => (P.state.heap 0).state = .queued ∧
      buildExecutionRequest (P.state.heap 0) = { zeroStrike with
        strikePrice := none, executionRequestId := "0" } ∧
      sameIntent digested.sha256 (P.state.heap 0).intentFingerprint
        (buildExecutionRequest (P.state.heap 0)) = false ∧
      (replay (track (World.apply digested) noteAsked) (initial.state, fun _ => none) es).1.heap 0 =
        P.state.heap 0 ∧
      0 < (replay (track (World.apply digested) noteAsked) (initial.state, fun _ => none)
        es).1.nextRef)
    (by decide)
  refine ⟨es, P, hrun.life, hqueued, hbuilt, hother, fun hkept => ?_⟩
  obtain ⟨req, -, hfaithful⟩ := hkept.objects 0 hmade
  rw [hat] at hfaithful
  exact absurd (hother.symm.trans hfaithful.intent) (by decide)

end Run

end Trademetrix.Oms
