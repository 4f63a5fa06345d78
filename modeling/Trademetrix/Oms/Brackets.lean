import Trademetrix.Oms.Fills

/-!
# The exits of a bracket

Which exit orders were placed for each entry order is noted beside the books of
`Trademetrix.Oms.Fills`. What an exit has filled, waits to send and has working at the
broker is its exposure; the exits of an entry together must stay within what the entry
filled.
-/

namespace Trademetrix.Oms

open Async
open Execution (ExecutionRequest ExecutionResult)

structure Exits where
  books : Books := {}
  exits : OrderId → List OrderId := fun _ => []

def noteExits (cfg : Settings) (keepsOpen : ExecutionResult → Bool) (w : World) (e : Effect)
    (g : Exits) : Exits where
  books := noteFills cfg keepsOpen w e g.books
  exits := match e with
    | .create _ _ (some p) => Function.update g.exits p (w.nextOid :: g.exits p)
    | _ => g.exits

def waits (x : World × Exits) (oid : OrderId) : ℤ :=
  match x.2.books.last oid with
  | none => 0
  | some o =>
    if o.state ∈ [OMSOrderState.new, .validated, .queued] ∨ stageOf x.1 oid = .preparing then
      o.quantity
    else 0

def exposure (x : World × Exits) (oid : OrderId) : ℤ :=
  (x.2.books.ledger oid).filled + (waits x oid + (x.2.books.ledger oid).working)

def Covered (x : World × Exits) : Prop :=
  ∀ p < x.1.nextOid, x.2.exits p ≠ [] →
    ((x.2.exits p).map (exposure x)).sum ≤ (x.2.books.ledger p).filled

def PlacedFilled (g : Exits) : Effect → Bool
  | .create _ _ (some p) => (g.books.last p).any fun o => o.state = .filled
  | _ => true

def BracketStep (cfg : Settings) (keepsOpen : ExecutionResult → Bool) (x : World × Exits)
    (e : Effect) : Prop :=
  PlacedFilled x.2 e = true ∧ Covered (track (World.apply cfg) (noteExits cfg keepsOpen) e x)

instance (x : World × Exits) : Decidable (Covered x) :=
  inferInstanceAs (Decidable (∀ p < _, _))

instance (cfg : Settings) (keepsOpen : ExecutionResult → Bool) (x : World × Exits) (e : Effect) :
    Decidable (BracketStep cfg keepsOpen x e) :=
  inferInstanceAs (Decidable (_ ∧ _))

def Closed (x : World × Exits) (oid : OrderId) : Prop :=
  (x.2.books.last oid).any (fun o => o.state ∈ .filled :: deadStates) = true ∧
    (x.2.books.ledger oid).live = false ∧ stageOf x.1 oid ∈ [Stage.off, .counting]

/-- What keeps the exits covered: the books are kept, an exit is placed for no more than
a filled entry's quantity and only when the exits before it are closed without a fill, no
closed order is taken up again, and the broker fills no more than was sent. -/
def ExitsGuarded (keepsOpen : ExecutionResult → Bool) (x : World × Exits) (e : Effect) : Prop :=
  KeptBooks keepsOpen (x.1, x.2.books) e ∧ match e with
  | .create req _ (some p) =>
    (x.2.books.last p).any (fun o =>
      o.state = .filled && 0 ≤ req.quantity && req.quantity ≤ o.filledQuantity) = true ∧
      ∀ oid ∈ x.2.exits p, Closed x oid ∧ (x.2.books.ledger oid).filled = 0
  | .retried r => (x.1.heap r).state ∉ .filled :: deadStates
  | .remote r entry target =>
    target = .partialFill → entry.filledQuantity ≤
      (x.2.books.ledger (x.1.heap r).omsOrderId).sentQty
  | _ => True

instance (x : World × Exits) (oid : OrderId) : Decidable (Closed x oid) :=
  inferInstanceAs (Decidable (_ ∧ _))

instance decidableCreate (keepsOpen : ExecutionResult → Bool) (x : World × Exits)
    (req : ExecutionRequest) (maxRetries : Option ℤ) (exitOf : Option OrderId) :
    Decidable (ExitsGuarded keepsOpen x (.create req maxRetries exitOf)) := by
  apply Option.casesOn (motive := fun exitOf =>
    Decidable (ExitsGuarded keepsOpen x (.create req maxRetries exitOf))) exitOf <;> intros <;>
    (dsimp only [ExitsGuarded]; infer_instance)

instance (keepsOpen : ExecutionResult → Bool) (x : World × Exits) (e : Effect) :
    Decidable (ExitsGuarded keepsOpen x e) := by
  apply Effect.casesOn (motive := fun e => Decidable (ExitsGuarded keepsOpen x e)) e <;> intros <;>
    first | infer_instance | (dsimp only [ExitsGuarded]; infer_instance)

section Step

variable {cfg : Settings} {keepsOpen : ExecutionResult → Bool} {w : World} {g : Exits} {e : Effect}
  {st : Stage} {o : OmniOrder} {l : Ledger} {oid : OrderId}

/-- What an exit's books must say beside their balance. -/
structure Capped (o : OmniOrder) (l : Ledger) : Prop where
  quantity : 0 ≤ o.quantity
  within : l.live = true → l.filledQty ≤ l.sentQty
  dead : o.state ∈ deadStates → l.filled + l.working ≤ l.requested

namespace Capped

theorem working_nonneg (h : Capped o l) : 0 ≤ l.working := by
  unfold Ledger.working
  split
  · next hlive => exact sub_nonneg.mpr (h.within hlive)
  · exact le_rfl

theorem total (h : Capped o l) (hb : Booked st o l) : l.filled + l.working ≤ l.requested := by
  have hq := h.quantity
  have hbal := hb.balanced
  by_cases hdead : o.state ∈ deadStates
  · exact h.dead hdead
  · have hst : standing st o.state ≠ .dead := by
      cases st <;> cases hs : o.state <;> simp [hs, deadStates, standing] at hdead ⊢
    cases hstand : standing st o.state with
    | dead => exact absurd hstand hst
    | waiting =>
      obtain ⟨hl, hreq⟩ : l.live = false ∧ _ := hstand ▸ hbal
      simp [Ledger.working, hl]
      omega
    | away =>
      obtain ⟨hl, hsent, hqty, -, hreq⟩ : l.live = true ∧ _ := hstand ▸ hbal
      simp [Ledger.working, hl]
      omega
    | resting =>
      obtain ⟨hl, hsent, hreq⟩ : l.live = true ∧ _ := hstand ▸ hbal
      simp [Ledger.working, hl]
      omega
    | done =>
      obtain ⟨hl, hreq⟩ : l.live = false ∧ _ := hstand ▸ hbal
      simp [Ledger.working, hl, hreq]

theorem filled_le (h : Capped o l) (hb : Booked st o l) : l.filled ≤ l.requested := by
  have htotal := h.total hb
  have hpos := h.working_nonneg
  omega

theorem of_quantity {o' : OmniOrder} (h : Capped o l) (hb : Booked st o l)
    (hq : o'.quantity = o.quantity) : Capped o' l :=
  ⟨hq ▸ h.quantity, h.within, fun _ => h.total hb⟩

theorem of_closed {o' : OmniOrder} {l' : Ledger} (h : Capped o l) (hb : Booked st o l)
    (hq : o'.quantity = o.quantity) (hf : l'.filled = l.filled) (hr : l'.requested = l.requested)
    (hl : l'.live = false) : Capped o' l' := by
  refine ⟨hq ▸ h.quantity, fun hl' => ?_, fun _ => ?_⟩
  · exact absurd (hl.symm.trans hl') (by decide)
  · simp only [Ledger.working, hl, hf, hr]
    simpa using h.filled_le hb

end Capped

theorem readEntry_requested (l : Ledger) (entry : RemoteOrder) (target : OMSOrderState) :
    (l.readEntry entry target).requested = l.requested := by
  unfold Ledger.readEntry
  split_ifs <;> rfl

theorem after_requested {r : Ref} (h : e.subject cfg w = some r) :
    (l.after cfg keepsOpen w e).requested = l.requested := by
  cases e with
  | create => cases h
  | resolved q args lookups =>
    simp only [Ledger.after]
    split_ifs <;> rfl
  | remote q entry target => exact readEntry_requested l entry target
  | _ => rfl

theorem capped_answered {res : ExecutionResult} (hb : Booked .sending o l) (h : Capped o l)
    (hc : Answerable keepsOpen o res) :
    Capped (o.answered res) (l.report res.filledQty res.avgPrice (staysLive keepsOpen o res)) := by
  obtain ⟨-, hle, -, -, -⟩ := hc
  obtain ⟨-, hsent, -, -, -⟩ : l.Balanced o .away := hb.balanced
  have hq := h.quantity
  refine ⟨?_, fun _ => ?_, fun hdead => ?_⟩
  · cases hst : res.state with
    | partiallyFilled =>
      by_cases hleft : 0 < o.remaining res
      · simp [OmniOrder.answered, hst, hleft, hleft.le]
      · simpa [OmniOrder.answered, hst, hleft, OmniOrder.takeFill] using hq
    | _ => simpa [OmniOrder.answered, hst, OmniOrder.takeFill] using hq
  · simp only [Ledger.report]
    omega
  · cases hst : res.state with
    | partiallyFilled =>
      by_cases hleft : 0 < o.remaining res <;>
        simp [OmniOrder.answered, hst, hleft, deadStates] at hdead
    | _ => simp [OmniOrder.answered, hst, deadStates] at hdead

theorem readEntry_dead {entry : RemoteOrder} {target : OMSOrderState} (ht : target ∈ deadStates)
    (hl : Legible l entry target) :
    (l.readEntry entry target).filled = l.filled ∧ (l.readEntry entry target).live = false := by
  have hne : target ≠ .filled ∧ target ≠ .partialFill := by
    constructor <;>
      · rintro rfl
        exact absurd ht (by decide)
  constructor
  · refine (Ledger.readEntry_same hne.1 ?_).1
    cases target with
    | filled => exact absurd rfl hne.1
    | partialFill => exact absurd rfl hne.2
    | _ => exact hl
  · unfold Ledger.readEntry
    simp only [hne.1, hne.2, decide_false, if_false]
    split_ifs <;> rfl

theorem capped_remote {entry : RemoteOrder} {target : OMSOrderState} (hb : Booked .off o l)
    (h : Capped o l) (hs : o.state ∈ [OMSOrderState.pending, .partialFill])
    (hl : Legible l entry target)
    (ht : target ∈ [OMSOrderState.filled, .partialFill, .cancelled, .rejected, .expired])
    (hsent : target = .partialFill → entry.filledQuantity ≤ l.sentQty) :
    Capped (o.applyRemote entry target) (l.readEntry entry target) := by
  obtain ⟨hlive, -, -⟩ : l.Balanced o .resting := by
    have hbal := hb.balanced
    simp only [List.mem_cons, List.not_mem_nil, or_false] at hs
    rcases hs with hs | hs <;> rwa [hs] at hbal
  have hq : (o.applyRemote entry target).quantity = o.quantity := rfl
  have hreq := readEntry_requested l entry target
  cases target with
  | partialFill =>
    refine ⟨h.quantity, fun _ => ?_, fun hdead => ?_⟩
    · by_cases hzero : entry.filledQuantity = 0
      · simpa [Ledger.readEntry, hzero] using h.within hlive
      · simpa [Ledger.readEntry, hzero, Ledger.report] using hsent rfl
    · have hdead : OMSOrderState.partialFill ∈ deadStates := hdead
      exact absurd hdead (by decide)
  | filled =>
    refine ⟨h.quantity, fun hlive' => ?_, fun hdead => ?_⟩
    · unfold Ledger.readEntry at hlive'
      split_ifs at hlive' <;> simp [Ledger.report] at hlive'
    · have hdead : OMSOrderState.filled ∈ deadStates := hdead
      exact absurd hdead (by decide)
  | cancelled | rejected | expired =>
    obtain ⟨hfilled, hclosed⟩ := readEntry_dead (by decide) hl
    exact h.of_closed hb hq hfilled hreq hclosed
  | _ => simp at ht

theorem capped_subject {r : Ref} (hf : Facts cfg w e) (hr : e.subject cfg w = some r)
    (hc : ExitsGuarded keepsOpen (w, g) e)
    (hb : Booked (stageOf w (w.heap r).omsOrderId) (w.heap r)
      (g.books.ledger (w.heap r).omsOrderId))
    (h : Capped (w.heap r) (g.books.ledger (w.heap r).omsOrderId)) :
    Capped ((World.apply cfg e w).heap r)
      ((g.books.ledger (w.heap r).omsOrderId).after cfg keepsOpen w e) := by
  obtain ⟨hkept, hmore⟩ := hc
  cases e with
  | queued q | note q | related q | exhausted q | retried q | markSent q | unanswered q
  | countRetry q | reconciling q =>
    cases hr
    simp only [World.apply, World.modify_heap_self]
    exact h.of_quantity hb rfl
  | cancelled q via =>
    cases via <;>
      · cases hr
        simp only [World.apply, World.modify_heap_self]
        exact h.of_quantity hb rfl
  | modified q changes =>
    cases hr
    simp only [World.apply, World.modify_heap_self]
    exact h.of_quantity hb hkept
  | post q =>
    cases hr
    have hst : stageOf w (w.heap r).omsOrderId = .preparing := by simp [stageOf, hf.2]
    rw [hst] at hb
    have hsend := hb.send
    obtain ⟨-, -, -, -, hreq⟩ :
        ((g.books.ledger (w.heap r).omsOrderId).send (w.heap r).quantity).Balanced (w.heap r) .away :=
      hsend.balanced
    refine ⟨h.quantity, fun _ => h.quantity, fun _ => ?_⟩
    simp only [Ledger.after, Ledger.working, Ledger.send, if_true] at hreq ⊢
    simp only [Ledger.filled] at hreq ⊢
    omega
  | abandoned q =>
    cases hr
    exact h.of_quantity hb rfl
  | answered q res =>
    cases hr
    rw [sending_stage hf.2] at hb
    simp only [World.apply, World.modify_heap_self]
    exact capped_answered hb h hkept
  | requeued q | refused q =>
    cases hr
    simp only [World.apply, World.modify_heap_self]
    exact h.of_closed hb rfl rfl rfl rfl
  | resolved q args lookups =>
    cases hr
    simp only [World.apply, World.modify_heap_self, Ledger.after]
    split_ifs
    · exact h.of_closed hb (resolve_quantity _ _) rfl rfl rfl
    · exact h.of_quantity hb (resolve_quantity _ _)
  | remote q entry target =>
    cases hr
    obtain ⟨hoff, hs, hl⟩ := hkept
    rw [show stageOf w (w.heap q).omsOrderId = .off from hoff] at hb
    simp only [World.apply, World.modify_heap_self]
    exact capped_remote hb h hs hl (OmniOrder.remoteTarget_mem hf.2.2.1) hmore
  | _ => cases hr

theorem books_cases (hw : w.Inv) (hs : Step cfg w e) (hkept : Kept (w, g.books))
    (hc : KeptBooks keepsOpen (w, g.books) e) (hfresh : ∀ k, w.nextOid ≤ k → g.books.last k = none)
    (ho : g.books.last oid = some o) :
    ((noteFills cfg keepsOpen w e g.books).ledger oid = g.books.ledger oid ∧
      (noteFills cfg keepsOpen w e g.books).last oid = some o ∧
      stageOf (World.apply cfg e w) oid = stageOf w oid) ∨
    (∃ r, Facts cfg w e ∧ r < w.nextRef ∧ e.subject cfg w = some r ∧
      (w.heap r).omsOrderId = oid ∧ w.heap r = o ∧
      (noteFills cfg keepsOpen w e g.books).ledger oid =
        (g.books.ledger oid).after cfg keepsOpen w e ∧
      (noteFills cfg keepsOpen w e g.books).last oid = some ((World.apply cfg e w).heap r) ∧
      stageOf (World.apply cfg e w) oid = e.stage (stageOf w oid)) := by
  rcases hs with hf | rfl
  · cases hbk : e.booked cfg w with
    | none =>
      have hsub : e.subject cfg w = none := by
        cases e <;> first | exact hbk | cases hbk
      left
      simp only [noteFills, hbk]
      exact ⟨trivial, ho, stage_of_other hf hkept.busy (by simp [hsub])⟩
    | some r =>
      rcases booked_cases hbk with ⟨req, mr, x, rfl, rfl⟩ | hsub
      · have hne : oid ≠ w.nextOid := by
          rintro rfl
          rw [hfresh _ le_rfl] at ho
          cases ho
        left
        simp only [noteFills_create, Function.update_of_ne hne]
        exact ⟨trivial, ho, stage_of_other hf hkept.busy (by rintro q ⟨⟩)⟩
      · have hr := subject_lt hw hf hsub
        have hid : ((World.apply cfg e w).heap r).omsOrderId = (w.heap r).omsOrderId :=
          (stable_apply hf).same r hr
        by_cases hoid : (w.heap r).omsOrderId = oid
        · subst hoid
          have hlast : w.heap r = o := Option.some.inj ((hkept.last r hr).symm.trans ho)
          right
          refine ⟨r, hf, hr, hsub, rfl, hlast, ?_, ?_, stage_of_subject hf hsub⟩
          · simp only [noteFills, hbk, hid, Function.update_self]
          · simp only [noteFills, hbk, hid, Function.update_self]
        · left
          have hother : stageOf (World.apply cfg e w) oid = stageOf w oid := by
            refine stage_of_other hf hkept.busy fun q hq => ?_
            rw [hsub] at hq
            cases hq
            exact hoid
          simp only [noteFills, hbk, hid, Function.update_of_ne (Ne.symm hoid)]
          exact ⟨trivial, ho, hother⟩
  · -- the worker had nothing in hand when the process died
    have hidle : w.worker = .idle := hc
    left
    exact ⟨rfl, ho, by rw [stageOf_idle hidle]; rfl⟩

theorem last_fresh (hw : w.Inv) (hs : Step cfg w e)
    (hfresh : ∀ k, w.nextOid ≤ k → g.books.last k = none)
    (hoid : (World.apply cfg e w).nextOid ≤ oid) :
    (noteFills cfg keepsOpen w e g.books).last oid = none := by
  have hold := hfresh oid ((nextOid_step hs).trans hoid)
  cases hbk : e.booked cfg w with
  | none => simpa only [noteFills, hbk] using hold
  | some r =>
    have hf : Facts cfg w e := by
      rcases hs with hf | rfl
      · exact hf
      · cases hbk
    have hne : oid ≠ ((World.apply cfg e w).heap r).omsOrderId := by
      have hr : r < (World.apply cfg e w).nextRef := by
        rcases booked_cases hbk with ⟨req, mr, x, rfl, rfl⟩ | hsub
        · obtain ⟨os, heq, -⟩ := World.addOrder_eq cfg { w with nextOid := w.nextOid + 1 }
            (newOrder cfg.sha256 w.nextOid req mr)
          simp only [World.apply, heq]
          exact Nat.lt_succ_self _
        · exact (subject_lt hw hf hsub).trans_le (stable_apply hf).refs
      exact (((inv_apply hw hf).objects r hr).2.trans_le hoid).ne'
    simpa only [noteFills, hbk, Function.update_of_ne hne] using hold

theorem closed_subject {r : Ref} (hf : Facts cfg w e) (hr : e.subject cfg w = some r)
    (hc : ExitsGuarded keepsOpen (w, g) e) (hs : (w.heap r).state ∈ .filled :: deadStates)
    (hst : stageOf w (w.heap r).omsOrderId ∈ [Stage.off, .counting]) :
    ((World.apply cfg e w).heap r).state ∈ .filled :: deadStates ∧ l.after cfg keepsOpen w e = l ∧
      e.stage (stageOf w (w.heap r).omsOrderId) ∈ [Stage.off, .counting] := by
  obtain ⟨hkept, hmore⟩ := hc
  have hnot : ∀ state, state ∉ OMSOrderState.filled :: deadStates → (w.heap r).state ≠ state := by
    rintro state hn rfl
    exact hn hs
  have hbusy : ∀ st, st ∉ [Stage.off, .counting] → stageOf w (w.heap r).omsOrderId ≠ st := by
    rintro st hn rfl
    exact hn hst
  cases e with
  | queued q =>
    cases hr
    exact absurd hkept (hnot .new (by decide))
  | note q | related q | modified q =>
    cases hr
    simp only [World.apply, World.modify_heap_self]
    exact ⟨hs, rfl, hst⟩
  | cancelled q via =>
    cases via <;>
      · cases hr
        simp only [World.apply, World.modify_heap_self]
        exact ⟨by simp [OmniOrder.cancel, deadStates], rfl, hst⟩
  | exhausted q =>
    cases hr
    simp only [World.apply, World.modify_heap_self]
    exact ⟨by simp [OmniOrder.exhausted, deadStates], rfl, hst⟩
  | retried q =>
    cases hr
    exact absurd hs hmore
  | markSent q =>
    cases hr
    exact absurd (StateMachine.canTransition_sent.mp hf.2.2) (hnot .queued (by decide))
  | post q =>
    cases hr
    exact absurd (by simp [stageOf, hf.2]) (hbusy .preparing (by decide))
  | abandoned q | unanswered q | answered q | refused q =>
    cases hr
    exact absurd (sending_stage hf.2) (hbusy .sending (by decide))
  | requeued q =>
    cases hr
    exact absurd (sending_stage hf.2.1) (hbusy .sending (by decide))
  | countRetry q res =>
    cases hr
    simp only [World.apply, World.modify_heap_self]
    exact ⟨hs, rfl, by simp [Effect.stage]⟩
  | reconciling q =>
    cases hr
    obtain ⟨-, hstate⟩ := hkept
    simp only [List.mem_cons, List.not_mem_nil, or_false] at hstate
    rcases hstate with hstate | hstate
    · exact absurd hstate (hnot .unknown (by decide))
    · exact absurd hstate (hnot .reconciling (by decide))
  | resolved q args lookups =>
    cases hr
    exact absurd hkept.2 (hnot .reconciling (by decide))
  | remote q entry target =>
    cases hr
    obtain ⟨-, hstate, -⟩ := hkept
    simp only [List.mem_cons, List.not_mem_nil, or_false] at hstate
    rcases hstate with hstate | hstate
    · exact absurd hstate (hnot .pending (by decide))
    · exact absurd hstate (hnot .partialFill (by decide))
  | _ => cases hr

structure Guarded (x : World × Exits) : Prop where
  kept : Kept (x.1, x.2.books)
  fresh : ∀ oid, x.1.nextOid ≤ oid → x.2.books.last oid = none
  exits : ∀ p oid rest, x.2.exits p = oid :: rest →
    Closed x p ∧ (∃ o, x.2.books.last oid = some o ∧ Capped o (x.2.books.ledger oid)) ∧
      (x.2.books.ledger oid).requested ≤ (x.2.books.ledger p).filled ∧
      ∀ oid' ∈ rest, Closed x oid' ∧ (x.2.books.ledger oid').filled = 0

variable {x : World × Exits}

theorem Closed.exposure (h : Closed x oid) : exposure x oid = (x.2.books.ledger oid).filled := by
  obtain ⟨hs, hlive, hst⟩ := h
  have hwaits : waits x oid = 0 := by
    unfold waits
    cases ho : x.2.books.last oid with
    | none => rfl
    | some o =>
      have hs : o.state ∈ .filled :: deadStates := by simpa [ho] using hs
      have hnot : ¬ (o.state ∈ [OMSOrderState.new, .validated, .queued] ∨
          stageOf x.1 oid = .preparing) := by
        rintro (hw | hw)
        · cases hstate : o.state <;> simp [hstate, deadStates] at hs hw
        · simp [hw] at hst
      exact if_neg hnot
  simp [Oms.exposure, hwaits, Ledger.working, hlive]

theorem Capped.exposure_le (h : Capped o (x.2.books.ledger oid)) (ho : x.2.books.last oid = some o)
    (hb : Booked (stageOf x.1 oid) o (x.2.books.ledger oid)) :
    exposure x oid ≤ (x.2.books.ledger oid).requested := by
  have htotal := h.total hb
  simp only [exposure, waits, ho]
  split
  · next hwait =>
    have hstand : standing (stageOf x.1 oid) o.state = .waiting := by
      have hfits := hb.fits
      rcases hwait with hs | hst
      · cases hst : stageOf x.1 oid <;> rw [hst] at hfits <;>
          cases hstate : o.state <;>
            simp [hstate, Stage.Fits, deadStates, standing] at hs hfits ⊢
      · rw [hst]
        rfl
    obtain ⟨hlive, hreq⟩ : (x.2.books.ledger oid).live = false ∧ _ := hstand ▸ hb.balanced
    simp only [Ledger.working, hlive]
    simp
    omega
  · omega

theorem Guarded.covered (h : Guarded x) : Covered x := by
  intro p _ hne
  obtain ⟨oid, rest, hexits⟩ := List.exists_cons_of_ne_nil hne
  obtain ⟨-, ⟨o, ho, hcap⟩, hreq, hrest⟩ := h.exits p oid rest hexits
  have hzero : (rest.map (exposure x)).sum = 0 := by
    refine List.sum_eq_zero fun q hq => ?_
    obtain ⟨oid', hmem, rfl⟩ := List.mem_map.mp hq
    rw [(hrest oid' hmem).1.exposure]
    exact (hrest oid' hmem).2
  have hle := hcap.exposure_le ho (h.kept.booked oid o ho).2
  rw [hexits, List.map_cons, List.sum_cons, hzero]
  omega

theorem Kept.closed (h : Kept (x.1, x.2.books)) (ho : x.2.books.last oid = some o)
    (hs : o.state = .filled) : Closed x oid := by
  obtain ⟨-, hb⟩ := h.booked oid o ho
  have hfits := hb.fits
  have hbal := hb.balanced
  simp only [hs] at hfits hbal
  have hst : stageOf x.1 oid = .off := by
    cases hst : stageOf x.1 oid <;> rw [hst] at hfits <;> simp [Stage.Fits, deadStates] at hfits ⊢
  rw [hst] at hbal
  refine ⟨?_, hbal.1, by simp [hst]⟩
  simp [ho, hs]

theorem closed_step (hw : w.Inv) (hs : Step cfg w e) (h : Guarded (w, g))
    (hc : ExitsGuarded keepsOpen (w, g) e) (hcl : Closed (w, g) oid) :
    Closed (track (World.apply cfg) (noteExits cfg keepsOpen) e (w, g)) oid ∧
      (noteFills cfg keepsOpen w e g.books).ledger oid = g.books.ledger oid := by
  obtain ⟨hstate, hlive, hst⟩ := hcl
  obtain ⟨o, ho, hstate⟩ := (Option.any_eq_true _ _).mp hstate
  rcases books_cases hw hs h.kept hc.1 h.fresh ho with
    ⟨hl, hlast, hst'⟩ | ⟨r, hf, hr, hsub, rfl, rfl, hl, hlast, hst'⟩
  · refine ⟨⟨?_, ?_, ?_⟩, hl⟩
    · simp only [track, noteExits, hlast]
      exact hstate
    · simpa only [track, noteExits, hl] using hlive
    · simpa only [track, noteExits, hst'] using hst
  · obtain ⟨hs', hl', hst''⟩ := closed_subject (l := g.books.ledger (w.heap r).omsOrderId)
      hf hsub hc (by simpa using hstate) hst
    rw [hl'] at hl
    refine ⟨⟨?_, ?_, ?_⟩, hl⟩
    · simp only [track, noteExits, hlast]
      exact decide_eq_true hs'
    · simpa only [track, noteExits, hl] using hlive
    · simpa only [track, noteExits, hst'] using hst''

theorem capped_step (hw : w.Inv) (hs : Step cfg w e) (h : Guarded (w, g))
    (hc : ExitsGuarded keepsOpen (w, g) e) (ho : g.books.last oid = some o)
    (hcap : Capped o (g.books.ledger oid)) :
    (∃ o', (noteFills cfg keepsOpen w e g.books).last oid = some o' ∧
      Capped o' ((noteFills cfg keepsOpen w e g.books).ledger oid)) ∧
    ((noteFills cfg keepsOpen w e g.books).ledger oid).requested =
      (g.books.ledger oid).requested := by
  rcases books_cases hw hs h.kept hc.1 h.fresh ho with
    ⟨hl, hlast, -⟩ | ⟨r, hf, hr, hsub, rfl, rfl, hl, hlast, -⟩
  · rw [hl]
    exact ⟨⟨o, hlast, hcap⟩, rfl⟩
  · rw [hl]
    exact ⟨⟨_, hlast, capped_subject hf hsub hc (h.kept.of_object hr) hcap⟩,
      after_requested hsub⟩

theorem guarded_step (hw : w.Inv) (hs : Step cfg w e) (hc : ExitsGuarded keepsOpen (w, g) e)
    (h : Guarded (w, g)) : Guarded (track (World.apply cfg) (noteExits cfg keepsOpen) e (w, g)) := by
  have hkept : Kept (track (World.apply cfg) (noteFills cfg keepsOpen) e (w, g.books)) :=
    kept_step hw hs hc.1 h.kept
  have hclosed : ∀ oid, Closed (w, g) oid →
      Closed (track (World.apply cfg) (noteExits cfg keepsOpen) e (w, g)) oid ∧
        (noteFills cfg keepsOpen w e g.books).ledger oid = g.books.ledger oid :=
    fun _ hcl => closed_step hw hs h hc hcl
  -- what is known of the exits placed before
  have hold : ∀ p oid rest, g.exits p = oid :: rest →
      Closed (track (World.apply cfg) (noteExits cfg keepsOpen) e (w, g)) p ∧
      (∃ o, (noteFills cfg keepsOpen w e g.books).last oid = some o ∧
        Capped o ((noteFills cfg keepsOpen w e g.books).ledger oid)) ∧
      ((noteFills cfg keepsOpen w e g.books).ledger oid).requested ≤
        ((noteFills cfg keepsOpen w e g.books).ledger p).filled ∧
      ∀ oid' ∈ rest, Closed (track (World.apply cfg) (noteExits cfg keepsOpen) e (w, g)) oid' ∧
        ((noteFills cfg keepsOpen w e g.books).ledger oid').filled = 0 := by
    intro p oid rest hexits
    obtain ⟨hp, ⟨o, ho, hcap⟩, hreq, hrest⟩ := h.exits p oid rest hexits
    obtain ⟨hp', hlp⟩ := hclosed p hp
    obtain ⟨ho', hreq'⟩ := capped_step hw hs h hc ho hcap
    refine ⟨hp', ho', ?_, fun oid' hmem => ?_⟩
    · rw [hreq', hlp]
      exact hreq
    · obtain ⟨hcl, hzero⟩ := hrest oid' hmem
      obtain ⟨hcl', hl⟩ := hclosed oid' hcl
      exact ⟨hcl', (congrArg Ledger.filled hl).trans hzero⟩
  refine ⟨hkept, fun oid hoid => ?_, fun p oid rest hexits => ?_⟩
  · exact last_fresh hw hs h.fresh hoid
  · cases e with
    | create req mr x =>
      cases x with
      | none => exact hold p oid rest hexits
      | some q =>
        by_cases hpq : p = q
        · subst hpq
          obtain ⟨hentry, hspent⟩ := hc.2
          obtain ⟨o, ho, hentry⟩ := (Option.any_eq_true _ _).mp hentry
          simp only [Bool.and_eq_true, decide_eq_true_eq] at hentry
          obtain ⟨⟨hfilled, hpos⟩, hle⟩ := hentry
          obtain ⟨hp', hlp⟩ := hclosed p (h.kept.closed ho hfilled)
          have hnote := noteFills_create cfg keepsOpen w req mr (some p) g.books
          simp only [track, noteExits, Function.update_self, List.cons.injEq] at hexits
          obtain ⟨rfl, rfl⟩ := hexits
          have hagrees := (h.kept.booked p o ho).2.filled
          refine ⟨hp', ⟨newOrder cfg.sha256 w.nextOid req mr, ?_, ?_⟩, ?_, fun oid' hmem => ?_⟩
          · simp [track, noteExits, hnote]
          · simp only [track, noteExits, hnote, Function.update_self]
            exact ⟨hpos, by simp, by simp [newOrder, deadStates]⟩
          · simp only [track, noteExits, hlp]
            simp only [hnote, Function.update_self]
            exact hagrees ▸ hle
          · obtain ⟨hcl', hl⟩ := hclosed oid' (hspent oid' hmem).1
            exact ⟨hcl', (congrArg Ledger.filled hl).trans (hspent oid' hmem).2⟩
        · refine hold p oid rest ?_
          simpa only [track, noteExits, Function.update_of_ne hpq] using hexits
    | _ => exact hold p oid rest hexits

theorem placedFilled (hc : ExitsGuarded keepsOpen (w, g) e) : PlacedFilled g e = true := by
  cases e with
  | create req mr x =>
    cases x with
    | none => rfl
    | some p =>
      obtain ⟨o, ho, hentry⟩ := (Option.any_eq_true _ _).mp hc.2.1
      simp only [Bool.and_eq_true, decide_eq_true_eq] at hentry
      have ho : g.books.last p = some o := ho
      simp [PlacedFilled, ho, hentry.1.1]
  | _ => rfl

end Step

section Runs

variable {cfg : Settings} {keepsOpen : ExecutionResult → Bool}

def KeepsExits (cfg : Settings) (keepsOpen : ExecutionResult → Bool) (es : List Effect) : Prop :=
  Legal (track (World.apply cfg) (noteExits cfg keepsOpen)) (BracketStep cfg keepsOpen)
    (initial.state, {}) es

instance (es : List Effect) : Decidable (KeepsExits cfg keepsOpen es) :=
  inferInstanceAs (Decidable (Legal _ _ _ _))

theorem keeps_exits {es : List Effect} {P : Pool World Effect Reply Tag} (h : Life cfg es P)
    (hc : Legal (track (World.apply cfg) (noteExits cfg keepsOpen)) (ExitsGuarded keepsOpen)
      (initial.state, {}) es) :
    KeepsExits cfg keepsOpen es := by
  have hlegal := ((legal_of_life h).1.track (noteExits cfg keepsOpen) {}).and hc
  have hnone : ∀ oid o, ({} : Books).last oid ≠ some o := fun _ o ho => Option.some_ne_none o ho.symm
  have hinit : Guarded (initial.state, {}) := by
    refine ⟨⟨?_, ?_, ?_, ?_⟩, fun _ _ => rfl, fun _ _ _ he => (List.cons_ne_nil _ _ he.symm).elim⟩
    · exact fun q hq => absurd hq (Nat.not_lt_zero _)
    · exact fun _ hr => (Option.some_ne_none _ hr.symm).elim
    · exact fun q hq => absurd hq (Nat.not_lt_zero _)
    · exact fun oid o ho => absurd ho (hnone oid o)
  refine (hlegal.with_invariant (I := Guarded) ?_ hinit).mono ?_
  · intro x e hx hg
    exact guarded_step hg.1.1 hg.1.2 hg.2 hx
  · intro x e hx
    exact ⟨placedFilled hx.2.2, (guarded_step hx.2.1.1 hx.2.1.2 hx.2.2 hx.1).covered⟩

/-- A bought ten is filled and gets its bracket; the price falls to the stop. -/
theorem stopped_keeps_exits :
    ∃ es P, Life bare es P ∧ (P.state.heap 1).source = "exit_sl" ∧
      KeepsExits bare (fun _ => false) es := by
  obtain ⟨es, P, hrun, hexit, hc⟩ := (system bare).exists_run initial
    (alone .start 6 {} ++ alone (.placeOrder buyTen none) 6 {} ++
      alone .processQueue 11 { placed := some filledTen } ++
      alone .evaluateBrackets 9 { quote := fun _ => some 80 })
    (p := fun es P => (P.state.heap 1).source = "exit_sl" ∧
      Legal (track (World.apply bare) (noteExits bare fun _ => false))
        (ExitsGuarded fun _ => false) (initial.state, {}) es)
    (by decide +kernel)
  exact ⟨es, P, hrun.life, hexit, keeps_exits hrun.life hc⟩

def bracketTen : List Act := alone .start 6 {} ++ alone (.createBracket buyTen 90 115 0) 8 {}

/-- Once the entry is filled both legs are placed, each for all of it; and the price places
an exit before the entry was ever sent. -/
theorem bracketTen_overrun :
    (∃ es P, Life bare es P ∧
      (P.state.heap 1).source = "bracket_sl" ∧ (P.state.heap 2).source = "bracket_target" ∧
        ¬ KeepsExits bare (fun _ => false) es) ∧
      ∃ es P, Life bare es P ∧
        (P.state.heap 0).state = .queued ∧ (P.state.heap 1).source = "exit_sl" ∧
          ¬ KeepsExits bare (fun _ => false) es := by
  constructor
  · obtain ⟨es, P, hrun, hsl, htarget, hbad⟩ := (system bare).exists_run initial
      (bracketTen ++ alone .processQueue 25 { placed := some filledTen })
      (p := fun es P => (P.state.heap 1).source = "bracket_sl" ∧
        (P.state.heap 2).source = "bracket_target" ∧ ¬ KeepsExits bare (fun _ => false) es)
      (by decide)
    exact ⟨es, P, hrun.life, hsl, htarget, hbad⟩
  · obtain ⟨es, P, hrun, hqueued, hexit, hbad⟩ := (system bare).exists_run initial
      (bracketTen ++ alone .evaluateBrackets 9 { quote := fun _ => some 80 })
      (p := fun es P => (P.state.heap 0).state = .queued ∧
        (P.state.heap 1).source = "exit_sl" ∧ ¬ KeepsExits bare (fun _ => false) es)
      (by decide)
    exact ⟨es, P, hrun.life, hqueued, hexit, hbad⟩

end Runs

end Trademetrix.Oms
