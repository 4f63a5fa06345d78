import Trademetrix.Oms.Stages
import Mathlib.Tactic.FieldSimp
import Mathlib.Tactic.Ring
import Mathlib.Tactic.LinearCombination

/-!
# What an order has filled

The books of each order are kept beside the run: the quantity asked for, what
earlier broker orders filled, and the last broker order with its fill. A broker
order is known by its replies and by the entries of the broker's book. `keepsOpen`
says of which partial fills the broker keeps the rest working.
-/

namespace Trademetrix.Oms

open Async
open Execution (ExecutionRequest ExecutionResult)

structure Ledger where
  requested : ℤ := 0
  closedQty : ℤ := 0
  closedValue : ℚ := 0
  sentQty : ℤ := 0
  filledQty : ℤ := 0
  filledValue : ℚ := 0
  live : Bool := false

namespace Ledger

def filled (l : Ledger) : ℤ := l.closedQty + l.filledQty

def value (l : Ledger) : ℚ := l.closedValue + l.filledValue

def working (l : Ledger) : ℤ := if l.live then l.sentQty - l.filledQty else 0

/-- A new broker order for `quantity`. -/
def send (l : Ledger) (quantity : ℤ) : Ledger :=
  { l with
    closedQty := l.filled
    closedValue := l.value
    sentQty := quantity
    filledQty := 0
    filledValue := 0
    live := true }

def report (l : Ledger) (quantity : ℤ) (price : ℚ) (live : Bool) : Ledger :=
  { l with filledQty := quantity, filledValue := price * quantity, live := live }

def close (l : Ledger) : Ledger := { l with live := false }

end Ledger

def staysLive (keepsOpen : ExecutionResult → Bool) (o : OmniOrder) (res : ExecutionResult) :
    Bool :=
  match res.state with
  | .filled => false
  | .partiallyFilled => 0 < o.remaining res && keepsOpen res
  | _ => true

def Ledger.readEntry (l : Ledger) (entry : RemoteOrder) (target : OMSOrderState) : Ledger :=
  if entry.filledQuantity ≠ 0 then
    l.report entry.filledQuantity entry.averagePrice (target = .partialFill)
  else if target = .filled then l.report l.sentQty entry.averagePrice false
  else { l with live := target = .partialFill }

def Ledger.after (cfg : Settings) (keepsOpen : ExecutionResult → Bool) (w : World) (l : Ledger) :
    Effect → Ledger
  | .create req _ _ => { requested := req.quantity }
  | .post r => l.send (w.heap r).quantity
  | .answered r res => l.report res.filledQty res.avgPrice (staysLive keepsOpen (w.heap r) res)
  | .requeued _ | .refused _ _ => l.close
  | .resolved _ args lookups =>
    if (reconcile cfg.fromisoformat cfg.obs args lookups w.now).verdict ∈
        [ReconcileVerdict.notFound, .rejected] then l.close
    else l
  | .remote _ entry target => l.readEntry entry target
  | _ => l

structure Books where
  ledger : OrderId → Ledger := fun _ => {}
  last : OrderId → Option OmniOrder := fun _ => none

def Effect.booked (cfg : Settings) (w : World) : Effect → Option Ref
  | .create _ _ _ => some w.nextRef
  | e => e.subject cfg w

def noteFills (cfg : Settings) (keepsOpen : ExecutionResult → Bool) (w : World) (e : Effect)
    (g : Books) : Books :=
  match e.booked cfg w with
  | none => g
  | some r =>
    let o := (World.apply cfg e w).heap r
    { ledger := Function.update g.ledger o.omsOrderId
        ((g.ledger o.omsOrderId).after cfg keepsOpen w e)
      last := Function.update g.last o.omsOrderId (some o) }

def deadStates : List OMSOrderState := [.cancelled, .rejected, .expired]

def waitingQty (w : World) (r : Ref) : ℤ :=
  if (w.heap r).state ∈ [OMSOrderState.new, .validated, .queued] ∨ w.worker = .preparing r then
    (w.heap r).quantity
  else 0

def Agrees (x : World × Books) (r : Ref) : Prop :=
  (x.1.heap r).filledQuantity = (x.2.ledger (x.1.heap r).omsOrderId).filled ∧
    ((x.1.heap r).state ∉ deadStates →
      (x.1.heap r).filledQuantity +
          (waitingQty x.1 r + (x.2.ledger (x.1.heap r).omsOrderId).working) =
        (x.2.ledger (x.1.heap r).omsOrderId).requested) ∧
    (x.1.heap r).averagePrice * (x.1.heap r).filledQuantity =
      (x.2.ledger (x.1.heap r).omsOrderId).value

instance (x : World × Books) (r : Ref) : Decidable (Agrees x r) := by
  unfold Agrees
  infer_instance

def FillStep (cfg : Settings) (keepsOpen : ExecutionResult → Bool) (x : World × Books)
    (e : Effect) : Prop :=
  ∀ r < (track (World.apply cfg) (noteFills cfg keepsOpen) e x).1.nextRef,
    Agrees (track (World.apply cfg) (noteFills cfg keepsOpen) e x) r

instance (cfg : Settings) (keepsOpen : ExecutionResult → Bool) (x : World × Books) (e : Effect) :
    Decidable (FillStep cfg keepsOpen x e) :=
  inferInstanceAs (Decidable (∀ r < _, _))

def Idle (w : World) (r : Ref) : Prop := stageOf w (w.heap r).omsOrderId = .off

instance (w : World) (r : Ref) : Decidable (Idle w r) :=
  inferInstanceAs (Decidable (_ = _))

/-- What the broker may answer a send of `quantity` with. -/
def Answerable (keepsOpen : ExecutionResult → Bool) (o : OmniOrder) (res : ExecutionResult) : Prop :=
  0 ≤ res.filledQty ∧ res.filledQty ≤ o.quantity ∧ (res.filledQty ≠ 0 → res.avgPrice ≠ 0) ∧
    (res.state = .filled → res.filledQty = o.quantity) ∧
    (res.state = .partiallyFilled → 0 < o.remaining res → keepsOpen res = false)

/-- The entries of the broker's book that can be taken over as they stand: a fill of the
only broker order the order ever had. -/
def Legible (l : Ledger) (entry : RemoteOrder) (target : OMSOrderState) : Prop :=
  match target with
  | .partialFill =>
    if entry.filledQuantity = 0 then entry.averagePrice = 0
    else 0 ≤ entry.filledQuantity ∧ entry.averagePrice ≠ 0 ∧ l.closedQty = 0 ∧ l.closedValue = 0
  | .filled =>
    entry.filledQuantity ∈ [0, l.sentQty] ∧ 0 ≤ l.sentQty ∧ l.closedQty = 0 ∧ l.closedValue = 0
  | _ =>
    entry.filledQuantity = 0 ∨
      entry.filledQuantity = l.filledQty ∧ entry.averagePrice * entry.filledQuantity = l.filledValue

instance (keepsOpen : ExecutionResult → Bool) (o : OmniOrder) (res : ExecutionResult) :
    Decidable (Answerable keepsOpen o res) :=
  inferInstanceAs (Decidable (_ ∧ _))

instance (l : Ledger) (entry : RemoteOrder) (target : OMSOrderState) :
    Decidable (Legible l entry target) := by
  unfold Legible
  split <;> infer_instance

/-- What keeps the books: replies that add up, entries that can be taken over, sends only
of what is still unfilled, and rows that are not behind the order they were saved from. -/
def KeptBooks (keepsOpen : ExecutionResult → Bool) (x : World × Books) : Effect → Prop
  | .crash => x.1.worker = .idle
  | .loaded row =>
    (∀ r < x.1.nextRef, (x.1.heap r).omsOrderId ≠ row.omsOrderId) ∧
      x.2.last row.omsOrderId = some row
  | .queued r => (x.1.heap r).state = .new
  | .retried r =>
    Idle x.1 r ∧ (x.2.ledger (x.1.heap r).omsOrderId).live = false ∧
      (x.2.ledger (x.1.heap r).omsOrderId).filled + (x.1.heap r).quantity =
        (x.2.ledger (x.1.heap r).omsOrderId).requested
  | .modified r changes => changes.quantity.getD (x.1.heap r).quantity = (x.1.heap r).quantity
  | .answered r res => Answerable keepsOpen (x.1.heap r) res
  | .reconciling r => Idle x.1 r ∧ (x.1.heap r).state ∈ [OMSOrderState.unknown, .reconciling]
  | .resolved r _ _ => Idle x.1 r ∧ (x.1.heap r).state = .reconciling
  | .remote r entry target =>
    Idle x.1 r ∧ (x.1.heap r).state ∈ [OMSOrderState.pending, .partialFill] ∧
      Legible (x.2.ledger (x.1.heap r).omsOrderId) entry target
  | _ => True

theorem OmniOrder.takeFill_average {o : OmniOrder} {res : ExecutionResult}
    (hprev : 0 ≤ o.filledQuantity) (hnew : 0 ≤ res.filledQty)
    (hprice : res.filledQty ≠ 0 → res.avgPrice ≠ 0) :
    (o.takeFill res).averagePrice * ((o.filledQuantity + res.filledQty : ℤ) : ℚ) =
      o.averagePrice * o.filledQuantity + res.avgPrice * res.filledQty := by
  by_cases hzero : res.filledQty = 0
  · simp [OmniOrder.takeFill, hzero]
  · have hpos : 0 < res.filledQty := by omega
    have hsum : ((o.filledQuantity : ℚ) + res.filledQty) ≠ 0 := by
      have hne : o.filledQuantity + res.filledQty ≠ 0 := by omega
      exact_mod_cast hne
    simp only [OmniOrder.takeFill, hzero, hprice hzero, ne_eq, not_false_eq_true, and_self,
      if_true, add_sub_cancel_right]
    split
    · push_cast
      field_simp
    · next hnone =>
      have hfirst : o.filledQuantity = 0 := by omega
      simp [hfirst]

instance (keepsOpen : ExecutionResult → Bool) (x : World × Books) (e : Effect) :
    Decidable (KeptBooks keepsOpen x e) := by
  apply Effect.casesOn (motive := fun e => Decidable (KeptBooks keepsOpen x e)) e <;> intros <;>
    (dsimp only [KeptBooks]; infer_instance)

section Step

variable {cfg : Settings} {keepsOpen : ExecutionResult → Bool} {w : World} {g : Books} {e : Effect}

inductive Standing
  | waiting | away | resting | done | dead

def standing : Stage → OMSOrderState → Standing
  | .preparing, _ | .counting, _ => .waiting
  | .sending, _ => .away
  | .off, .new | .off, .validated | .off, .queued => .waiting
  | .off, .sent | .off, .unknown | .off, .reconciling => .away
  | .off, .pending | .off, .partialFill | .off, .ambiguous => .resting
  | .off, .filled => .done
  | .off, .cancelled | .off, .rejected | .off, .expired => .dead

def Ledger.Balanced (l : Ledger) (o : OmniOrder) : Standing → Prop
  | .waiting => l.live = false ∧ l.filled + o.quantity = l.requested
  | .away =>
    l.live = true ∧ l.sentQty = o.quantity ∧ l.filledQty = 0 ∧ l.filledValue = 0 ∧
      l.filled + o.quantity = l.requested
  | .resting =>
    l.live = true ∧ l.sentQty = o.quantity ∧
      l.filled + (l.sentQty - l.filledQty) = l.requested
  | .done => l.live = false ∧ l.filled = l.requested
  | .dead => True

def Stage.Fits : Stage → OMSOrderState → Prop
  | .off, _ => True
  | .preparing, state | .sending, state => state = .sent ∨ state ∈ deadStates
  | .counting, state => state = .queued ∨ state ∈ deadStates

structure Booked (st : Stage) (o : OmniOrder) (l : Ledger) : Prop where
  filled : o.filledQuantity = l.filled
  nonneg : 0 ≤ l.filled
  average : o.averagePrice * l.filled = l.value
  balanced : l.Balanced o (standing st o.state)
  fits : st.Fits o.state

theorem standing_dead {state : OMSOrderState} (h : state ∈ deadStates) :
    standing .off state = .dead := by
  cases state <;> first | rfl | simp [deadStates] at h

theorem Ledger.readEntry_same {l : Ledger} {entry : RemoteOrder} {target : OMSOrderState}
    (ht : target ≠ .filled)
    (h : entry.filledQuantity = 0 ∨ entry.filledQuantity = l.filledQty ∧
      entry.averagePrice * entry.filledQuantity = l.filledValue) :
    (l.readEntry entry target).filled = l.filled ∧ (l.readEntry entry target).value = l.value := by
  rcases h with hzero | ⟨hqty, hvalue⟩
  · simp [Ledger.readEntry, hzero, ht, Ledger.filled, Ledger.value]
  · unfold Ledger.readEntry
    split
    · rw [Ledger.report, hvalue, hqty]
      exact ⟨rfl, rfl⟩
    · simp [Ledger.filled, Ledger.value]

namespace Booked

variable {st : Stage} {o o' : OmniOrder} {l l' : Ledger}

theorem of_eq (h : Booked st o l) (hf : o'.filledQuantity = o.filledQuantity)
    (ha : o'.averagePrice = o.averagePrice) (hq : o'.quantity = o.quantity)
    (hs : o'.state = o.state) : Booked st o' l where
  filled := hf.trans h.filled
  nonneg := h.nonneg
  average := by rw [ha, h.average]
  balanced := by
    have hb := h.balanced
    rw [hs]
    cases hst : standing st o.state <;> simp only [hst, Ledger.Balanced, hq] at hb ⊢ <;> exact hb
  fits := by
    rw [hs]
    exact h.fits

theorem of_dead (h : Booked st o l) (hf : o'.filledQuantity = o.filledQuantity)
    (ha : o'.averagePrice = o.averagePrice) (hq : o'.quantity = o.quantity)
    (hs : o'.state ∈ deadStates) : Booked st o' l where
  filled := hf.trans h.filled
  nonneg := h.nonneg
  average := by rw [ha, h.average]
  balanced := by
    have hb := h.balanced
    cases st with
    | off =>
      rw [standing_dead hs]
      trivial
    | preparing | counting | sending => simpa only [standing, Ledger.Balanced, hq] using hb
  fits := by
    cases st with
    | off => trivial
    | preparing | sending | counting => exact .inr hs

theorem of_standing (h : Booked st o l) (hf : o'.filledQuantity = o.filledQuantity)
    (ha : o'.averagePrice = o.averagePrice) (hl : l'.filled = l.filled) (hv : l'.value = l.value)
    (hb : l'.Balanced o' (standing .off o'.state)) : Booked .off o' l' where
  filled := by rw [hf, hl, h.filled]
  nonneg := by rw [hl]; exact h.nonneg
  average := by rw [ha, hl, hv, h.average]
  balanced := hb
  fits := trivial

theorem answered {res : ExecutionResult} (h : Booked .sending o l)
    (hc : Answerable keepsOpen o res) :
    Booked .off (o.answered res)
      (l.report res.filledQty res.avgPrice (staysLive keepsOpen o res)) := by
  obtain ⟨hpos, hle, hprice, hall, hrest⟩ := hc
  obtain ⟨hlive, hsent, hqty, hvalue, hreq⟩ : l.Balanced o .away := h.balanced
  have hclosed : l.filled = l.closedQty := by simp [Ledger.filled, hqty]
  have hfilled : o.filledQuantity = l.closedQty := h.filled.trans hclosed
  have hnonneg : 0 ≤ l.closedQty := hclosed ▸ h.nonneg
  have haverage : o.averagePrice * o.filledQuantity = l.closedValue := by
    rw [hfilled, ← hclosed, h.average]
    simp [Ledger.value, hvalue]
  rw [hclosed] at hreq
  refine ⟨?_, ?_, ?_, ?_, trivial⟩
  · simp [OmniOrder.answered, OmniOrder.takeFill, Ledger.report, Ledger.filled, hfilled]
  · simp only [Ledger.report, Ledger.filled]
    omega
  · have hmean := OmniOrder.takeFill_average (o := o) (hfilled ▸ hnonneg) hpos hprice
    rw [haverage, hfilled] at hmean
    exact hmean
  · have hsum : (l.report res.filledQty res.avgPrice (staysLive keepsOpen o res)).filled =
        l.closedQty + res.filledQty := rfl
    cases hst : res.state with
    | filled =>
      have hstate : (o.answered res).state = .filled := by simp [OmniOrder.answered, hst]
      have hstay : staysLive keepsOpen o res = false := by simp [staysLive, hst]
      have hq := hall hst
      rw [hstate]
      refine ⟨hstay, ?_⟩
      rw [hsum, hq]
      exact hreq
    | partiallyFilled =>
      by_cases hleft : 0 < o.remaining res
      · have hstate : (o.answered res).state = .queued := by simp [OmniOrder.answered, hst, hleft]
        have hquantity : (o.answered res).quantity = o.remaining res := by
          simp [OmniOrder.answered, hst, hleft]
        have hstay : staysLive keepsOpen o res = false := by
          simp [staysLive, hst, hrest hst hleft]
        rw [hstate]
        refine ⟨hstay, ?_⟩
        rw [hsum, hquantity]
        simp only [OmniOrder.remaining, Ledger.report]
        omega
      · have hstate : (o.answered res).state = .filled := by simp [OmniOrder.answered, hst, hleft]
        have hstay : staysLive keepsOpen o res = false := by simp [staysLive, hst, hleft]
        have hq : res.filledQty = o.quantity := by
          simp only [OmniOrder.remaining] at hleft
          omega
        rw [hstate]
        refine ⟨hstay, ?_⟩
        rw [hsum, hq]
        exact hreq
    | _ =>
      have hstate : (o.answered res).state = .pending := by simp [OmniOrder.answered, hst]
      have hquantity : (o.answered res).quantity = o.quantity := by
        simp [OmniOrder.answered, hst, OmniOrder.takeFill]
      have hstay : staysLive keepsOpen o res = true := by simp [staysLive, hst]
      rw [hstate]
      refine ⟨hstay, hsent.trans hquantity.symm, ?_⟩
      rw [hsum]
      simp only [Ledger.report]
      omega

theorem resolved {out : ReconcileOutcome} (h : Booked .off o l) (hs : o.state = .reconciling)
    (hfound : out.verdict = .accepted → out.found.isSome = true) :
    Booked .off (o.resolve out)
      (if out.verdict ∈ [ReconcileVerdict.notFound, .rejected] then l.close else l) := by
  obtain ⟨hlive, hsent, hqty, hvalue, hreq⟩ : l.Balanced o .away := by
    have hb := h.balanced
    rwa [hs] at hb
  have hrest : l.filled + (l.sentQty - l.filledQty) = l.requested := by omega
  cases hv : out.verdict with
  | accepted =>
    have hsome := hfound hv
    cases hf : out.found with
    | none => simp [hf] at hsome
    | some m =>
      simp only [OmniOrder.resolve, hv, hf]
      exact h.of_standing rfl rfl rfl rfl ⟨hlive, hsent, hrest⟩
  | rejected =>
    simp only [OmniOrder.resolve, hv]
    exact h.of_standing rfl rfl rfl rfl trivial
  | notFound =>
    simp only [OmniOrder.resolve, hv]
    exact h.of_standing rfl rfl rfl rfl ⟨rfl, hreq⟩
  | ambiguous =>
    simp only [OmniOrder.resolve, hv]
    exact h.of_standing rfl rfl rfl rfl ⟨hlive, hsent, hrest⟩
  | unknown =>
    simp only [OmniOrder.resolve, hv]
    exact h.of_standing rfl rfl rfl rfl ⟨hlive, hsent, hqty, hvalue, hreq⟩

theorem remote {entry : RemoteOrder} {target : OMSOrderState} (h : Booked .off o l)
    (hs : o.state ∈ [OMSOrderState.pending, .partialFill]) (hl : Legible l entry target)
    (ht : target ∈ [OMSOrderState.filled, .partialFill, .cancelled, .rejected, .expired]) :
    Booked .off (o.applyRemote entry target) (l.readEntry entry target) := by
  obtain ⟨hlive, hsent, hreq⟩ : l.Balanced o .resting := by
    have hb := h.balanced
    simp only [List.mem_cons, List.not_mem_nil, or_false] at hs
    rcases hs with hs | hs <;> rwa [hs] at hb
  have hfilled := h.filled
  have hnonneg := h.nonneg
  have haverage := h.average
  cases target with
  | partialFill =>
    by_cases hzero : entry.filledQuantity = 0
    · have hprice : entry.averagePrice = 0 := by simpa [Legible, hzero] using hl
      have hread : l.readEntry entry .partialFill = l := by
        simp [Ledger.readEntry, hzero, ← hlive]
      rw [hread]
      refine h.of_standing ?_ ?_ rfl rfl ⟨hlive, hsent, hreq⟩
      · simp [OmniOrder.applyRemote_filledQuantity, hzero]
      · simp [OmniOrder.applyRemote_averagePrice, hprice]
    · obtain ⟨hpos, hprice, hqty, hvalue⟩ :
          0 ≤ entry.filledQuantity ∧ entry.averagePrice ≠ 0 ∧ l.closedQty = 0 ∧
            l.closedValue = 0 := by
        simpa [Legible, hzero] using hl
      have hread : l.readEntry entry .partialFill =
          l.report entry.filledQuantity entry.averagePrice true := by
        simp [Ledger.readEntry, hzero]
      have hsum : (l.report entry.filledQuantity entry.averagePrice true).filled =
          entry.filledQuantity := by
        simp [Ledger.report, Ledger.filled, hqty]
      rw [hread]
      refine ⟨?_, ?_, ?_, ⟨rfl, hsent, ?_⟩, trivial⟩
      · simp [OmniOrder.applyRemote_filledQuantity, hzero, hsum]
      · rw [hsum]
        exact hpos
      · rw [hsum]
        simp [OmniOrder.applyRemote_averagePrice, hprice, Ledger.value, Ledger.report, hvalue]
      · rw [hsum]
        simp only [Ledger.report, Ledger.filled] at hreq ⊢
        omega
  | filled =>
    obtain ⟨hmem, hpos, hqty, hvalue⟩ := hl
    have hall : (if entry.filledQuantity = 0 then l.sentQty else entry.filledQuantity) =
        l.sentQty := by
      simp only [List.mem_cons, List.not_mem_nil, or_false] at hmem
      split
      · rfl
      · next hne => exact hmem.resolve_left hne
    have hread : l.readEntry entry .filled = l.report l.sentQty entry.averagePrice false := by
      by_cases hzero : entry.filledQuantity = 0
      · simp [Ledger.readEntry, hzero]
      · rw [if_neg hzero] at hall
        simp [Ledger.readEntry, hall]
    have hsum : (l.report l.sentQty entry.averagePrice false).filled = l.sentQty := by
      simp [Ledger.report, Ledger.filled, hqty]
    rw [hread]
    refine ⟨?_, ?_, ?_, ⟨rfl, ?_⟩, trivial⟩
    · rw [hsum, ← hall]
      simp only [OmniOrder.applyRemote_filledQuantity, hsent]
    · rw [hsum]
      exact hpos
    · rw [hsum]
      simp [OmniOrder.applyRemote_averagePrice, Ledger.value, Ledger.report, hvalue]
    · rw [hsum]
      simp only [Ledger.filled, Ledger.report] at hreq ⊢
      omega
  | cancelled | rejected | expired =>
    refine h.of_standing rfl rfl ?_ ?_ trivial
    · exact (Ledger.readEntry_same (by simp) hl).1
    · exact (Ledger.readEntry_same (by simp) hl).2
  | _ => simp at ht

theorem send (h : Booked .preparing o l) : Booked .sending o (l.send o.quantity) := by
  obtain ⟨-, hreq⟩ : l.Balanced o .waiting := h.balanced
  have hsum : (l.send o.quantity).filled = l.filled := by simp [Ledger.send, Ledger.filled]
  refine ⟨h.filled.trans hsum.symm, hsum ▸ h.nonneg, ?_, ⟨rfl, rfl, rfl, rfl, ?_⟩, h.fits⟩
  · rw [hsum, h.average]
    simp [Ledger.send, Ledger.value]
  · rw [hsum]
    exact hreq

theorem done_with (h : Booked st o l) (hst : st ≠ .preparing) (hf : st ≠ .off) :
    Booked .off o l := by
  refine h.of_standing rfl rfl rfl rfl ?_
  have hb := h.balanced
  have hfits := h.fits
  cases st with
  | off => exact absurd rfl hf
  | preparing => exact absurd rfl hst
  | sending | counting =>
    rcases hfits with hs | hs
    · rwa [hs]
    · rw [standing_dead hs]
      trivial

theorem off_of_new (h : Booked st o l) (hs : o.state = .new) : st = .off := by
  have hfits := h.fits
  cases st <;> simp [Stage.Fits, hs, deadStates] at hfits ⊢

end Booked

theorem booked_subject {r : Ref} (hf : Facts cfg w e) (hr : e.subject cfg w = some r)
    (hc : KeptBooks keepsOpen (w, g) e)
    (h : Booked (stageOf w (w.heap r).omsOrderId) (w.heap r) (g.ledger (w.heap r).omsOrderId)) :
    Booked (e.stage (stageOf w (w.heap r).omsOrderId)) ((World.apply cfg e w).heap r)
      ((g.ledger (w.heap r).omsOrderId).after cfg keepsOpen w e) := by
  cases e with
  | queued q =>
    cases hr
    have hnew : (w.heap q).state = .new := hc
    have hoff := h.off_of_new hnew
    rw [hoff] at h ⊢
    have hb := h.balanced
    rw [hnew] at hb
    simp only [World.apply, World.modify_heap_self]
    exact h.of_standing rfl rfl rfl rfl hb
  | cancelled q via =>
    cases via <;>
      · cases hr
        simp only [World.apply, World.modify_heap_self]
        exact h.of_dead rfl rfl rfl (by simp [OmniOrder.cancel, deadStates])
  | exhausted q =>
    cases hr
    simp only [World.apply, World.modify_heap_self]
    exact h.of_dead rfl rfl rfl (by simp [OmniOrder.exhausted, deadStates])
  | note q | related q =>
    cases hr
    simp only [World.apply, World.modify_heap_self]
    exact h.of_eq rfl rfl rfl rfl
  | modified q changes =>
    cases hr
    simp only [World.apply, World.modify_heap_self]
    exact h.of_eq rfl rfl hc rfl
  | retried q =>
    cases hr
    obtain ⟨hoff, hlive, hreq⟩ := hc
    rw [show stageOf w (w.heap q).omsOrderId = .off from hoff] at h ⊢
    simp only [World.apply, World.modify_heap_self]
    exact h.of_standing rfl rfl rfl rfl ⟨hlive, hreq⟩
  | markSent q =>
    cases hr
    obtain ⟨-, hidle, hqueued⟩ := hf
    rw [stageOf_idle hidle] at h ⊢
    have hb := h.balanced
    rw [StateMachine.canTransition_sent.mp hqueued] at hb
    simp only [World.apply, World.modify_heap_self]
    exact ⟨h.filled, h.nonneg, h.average, hb, .inl rfl⟩
  | post q =>
    cases hr
    have hst : stageOf w (w.heap r).omsOrderId = .preparing := by simp [stageOf, hf.2]
    rw [hst] at h
    exact h.send
  | abandoned q =>
    cases hr
    have hst : stageOf w (w.heap r).omsOrderId = .sending := by simp [stageOf, hf.2]
    rw [hst] at h
    exact h.done_with (by decide) (by decide)
  | unanswered q res =>
    cases hr
    have hst : stageOf w (w.heap q).omsOrderId = .sending := by simp [stageOf, hf.2]
    rw [hst] at h
    simp only [World.apply, World.modify_heap_self]
    exact h.of_standing rfl rfl rfl rfl h.balanced
  | answered q res =>
    cases hr
    have hst : stageOf w (w.heap q).omsOrderId = .sending := by simp [stageOf, hf.2]
    rw [hst] at h
    simp only [World.apply, World.modify_heap_self]
    exact h.answered hc
  | requeued q =>
    cases hr
    have hst : stageOf w (w.heap q).omsOrderId = .sending := by simp [stageOf, hf.2.1]
    rw [hst] at h
    obtain ⟨-, -, -, -, hreq⟩ : (g.ledger (w.heap q).omsOrderId).Balanced (w.heap q) .away :=
      h.balanced
    simp only [World.apply, World.modify_heap_self]
    exact ⟨h.filled, h.nonneg, h.average, ⟨rfl, hreq⟩, .inl rfl⟩
  | countRetry q res =>
    cases hr
    have hst : stageOf w (w.heap q).omsOrderId = .counting := by simp [stageOf, hf.2]
    rw [hst] at h
    simp only [World.apply, World.modify_heap_self]
    exact (h.done_with (by decide) (by decide)).of_eq rfl rfl rfl rfl
  | refused q res =>
    cases hr
    have hst : stageOf w (w.heap q).omsOrderId = .sending := by simp [stageOf, hf.2]
    rw [hst] at h
    simp only [World.apply, World.modify_heap_self]
    exact h.of_standing rfl rfl rfl rfl trivial
  | reconciling q =>
    cases hr
    obtain ⟨hoff, haway⟩ := hc
    rw [show stageOf w (w.heap q).omsOrderId = .off from hoff] at h ⊢
    have hb : (g.ledger (w.heap q).omsOrderId).Balanced (w.heap q) .away := by
      have hb := h.balanced
      simp only [List.mem_cons, List.not_mem_nil, or_false] at haway
      rcases haway with hs | hs <;> rwa [hs] at hb
    simp only [World.apply, World.modify_heap_self]
    exact h.of_standing rfl rfl rfl rfl hb
  | resolved q args lookups =>
    cases hr
    obtain ⟨hoff, hs⟩ := hc
    rw [show stageOf w (w.heap q).omsOrderId = .off from hoff] at h ⊢
    simp only [World.apply, World.modify_heap_self]
    exact h.resolved hs reconcile_accepted
  | remote q entry target =>
    cases hr
    obtain ⟨hoff, hs, hl⟩ := hc
    rw [show stageOf w (w.heap q).omsOrderId = .off from hoff] at h ⊢
    simp only [World.apply, World.modify_heap_self]
    exact h.remote hs hl (OmniOrder.remoteTarget_mem hf.2.2.1)
  | _ => cases hr

structure Kept (x : World × Books) : Prop where
  unique : Unique x.1
  busy : Busy x.1
  last : ∀ r < x.1.nextRef, x.2.last (x.1.heap r).omsOrderId = some (x.1.heap r)
  booked : ∀ oid o, x.2.last oid = some o →
    o.omsOrderId = oid ∧ Booked (stageOf x.1 oid) o (x.2.ledger oid)

theorem Kept.of_object {x : World × Books} (h : Kept x) {r : Ref} (hr : r < x.1.nextRef) :
    Booked (stageOf x.1 (x.1.heap r).omsOrderId) (x.1.heap r)
      (x.2.ledger (x.1.heap r).omsOrderId) :=
  (h.booked _ _ (h.last r hr)).2

theorem preparing_iff (hu : Unique w) (hb : Busy w) {r : Ref} (hr : r < w.nextRef) :
    w.worker = .preparing r ↔ stageOf w (w.heap r).omsOrderId = .preparing := by
  constructor
  · intro h
    simp [stageOf, h]
  · intro h
    unfold stageOf at h
    cases hw : w.worker with
    | preparing q =>
      rw [hw] at h
      have hid : (w.heap q).omsOrderId = (w.heap r).omsOrderId := by
        by_contra hne
        simp [hne] at h
      rw [hu q (hb q (by rw [hw]; rfl)) r hr hid]
    | idle => simp [hw] at h
    | sending q | counting q =>
      simp only [hw] at h
      split at h <;> cases h

theorem Kept.agrees {x : World × Books} (h : Kept x) {r : Ref} (hr : r < x.1.nextRef) :
    Agrees x r := by
  have hb := h.of_object hr
  have hprep := preparing_iff h.unique h.busy hr
  refine ⟨hb.filled, fun hlive => ?_, by rw [hb.filled]; exact hb.average⟩
  rw [hb.filled]
  have hbal := hb.balanced
  have hfits := hb.fits
  simp only [waitingQty, Ledger.working, hprep]
  cases hst : stageOf x.1 (x.1.heap r).omsOrderId with
  | off =>
    rw [hst] at hbal
    cases hs : (x.1.heap r).state <;> rw [hs] at hbal hlive <;>
      simp [standing, Ledger.Balanced, deadStates] at hbal hlive ⊢ <;> simp [hbal] <;> omega
  | preparing =>
    rw [hst] at hbal
    obtain ⟨hl, hreq⟩ := hbal
    simp [hl, hreq]
  | sending =>
    rw [hst] at hbal hfits
    obtain ⟨hl, hsent, hqty, -, hreq⟩ := hbal
    have hs := hfits.resolve_right hlive
    simp [hs, hl, hsent, hqty, hreq]
  | counting =>
    rw [hst] at hbal hfits
    obtain ⟨hl, hreq⟩ := hbal
    have hs := hfits.resolve_right hlive
    simp [hs, hl, hreq]

theorem booked_cases {r : Ref} (h : e.booked cfg w = some r) :
    (∃ req mr x, e = .create req mr x ∧ r = w.nextRef) ∨ e.subject cfg w = some r := by
  cases e with
  | create req mr x =>
    cases h
    exact .inl ⟨req, mr, x, rfl, rfl⟩
  | _ => exact .inr h

theorem stageOf_new (hw : w.Inv) (hb : Busy w) : stageOf w w.nextOid = .off := by
  unfold stageOf
  cases hwk : w.worker with
  | idle => rfl
  | preparing q | sending q | counting q =>
    have hlt := (hw.objects q (hb q (by rw [hwk]; rfl))).2
    simp [hlt.ne]

theorem booked_new (sha256 : String → String) (oid : OrderId) (req : ExecutionRequest)
    (mr : Option ℤ) :
    Booked .off (newOrder sha256 oid req mr) { requested := req.quantity } where
  filled := rfl
  nonneg := le_rfl
  average := by simp [newOrder, Ledger.filled, Ledger.value]
  balanced := ⟨rfl, by simp [newOrder, Ledger.filled]⟩
  fits := trivial

theorem kept_unbooked (hf : Facts cfg w e) (hn : e.booked cfg w = none)
    (hu : Unique (World.apply cfg e w)) (hb : Busy (World.apply cfg e w))
    (hc : KeptBooks keepsOpen (w, g) e) (h : Kept (w, g)) : Kept (World.apply cfg e w, g) := by
  have hsub : e.subject cfg w = none := by
    cases e <;> first | exact hn | cases hn
  refine ⟨hu, hb, fun q hq => ?_, fun oid o ho => ?_⟩
  · rcases object_cases (.inl hf) hq with ⟨hlt, heq⟩ | ⟨f, -, hon, -⟩ | ⟨o, -, hnew, heq⟩
    · simp only [heq]
      exact h.last q hlt
    · rw [subject_of_onOrder hon] at hsub
      cases hsub
    · cases e with
      | loaded row =>
        cases hnew
        simp only [heq]
        exact hc.2
      | create => cases hn
      | _ => cases hnew
  · have hst : stageOf (World.apply cfg e w) oid = stageOf w oid :=
      stage_of_other hf h.busy (by simp [hsub])
    simp only [hst]
    exact h.booked oid o ho

theorem noteFills_create (cfg : Settings) (keepsOpen : ExecutionResult → Bool) (w : World)
    (req : ExecutionRequest) (mr : Option ℤ) (x : Option OrderId) (g : Books) :
    noteFills cfg keepsOpen w (.create req mr x) g =
      { ledger := Function.update g.ledger w.nextOid { requested := req.quantity }
        last := Function.update g.last w.nextOid (some (newOrder cfg.sha256 w.nextOid req mr)) } := by
  simp only [noteFills, Effect.booked, create_object]
  rfl

theorem kept_create (hw : w.Inv) {req : ExecutionRequest} {mr : Option ℤ} {x : Option OrderId}
    (hu : Unique (World.apply cfg (.create req mr x) w))
    (hb : Busy (World.apply cfg (.create req mr x) w)) (h : Kept (w, g)) :
    Kept (track (World.apply cfg) (noteFills cfg keepsOpen) (.create req mr x) (w, g)) := by
  have hf : Facts cfg w (.create req mr x) := trivial
  have hnew : (World.apply cfg (.create req mr x) w).heap w.nextRef =
      newOrder cfg.sha256 w.nextOid req mr := create_object req mr x
  have hnote := noteFills_create cfg keepsOpen w req mr x g
  refine ⟨hu, hb, fun q hq => ?_, fun oid o ho => ?_⟩
  · simp only [track, hnote]
    rcases object_cases (.inl hf) hq with ⟨hlt, heq⟩ | ⟨f, -, hon, -⟩ | ⟨o, rfl, hn, heq⟩
    · have hne : (w.heap q).omsOrderId ≠ w.nextOid := (hw.objects q hlt).2.ne
      rw [heq, Function.update_of_ne hne]
      exact h.last q hlt
    · cases hon
    · rw [hnew]
      exact Function.update_self _ _ _
  · simp only [track, hnote] at ho ⊢
    rw [stage_of_other hf h.busy fun _ hsubject => absurd hsubject (Option.some_ne_none _).symm]
    by_cases hoid : oid = w.nextOid
    · subst hoid
      rw [Function.update_self, stageOf_new hw h.busy] at *
      cases ho
      exact ⟨rfl, booked_new _ _ _ _⟩
    · rw [Function.update_of_ne hoid] at ho ⊢
      exact h.booked oid o ho

theorem kept_step (hw : w.Inv) (hs : Step cfg w e) (hc : KeptBooks keepsOpen (w, g) e)
    (h : Kept (w, g)) : Kept (track (World.apply cfg) (noteFills cfg keepsOpen) e (w, g)) := by
  have hnew : LoadsNew w e := by
    rintro row rfl
    exact hc.1
  have hu := unique_step hw hs hnew h.unique
  have hb := busy_step hs h.busy
  rcases hs with hf | rfl
  · cases hbk : e.booked cfg w with
    | none =>
      have hnote : noteFills cfg keepsOpen w e g = g := by simp [noteFills, hbk]
      simp only [track, hnote]
      exact kept_unbooked hf hbk hu hb hc h
    | some r =>
      rcases booked_cases hbk with ⟨req, mr, x, rfl, rfl⟩ | hsub
      · exact kept_create hw hu hb h
      · have hr := subject_lt hw hf hsub
        have hid : ((World.apply cfg e w).heap r).omsOrderId = (w.heap r).omsOrderId :=
          (stable_apply hf).same r hr
        have hnote : noteFills cfg keepsOpen w e g =
            { ledger := Function.update g.ledger (w.heap r).omsOrderId
                ((g.ledger (w.heap r).omsOrderId).after cfg keepsOpen w e)
              last := Function.update g.last (w.heap r).omsOrderId
                (some ((World.apply cfg e w).heap r)) } := by
          simp only [noteFills, hbk, hid]
        have hother : ∀ oid, oid ≠ (w.heap r).omsOrderId →
            stageOf (World.apply cfg e w) oid = stageOf w oid := by
          intro oid hne
          refine stage_of_other hf h.busy fun q hq => ?_
          rw [hsub] at hq
          cases hq
          exact hne.symm
        refine ⟨hu, hb, fun q hq => ?_, fun oid o ho => ?_⟩
        · simp only [track, hnote] at hq ⊢
          by_cases hqr : q = r
          · subst hqr
            rw [hid, Function.update_self]
          · have hlt : q < w.nextRef := nextRef_of_subject hf hsub ▸ hq
            have heq : (World.apply cfg e w).heap q = w.heap q := by
              refine heap_of_subject hf hlt ?_
              rw [hsub]
              exact fun hrq => hqr (Option.some.inj hrq).symm
            have hne : (w.heap q).omsOrderId ≠ (w.heap r).omsOrderId :=
              fun hqr' => hqr (h.unique q hlt r hr hqr')
            rw [heq, Function.update_of_ne hne]
            exact h.last q hlt
        · simp only [track, hnote] at ho ⊢
          by_cases hoid : oid = (w.heap r).omsOrderId
          · subst hoid
            rw [Function.update_self] at ho ⊢
            cases ho
            rw [stage_of_subject hf hsub]
            exact ⟨hid, booked_subject hf hsub hc (h.of_object hr)⟩
          · rw [Function.update_of_ne hoid] at ho ⊢
            rw [hother oid hoid]
            exact h.booked oid o ho
  · -- the process dies with nothing in the worker's hands
    have hidle : w.worker = .idle := hc
    refine ⟨hu, hb, fun q hq => absurd hq (Nat.not_lt_zero _), fun oid o ho => ?_⟩
    have hold := h.booked oid o ho
    simp only at hold
    rw [stageOf_idle hidle] at hold
    exact hold

end Step

section Runs

variable {cfg : Settings} {keepsOpen : ExecutionResult → Bool}

def KeepsFills (cfg : Settings) (keepsOpen : ExecutionResult → Bool) (es : List Effect) : Prop :=
  Legal (track (World.apply cfg) (noteFills cfg keepsOpen)) (FillStep cfg keepsOpen)
    (initial.state, {}) es

instance (es : List Effect) : Decidable (KeepsFills cfg keepsOpen es) :=
  inferInstanceAs (Decidable (Legal _ _ _ _))

def fourOfTen : ExecutionResult :=
  { success := true, brokerOrderId := "b1", state := .partiallyFilled, filledQty := 4
    avgPrice := 100 }

/-- `buyTen` is filled by four, and `rest` answers when the six others are sent. -/
def partlyFilled (rest : ExecutionResult) (k : ℕ) : List Act :=
  alone .start 6 {} ++ alone (.placeOrder buyTen none) 6 {} ++
    alone .processQueue 9 { placed := some fourOfTen } ++
    [.env (.elapse (seconds 5))] ++ alone .processQueue k { placed := some rest }

end Runs

end Trademetrix.Oms
