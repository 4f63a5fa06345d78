import Trademetrix.Oms.Effects
import Trademetrix.Oms.Texts

/-!
# A leg that cannot be cancelled

When the broker does not cancel a leg of an OCO pair the pair should stay as it is.
`cancel_order` goes on to the sibling whatever the broker has answered: only an
exception keeps it from that.
-/

namespace Trademetrix.Oms

open Async

variable {cfg : Settings} {w w' v : World} {oid siblingId : OrderId} {r : Ref} {via : CancelVia}
  {rs : List (Sigma Reply)} {u : Unit}

def Reached (cfg : Settings) (w : World) : Prop := ∃ es, w = replay (World.apply cfg) {} es

/-- The pair that `order` is found in, if it is in a live one. -/
def World.pairOf (w : World) (r : Ref) : Option (OCOOrder × OrderId × Bool) :=
  findOco w (w.heap r).omsOrderId

structure OcoPair (w : World) (r : Ref) (siblingId : OrderId) : Prop where
  relation : (w.heap r).relationType = .oco
  found : (w.pairOf r).map (fun x => x.2.1) = some siblingId

structure KeepsPair (r : Ref) (siblingId : OrderId) (w w' : World) : Prop where
  order : w'.heap r = w.heap r
  listed : w'.orders.get siblingId = w.orders.get siblingId
  sibling : ∀ q, w.orders.get siblingId = some q → w'.heap q = w.heap q
  found : w'.pairOf r = w.pairOf r

structure Others (cfg : Settings) (r : Ref) (siblingId : OrderId) (w w' : World) : Prop where
  keeps : KeepsPair r siblingId w w'
  reached : ∃ es, w' = replay (World.apply cfg) w es

def notCancelled : Sigma Reply → Bool
  | ⟨.cancelOrder _, reply⟩ =>
    let reply : Option (Bool × String) := reply
    !reply.any fun x => x.1
  | _ => false

def cancelRaised : Sigma Reply → Bool
  | ⟨.cancelOrder _, reply⟩ =>
    let reply : Option (Bool × String) := reply
    reply.isNone
  | _ => false

namespace KeepsPair

theorem refl (w : World) : KeepsPair r siblingId w w := ⟨rfl, rfl, fun _ _ => rfl, rfl⟩

theorem trans (h : KeepsPair r siblingId w v) (h' : KeepsPair r siblingId v w') :
    KeepsPair r siblingId w w' where
  order := h'.order.trans h.order
  listed := h'.listed.trans h.listed
  sibling q hq := (h'.sibling q (h.listed.trans hq)).trans (h.sibling q hq)
  found := h'.found.trans h.found

theorem symm (h : KeepsPair r siblingId w w') : KeepsPair r siblingId w' w where
  order := h.order.symm
  listed := h.listed.symm
  sibling q hq := (h.sibling q (h.listed.symm.trans hq)).symm
  found := h.found.symm

theorem of_eq (hheap : w'.heap = w.heap) (horders : w'.orders = w.orders)
    (hocos : w'.ocos = w.ocos) : KeepsPair r siblingId w w' := by
  refine ⟨by rw [hheap], by rw [horders], fun q _ => by rw [hheap], ?_⟩
  unfold World.pairOf findOco
  rw [hheap, hocos]

end KeepsPair

theorem elsewhere : (onlyJudgement Elsewhere fun _ => True).Rules :=
  only_rules (fun _ h => h) fun _ _ _ => trivial

theorem replies_elsewhere {α : Type} {p : M α} {rely : World → World → Prop} {a : α}
    (h : p.Runs (World.apply cfg) rely w rs a w') (hp : p.Only Elsewhere fun _ => True) :
    rs.any notCancelled = false ∧ rs.any cancelRaised = false := by
  have hpoints := h.awaits hp
  simp only [List.any_eq_false]
  constructor
  · rintro ⟨i, reply⟩ hx
    have hi := hpoints _ hx
    cases i <;> first | exact absurd hi id | simp [notCancelled]
  · rintro ⟨i, reply⟩ hx
    have hi := hpoints _ hx
    cases i <;> first | exact absurd hi id | simp [cancelRaised]

section Link

def Keyed (w : World) : Prop := ∀ p ∈ w.ocos, p.2.omsOrderId = p.1

theorem addOrder_ocos (w : World) (o : OmniOrder) : (w.addOrder cfg o).ocos = w.ocos := by
  obtain ⟨os, heq, -⟩ := World.addOrder_eq cfg w o
  rw [heq]

theorem keyed_apply (h : Keyed w) (e : Effect) : Keyed (World.apply cfg e w) := by
  cases e with
  | crash => exact fun p hp => absurd hp List.not_mem_nil
  | ocoLinked oco =>
    intro p hp
    rcases Dict.mem_set hp with rfl | hp
    · rfl
    · exact h p hp
  | recoveredOco oco =>
    intro p hp
    rcases Dict.mem_set hp with rfl | hp
    · rfl
    · exact h p hp
  | ocoClosed id fillsA fillsB =>
    intro p hp
    obtain ⟨q, hq, rfl⟩ := List.mem_map.mp hp
    split <;> exact h q hq
  | cancelled q via => cases via <;> exact h
  | create | loaded =>
    unfold Keyed
    rw [World.apply, addOrder_ocos]
    exact h
  | _ => exact h

theorem keyed_replay (h : Keyed w) (es : List Effect) :
    Keyed (replay (World.apply cfg) w es) := by
  induction es generalizing w with
  | nil => exact h
  | cons e es ih => exact ih (keyed_apply h e)

theorem Reached.keyed (h : Reached cfg w) : Keyed w := by
  obtain ⟨es, rfl⟩ := h
  exact keyed_replay (fun p hp => absurd hp List.not_mem_nil) es

theorem Reached.others (h : Reached cfg w) (hv : Others cfg r siblingId w v) : Reached cfg v := by
  obtain ⟨es, rfl⟩ := h
  obtain ⟨fs, rfl⟩ := hv.reached
  exact ⟨es ++ fs, (replay_append _ _ _).symm⟩

theorem findOco_closed (h : Keyed w) (oco : OCOOrder) (id : OrderId) (x : OrderId × Bool) :
    findOco (World.apply cfg (.ocoClosed oco.omsOrderId false false) w) id ≠ some (oco, x) := by
  intro hfound
  simp only [findOco, World.apply, Option.map_eq_some_iff] at hfound
  obtain ⟨o, ho, hx⟩ := hfound
  have hoco : o = oco := by
    split at hx <;> exact congrArg Prod.fst hx
  subst hoco
  have hactive := List.find?_some ho
  obtain ⟨p, hp, hpo⟩ := List.mem_map.mp (List.mem_of_find?_eq_some ho)
  obtain ⟨q, hq, rfl⟩ := List.mem_map.mp hp
  split at hpo
  · subst hpo
    simp at hactive
  · next hne =>
    subst hpo
    exact hne (h q hq).symm

end Link

section Failing

def beside (cfg : Settings) (r : Ref) (siblingId : OrderId) : Contract World Effect Tag where
  rely _ := Others cfg r siblingId
  guar _ _ _ := True
  idle _ _ := True

variable {α : Type} {p : M α} {a : α} {Q : World → Prop} {e : Effect}

/-- Text that keeps `Q`, whatever the others do that leaves the pair alone. -/
abbrev Staying (cfg : Settings) (r : Ref) (siblingId : OrderId) (Q : World → Prop) (p : M α) :
    Prop :=
  (beside cfg r siblingId).Stays (system cfg) .api Q p

theorem Staying.ends (hp : Staying cfg r siblingId Q p)
    (h : p.Runs (World.apply cfg) (Others cfg r siblingId) w rs a w') (hw : Q w) : Q w' :=
  Proc.Runs.post h (hp w hw) fun _ _ _ => rfl

theorem Others.refl (w : World) : Others cfg r siblingId w w := ⟨.refl w, [], rfl⟩

theorem Others.trans (h : Others cfg r siblingId w v) (h' : Others cfg r siblingId v w') :
    Others cfg r siblingId w w' := by
  obtain ⟨es, rfl⟩ := h.reached
  obtain ⟨fs, rfl⟩ := h'.reached
  exact ⟨h.keeps.trans h'.keeps, es ++ fs, (replay_append _ _ _).symm⟩

theorem Others.apart (h : Others cfg r siblingId w v) (hheap : (World.apply cfg e v).heap = v.heap)
    (horders : (World.apply cfg e v).orders = v.orders)
    (hocos : (World.apply cfg e v).ocos = v.ocos) :
    Others cfg r siblingId w (World.apply cfg e v) :=
  h.trans ⟨.of_eq hheap horders hocos, [e], rfl⟩

theorem staying_statement (hQ : ∀ s t, Q s → Others cfg r siblingId s t → Q t)
    (he : ∀ s, Q s → Q (World.apply cfg e s)) : Staying cfg r siblingId Q (statement e) := by
  refine .bind (.wait hQ _) fun io => ?_
  refine .bind ?_ fun _ => .bind (.wait hQ _) fun _ => .pure _
  unfold takeEffect
  split
  · exact .pure _
  · exact .emit fun s hs => ⟨trivial, he s hs⟩

theorem staying_saveOrder (q : Ref) (hQ : ∀ s t, Q s → Others cfg r siblingId s t → Q t)
    (he : ∀ s row, Q s → Q (World.apply cfg (.upsert row) s)) :
    Staying cfg r siblingId Q (saveOrder q) :=
  .bind .look fun _ => staying_statement hQ fun s hs => he s _ hs

theorem staying_removeFrom (n start : ℕ) :
    Staying cfg r siblingId (Others cfg r siblingId w) (removeFrom oid n start) := by
  have hQ : ∀ s t, Others cfg r siblingId w s → Others cfg r siblingId s t →
      Others cfg r siblingId w t := fun _ _ hs ht => hs.trans ht
  induction n generalizing start with
  | zero => exact .pure _
  | succ n ih =>
    refine .bind (.wait hQ _) fun io => .bind .look fun s => .bind (.wait hQ _) fun _ => ?_
    simp only
    split
    · exact .pure _
    · split
      · exact ih _
      · refine .bind (.wait hQ _) fun io => .bind .look fun s => ?_
        split
        · exact .pure _
        · refine .bind (.emit fun s hs => ⟨trivial, hs.apart (e := .lrem _) rfl rfl rfl⟩) fun _ =>
            .bind (.wait hQ _) fun _ => ?_
          split
          · exact .pure _
          · split
            · exact .pure _
            · exact ih _

theorem staying_remove : Staying cfg r siblingId (Others cfg r siblingId w) (remove oid) :=
  .bind (.wait (fun _ _ hs ht => hs.trans ht) _) fun n => staying_removeFrom n 0

def Unlinked (r : Ref) (id : OrderId) (x : OCOOrder × OrderId × Bool) (w : World) : Prop :=
  (w.heap r).omsOrderId = id ∧ findOco w id ≠ some x

theorem Unlinked.others {id : OrderId} {x : OCOOrder × OrderId × Bool} (h : Unlinked r id x w)
    (hv : Others cfg r siblingId w v) : Unlinked r id x v := by
  obtain ⟨rfl, hx⟩ := h
  refine ⟨by rw [hv.keeps.order], ?_⟩
  have hfound := hv.keeps.found
  unfold World.pairOf at hfound
  rw [hv.keeps.order] at hfound
  rwa [hfound]

theorem staying_cancelSibling {id : OrderId} {x : OCOOrder × OrderId × Bool} (q : OrderId) :
    Staying cfg r siblingId (Unlinked r id x) (cancelSibling q) := by
  have hQ : ∀ s t, Unlinked r id x s → Others cfg r siblingId s t → Unlinked r id x t :=
    fun _ _ hs ht => hs.others ht
  refine .bind .look fun s => ?_
  cases s.orders.get q with
  | none => exact .pure _
  | some q =>
    simp only
    split
    · refine .bind (.emit fun t ht => ⟨trivial, ?_⟩) fun _ =>
        .bind (staying_saveOrder q hQ fun _ _ h => h) fun _ => staying_statement hQ fun _ h => h
      exact ⟨(World.modify_id (f := OmniOrder.cancel) (fun _ => rfl) r).trans ht.1, ht.2⟩
    · exact .pure _

theorem staying_saveOcoOrder {id : OrderId} {x : OCOOrder × OrderId × Bool} (k : OrderId) :
    Staying cfg r siblingId (Unlinked r id x) (saveOcoOrder k) := by
  refine .bind .look fun s => ?_
  cases s.ocos.get k with
  | none => exact .pure _
  | some oco => exact staying_statement (fun _ _ hs ht => hs.others ht) fun _ h => h

theorem unlinked_of_cancelOcoSibling (hw : Reached cfg w) (h : OcoPair w r siblingId)
    (hrun : (cancelOcoSibling r).Runs (World.apply cfg) (Others cfg r siblingId) w rs u w') :
    ∃ x, w.pairOf r = some x ∧ Unlinked r (w.heap r).omsOrderId x w' := by
  obtain ⟨x, hx, -⟩ := Option.map_eq_some_iff.mp h.found
  obtain ⟨rs₁, s, t, rs₂, -, hlook, hrest⟩ := Proc.runs_bind hrun
  obtain ⟨-, rfl, rfl⟩ := Proc.runs_look hlook
  have hfind : findOco t (t.heap r).omsOrderId = some x := hx
  simp only [h.relation, ne_eq, not_true_eq_false, if_false, hfind] at hrest
  obtain ⟨rs₃, _, t', rs₄, -, hemit, hrest⟩ := Proc.runs_bind hrest
  obtain ⟨-, rfl⟩ := Proc.runs_emit hemit
  have hgone : Unlinked r (t.heap r).omsOrderId x
      (World.apply cfg (.ocoClosed x.1.omsOrderId false false) t) :=
    ⟨rfl, findOco_closed hw.keyed _ _ _⟩
  obtain ⟨rs₅, _, t'', rs₆, -, hsave, hrest⟩ := Proc.runs_bind hrest
  exact ⟨x, hx, (staying_cancelSibling _).ends hrest ((staying_saveOcoOrder _).ends hsave hgone)⟩

theorem OcoPair.keeps (h : OcoPair w r siblingId) (hv : KeepsPair r siblingId w v) :
    OcoPair v r siblingId :=
  ⟨by rw [hv.order, h.relation], by rw [hv.found, h.found]⟩

theorem brokerAnswered_unlinks {message : String} {rs' : List (Sigma Reply)} {u' : Unit}
    (hw : Reached cfg w) (h : OcoPair w r siblingId)
    (hans : (brokerAnswered r oid false message).Runs (World.apply cfg)
      (Others cfg r siblingId) w rs u v)
    (hrun : (cancelOcoSibling r).Runs (World.apply cfg) (Others cfg r siblingId) v rs' u' w') :
    ¬ KeepsPair r siblingId w w' := by
  obtain ⟨rs₁, _, t, rs₂, -, hemit, hsave⟩ := Proc.runs_bind hans
  obtain ⟨-, rfl⟩ := Proc.runs_emit hemit
  set note := if message = "" then "Cancel failed" else message
  have hnoted : Reached cfg (World.apply cfg (.note r note) w) := by
    obtain ⟨es, rfl⟩ := hw
    exact ⟨es ++ [.note r note], by rw [replay_append]; rfl⟩
  have hsame : (World.apply cfg (.note r note) w).heap r = { w.heap r with message := note } :=
    World.modify_heap_self w r fun o => { o with message := note }
  have hfound : (World.apply cfg (.note r note) w).pairOf r = w.pairOf r := by
    unfold World.pairOf
    rw [hsame]
    rfl
  have hpair : OcoPair (World.apply cfg (.note r note) w) r siblingId :=
    ⟨by rw [hsame]; exact h.relation, by rw [hfound]; exact h.found⟩
  have hv : Others cfg r siblingId (World.apply cfg (.note r note) w) v :=
    (staying_saveOrder r (fun _ _ hs ht => hs.trans ht)
      fun s row hs => hs.apart (e := .upsert row) rfl rfl rfl).ends hsave (.refl _)
  obtain ⟨x, hx, hid, hgone⟩ :=
    unlinked_of_cancelOcoSibling (hnoted.others hv) (hpair.keeps hv.keeps) hrun
  rw [hv.keeps.found, hfound] at hx
  intro hkeeps
  refine hgone ?_
  rw [← hid, ← hx]
  exact hkeeps.found

theorem cancelUnqueued_keeps_iff (hw : Reached cfg w) (h : OcoPair w r siblingId)
    (hrun : (cancelUnqueued r oid via).Runs (World.apply cfg) (Others cfg r siblingId) w rs u w')
    (hfail : rs.any notCancelled = true) :
    KeepsPair r siblingId w w' ↔ rs.any cancelRaised = true := by
  obtain ⟨rs₁, s, t, rs₂, rfl, hlook, hrest⟩ := Proc.runs_bind hrun
  obtain ⟨rfl, rfl, rfl⟩ := Proc.runs_look hlook
  split at hrest
  · have helse := replies_elsewhere hrest
      (elsewhere.write (e := .cancelled r via) rfl (after_finishCancel elsewhere r oid))
    simp [helse.1] at hfail
  · obtain ⟨rs₃, reply, v, rs₄, rfl, hwait, hafter⟩ := Proc.runs_bind hrest
    obtain ⟨rfl, hv⟩ := Proc.runs_wait hwait
    rcases reply with _ | ⟨success, message⟩
    · obtain ⟨rfl, -, rfl⟩ := Proc.runs_pure hafter
      exact iff_of_true hv.keeps rfl
    · have helse := replies_elsewhere hafter
        (elsewhere.bind (fine_brokerAnswered elsewhere r oid success message) fun _ =>
          fine_cancelOcoSibling elsewhere r)
      cases success with
      | true => simp [notCancelled, helse.1] at hfail
      | false =>
        obtain ⟨rs₅, _, v', rs₆, rfl, hans, hsib⟩ := Proc.runs_bind hafter
        refine iff_of_false (fun hkeeps => ?_) ?_
        · exact brokerAnswered_unlinks (hw.others hv) (h.keeps hv.keeps) hans hsib
            (hv.keeps.symm.trans hkeeps)
        · rw [List.nil_append, List.any_append, helse.2]
          simp [cancelRaised]

end Failing

/-- A pair outlives a cancellation of one of its legs that the broker does not carry
out exactly when asking the broker ends with an exception. -/
theorem cancelOrder_keeps_pair_iff (hw : Reached cfg w) (hr : w.orders.get oid = some r)
    (h : OcoPair w r siblingId)
    (hrun : (cancelOrder oid).Runs (World.apply cfg) (Others cfg r siblingId) w rs u w')
    (hfail : rs.any notCancelled = true) :
    KeepsPair r siblingId w w' ↔ rs.any cancelRaised = true := by
  obtain ⟨rs₁, s, t, rs₂, rfl, hlook, hrest⟩ := Proc.runs_bind hrun
  obtain ⟨rfl, rfl, rfl⟩ := Proc.runs_look hlook
  simp only [hr, List.nil_append] at hrest hfail ⊢
  split at hrest
  · obtain ⟨rfl, -⟩ := Proc.runs_emit hrest
    cases hfail
  · split at hrest
    · obtain ⟨rs₃, removed, v, rs₄, rfl, hremove, hafter⟩ := Proc.runs_bind hrest
      have hv : Others cfg r siblingId t v := staying_remove.ends hremove (.refl t)
      obtain ⟨hnot, hraised⟩ := replies_elsewhere hremove (fine_remove elsewhere oid)
      rw [List.any_append, hnot, Bool.false_or] at hfail
      rw [List.any_append, hraised, Bool.false_or]
      split at hafter
      · have helse := replies_elsewhere hafter
          (elsewhere.write (e := .cancelled r .dequeued) rfl (after_finishCancel elsewhere r oid))
        rw [helse.1] at hfail
        cases hfail
      · rw [← cancelUnqueued_keeps_iff (hw.others hv) (h.keeps hv.keeps) hafter hfail]
        exact ⟨hv.keeps.symm.trans, hv.keeps.trans⟩
    · exact cancelUnqueued_keeps_iff hw h hrest hfail

section Example

def pendingPair : World :=
  replay (World.apply bare) {}
    [.create buyTen none none, .queued 0, .create buyTen none none, .queued 1,
      .related 0 .oco (some 1), .related 1 .oco (some 0),
      .ocoLinked { omsOrderId := 0, orderAId := 0, orderBId := 1 },
      .markSent 0, .answered 0 { success := true, brokerOrderId := "b1", state := .pending }]

theorem reached_pendingPair : Reached bare pendingPair := ⟨_, rfl⟩

theorem ocoPair_pendingPair : OcoPair pendingPair 0 1 := ⟨rfl, rfl⟩

theorem runs_cancelPending (o : Outside) :
    (cancelOrder 0).Runs (World.apply bare) (Others bare 0 1) pendingPair
      ((cancelOrder 0).answers (World.apply bare) o.reply pendingPair) ()
      ((cancelOrder 0).finish (World.apply bare) o.reply pendingPair).2 :=
  Proc.runs_finish Others.refl o.reply _ _

theorem cancelOrder_keeps_pair_raised :
    KeepsPair 0 1 pendingPair
      ((cancelOrder 0).finish (World.apply bare) ({} : Outside).reply pendingPair).2 :=
  (cancelOrder_keeps_pair_iff reached_pendingPair rfl ocoPair_pendingPair
    (runs_cancelPending {}) (by decide)).mpr (by decide)

/-- The broker does not answer the cancellation of one leg in time: the other leg is
cancelled and the pair is gone. -/
theorem cancelOrder_loses_pair :
    ∃ rs w', (cancelOrder 0).Runs (World.apply bare) (Others bare 0 1) pendingPair rs () w' ∧
      rs.any notCancelled = true ∧ ¬ KeepsPair 0 1 pendingPair w' ∧
      (w'.heap 0).state = .pending ∧ (w'.heap 1).state = .cancelled := by
  refine ⟨_, _, runs_cancelPending { confirmed := some (false, "timeout") }, by decide, ?_,
    by decide, by decide⟩
  intro h
  have hlost := congrArg Option.isSome h.found
  revert hlost
  decide

end Example

end Trademetrix.Oms
