import Trademetrix.Execution.PlacingContract

/-!
# One order under one client order id

However calls of `place_order` interleave, at most one of those with the user and the
client order id goes on to the broker. A call whose insert gives no row does not; it
returns the order of the row that is there exactly when the lookup by client order id
can tell whose row it finds.
-/

namespace Trademetrix.Execution.Placing

open Async
open Engine (NormalizedOrder)
open RiskRules (Texts)

variable {texts : Texts} {s s₀ : Desk} {c c' : Call} {order order' : NormalizedOrder}
  {res : ExecutionResult} {es : List DeskEffect}

def Reaches (es : List DeskEffect) (c : Call) (order : NormalizedOrder) : Prop :=
  .sends c order ∈ es ∨ ∃ posts, .posts c order posts ∈ es

def WinnersOrder (order : NormalizedOrder) (w : OrderRow) (res : ExecutionResult) : Prop :=
  Manager.refusal order.clientOrderId (.duplicate (some (w.brokerOrderId, w.status))) = some res

def Returned (s : Desk) (order : NormalizedOrder) (res : ExecutionResult) : Prop :=
  (∀ w ∈ s.orders, w.HasKey order.userId order.clientOrderId → WinnersOrder order w res) ∧
    ((∀ w ∈ s.orders, ¬ w.HasKey order.userId order.clientOrderId) → res.success = false)

/-- The lookup by client order id is answered and no other user has the id; or there is no
row of the user, and the lookup is not answered or does not find just one. -/
def Findable (s : Desk) (order : NormalizedOrder) (answered : Bool) : Prop :=
  (answered = true ∧ ∀ r ∈ s.orders, r.clientOrderId = order.clientOrderId →
      r.userId = order.userId) ∨
    (∀ w ∈ s.orders, ¬ w.HasKey order.userId order.clientOrderId) ∧
      (answered = true → (s.orders.withClientOrderId order.clientOrderId).length ≠ 1)

def ReturnsWinner (s : Desk) : DeskEffect → Prop
  | .returns c res => ∀ x ∈ s.lost, x.1 = c → x.2.1.clientOrderId ≠ "" → Returned s x.2.1 res
  | _ => True

instance (s : Desk) (order : NormalizedOrder) (res : ExecutionResult) :
    Decidable (Returned s order res) :=
  have (w : OrderRow) : Decidable (WinnersOrder order w res) := inferInstanceAs (Decidable (_ = _))
  inferInstanceAs (Decidable (_ ∧ _))

instance (s : Desk) : ∀ e, Decidable (ReturnsWinner s e)
  | .returns c res => inferInstanceAs (Decidable (∀ x ∈ s.lost, x.1 = c → _ ≠ _ → Returned s x.2.1 res))
  | .starts _ | .judges _ _ _ | .inserts _ _ _ | .loses _ _ _ | .sends _ _ | .posts _ _ _
  | .updates _ _ _ _ | .clock _ | .adds _ | .marks _ _ _ => isTrue trivial

def LookupTells (s : Desk) : DeskEffect → Prop
  | .returns c _ => ∀ x ∈ s.lost, x.1 = c → x.2.1.clientOrderId ≠ "" → Findable s x.2.1 x.2.2
  | _ => True

section Lookup

variable {requestId : String} {answered : Bool} {w : OrderRow}

theorem success_iff
    (hres : Manager.refusal requestId (.duplicate (lostResult s requestId answered)) = some res) :
    res.success = true ↔ answered = true ∧ ∃ r, s.orders.withClientOrderId requestId = [r] := by
  cases answered with
  | false =>
    cases hres
    simp [Manager.failed]
  | true =>
    unfold lostResult checkExistingOrder at hres
    cases hfound : OrdersTable.maybeSingle (s.orders.withClientOrderId requestId) with
    | none =>
      rw [hfound] at hres
      cases hres
      have hno : ∀ r, s.orders.withClientOrderId requestId ≠ [r] := by
        intro r hr
        rw [OrdersTable.maybeSingle_eq_some.mpr hr] at hfound
        cases hfound
      simp [Manager.failed, hno]
    | some r =>
      rw [hfound] at hres
      cases hres
      simp [OrdersTable.maybeSingle_eq_some.mp hfound]

theorem winnersOrder_of_lookup (h : s.orders.withClientOrderId order.clientOrderId = [w])
    (hres : Manager.refusal order.clientOrderId
      (.duplicate (lostResult s order.clientOrderId true)) = some res) :
    WinnersOrder order w res := by
  unfold lostResult checkExistingOrder at hres
  rw [if_pos rfl, OrdersTable.maybeSingle_eq_some.mpr h] at hres
  exact hres

theorem WinnersOrder.success (h : WinnersOrder order w res) : res.success = true := by
  unfold WinnersOrder Manager.refusal at h
  rw [← Option.some.inj h]

theorem mem_withClientOrderId {t : OrdersTable} {r : OrderRow} :
    r ∈ t.withClientOrderId requestId ↔ r ∈ t ∧ r.clientOrderId = requestId := by
  simp [OrdersTable.withClientOrderId]

theorem withClientOrderId_eq {t : OrdersTable} {userId : String}
    (h : ∀ r ∈ t, r.clientOrderId = requestId → r.userId = userId) :
    t.withClientOrderId requestId = t.withKey userId requestId := by
  refine List.filter_congr fun r hr => ?_
  refine Bool.eq_iff_iff.mpr ?_
  simp only [decide_eq_true_eq]
  exact ⟨fun hid => ⟨h r hr hid, hid⟩, And.right⟩

theorem returned_iff (hs : s.orders.Indexed) (hne : order.clientOrderId ≠ "")
    (hres : Manager.refusal order.clientOrderId
      (.duplicate (lostResult s order.clientOrderId answered)) = some res) :
    Returned s order res ↔ Findable s order answered := by
  have hsuccess := success_iff hres
  by_cases hwinner : ∃ w ∈ s.orders, w.HasKey order.userId order.clientOrderId
  · obtain ⟨w, hw, hkey⟩ := hwinner
    constructor
    · rintro ⟨hreturn, -⟩
      obtain ⟨hanswered, r, hr⟩ := hsuccess.mp (hreturn w hw hkey).success
      have hsame : ∀ r' ∈ s.orders, r'.clientOrderId = order.clientOrderId → r' = r := by
        intro r' hr' hid
        have hmem := mem_withClientOrderId.mpr ⟨hr', hid⟩
        rw [hr] at hmem
        exact List.mem_singleton.mp hmem
      refine .inl ⟨hanswered, fun r' hr' hid => ?_⟩
      rw [hsame r' hr' hid, ← hsame w hw hkey.2]
      exact hkey.1
    · rintro (⟨rfl, hall⟩ | ⟨hnone, -⟩)
      · have hone : s.orders.withClientOrderId order.clientOrderId = [w] := by
          rw [withClientOrderId_eq hall]
          exact hs.withKey_eq hne hw hkey
        refine ⟨fun w' hw' hkey' => ?_, fun hnone => absurd hkey (hnone w hw)⟩
        rw [hs.unique hne hw' hw hkey' hkey]
        exact winnersOrder_of_lookup hone hres
      · exact absurd hkey (hnone w hw)
  · have hnone : ∀ w ∈ s.orders, ¬ w.HasKey order.userId order.clientOrderId :=
      fun w hw hkey => hwinner ⟨w, hw, hkey⟩
    have hfail : Returned s order res ↔ res.success = false :=
      ⟨fun h => h.2 hnone, fun h => ⟨fun w hw hkey => absurd hkey (hnone w hw), fun _ => h⟩⟩
    rw [hfail, ← Bool.not_eq_true, hsuccess]
    constructor
    · intro hno
      refine .inr ⟨hnone, fun hanswered hlen => hno ⟨hanswered, ?_⟩⟩
      exact List.length_eq_one_iff.mp hlen
    · rintro (⟨-, hall⟩ | ⟨-, hlen⟩) ⟨hanswered, r, hr⟩
      · have hmem : r ∈ s.orders.withClientOrderId order.clientOrderId := by
          rw [hr]
          exact List.mem_singleton.mpr rfl
        obtain ⟨hr', hid⟩ := mem_withClientOrderId.mp hmem
        exact hnone r hr' ⟨hall r hr' hid, hid⟩
      · exact hlen hanswered (by rw [hr]; rfl)

end Lookup

theorem returnsWinner_iff {e : DeskEffect} (h : PlacingFacts s e) :
    ReturnsWinner s e ↔ LookupTells s e := by
  cases e with
  | returns c res =>
    refine forall_congr' fun x => forall_congr' fun hx => forall_congr' fun hc =>
      forall_congr' fun hne => ?_
    exact returned_iff h.1 hne (h.2 x hx hc)
  | _ => exact Iff.rfl

theorem stored_of_reaches (hfacts : Legal (Desk.apply texts) PlacingFacts s₀ es)
    (h : Reaches es c order) : Stored c order (replay (Desk.apply texts) s₀ es) := by
  rcases h with h | ⟨posts, h⟩
  · exact stored_of_mem hfacts h fun t ht => ht.1
  · exact stored_of_mem hfacts h fun t ht => ht.1

def Apart (s : Desk) : Prop := ∀ x ∈ s.lost, x.1 ∉ s.sent

theorem apart_step {e : DeskEffect} (h : Apart s) (he : DeskFacts s e) :
    Apart (Desk.apply texts e s) := by
  cases e with
  | loses c order answered =>
    intro x hx
    rcases List.mem_cons.mp hx with rfl | hx
    · exact he
    · exact h x hx
  | sends c order =>
    intro x hx hc
    rcases List.mem_cons.mp hc with hc | hc
    · exact he.2 x hx hc
    · exact h x hx hc
  | starts | judges | inserts | posts | updates | returns | clock | adds | marks => exact h

structure OnePostLaw (texts : Texts) (s₀ : Desk) (es : List DeskEffect) (s : Desk) : Prop where
  /-- At most one call with the user and the id goes on to the broker. -/
  once : ∀ c order c' order', Reaches es c order → Reaches es c' order' →
    order.clientOrderId ≠ "" → order'.userId = order.userId →
      order'.clientOrderId = order.clientOrderId → c = c'
  /-- A call that lost its insert has not gone on to the broker. -/
  apart : Apart s
  /-- Every call that lost its insert returns the winner's order, exactly when every lookup
  can tell. -/
  winner : Legal (Desk.apply texts) ReturnsWinner s₀ es ↔ Legal (Desk.apply texts) LookupTells s₀ es

theorem onePost_law {P : Pool Desk DeskEffect DeskReply ℕ} (hs : Fresh s₀)
    (h : (system texts).Run ⟨s₀, []⟩ es P) : OnePostLaw texts s₀ es P.state := by
  have hfacts := facts_of_run hs h
  have hplacing := placingFacts_of_run hs h
  have hstate : P.state = replay (Desk.apply texts) s₀ es := System.Run.state h
  refine ⟨?_, ?_, hplacing.congr fun s e he => returnsWinner_iff he⟩
  · intro c order c' order' hc hc' hne huser hid
    obtain ⟨r, hr, hby, hkey⟩ := stored_of_reaches hplacing hc
    obtain ⟨r', hr', hby', hkey'⟩ := stored_of_reaches hplacing hc'
    rw [huser, hid] at hkey'
    have hindexed : (replay (Desk.apply texts) s₀ es).orders.Indexed :=
      hplacing.invariant (I := fun s => s.orders.Indexed)
        (fun _ e hi _ => apply_indexed texts e hi) hs.indexed
    have hsame := hindexed.unique hne hr hr' hkey hkey'
    rw [← hsame, hby] at hby'
    exact Option.some.inj hby'
  · rw [hstate]
    refine hfacts.invariant (fun _ _ hi he => apart_step hi he) fun x hx => ?_
    rw [hs.lost] at hx
    cases hx

def takes : Sending where
  broker := "dhan"
  post _ := .ok { success := true, brokerOrderId := "b1" }
  limiter _ := none
  connect _ := true

def marketBuy (userId : String) : ExecutionRequest where
  userId := userId
  broker := "dhan"
  symbol := "RELIANCE"
  side := "BUY"
  quantity := 10
  executionRequestId := "r1"

def sharedId : List (Action DeskEffect DeskReply Work) :=
  .start (.place 0 (marketBuy "u1")) :: List.replicate 22 (.resume 0 (allClear takes)) ++
    .env (.clock (Oms.seconds 7206)) ::
    .start (.place 1 (marketBuy "u1")) :: List.replicate 22 (.resume 1 (allClear takes)) ++
    List.replicate 2 (.resume 0 (allClear takes)) ++ List.replicate 3 (.resume 1 (allClear takes))

def othersRow : OrderRow where
  id := 0
  userId := "u2"
  clientOrderId := "r1"
  broker := "dhan"
  brokerOrderId := "b9"
  createdAt := 0

/-- The later of the two calls is not posted and returns the order of the earlier. -/
theorem onePost_law_two_calls : ∃ es P,
    (system someTexts).Run ⟨{ now := Oms.seconds 7200 }, []⟩ es P ∧
      P.state.lost.map (·.1.order) = [1] ∧
        Legal (Desk.apply someTexts) ReturnsWinner { now := Oms.seconds 7200 } es ∧
          OnePostLaw someTexts { now := Oms.seconds 7200 } es P.state := by
  obtain ⟨es, P, hrun, hlost, hlegal⟩ := System.exists_run (system someTexts)
    ⟨{ now := Oms.seconds 7200 }, []⟩ sharedId (p := fun es P => P.state.lost.map (·.1.order) = [1] ∧
      Legal (Desk.apply someTexts) ReturnsWinner { now := Oms.seconds 7200 } es) (by decide +kernel)
  exact ⟨es, P, hrun, hlost, hlegal, onePost_law ⟨.nil, rfl, rfl⟩ hrun⟩

/-- With an order of another user under the id the later call fails, although the order of
the earlier is there. -/
theorem onePost_shared_id : ∃ es P,
    (system someTexts).Run ⟨{ now := Oms.seconds 7200, orders := [othersRow] }, []⟩ es P ∧
      ¬ Legal (Desk.apply someTexts) ReturnsWinner
        { now := Oms.seconds 7200, orders := [othersRow] } es :=
  System.exists_run (system someTexts) ⟨{ now := Oms.seconds 7200, orders := [othersRow] }, []⟩
    sharedId (by decide +kernel)

end Trademetrix.Execution.Placing
