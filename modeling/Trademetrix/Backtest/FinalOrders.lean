import Trademetrix.Backtest.Accounting
import Trademetrix.Run

/-!
# The final orders of a backtest

The broker as a machine of orders. A candle and a new order leave an order alone
that no longer waits; a change and a cancellation do not look at what they
change.
-/

namespace Trademetrix.Backtest

variable {s : Setup} {b : Broker} {id : ℕ}

/-- What `modify_order` and `cancel_order` answer. -/
structure EditResult where
  success : Bool
  message : String
  status : Option EntryStatus := none
  deriving DecidableEq

namespace Broker

def modifyResult (b : Broker) (id : ℕ) : EditResult :=
  match b.orders.get id with
  | none => { success := false, message := "Order not found" }
  | some entry => { success := true, message := "Order modified", status := some entry.status }

def cancelResult (b : Broker) (id : ℕ) : EditResult :=
  match b.orders.get id with
  | none => { success := false, message := "Order not found" }
  | some _ => { success := true, message := "Order cancelled", status := some .cancelled }

def statusOf (b : Broker) (id : ℕ) : Option EntryStatus := (b.orders.get id).map OrderEntry.status

end Broker

def EntryStatus.Final (status : EntryStatus) : Prop :=
  status = .filled ∨ status = .cancelled ∨ status = .expired

instance (status : EntryStatus) : Decidable status.Final := by
  unfold EntryStatus.Final
  infer_instance

def BrokerOp.request : BrokerOp → Option ℕ
  | .modify id _ => some id
  | .cancel id => some id
  | _ => none

def BrokerOp.succeeds (b : Broker) : BrokerOp → Prop
  | .modify id _ => (b.modifyResult id).success = true
  | .cancel id => (b.cancelResult id).success = true
  | _ => True

def Setup.orderMachine (s : Setup) : EntryMachine Broker BrokerOp ℕ EntryStatus where
  step := BrokerOp.on s
  status := Broker.statusOf
  Final := EntryStatus.Final
  request := BrokerOp.request
  succeeds := BrokerOp.succeeds

namespace Broker

def Numbered (b : Broker) : Prop := ∀ id, b.orderCounter < id → b.orders.get id = none

def KeepsDone (b b' : Broker) : Prop :=
  b'.orderCounter = b.orderCounter ∧
    ∀ id, b.orders.get id = none ∧ b'.orders.get id = none ∨
      ∃ e e', b.orders.get id = some e ∧ b'.orders.get id = some e' ∧
        (e.status ≠ .pending → e' = e)

theorem KeepsDone.refl (b : Broker) : KeepsDone b b := by
  refine ⟨rfl, fun id => ?_⟩
  cases hget : b.orders.get id with
  | none => exact .inl ⟨rfl, rfl⟩
  | some e => exact .inr ⟨e, e, rfl, rfl, fun _ => rfl⟩

theorem KeepsDone.trans {b₁ b₂ b₃ : Broker} (h : KeepsDone b₁ b₂) (h' : KeepsDone b₂ b₃) :
    KeepsDone b₁ b₃ := by
  refine ⟨h'.1.trans h.1, fun id => ?_⟩
  obtain ⟨h1, h2⟩ | ⟨e, e', h1, h2, hkeep⟩ := h.2 id
  · obtain ⟨h3, h4⟩ | ⟨f, f', h3, -, -⟩ := h'.2 id
    · exact .inl ⟨h1, h4⟩
    · rw [h2] at h3
      cases h3
  · obtain ⟨h3, -⟩ | ⟨f, f', h3, h4, hkeep'⟩ := h'.2 id
    · rw [h2] at h3
      cases h3
    · rw [h2] at h3
      cases h3
      refine .inr ⟨e, f', h1, h4, fun hdone => ?_⟩
      rw [hkeep' (by rwa [hkeep hdone]), hkeep hdone]

theorem get_onOrder (f : OrderEntry → OrderEntry) (k : ℕ) :
    (b.onOrder id f).orders.get k = if k = id then (b.orders.get id).map f else b.orders.get k :=
  Dict.get_modify b.orders id k f

theorem KeepsDone.onOrder {b' : Broker} {entry : OrderEntry} (horders : b'.orders = b.orders)
    (hcounter : b'.orderCounter = b.orderCounter) (hget : b.orders.get id = some entry)
    (hpending : entry.status = .pending) (f : OrderEntry → OrderEntry) :
    KeepsDone b (b'.onOrder id f) := by
  refine ⟨hcounter, fun k => ?_⟩
  rw [get_onOrder, horders]
  split
  · next hk =>
    rw [hk, hget]
    exact .inr ⟨entry, f entry, rfl, rfl, fun hdone => absurd hpending hdone⟩
  · cases b.orders.get k with
    | none => exact .inl ⟨rfl, rfl⟩
    | some e => exact .inr ⟨e, e, rfl, rfl, fun _ => rfl⟩

theorem keepsDone_retry (s : Setup) (b : Broker) (id : ℕ) : KeepsDone b (b.retry s id) := by
  unfold retry
  split
  · exact .refl b
  · next entry hget =>
    split
    · exact .refl b
    · next hpending =>
      have hwaits : entry.status = .pending := not_not.mp hpending
      split
      · exact .onOrder rfl rfl hget hwaits _
      · dsimp only
        split
        · exact .onOrder rfl rfl hget hwaits _
        · exact .onOrder rfl rfl hget hwaits _
        · exact ⟨rfl, (KeepsDone.refl b).2⟩

theorem keepsDone_retries (s : Setup) (b : Broker) (ids : List ℕ) :
    KeepsDone b (ids.foldl (retry s) b) := by
  induction ids generalizing b with
  | nil => exact .refl b
  | cons id ids ih => exact (keepsDone_retry s b id).trans (ih _)

theorem keepsDone_onCandle (s : Setup) (b : Broker) (i : ℤ) : KeepsDone b (b.onCandle s i) := by
  have hindex : KeepsDone b { b with index := i } := ⟨rfl, (KeepsDone.refl b).2⟩
  have hretried := hindex.trans (keepsDone_retries s { b with index := i } (b.orders.map Prod.fst))
  unfold onCandle
  dsimp only
  split
  · exact ⟨hretried.1, hretried.2⟩
  · exact hretried

theorem get_placeOrder (order : Order) (hid : id ≠ b.orderCounter + 1) :
    (b.placeOrder s order).2.orders.get id = b.orders.get id := by
  unfold placeOrder
  dsimp only
  split
  · rfl
  · simp [book, Dict.get_set, hid]
  · simp [book, Dict.get_set, hid, applyFill]

theorem orderCounter_placeOrder (order : Order) :
    (b.placeOrder s order).2.orderCounter = b.orderCounter + 1 := by
  unfold placeOrder
  dsimp only
  split <;> rfl

theorem Numbered.ne {e : OrderEntry} (h : b.Numbered) (hget : b.orders.get id = some e) :
    id ≠ b.orderCounter + 1 := by
  rintro rfl
  rw [h _ (Nat.lt_succ_self _)] at hget
  cases hget

theorem Numbered.on (h : b.Numbered) (o : BrokerOp) : (o.on s b).Numbered := by
  intro id hid
  cases o with
  | candle i =>
    obtain ⟨hcounter, hkeep⟩ := keepsDone_onCandle s b i
    have hnone : b.orders.get id = none := h id (by rwa [← hcounter])
    obtain ⟨-, hafter⟩ | ⟨e, e', hsome, -, -⟩ := hkeep id
    · exact hafter
    · rw [hnone] at hsome
      cases hsome
  | place order =>
    have hlt : b.orderCounter + 1 < id := by
      rw [← orderCounter_placeOrder (s := s) order]
      exact hid
    exact (get_placeOrder order hlt.ne').trans (h id (by omega))
  | modify k changes =>
    refine (get_onOrder _ id).trans ?_
    split
    · next hk => rw [← hk, h id hid]; rfl
    · exact h id hid
  | cancel k =>
    refine (get_onOrder _ id).trans ?_
    split
    · next hk => rw [← hk, h id hid]; rfl
    · exact h id hid

theorem statusOf_eq_some {i : EntryStatus} :
    b.statusOf id = some i ↔ ∃ e, b.orders.get id = some e ∧ e.status = i := by
  simp [statusOf]

end Broker

theorem EntryStatus.Final.ne_pending {status : EntryStatus} (h : status.Final) :
    status ≠ .pending := by
  rintro rfl
  exact absurd h (by decide)

theorem obliges (s : Setup) : s.orderMachine.Obliges Broker.Numbered where
  invariant := fun b o h => h.on o
  succeeds := by
    rintro b o k hk ⟨i, hi, -⟩
    obtain ⟨e, hget, -⟩ := Broker.statusOf_eq_some.mp hi
    cases o with
    | modify id changes =>
      cases hk
      simp [Setup.orderMachine, BrokerOp.succeeds, Broker.modifyResult, hget]
    | cancel id =>
      cases hk
      simp [Setup.orderMachine, BrokerOp.succeeds, Broker.cancelResult, hget]
    | candle i => trivial
    | place order => trivial
  frame := by
    intro b o k i hnumbered hi hfinal hrequest
    obtain ⟨e, hget, rfl⟩ := Broker.statusOf_eq_some.mp hi
    refine Broker.statusOf_eq_some.mpr ⟨e, ?_, rfl⟩
    cases o with
    | candle j =>
      obtain ⟨hnone, -⟩ | ⟨f, f', hf, hf', hkeep⟩ := (Broker.keepsDone_onCandle s b j).2 k
      · rw [hnone] at hget
        cases hget
      · rw [hget] at hf
        cases hf
        rw [hkeep (EntryStatus.Final.ne_pending hfinal)] at hf'
        exact hf'
    | place order => exact (Broker.get_placeOrder order (hnumbered.ne hget)).trans hget
    | modify id changes =>
      have hne : k ≠ id := fun h => hrequest (congrArg some h.symm)
      exact (Broker.get_onOrder _ k).trans ((if_neg hne).trans hget)
    | cancel id =>
      have hne : k ≠ id := fun h => hrequest (congrArg some h.symm)
      exact (Broker.get_onOrder _ k).trans ((if_neg hne).trans hget)

end Trademetrix.Backtest
