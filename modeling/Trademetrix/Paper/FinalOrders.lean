import Trademetrix.Backtest.FinalOrders
import Trademetrix.Decimal
import Trademetrix.Paper.Accounts

/-!
# The final orders of the paper broker

The broker as a machine of orders, and what comes of it for both brokers: a run
keeps its final orders exactly when it asks for no change and no cancellation of
one.
-/

namespace Trademetrix.Paper

def PaperOrderStatus.Final (status : PaperOrderStatus) : Prop :=
  status = .filled ∨ status = .rejected ∨ status = .cancelled

instance (status : PaperOrderStatus) : Decidable status.Final := by
  unfold PaperOrderStatus.Final
  infer_instance

namespace PaperBroker

variable {b : PaperBroker} {orderId : String}

def statusOf (b : PaperBroker) (orderId : String) : Option PaperOrderStatus :=
  (b.orders.get orderId).map Entry.status

def Act.request : Act → Option String
  | .modifyOrder orderId _ => some orderId
  | .cancelOrder orderId => some orderId
  | _ => none

def Act.succeeds (b : PaperBroker) : Act → Prop
  | .modifyOrder orderId changes => (b.modifyOrder orderId changes).2.success = true
  | .cancelOrder orderId => (b.cancelOrder orderId).2.success = true
  | _ => True

def orderMachine : EntryMachine PaperBroker Act String PaperOrderStatus where
  step := act
  status := statusOf
  Final := PaperOrderStatus.Final
  request := Act.request
  succeeds := Act.succeeds

theorem nextId_inj {b b' : PaperBroker} {t t' : ℤ} (h : b.nextId t = b'.nextId t') :
    b.orderCounter = b'.orderCounter := by
  have hlist (b : PaperBroker) (t : ℤ) : (b.nextId t).toList =
      "paper_".toList ++ (Nat.toDigits 10 (b.orderCounter + 1) ++ '_' :: (toString t).toList) := by
    simp [nextId]
  have hread (b : PaperBroker) (t : ℤ) :
      (((b.nextId t).toList.drop 6).takeWhile fun c => c ≠ '_') =
        Nat.toDigits 10 (b.orderCounter + 1) := by
    rw [hlist, List.drop_left' (by rfl), List.takeWhile_append_of_pos]
    · simp
    · intro c hc
      simpa using (Text.digits_toDigits (b.orderCounter + 1)).ne (by decide) c hc
  have hdigits : Nat.toDigits 10 (b.orderCounter + 1) = Nat.toDigits 10 (b'.orderCounter + 1) := by
    rw [← hread b t, ← hread b' t', h]
  have hvalue := congrArg (Nat.ofDigitChars 10 · 0) hdigits
  simp only [Nat.ofDigitChars_ten_toDigits] at hvalue
  omega

def Numbered (b : PaperBroker) : Prop :=
  ∀ orderId e, b.orders.get orderId = some e →
    ∃ (b' : PaperBroker) (t : ℤ), b'.orderCounter < b.orderCounter ∧ orderId = b'.nextId t

theorem Numbered.ne {e : Entry} (h : b.Numbered) (hget : b.orders.get orderId = some e) (t : ℤ) :
    orderId ≠ b.nextId t := by
  rintro rfl
  obtain ⟨b', t', hlt, hid⟩ := h _ e hget
  have := nextId_inj hid
  omega

theorem orderCounter_placeOrder (order : Order) (seconds : ℤ) (fill : PaperFill) :
    (b.placeOrder order seconds fill).1.orderCounter = b.orderCounter + 1 := by
  unfold placeOrder
  dsimp only
  split
  · rfl
  · split <;> rfl

theorem get_placeOrder (order : Order) (seconds : ℤ) (fill : PaperFill)
    (hid : orderId ≠ b.nextId seconds) :
    (b.placeOrder order seconds fill).1.orders.get orderId = b.orders.get orderId := by
  obtain ⟨-, -, horders⟩ | ⟨-, -, -, horders⟩ | ⟨-, -, -, horders⟩ :=
    b.placeOrder_cases order seconds fill
  · rw [horders]
  · rw [horders, Dict.get_set, if_neg hid]
  · rw [horders, Dict.get_set, if_neg hid]

theorem get_modifyOrder (changes : Changes) (k : String) :
    (b.modifyOrder orderId changes).1.orders.get k =
      if k = orderId then
        (b.orders.get orderId).map fun e => { e with order := changes.edit e.order }
      else b.orders.get k := by
  unfold modifyOrder
  split
  · next hnone =>
    split
    · next hk => rw [hk, hnone]; rfl
    · rfl
  · next entry hsome =>
    rw [Dict.get_set, hsome]
    rfl

theorem get_cancelOrder (k : String) :
    (b.cancelOrder orderId).1.orders.get k =
      if k = orderId then (b.orders.get orderId).map fun e => { e with status := .cancelled }
      else b.orders.get k := by
  unfold cancelOrder
  split
  · next hnone =>
    split
    · next hk => rw [hk, hnone]; rfl
    · rfl
  · next entry hsome =>
    rw [Dict.get_set, hsome]
    rfl

theorem orderCounter_modifyOrder (changes : Changes) :
    (b.modifyOrder orderId changes).1.orderCounter = b.orderCounter := by
  unfold modifyOrder
  split <;> rfl

theorem orderCounter_cancelOrder : (b.cancelOrder orderId).1.orderCounter = b.orderCounter := by
  unfold cancelOrder
  split <;> rfl

theorem Numbered.mono {b' : PaperBroker} (h : b.Numbered) (hcounter : b.orderCounter ≤ b'.orderCounter)
    (horders : ∀ k e, b'.orders.get k = some e → ∃ e', b.orders.get k = some e') : b'.Numbered := by
  intro k e hget
  obtain ⟨e', hget'⟩ := horders k e hget
  obtain ⟨b₀, t, hlt, hk⟩ := h k e' hget'
  exact ⟨b₀, t, by omega, hk⟩

theorem Numbered.placeOrder (h : b.Numbered) (order : Order) (seconds : ℤ) (fill : PaperFill) :
    (b.placeOrder order seconds fill).1.Numbered := by
  intro k e hget
  rw [orderCounter_placeOrder]
  by_cases hk : k = b.nextId seconds
  · exact ⟨b, seconds, Nat.lt_succ_self _, hk⟩
  · rw [get_placeOrder order seconds fill hk] at hget
    obtain ⟨b₀, t, hlt, hk₀⟩ := h k e hget
    exact ⟨b₀, t, by omega, hk₀⟩

theorem Numbered.act (h : b.Numbered) (a : Act) : (b.act a).Numbered := by
  cases a with
  | placeOrder order seconds fill => exact h.placeOrder order seconds fill
  | modifyOrder orderId changes =>
    refine h.mono (orderCounter_modifyOrder changes).ge fun k e hget => ?_
    rw [PaperBroker.act, get_modifyOrder] at hget
    split at hget
    · next hk =>
      obtain ⟨e', he', -⟩ := Option.map_eq_some_iff.mp hget
      exact ⟨e', hk ▸ he'⟩
    · exact ⟨e, hget⟩
  | cancelOrder orderId =>
    refine h.mono orderCounter_cancelOrder.ge fun k e hget => ?_
    rw [PaperBroker.act, get_cancelOrder] at hget
    split at hget
    · next hk =>
      obtain ⟨e', he', -⟩ := Option.map_eq_some_iff.mp hget
      exact ⟨e', hk ▸ he'⟩
    · exact ⟨e, hget⟩
  | getPositions isOpen jitter => exact h.mono le_rfl fun k e hget => ⟨e, hget⟩

theorem statusOf_eq_some {i : PaperOrderStatus} :
    b.statusOf orderId = some i ↔ ∃ e, b.orders.get orderId = some e ∧ e.status = i := by
  simp [statusOf]

theorem obliges : orderMachine.Obliges Numbered where
  invariant := fun b a h => h.act a
  succeeds := by
    rintro b a k hk ⟨i, hi, -⟩
    obtain ⟨e, hget, -⟩ := statusOf_eq_some.mp hi
    cases a with
    | modifyOrder orderId changes =>
      cases hk
      simp [orderMachine, Act.succeeds, PaperBroker.modifyOrder, hget]
    | cancelOrder orderId =>
      cases hk
      simp [orderMachine, Act.succeeds, PaperBroker.cancelOrder, hget]
    | placeOrder order seconds fill => trivial
    | getPositions isOpen jitter => trivial
  frame := by
    intro b a k i hnumbered hi hfinal hrequest
    obtain ⟨e, hget, rfl⟩ := statusOf_eq_some.mp hi
    refine statusOf_eq_some.mpr ⟨e, ?_, rfl⟩
    cases a with
    | placeOrder order seconds fill =>
      exact (get_placeOrder order seconds fill (hnumbered.ne hget seconds)).trans hget
    | modifyOrder orderId changes =>
      have hne : k ≠ orderId := fun h => hrequest (congrArg some h.symm)
      exact (get_modifyOrder changes k).trans ((if_neg hne).trans hget)
    | cancelOrder orderId =>
      have hne : k ≠ orderId := fun h => hrequest (congrArg some h.symm)
      exact (get_cancelOrder k).trans ((if_neg hne).trans hget)
    | getPositions isOpen jitter => exact hget

end PaperBroker

/-- In both brokers the final orders of a session stay as they are, and requests on them fail
and change nothing, exactly when there are no such requests. -/
theorem final_orders_iff (userId : String) (initialCapital : ℚ) (acts : List PaperBroker.Act)
    (s : Backtest.Setup) (ops : List Backtest.BrokerOp) :
    (Along PaperBroker.act PaperBroker.orderMachine.Finality
        (PaperBroker.opened userId initialCapital) acts ↔
      Along PaperBroker.act PaperBroker.orderMachine.Spares
        (PaperBroker.opened userId initialCapital) acts) ∧
    (Along (Backtest.BrokerOp.on s) s.orderMachine.Finality s.broker ops ↔
      Along (Backtest.BrokerOp.on s) s.orderMachine.Spares s.broker ops) := by
  refine ⟨PaperBroker.obliges.along_iff ?_ acts, (Backtest.obliges s).along_iff ?_ ops⟩
  · rintro orderId e ⟨⟩
  · exact fun _ _ => rfl

def buyOne : Order where
  symbol := "SBIN"
  exchange := .nse
  side := .buy
  orderType := .market
  product := .intraday
  quantity := 1
  createdAt := 0

def filledThenCancelled : List PaperBroker.Act :=
  [.placeOrder buyOne 0 { filledQuantity := 1, filledPrice := 100 }, .cancelOrder "paper_1_0"]

theorem not_final_filledThenCancelled :
    ¬Along PaperBroker.act PaperBroker.orderMachine.Finality (PaperBroker.opened "u" 500000)
        filledThenCancelled ∧
      ¬Along (Backtest.BrokerOp.on Backtest.oneCandle) Backtest.oneCandle.orderMachine.Finality
        Backtest.oneCandle.broker [.candle 0, .place Backtest.buyTen, .cancel 1] := by
  constructor
  · intro h
    have hkept := h.2.1.1 "paper_1_0" .filled (by decide +kernel) (.inl rfl)
    revert hkept
    decide +kernel
  · intro h
    have hkept := h.2.2.1.1 1 .filled (by decide) (.inl rfl)
    revert hkept
    decide

end Trademetrix.Paper
