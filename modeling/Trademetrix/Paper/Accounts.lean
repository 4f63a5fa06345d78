import Mathlib.Algebra.Order.Field.Rat
import Mathlib.Tactic.FieldSimp
import Mathlib.Tactic.Linarith
import Mathlib.Tactic.LinearCombination
import Trademetrix.Paper.Broker

/-!
# A session of the paper broker

What is asked of a connected broker until it connects again: orders that are
placed, changed and cancelled, and reads of the positions, which move their
last prices.
-/

namespace Trademetrix.Paper

open Engine (OrderSide)

namespace PaperPosition

variable (pos : PaperPosition)

def base : ℚ :=
  if 0 < pos.lastPrice then pos.lastPrice
  else if 0 < pos.averageBuyPrice then pos.averageBuyPrice
  else if 0 < pos.averageSellPrice then pos.averageSellPrice
  else 80

def hit : Bool :=
  let sl : ℚ := if 0 < pos.averageBuyPrice then pos.averageBuyPrice * (7 / 10) else 0
  let target : ℚ :=
    if 0 < pos.averageBuyPrice then pos.averageBuyPrice + (pos.averageBuyPrice - sl) * 3 else 0
  (pos.base ≤ sl ∧ 0 < sl) ∨ (target ≤ pos.base ∧ 0 < target)

/-- One pass of the loop of `get_positions`, `jitter` being what is drawn. -/
def requote (isOpen : Bool) (jitter : ℚ) : PaperPosition :=
  if isOpen ∧ ¬pos.hit then pos.mark (Text.round2 (max 5 (pos.base * (1 + jitter)))) else pos

end PaperPosition

namespace PaperBroker

variable (b : PaperBroker)

def getPositions (isOpen : Bool) (jitter : String → ℚ) : PaperBroker :=
  { b with positions := b.positions.map fun p => (p.1, p.2.requote isOpen (jitter p.1)) }

inductive Act
  | placeOrder (order : Order) (seconds : ℤ) (fill : PaperFill)
  | modifyOrder (orderId : String) (changes : Changes)
  | cancelOrder (orderId : String)
  | getPositions (isOpen : Bool) (jitter : String → ℚ)

def act (b : PaperBroker) : Act → PaperBroker
  | .placeOrder order seconds fill => (b.placeOrder order seconds fill).1
  | .modifyOrder orderId changes => (b.modifyOrder orderId changes).1
  | .cancelOrder orderId => (b.cancelOrder orderId).1
  | .getPositions isOpen jitter => b.getPositions isOpen jitter

def opened (userId : String) (initialCapital : ℚ) : PaperBroker :=
  (PaperBroker.new userId initialCapital).connect 0 []

theorem placeOrder_cases (order : Order) (seconds : ℤ) (fill : PaperFill) :
    let placed := (b.placeOrder order seconds fill).1
    let stamped := b.stamp order seconds
    (b.checkMargin order = false ∧ placed.toBook = b.toBook ∧ placed.orders = b.orders) ∨
    (b.checkMargin order = true ∧ fill.filledQuantity ≤ 0 ∧ placed.toBook = b.toBook ∧
      placed.orders = b.orders.set (b.nextId seconds)
        { order := stamped, status := .pending, fills := [] }) ∨
    (b.checkMargin order = true ∧ 0 < fill.filledQuantity ∧
      placed.toBook = b.toBook.record (noteFill stamped fill) fill ∧
      placed.orders = b.orders.set (b.nextId seconds)
        { order := noteFill stamped fill, status := .filled, fills := [fill] }) := by
  intro placed stamped
  have hcheck : ({ b with orderCounter := b.orderCounter + 1 } : PaperBroker).checkMargin stamped =
      b.checkMargin order := rfl
  have hplaced : placed = (b.placeOrder order seconds fill).1 := rfl
  unfold placeOrder at hplaced
  by_cases hmargin : b.checkMargin order = true
  · rw [if_neg (not_not.mpr (hcheck.trans hmargin))] at hplaced
    right
    by_cases hqty : fill.filledQuantity ≤ 0
    · rw [if_pos hqty] at hplaced
      exact .inl ⟨hmargin, hqty, by rw [hplaced], by rw [hplaced]⟩
    · rw [if_neg hqty] at hplaced
      exact .inr ⟨hmargin, not_le.mp hqty, by rw [hplaced], by rw [hplaced]⟩
  · rw [if_pos fun h => hmargin (hcheck.symm.trans h)] at hplaced
    exact .inl ⟨by simpa using hmargin, by rw [hplaced], by rw [hplaced]⟩

variable {b} {orderId : String}

@[simp] theorem toBook_modifyOrder (changes : Changes) :
    (b.modifyOrder orderId changes).1.toBook = b.toBook := by
  unfold modifyOrder
  split <;> rfl

@[simp] theorem toBook_cancelOrder : (b.cancelOrder orderId).1.toBook = b.toBook := by
  unfold cancelOrder
  split <;> rfl

end PaperBroker

end Trademetrix.Paper

/-!
# The paper broker's figures against its fills

What a position and the account are to say is read off the fills alone: what was
paid and taken, and what is held. A position says it while the fills since it was
last flat are on one side, or are bought and sold at one average.
-/

namespace Trademetrix.Paper

open Engine (OrderSide)

structure Trade where
  symbol : String
  side : OrderSide
  quantity : ℤ
  price : ℚ
  deriving DecidableEq

@[ext] structure Tally where
  bought : ℤ := 0
  sold : ℤ := 0
  paid : ℚ := 0
  taken : ℚ := 0
  deriving DecidableEq

namespace Tally

def add (t : Tally) (trade : Trade) : Tally :=
  match trade.side with
  | .buy => { t with bought := t.bought + trade.quantity, paid := t.paid + trade.quantity * trade.price }
  | .sell => { t with sold := t.sold + trade.quantity, taken := t.taken + trade.quantity * trade.price }

def net (t : Tally) : ℤ := t.bought - t.sold

def settle (t : Tally) : Tally := if t.net = 0 then {} else t

def Even (t : Tally) : Prop := t.bought = 0 ∨ t.sold = 0 ∨ t.paid / t.bought = t.taken / t.sold

instance (t : Tally) : Decidable t.Even := by unfold Even; infer_instance

end Tally

def tally (trades : List Trade) : Tally := trades.foldl Tally.add {}

def onSymbol (symbol : String) (trades : List Trade) : List Trade :=
  trades.filter fun trade => trade.symbol = symbol

def sinceFlat (trades : List Trade) : Tally :=
  trades.foldl (fun t trade => (t.add trade).settle) {}

theorem tally_concat (trades : List Trade) (trade : Trade) :
    tally (trades ++ [trade]) = (tally trades).add trade := by
  simp [tally]

theorem sinceFlat_concat (trades : List Trade) (trade : Trade) :
    sinceFlat (trades ++ [trade]) = ((sinceFlat trades).add trade).settle := by
  simp [sinceFlat]

theorem onSymbol_concat_self (trades : List Trade) (trade : Trade) :
    onSymbol trade.symbol (trades ++ [trade]) = onSymbol trade.symbol trades ++ [trade] := by
  simp [onSymbol]

theorem onSymbol_concat_ne {symbol : String} (trades : List Trade) (trade : Trade)
    (h : trade.symbol ≠ symbol) : onSymbol symbol (trades ++ [trade]) = onSymbol symbol trades := by
  simp [onSymbol, h]

theorem net_add (t : Tally) (trade : Trade) :
    (t.add trade).net =
      t.net + match trade.side with | .buy => trade.quantity | .sell => -trade.quantity := by
  unfold Tally.net Tally.add
  cases trade.side <;> dsimp only <;> ring

theorem net_settle (t : Tally) : t.settle.net = t.net := by
  unfold Tally.settle
  split
  · next h => exact h.symm
  · rfl

theorem net_sinceFlat (trades : List Trade) : (sinceFlat trades).net = (tally trades).net := by
  induction trades using List.reverseRecOn with
  | nil => rfl
  | append_singleton trades trade ih =>
    rw [sinceFlat_concat, tally_concat, net_settle, net_add, net_add, ih]

namespace PaperPosition

variable {pos : PaperPosition} {side : OrderSide} {qty : ℤ} {price : ℚ}

def fill (pos : PaperPosition) (side : OrderSide) (qty : ℤ) (price : ℚ) : PaperPosition :=
  ((pos.fillSide side qty price).flatten).mark price

def cash (pos : PaperPosition) : ℚ :=
  pos.realisedPnl + pos.averageSellPrice * pos.sellQuantity - pos.averageBuyPrice * pos.buyQuantity

def counted (pos : PaperPosition) : Tally where
  bought := pos.buyQuantity
  sold := pos.sellQuantity
  paid := pos.averageBuyPrice * pos.buyQuantity
  taken := pos.averageSellPrice * pos.sellQuantity

structure Sound (pos : PaperPosition) : Prop where
  bought : 0 ≤ pos.buyQuantity
  sold : 0 ≤ pos.sellQuantity
  net : pos.quantity = pos.buyQuantity - pos.sellQuantity
  flat : pos.quantity = 0 → pos.buyQuantity = 0

def Marked (pos : PaperPosition) : Prop := pos.mark pos.lastPrice = pos

@[simp] theorem counted_mark : (pos.mark price).counted = pos.counted := rfl

@[simp] theorem cash_mark : (pos.mark price).cash = pos.cash := rfl

@[simp] theorem quantity_mark : (pos.mark price).quantity = pos.quantity := rfl

theorem cash_eq (pos : PaperPosition) :
    pos.cash = pos.realisedPnl + pos.counted.taken - pos.counted.paid := rfl

theorem counted_fillSide (hb : 0 ≤ pos.buyQuantity) (hs : 0 ≤ pos.sellQuantity) (hqty : 0 < qty)
    (symbol : String) :
    (pos.fillSide side qty price).counted = pos.counted.add ⟨symbol, side, qty, price⟩ := by
  cases side with
  | buy =>
    have hmax : max (pos.buyQuantity + qty) 1 = pos.buyQuantity + qty := by omega
    have hpos : ((pos.buyQuantity + qty : ℤ) : ℚ) ≠ 0 := by
      have : pos.buyQuantity + qty ≠ 0 := by omega
      exact_mod_cast this
    simp only [fillSide, counted, Tally.add, hmax]
    rw [div_mul_cancel₀ _ hpos, mul_comm price]
  | sell =>
    have hmax : max (pos.sellQuantity + qty) 1 = pos.sellQuantity + qty := by omega
    have hpos : ((pos.sellQuantity + qty : ℤ) : ℚ) ≠ 0 := by
      have : pos.sellQuantity + qty ≠ 0 := by omega
      exact_mod_cast this
    simp only [fillSide, counted, Tally.add, hmax]
    rw [div_mul_cancel₀ _ hpos, mul_comm price]

theorem realisedPnl_fillSide : (pos.fillSide side qty price).realisedPnl = pos.realisedPnl := by
  cases side <;> rfl

theorem quantity_fillSide :
    (pos.fillSide side qty price).quantity =
      (pos.fillSide side qty price).buyQuantity - (pos.fillSide side qty price).sellQuantity := by
  cases side <;> rfl

theorem cash_flatten (h : pos.quantity = pos.buyQuantity - pos.sellQuantity) :
    pos.flatten.cash = pos.cash := by
  unfold flatten
  split
  · next hflat =>
    have heq : pos.buyQuantity = pos.sellQuantity := by omega
    simp only [cash, heq, min_self]
    push_cast
    ring
  · rfl

theorem counted_flatten (h : pos.quantity = pos.buyQuantity - pos.sellQuantity) :
    pos.flatten.counted = pos.counted.settle := by
  unfold flatten Tally.settle Tally.net
  have hiff : pos.counted.bought - pos.counted.sold = 0 ↔ pos.quantity = 0 := by
    simp only [counted]
    omega
  by_cases hflat : pos.quantity = 0
  · rw [if_pos hflat, if_pos (hiff.mpr hflat)]
    simp [counted]
  · rw [if_neg hflat, if_neg (mt hiff.mp hflat)]

theorem counted_fill (h : pos.Sound) (hqty : 0 < qty) (symbol : String) :
    (pos.fill side qty price).counted = (pos.counted.add ⟨symbol, side, qty, price⟩).settle := by
  rw [fill, counted_mark, counted_flatten quantity_fillSide, counted_fillSide h.bought h.sold hqty]

theorem cash_fill (h : pos.Sound) (hqty : 0 < qty) :
    (pos.fill side qty price).cash =
      pos.cash + match side with | .buy => -(qty * price) | .sell => qty * price := by
  rw [fill, cash_mark, cash_flatten quantity_fillSide, cash_eq, cash_eq, realisedPnl_fillSide,
    counted_fillSide h.bought h.sold hqty ""]
  cases side <;> simp only [Tally.add] <;> ring

theorem Sound.mark (h : pos.Sound) (p : ℚ) : (pos.mark p).Sound where
  bought := h.bought
  sold := h.sold
  net := h.net
  flat := h.flat

theorem marked_mark (p : ℚ) : (pos.mark p).Marked := rfl

theorem Sound.flatten (hb : 0 ≤ pos.buyQuantity) (hs : 0 ≤ pos.sellQuantity)
    (hnet : pos.quantity = pos.buyQuantity - pos.sellQuantity) : pos.flatten.Sound := by
  unfold PaperPosition.flatten
  split
  · next hflat => exact ⟨le_rfl, le_rfl, hflat, fun _ => rfl⟩
  · next hheld => exact ⟨hb, hs, hnet, fun h => absurd h hheld⟩

theorem Sound.fill (h : pos.Sound) (hqty : 0 < qty) : (pos.fill side qty price).Sound := by
  have hb := h.bought
  have hs := h.sold
  refine (Sound.flatten ?_ ?_ quantity_fillSide).mark price
  all_goals
    cases side <;> simp only [fillSide] <;> omega

theorem Sound.requote (h : pos.Sound) (isOpen : Bool) (jitter : ℚ) :
    (pos.requote isOpen jitter).Sound := by
  unfold PaperPosition.requote
  split
  · exact h.mark _
  · exact h

theorem Marked.requote (h : pos.Marked) (isOpen : Bool) (jitter : ℚ) :
    (pos.requote isOpen jitter).Marked := by
  unfold PaperPosition.requote
  split
  · exact marked_mark _
  · exact h

theorem counted_requote (isOpen : Bool) (jitter : ℚ) :
    (pos.requote isOpen jitter).counted = pos.counted := by
  unfold requote
  split <;> rfl

theorem realisedPnl_requote (isOpen : Bool) (jitter : ℚ) :
    (pos.requote isOpen jitter).realisedPnl = pos.realisedPnl := by
  unfold requote
  split <;> rfl

theorem sound_new (symbol product : String) : Sound { symbol := symbol, product := product } :=
  ⟨le_rfl, le_rfl, rfl, fun _ => rfl⟩

theorem unrealisedPnl_of_marked (h : pos.Marked) :
    pos.unrealisedPnl =
      if 0 < pos.quantity then pos.quantity * (pos.lastPrice - pos.averageBuyPrice)
      else if pos.quantity < 0 then |pos.quantity| * (pos.averageSellPrice - pos.lastPrice)
      else 0 :=
  (congrArg PaperPosition.unrealisedPnl h).symm

theorem pnl_iff_even (h : pos.Sound) (hm : pos.Marked) :
    pos.realisedPnl + pos.unrealisedPnl = pos.cash + pos.quantity * pos.lastPrice ↔
      pos.counted.Even := by
  have hb := h.bought
  have hs := h.sold
  have hnet := h.net
  have hnetq : (pos.quantity : ℚ) = pos.buyQuantity - pos.sellQuantity := by
    rw [hnet]
    push_cast
    rfl
  rw [unrealisedPnl_of_marked hm]
  unfold Tally.Even
  simp only [counted, cash]
  by_cases hlong : 0 < pos.quantity
  · have hbq : (pos.buyQuantity : ℚ) ≠ 0 := by
      have : pos.buyQuantity ≠ 0 := by omega
      exact_mod_cast this
    rw [if_pos hlong, mul_div_cancel_right₀ _ hbq, hnetq]
    by_cases hsq : pos.sellQuantity = 0
    · simp only [hsq, Int.cast_zero]
      refine iff_of_true (by ring) (.inr (.inl trivial))
    · have hsq' : (pos.sellQuantity : ℚ) ≠ 0 := by exact_mod_cast hsq
      rw [mul_div_cancel_right₀ _ hsq']
      constructor
      · intro heq
        refine .inr (.inr (mul_right_cancel₀ hsq' ?_))
        linear_combination heq
      · rintro (h0 | h0 | heq)
        · omega
        · exact absurd h0 hsq
        · rw [heq]
          ring
  · rw [if_neg hlong]
    by_cases hshort : pos.quantity < 0
    · have hsq : (pos.sellQuantity : ℚ) ≠ 0 := by
        have : pos.sellQuantity ≠ 0 := by omega
        exact_mod_cast this
      rw [if_pos hshort, mul_div_cancel_right₀ _ hsq]
      have habs : ((|pos.quantity| : ℤ) : ℚ) = pos.sellQuantity - pos.buyQuantity := by
        rw [abs_of_neg hshort, hnet]
        push_cast
        ring
      rw [habs, hnetq]
      by_cases hbq : pos.buyQuantity = 0
      · simp only [hbq, Int.cast_zero]
        refine iff_of_true (by ring) (.inl trivial)
      · have hbq' : (pos.buyQuantity : ℚ) ≠ 0 := by exact_mod_cast hbq
        rw [mul_div_cancel_right₀ _ hbq']
        constructor
        · intro heq
          refine .inr (.inr (mul_right_cancel₀ hbq' ?_))
          linear_combination heq
        · rintro (h0 | h0 | heq)
          · exact absurd h0 hbq
          · omega
          · rw [heq]
            ring
    · have hflat : pos.quantity = 0 := by omega
      have hbought : pos.buyQuantity = 0 := h.flat hflat
      have hsold : pos.sellQuantity = 0 := by omega
      rw [if_neg hshort]
      simp only [hflat, hbought, hsold, Int.cast_zero]
      refine iff_of_true (by ring) (.inl trivial)

theorem net_counted (h : pos.Sound) : pos.counted.net = pos.quantity := h.net.symm

structure Tells (pos : PaperPosition) (trades : List Trade) : Prop extends Sound pos where
  marked : pos.Marked
  counted : pos.counted = sinceFlat trades
  cash : pos.cash = (tally trades).taken - (tally trades).paid

namespace Tells

variable {trades : List Trade}

theorem new (symbol product : String) : Tells { symbol := symbol, product := product } [] where
  toSound := sound_new symbol product
  marked := by simp [Marked, PaperPosition.mark]
  counted := by simp [PaperPosition.counted, sinceFlat]
  cash := by simp [PaperPosition.cash, tally]

theorem fill (h : pos.Tells trades) (trade : Trade) (hqty : 0 < trade.quantity) :
    (pos.fill trade.side trade.quantity trade.price).Tells (trades ++ [trade]) where
  toSound := h.toSound.fill hqty
  marked := marked_mark _
  counted := by
    rw [counted_fill h.toSound hqty trade.symbol, sinceFlat_concat, h.counted]
  cash := by
    rw [cash_fill h.toSound hqty, tally_concat, h.cash]
    unfold Tally.add
    cases trade.side <;> dsimp only <;> ring

theorem requote (h : pos.Tells trades) (isOpen : Bool) (jitter : ℚ) :
    (pos.requote isOpen jitter).Tells trades where
  toSound := h.toSound.requote isOpen jitter
  marked := h.marked.requote isOpen jitter
  counted := by rw [counted_requote, h.counted]
  cash := by rw [cash_eq, realisedPnl_requote, counted_requote, ← cash_eq, h.cash]

theorem quantity (h : pos.Tells trades) : pos.quantity = (tally trades).net := by
  rw [← net_counted h.toSound, h.counted, net_sinceFlat]

theorem pnl_iff (h : pos.Tells trades) :
    pos.realisedPnl + pos.unrealisedPnl =
        (tally trades).taken - (tally trades).paid + (tally trades).net * pos.lastPrice ↔
      (sinceFlat trades).Even := by
  rw [← h.cash, ← h.quantity, ← h.counted]
  exact pnl_iff_even h.toSound h.marked

end Tells

end PaperPosition

/-- The book that the fills make: a position for each symbol, and an account that has used the
price of each buy. -/
structure Book.Follows (b : Book) (trades : List Trade) : Prop where
  nodup : (b.positions.map Prod.fst).Nodup
  held : ∀ symbol pos, b.positions.get symbol = some pos → pos.Tells (onSymbol symbol trades)
  fresh : ∀ symbol, b.positions.get symbol = none → onSymbol symbol trades = []
  total : (b.positions.values.map PaperPosition.cash).sum = (tally trades).taken - (tally trades).paid
  capital : b.account.totalMargin = b.account.initialCapital
  used : b.account.usedMargin = (tally trades).paid
  available : b.account.availableMargin = b.account.totalMargin - b.account.usedMargin

structure Book.Reconciles (b : Book) (trades : List Trade) : Prop where
  pnl : ∀ symbol pos, b.positions.get symbol = some pos →
    pos.realisedPnl + pos.unrealisedPnl =
      (tally (onSymbol symbol trades)).taken - (tally (onSymbol symbol trades)).paid +
        (tally (onSymbol symbol trades)).net * pos.lastPrice
  margin : (∀ pos ∈ b.positions.values, pos.quantity = 0) →
    b.account.usedMargin = 0 ∧
      b.account.availableMargin =
        b.account.initialCapital + (b.positions.values.map PaperPosition.realisedPnl).sum

structure Evened (trades : List Trade) : Prop where
  even : ∀ symbol, (sinceFlat (onSymbol symbol trades)).Even
  margin : (∀ symbol, (tally (onSymbol symbol trades)).net = 0) →
    (tally trades).paid = 0 ∧ (tally trades).taken = 0

namespace Book.Follows

variable {b : Book} {trades : List Trade}

theorem of_mem (h : b.Follows trades) {pos : PaperPosition} (hpos : pos ∈ b.positions.values) :
    ∃ symbol, pos.Tells (onSymbol symbol trades) := by
  obtain ⟨⟨symbol, v⟩, hmem, rfl⟩ := List.mem_map.mp hpos
  exact ⟨symbol, h.held symbol v (Dict.get_of_mem h.nodup hmem)⟩

theorem flat_iff (h : b.Follows trades) :
    (∀ pos ∈ b.positions.values, pos.quantity = 0) ↔
      ∀ symbol, (tally (onSymbol symbol trades)).net = 0 := by
  constructor
  · intro hflat symbol
    cases hget : b.positions.get symbol with
    | none =>
      rw [h.fresh symbol hget]
      rfl
    | some pos =>
      rw [← (h.held symbol pos hget).quantity]
      exact hflat pos (List.mem_map_of_mem (Dict.mem_of_get hget))
  · intro hflat pos hpos
    obtain ⟨symbol, htells⟩ := h.of_mem hpos
    rw [htells.quantity]
    exact hflat symbol

theorem realised (h : b.Follows trades) (hflat : ∀ pos ∈ b.positions.values, pos.quantity = 0) :
    (b.positions.values.map PaperPosition.realisedPnl).sum =
      (tally trades).taken - (tally trades).paid := by
  rw [← h.total]
  refine congrArg List.sum (List.map_congr_left fun pos hpos => ?_)
  obtain ⟨symbol, htells⟩ := h.of_mem hpos
  have hbought : pos.buyQuantity = 0 := htells.flat (hflat pos hpos)
  have hsold : pos.sellQuantity = 0 := by
    have hnet := htells.net
    have := hflat pos hpos
    omega
  simp [PaperPosition.cash, hbought, hsold]

theorem margin_iff (h : b.Follows trades) (hflat : ∀ pos ∈ b.positions.values, pos.quantity = 0) :
    (b.account.usedMargin = 0 ∧ b.account.availableMargin =
      b.account.initialCapital + (b.positions.values.map PaperPosition.realisedPnl).sum) ↔
    (tally trades).paid = 0 ∧ (tally trades).taken = 0 := by
  rw [h.available, h.realised hflat, h.capital, h.used]
  constructor
  · rintro ⟨hpaid, htaken⟩
    exact ⟨hpaid, by linarith⟩
  · rintro ⟨hpaid, htaken⟩
    exact ⟨hpaid, by linarith⟩

theorem evened_iff (h : b.Follows trades) : b.Reconciles trades ↔ Evened trades := by
  constructor
  · intro hrec
    refine ⟨fun symbol => ?_, fun hflat => ?_⟩
    · cases hget : b.positions.get symbol with
      | none =>
        rw [h.fresh symbol hget]
        exact .inl rfl
      | some pos => exact (h.held symbol pos hget).pnl_iff.mp (hrec.pnl symbol pos hget)
    · have hheld := h.flat_iff.mpr hflat
      exact (h.margin_iff hheld).mp (hrec.margin hheld)
  · intro heven
    exact ⟨fun symbol pos hget => (h.held symbol pos hget).pnl_iff.mpr (heven.even symbol),
      fun hflat => (h.margin_iff hflat).mpr (heven.margin (h.flat_iff.mp hflat))⟩

theorem opened (userId : String) (initialCapital : ℚ) :
    (PaperBroker.opened userId initialCapital).toBook.Follows [] where
  nodup := List.nodup_nil
  held := by rintro symbol pos ⟨⟩
  fresh := fun _ _ => rfl
  total := (sub_self (0 : ℚ)).symm
  capital := rfl
  used := rfl
  available := by simp [PaperBroker.opened, PaperBroker.connect, PaperBroker.resetAccount,
    PaperBroker.restorePositions, freshAccount]

theorem landing (h : b.Follows trades) (symbol product : String) :
    ((b.positions.get symbol).getD { symbol := symbol, product := product }).Tells
      (onSymbol symbol trades) := by
  cases hget : b.positions.get symbol with
  | none =>
    rw [h.fresh symbol hget]
    exact .new symbol product
  | some pos => exact h.held symbol pos hget

theorem record (h : b.Follows trades) (order : Order) (fill : PaperFill)
    (hqty : 0 < fill.filledQuantity) :
    (b.record order fill).Follows
      (trades ++ [⟨order.symbol, order.side, fill.filledQuantity, fill.filledPrice⟩]) := by
  set trade : Trade := ⟨order.symbol, order.side, fill.filledQuantity, fill.filledPrice⟩ with htrade
  have hland := h.landing order.symbol order.product.value
  set pos := (b.positions.get order.symbol).getD
    { symbol := order.symbol, product := order.product.value } with hpos
  have hfilled := hland.fill trade hqty
  have hset : (b.record order fill).positions =
      b.positions.set order.symbol (pos.fill trade.side trade.quantity trade.price) := rfl
  have hother {symbol : String} (hne : symbol ≠ order.symbol) :
      onSymbol symbol (trades ++ [trade]) = onSymbol symbol trades :=
    onSymbol_concat_ne trades trade (Ne.symm hne)
  refine ⟨?_, fun symbol v hget => ?_, fun symbol hget => ?_, ?_, ?_, ?_, ?_⟩
  · rw [hset]
    exact Dict.nodup_keys_set h.nodup _ _
  · rw [hset, Dict.get_set] at hget
    split at hget
    · next heq =>
      cases hget
      rw [heq]
      exact (onSymbol_concat_self trades trade).symm ▸ hfilled
    · next hne =>
      rw [hother hne]
      exact h.held symbol v hget
  · rw [hset, Dict.get_set] at hget
    split at hget
    · cases hget
    · next hne =>
      rw [hother hne]
      exact h.fresh symbol hget
  · have hbefore : ((b.positions.get order.symbol).map PaperPosition.cash).getD 0 = pos.cash := by
      rw [hpos]
      cases b.positions.get order.symbol <;> simp [PaperPosition.cash]
    rw [hset, Dict.sum_set h.nodup, h.total, hbefore, tally_concat,
      PaperPosition.cash_fill hland.toSound hqty]
    unfold Tally.add
    cases trade.side <;> dsimp only <;> ring
  · have hcapital := h.capital
    simp only [Book.record, Book.updateAccount]
    cases order.side <;> exact hcapital
  · have hused := h.used
    rw [tally_concat, htrade]
    simp only [Book.record, Book.updateAccount, Tally.add]
    cases order.side <;> simp [hused]
  · rfl

theorem getPositions {b : PaperBroker} (h : b.toBook.Follows trades) (isOpen : Bool)
    (jitter : String → ℚ) : (b.getPositions isOpen jitter).toBook.Follows trades := by
  have hget (symbol : String) : (b.getPositions isOpen jitter).positions.get symbol =
      (b.positions.get symbol).map fun pos => pos.requote isOpen (jitter symbol) :=
    Dict.get_map b.positions (fun symbol pos => pos.requote isOpen (jitter symbol)) symbol
  refine ⟨?_, fun symbol v hv => ?_, fun symbol hv => ?_, ?_, h.capital, h.used, h.available⟩
  · simpa [PaperBroker.getPositions, List.map_map, Function.comp_def] using h.nodup
  · rw [hget] at hv
    obtain ⟨pos, hpos, rfl⟩ := Option.map_eq_some_iff.mp hv
    exact (h.held symbol pos hpos).requote isOpen (jitter symbol)
  · rw [hget, Option.map_eq_none_iff] at hv
    exact h.fresh symbol hv
  · rw [← h.total]
    simp only [PaperBroker.getPositions, Dict.values, List.map_map]
    refine congrArg List.sum (List.map_congr_left fun p _ => ?_)
    simp only [Function.comp_apply, PaperPosition.cash_eq, PaperPosition.realisedPnl_requote,
      PaperPosition.counted_requote]

end Book.Follows

namespace PaperBroker

def traded (b : PaperBroker) : Act → List Trade
  | .placeOrder order _ fill =>
    if b.checkMargin order ∧ 0 < fill.filledQuantity then
      [⟨order.symbol, order.side, fill.filledQuantity, fill.filledPrice⟩]
    else []
  | _ => []

def trades : PaperBroker → List Act → List Trade
  | _, [] => []
  | b, a :: as => b.traded a ++ trades (b.act a) as

variable {b : PaperBroker} {ts : List Trade}

theorem act_placeOrder (order : Order) (seconds : ℤ) (fill : PaperFill) :
    b.act (.placeOrder order seconds fill) = (b.placeOrder order seconds fill).1 := rfl

theorem follows_placeOrder (h : b.toBook.Follows ts) (order : Order) (seconds : ℤ)
    (fill : PaperFill) :
    (b.act (.placeOrder order seconds fill)).toBook.Follows
      (ts ++ b.traded (.placeOrder order seconds fill)) := by
  rw [act_placeOrder]
  obtain ⟨hmargin, hbook, -⟩ | ⟨hmargin, hqty, hbook, -⟩ | ⟨hmargin, hqty, hbook, -⟩ :=
    b.placeOrder_cases order seconds fill
  · rw [hbook]
    simpa [traded, hmargin] using h
  · rw [hbook]
    simpa [traded, hqty.not_gt] using h
  · rw [hbook]
    simp only [traded, hmargin, hqty, and_self, if_true]
    exact h.record (noteFill (b.stamp order seconds) fill) fill hqty

theorem follows_act (h : b.toBook.Follows ts) (a : Act) :
    (b.act a).toBook.Follows (ts ++ b.traded a) := by
  cases a with
  | placeOrder order seconds fill => exact follows_placeOrder h order seconds fill
  | modifyOrder orderId changes => simpa [act, traded] using h
  | cancelOrder orderId => simpa [act, traded] using h
  | getPositions isOpen jitter => simpa [act, traded] using h.getPositions isOpen jitter

theorem follows_run (h : b.toBook.Follows ts) (acts : List Act) :
    (acts.foldl act b).toBook.Follows (ts ++ b.trades acts) := by
  induction acts generalizing b ts with
  | nil => simpa [trades] using h
  | cons a as ih =>
    have hrest := ih (follows_act h a)
    rwa [List.append_assoc] at hrest

/-- The figures of a session are those of its fills exactly when what each symbol has been bought
and sold for since it was last flat is even, and a book that is flat has paid and taken
nothing. -/
theorem reconciles_iff (userId : String) (initialCapital : ℚ) (acts : List Act) :
    (acts.foldl act (opened userId initialCapital)).toBook.Reconciles
        ((opened userId initialCapital).trades acts) ↔
      Evened ((opened userId initialCapital).trades acts) := by
  have hrun := follows_run (Book.Follows.opened userId initialCapital) acts
  rw [List.nil_append] at hrun
  exact hrun.evened_iff

def closing (quantity : ℤ) : List Act :=
  let order (side : OrderSide) (quantity : ℤ) : Order :=
    { symbol := "SBIN", exchange := .nse, side := side, orderType := .market, product := .intraday
      quantity := quantity, createdAt := 0 }
  [.placeOrder (order .buy 10) 0 { filledQuantity := 10, filledPrice := 100 },
    .placeOrder (order .sell quantity) 1 { filledQuantity := quantity, filledPrice := 110 }]

/-- Of four that are sold the forty are lost, and all ten of them leave the thousand used. -/
theorem not_reconciles_closing :
    ¬((closing 4).foldl act (opened "u" 500000)).toBook.Reconciles
        ((opened "u" 500000).trades (closing 4)) ∧
      ¬((closing 10).foldl act (opened "u" 500000)).toBook.Reconciles
        ((opened "u" 500000).trades (closing 10)) := by
  constructor
  · intro h
    have hpnl := h.pnl "SBIN"
      { symbol := "SBIN", quantity := 6, buyQuantity := 10, sellQuantity := 4, averageBuyPrice := 100
        averageSellPrice := 110, unrealisedPnl := 60, m2m := 60, lastPrice := 110 }
      (by decide +kernel)
    revert hpnl
    decide +kernel
  · intro h
    have hused := (h.margin (by decide +kernel)).1
    revert hused
    decide +kernel

end PaperBroker

end Trademetrix.Paper
