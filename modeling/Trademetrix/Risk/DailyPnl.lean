import Mathlib.Logic.Function.Basic
import Mathlib.Tactic.Ring
import Trademetrix.ExecutionEngine.Fifo
import Trademetrix.Run

/-!
# The profit of a day

`compute_daily_pnl_fifo` matches a sell with the buys of the day and then with all earlier
buys of the symbol, each time anew. The lot ledger takes every fill once, in the order of time.
-/

namespace Trademetrix.DailyPnl

open Engine (OrderSide)
open ExecutionEngine (FifoLots Lot Positive closeLots closeLots_eq openLot positive_openLot unitsOf)

structure OrderRow where
  symbol : String
  side : OrderSide
  quantity : Option ℤ
  filledQuantity : Option ℤ
  averagePrice : Option ℚ
  deriving DecidableEq

namespace OrderRow

variable (o : OrderRow)

def filled : ℤ := o.filledQuantity.getD (o.quantity.getD 0)

def price : ℚ := o.averagePrice.getD 0

/-- `filled_quantity or quantity or 0`, which passes over a 0. -/
def filledOr : ℤ :=
  match o.filledQuantity with
  | some q => if q = 0 then o.quantity.getD 0 else q
  | none => o.quantity.getD 0

end OrderRow

section Day

/-- The loop of a sell over the buys of the day: the buys left, what is left of the sell and the
profit. A buy that is not used up has used up the sell. -/
def matchQueue (price : ℚ) : List Lot → ℤ → ℚ → List Lot × ℤ × ℚ
  | [], rem, pnl => ([], rem, pnl)
  | lot :: lots, rem, pnl =>
    if rem ≤ 0 then (lot :: lots, rem, pnl)
    else
      let used := min rem lot.quantity
      let left := lot.quantity - used
      let pnl := pnl + used * (price - lot.price)
      if (left : ℚ) ≤ 1 / 10 ^ 8 then matchQueue price lots (rem - used) pnl
      else ({ lot with quantity := left } :: lots, rem - used, pnl)

def scanHistory (price : ℚ) : List OrderRow → ℤ → ℚ → ℤ × ℚ
  | [], rem, pnl => (rem, pnl)
  | h :: hs, rem, pnl =>
    if rem ≤ 0 then (rem, pnl)
    else if 0 < h.filledOr then
      let used := min rem h.filledOr
      scanHistory price hs (rem - used) (pnl + used * (price - h.price))
    else scanHistory price hs rem pnl

/-- `buy_queue` and `pnl`. -/
structure Day where
  buyQueue : String → List Lot := fun _ => []
  pnl : ℚ := 0

def Day.fill (historical : String → List OrderRow) (d : Day) (o : OrderRow) : Day :=
  if o.filled ≤ 0 then d
  else
    match o.side with
    | .buy =>
      { d with buyQueue :=
          Function.update d.buyQueue o.symbol (d.buyQueue o.symbol ++ [⟨o.filled, o.price⟩]) }
    | .sell =>
      let (queue, rem, pnl) := matchQueue o.price (d.buyQueue o.symbol) o.filled d.pnl
      { buyQueue := Function.update d.buyQueue o.symbol queue
        pnl := if 0 < rem then (scanHistory o.price (historical o.symbol) rem pnl).2 else pnl }

def sellSymbols (filled : List OrderRow) : List String :=
  (filled.filter fun o => o.side = .sell).map OrderRow.symbol

def historical (filled : List OrderRow) (reply : Option (List OrderRow)) (symbol : String) :
    List OrderRow :=
  if sellSymbols filled = [] then [] else (reply.getD []).filter fun h => h.symbol = symbol

/-- `compute_daily_pnl_fifo` on the replies of its two queries; a query that fails gives none. -/
def computeDailyPnlFifo (filled hist : Option (List OrderRow)) : ℚ :=
  ((filled.getD []).foldl (Day.fill (historical (filled.getD []) hist)) {}).pnl

def earlierBuys (past today : List OrderRow) : List OrderRow :=
  past.filter fun h => h.side = .buy ∧ h.symbol ∈ sellSymbols today

end Day

section Ledger

/-- `FifoLots.apply` without its rounding. -/
def applyExact (fifo : FifoLots) (o : OrderRow) : ℚ × FifoLots :=
  if o.filled ≤ 0 then (0, fifo)
  else
    match o.side with
    | .buy =>
      let (shorts, rem, realized) :=
        closeLots (fun opened => opened - o.price) fifo.shorts o.filled 0
      (realized, { longs := openLot fifo.longs rem o.price, shorts := shorts })
    | .sell =>
      let (longs, rem, realized) :=
        closeLots (fun opened => o.price - opened) fifo.longs o.filled 0
      (realized, { longs := longs, shorts := openLot fifo.shorts rem o.price })

theorem apply_eq_exact (fifo : FifoLots) (o : OrderRow) :
    fifo.apply o.side.value o.filled o.price =
      .ok (Text.round2 (applyExact fifo o).1, (applyExact fifo o).2) := by
  unfold applyExact
  by_cases hqty : o.filled ≤ 0
  · have hzero : Text.round2 0 = 0 := by decide +kernel
    rw [if_pos hqty, FifoLots.apply, if_pos hqty, hzero]
  · rw [if_neg hqty]
    cases hside : o.side with
    | buy => exact fifo.apply_buy (not_le.mp hqty) o.price
    | sell => exact fifo.apply_sell (not_le.mp hqty) o.price

abbrev Ledger := String → FifoLots

def Ledger.fill (l : Ledger) (o : OrderRow) : Ledger :=
  Function.update l o.symbol (applyExact (l o.symbol) o).2

def realized : Ledger → List OrderRow → List ℚ
  | _, [] => []
  | l, o :: os => (applyExact (l o.symbol) o).1 :: realized (l.fill o) os

def realizedToday (past today : List OrderRow) : ℚ :=
  (realized (past.foldl Ledger.fill fun _ => {}) today).sum

end Ledger

section Matching

variable {price pnl : ℚ} {lots : List Lot} {rem : ℤ} {hs : List OrderRow} {o : OrderRow}

theorem le_eps_iff_le (z : ℤ) : (z : ℚ) ≤ 1 / 10 ^ 8 ↔ (z : ℚ) ≤ ExecutionEngine.eps := by
  rw [ExecutionEngine.le_eps_iff]
  constructor
  · intro h
    by_contra hz
    have hone : (1 : ℚ) ≤ z := by exact_mod_cast not_le.mp hz
    have hbig : (1 : ℚ) ≤ 1 / 10 ^ 8 := hone.trans h
    norm_num at hbig
  · intro h
    have hz : (z : ℚ) ≤ 0 := by exact_mod_cast h
    exact hz.trans (by norm_num)

theorem matchQueue_eq : matchQueue price lots rem pnl =
    closeLots (fun opened => price - opened) lots rem pnl := by
  induction lots generalizing rem pnl with
  | nil => rfl
  | cons lot lots ih => simp only [matchQueue, closeLots, le_eps_iff_le, ih]

def lotsOf (hs : List OrderRow) : List Lot :=
  (hs.filter fun h => 0 < h.filledOr).map fun h => ⟨h.filledOr, h.price⟩

theorem positive_lotsOf : Positive (lotsOf hs) := by
  intro lot hlot
  obtain ⟨h, hmem, rfl⟩ := List.mem_map.mp hlot
  exact of_decide_eq_true (List.mem_filter.mp hmem).2

theorem scanHistory_done (hrem : rem ≤ 0) : scanHistory price hs rem pnl = (rem, pnl) := by
  cases hs with
  | nil => rfl
  | cons h hs => rw [scanHistory, if_pos hrem]

theorem scanHistory_eq : scanHistory price hs rem pnl =
    (closeLots (fun opened => price - opened) (lotsOf hs) rem pnl).2 := by
  induction hs generalizing rem pnl with
  | nil => rfl
  | cons h hs ih =>
    by_cases hdone : rem ≤ 0
    · rw [scanHistory_done hdone]
      cases lotsOf (h :: hs) with
      | nil => rfl
      | cons lot lots => rw [closeLots, if_pos hdone]
    · rw [scanHistory, if_neg hdone]
      by_cases hqty : 0 < h.filledOr
      · have hlots : lotsOf (h :: hs) = ⟨h.filledOr, h.price⟩ :: lotsOf hs := by
          simp [lotsOf, hqty]
        rw [if_pos hqty, hlots, closeLots, if_neg hdone]
        dsimp only
        split_ifs with hused
        · exact ih
        · rw [ExecutionEngine.le_eps_iff] at hused
          exact scanHistory_done (by omega)
      · have hlots : lotsOf (h :: hs) = lotsOf hs := by simp [lotsOf, hqty]
        rw [if_neg hqty, hlots]
        exact ih

def gain (price : ℚ) (units : List ℚ) (quantity : ℤ) : ℚ :=
  ((units.take quantity.toNat).map fun opened => price - opened).sum

theorem sell_pnl {historical : String → List OrderRow} {d : Day}
    (hpos : Positive (d.buyQueue o.symbol)) (hqty : 0 < o.filled) (hside : o.side = .sell) :
    (d.fill historical o).pnl = d.pnl + gain o.price
      (unitsOf (d.buyQueue o.symbol) ++ unitsOf (lotsOf (historical o.symbol))) o.filled := by
  obtain ⟨-, -, hrem, hpnl⟩ :=
    closeLots_eq (fun opened => o.price - opened) d.pnl hpos hqty.le
  unfold Day.fill gain
  rw [if_neg (not_le.mpr hqty), hside]
  dsimp only
  rw [matchQueue_eq, scanHistory_eq, List.take_append, List.map_append, List.sum_append,
    ← add_assoc, ← hpnl]
  have hleft : (closeLots (fun opened => o.price - opened) (d.buyQueue o.symbol) o.filled
      d.pnl).2.1.toNat = o.filled.toNat - (unitsOf (d.buyQueue o.symbol)).length := by
    rw [hrem]
    omega
  split_ifs with hmore
  · obtain ⟨-, -, -, hscan⟩ := closeLots_eq (fun opened => o.price - opened)
      (closeLots (fun opened => o.price - opened) (d.buyQueue o.symbol) o.filled d.pnl).2.2
      (positive_lotsOf : Positive (lotsOf (historical o.symbol))) hmore.le
    rw [hscan, hleft]
  · have hzero : o.filled.toNat - (unitsOf (d.buyQueue o.symbol)).length = 0 :=
      hleft.symm.trans (Int.toNat_of_nonpos (not_lt.mp hmore))
    rw [hzero, List.take_zero]
    simp

theorem applyExact_sell {fifo : FifoLots} (hpos : Positive fifo.longs) (hqty : 0 < o.filled)
    (hside : o.side = .sell) :
    (applyExact fifo o).1 = gain o.price (unitsOf fifo.longs) o.filled := by
  obtain ⟨-, -, -, hpnl⟩ := closeLots_eq (fun opened => o.price - opened) 0 hpos hqty.le
  unfold applyExact gain
  rw [if_neg (not_le.mpr hqty), hside]
  dsimp only
  rw [hpnl, zero_add]

theorem applyExact_buy {fifo : FifoLots} (hshort : fifo.shorts = []) (hside : o.side = .buy) :
    (applyExact fifo o).1 = 0 := by
  unfold applyExact
  split_ifs
  · rfl
  · rw [hside, hshort]
    rfl

theorem applyExact_positive {fifo : FifoLots} (h : Positive fifo.longs ∧ Positive fifo.shorts) :
    Positive (applyExact fifo o).2.longs ∧ Positive (applyExact fifo o).2.shorts := by
  unfold applyExact
  split_ifs with hqty
  · exact h
  · have hrem : 0 ≤ o.filled := (not_le.mp hqty).le
    cases o.side with
    | buy =>
      obtain ⟨-, hpos, -, -⟩ := closeLots_eq (fun opened => opened - o.price) 0 h.2 hrem
      exact ⟨positive_openLot h.1 _, hpos⟩
    | sell =>
      obtain ⟨-, hpos, -, -⟩ := closeLots_eq (fun opened => o.price - opened) 0 h.1 hrem
      exact ⟨hpos, positive_openLot h.2 _⟩

end Matching

section Runs

structure Books where
  day : Day := {}
  ledger : Ledger := fun _ => {}

variable (hist : String → List OrderRow)

def Books.step (b : Books) (o : OrderRow) : Books := ⟨b.day.fill hist o, b.ledger.fill o⟩

/-- A buy meets no open short, and a sell takes the same units from the buys of the day and the
earlier buys as from the open longs. -/
def SameLots (b : Books) (o : OrderRow) : Prop :=
  o.filled ≤ 0 ∨
    if o.side = .buy then (b.ledger o.symbol).shorts = []
    else
      (unitsOf (b.day.buyQueue o.symbol) ++ unitsOf (lotsOf (hist o.symbol))).take
          o.filled.toNat = (unitsOf (b.ledger o.symbol).longs).take o.filled.toNat

instance (b : Books) (o : OrderRow) : Decidable (SameLots hist b o) :=
  inferInstanceAs (Decidable (_ ∨ _))

structure Books.Stocked (b : Books) : Prop where
  day : ∀ symbol, Positive (b.day.buyQueue symbol)
  ledger : ∀ symbol, Positive (b.ledger symbol).longs ∧ Positive (b.ledger symbol).shorts

variable {hist} {b : Books} {o : OrderRow} {past today : List OrderRow}

theorem fill_positive {d : Day} (h : ∀ symbol, Positive (d.buyQueue symbol)) (symbol : String) :
    Positive ((d.fill hist o).buyQueue symbol) := by
  unfold Day.fill
  by_cases hqty : o.filled ≤ 0
  · rw [if_pos hqty]
    exact h symbol
  · rw [if_neg hqty]
    cases o.side with
    | buy =>
      dsimp only
      rw [Function.update_apply]
      split_ifs
      · have hopen : Positive (openLot (d.buyQueue o.symbol) o.filled o.price) :=
          positive_openLot (h o.symbol) o.price
        rwa [openLot, if_pos (not_le.mp hqty)] at hopen
      · exact h symbol
    | sell =>
      dsimp only
      rw [Function.update_apply, matchQueue_eq]
      split_ifs
      · exact (closeLots_eq _ d.pnl (h o.symbol) (not_le.mp hqty).le).2.1
      · exact h symbol

theorem ledger_positive {l : Ledger} (h : ∀ symbol, Positive (l symbol).longs ∧
    Positive (l symbol).shorts) (symbol : String) :
    Positive (l.fill o symbol).longs ∧ Positive (l.fill o symbol).shorts := by
  unfold Ledger.fill
  rw [Function.update_apply]
  split_ifs
  · exact applyExact_positive (h o.symbol)
  · exact h symbol

theorem Books.Stocked.step (h : b.Stocked) : (b.step hist o).Stocked :=
  ⟨fill_positive h.day, ledger_positive h.ledger⟩

theorem fill_pnl (h : b.Stocked) (hsame : SameLots hist b o) :
    (b.day.fill hist o).pnl = b.day.pnl + (applyExact (b.ledger o.symbol) o).1 := by
  by_cases hqty : o.filled ≤ 0
  · rw [Day.fill, if_pos hqty, applyExact, if_pos hqty, add_zero]
  · have hlots := hsame.resolve_left hqty
    cases hside : o.side with
    | buy =>
      rw [if_pos hside] at hlots
      rw [applyExact_buy hlots hside, add_zero, Day.fill, if_neg hqty, hside]
    | sell =>
      rw [if_neg (by rw [hside]; decide)] at hlots
      rw [sell_pnl (h.day o.symbol) (not_le.mp hqty) hside,
        applyExact_sell (h.ledger o.symbol).1 (not_le.mp hqty) hside, gain, hlots, gain]

theorem foldl_pnl (h : b.Stocked) (hrun : Along (Books.step hist) (SameLots hist) b today) :
    (today.foldl (Day.fill hist) b.day).pnl = b.day.pnl + (realized b.ledger today).sum := by
  induction today generalizing b with
  | nil => exact (add_zero _).symm
  | cons o os ih =>
    have hrest := ih h.step hrun.2
    rw [List.foldl_cons, realized, List.sum_cons, ← add_assoc, ← fill_pnl h hrun.1]
    exact hrest

theorem past_positive (past : List OrderRow) (symbol : String) :
    Positive (past.foldl Ledger.fill (fun _ => {}) symbol).longs ∧
      Positive (past.foldl Ledger.fill (fun _ => {}) symbol).shorts := by
  have hgo : ∀ (past : List OrderRow) (l : Ledger),
      (∀ symbol, Positive (l symbol).longs ∧ Positive (l symbol).shorts) →
        ∀ symbol, Positive (past.foldl Ledger.fill l symbol).longs ∧
          Positive (past.foldl Ledger.fill l symbol).shorts := by
    intro past
    induction past with
    | nil => exact fun _ h => h
    | cons o os ih => exact fun l h => ih (l.fill o) (ledger_positive h)
  exact hgo past _ (fun _ => ⟨fun _ h => absurd h List.not_mem_nil,
    fun _ h => absurd h List.not_mem_nil⟩) symbol

/-- The daily profit is that of the ledger where every fill of the day takes the same lots. -/
theorem computeDailyPnlFifo_eq_ledger
    (hrun : Along (Books.step (historical today (some (earlierBuys past today))))
      (SameLots (historical today (some (earlierBuys past today))))
      ⟨{}, past.foldl Ledger.fill fun _ => {}⟩ today) :
    computeDailyPnlFifo (some today) (some (earlierBuys past today)) = realizedToday past today := by
  have hstocked : Books.Stocked ⟨{}, past.foldl Ledger.fill fun _ => {}⟩ :=
    ⟨fun _ _ h => absurd h List.not_mem_nil, past_positive past⟩
  exact (foldl_pnl hstocked hrun).trans (zero_add _)

def whole (side : OrderSide) (quantity : ℤ) (price : ℚ) : OrderRow :=
  ⟨"NIFTY", side, some quantity, some quantity, some price⟩

theorem computeDailyPnlFifo_carried :
    computeDailyPnlFifo (some [whole .buy 5 100, whole .sell 15 120])
        (some (earlierBuys [whole .buy 10 100] [whole .buy 5 100, whole .sell 15 120])) =
      realizedToday [whole .buy 10 100] [whole .buy 5 100, whole .sell 15 120] :=
  computeDailyPnlFifo_eq_ledger
    ⟨.inr (by decide), .inr (by decide), trivial⟩

/-- A short of an earlier day that is covered today with a profit of 100 counts for nothing, and
a carried lot that is sold twice counts twice. -/
theorem daily_pnl_differs :
    (computeDailyPnlFifo (some [whole .buy 10 100])
          (some (earlierBuys [whole .sell 10 110] [whole .buy 10 100])) = 0 ∧
        realizedToday [whole .sell 10 110] [whole .buy 10 100] = 100) ∧
      computeDailyPnlFifo (some [whole .sell 10 110, whole .sell 10 120])
          (some (earlierBuys [whole .buy 10 100] [whole .sell 10 110, whole .sell 10 120])) = 300 ∧
        realizedToday [whole .buy 10 100] [whole .sell 10 110, whole .sell 10 120] = 100 := by
  decide +kernel

end Runs

end Trademetrix.DailyPnl
