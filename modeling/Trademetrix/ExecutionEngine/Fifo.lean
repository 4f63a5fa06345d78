import Trademetrix.Engine.Models
import Trademetrix.Queue
import Trademetrix.Text
import Mathlib.Data.Int.Cast.Lemmas
import Mathlib.Tactic.LinearCombination

/-!
# The FIFO lot ledger of one symbol

`FifoLots.apply` closes open lots of the other side from the oldest on and opens a lot
with what is left of the fill. Beside it, `Book` keeps every single unit with the number
of the fill that opened it.
-/

namespace Trademetrix.ExecutionEngine

open Engine (OrderSide)

section Lots

structure Lot where
  quantity : ℤ
  price : ℚ
  deriving DecidableEq

structure FifoLots where
  longs : List Lot := []
  shorts : List Lot := []
  deriving DecidableEq

def eps : ℚ := 1 / 10 ^ 9

/-- The loop of `apply` over the lots of the other side: the lots left, what is left of the
fill and what it realized. A lot that is not used up has used up the fill. -/
def closeLots (gain : ℚ → ℚ) : List Lot → ℤ → ℚ → List Lot × ℤ × ℚ
  | [], rem, realized => ([], rem, realized)
  | lot :: lots, rem, realized =>
    if rem ≤ 0 then (lot :: lots, rem, realized)
    else
      let used := min rem lot.quantity
      let left := lot.quantity - used
      let realized := realized + used * gain lot.price
      if (left : ℚ) ≤ eps then closeLots gain lots (rem - used) realized
      else ({ lot with quantity := left } :: lots, rem - used, realized)

def openLot (lots : List Lot) (rem : ℤ) (price : ℚ) : List Lot :=
  if 0 < rem then lots ++ [⟨rem, price⟩] else lots

namespace FifoLots

def longQuantity (fifo : FifoLots) : ℤ := (fifo.longs.map Lot.quantity).sum

def shortQuantity (fifo : FifoLots) : ℤ := (fifo.shorts.map Lot.quantity).sum

def netQuantity (fifo : FifoLots) : ℤ := fifo.longQuantity - fifo.shortQuantity

def averagePrice (fifo : FifoLots) (side : String) : ℚ :=
  let lots := if side = "BUY" then fifo.longs else fifo.shorts
  let total : ℚ := (lots.map Lot.quantity).sum
  if total ≤ eps then 0 else (lots.map fun lot => (lot.quantity : ℚ) * lot.price).sum / total

def apply (side : String) (quantity : ℤ) (price : ℚ) (fifo : FifoLots) :
    Except String (ℚ × FifoLots) :=
  if quantity ≤ 0 then .ok (0, fifo)
  else if side = "BUY" then
    let (shorts, rem, realized) := closeLots (fun opened => opened - price) fifo.shorts quantity 0
    .ok (Text.round2 realized, { longs := openLot fifo.longs rem price, shorts := shorts })
  else if side = "SELL" then
    let (longs, rem, realized) := closeLots (fun opened => price - opened) fifo.longs quantity 0
    .ok (Text.round2 realized, { longs := longs, shorts := openLot fifo.shorts rem price })
  else .error ("Invalid side: " ++ Text.reprText side)

theorem apply_buy (fifo : FifoLots) {quantity : ℤ} (hqty : 0 < quantity) (price : ℚ) :
    fifo.apply "BUY" quantity price =
      .ok (Text.round2 (closeLots (fun opened => opened - price) fifo.shorts quantity 0).2.2,
        { longs :=
            openLot fifo.longs
              (closeLots (fun opened => opened - price) fifo.shorts quantity 0).2.1 price
          shorts := (closeLots (fun opened => opened - price) fifo.shorts quantity 0).1 }) := by
  simp only [apply, if_neg (not_le.mpr hqty), if_true]

theorem apply_sell (fifo : FifoLots) {quantity : ℤ} (hqty : 0 < quantity) (price : ℚ) :
    fifo.apply "SELL" quantity price =
      .ok (Text.round2 (closeLots (fun opened => price - opened) fifo.longs quantity 0).2.2,
        { longs := (closeLots (fun opened => price - opened) fifo.longs quantity 0).1
          shorts :=
            openLot fifo.shorts
              (closeLots (fun opened => price - opened) fifo.longs quantity 0).2.1 price }) := by
  have hsell : ¬ "SELL" = "BUY" := by decide
  simp only [apply, if_neg (not_le.mpr hqty), if_neg hsell, if_true]

def unrealizedPnl (fifo : FifoLots) (lastPrice : ℚ) : ℚ :=
  if lastPrice ≤ 0 then 0
  else
    let longPnl := fifo.longQuantity * (lastPrice - fifo.averagePrice "BUY")
    let shortPnl := fifo.shortQuantity * (fifo.averagePrice "SELL" - lastPrice)
    Text.round2 (longPnl + shortPnl)

end FifoLots

structure Fill where
  side : OrderSide
  quantity : ℤ
  price : ℚ
  deriving DecidableEq

def FifoLots.run : List Fill → FifoLots → Except String (List ℚ × FifoLots)
  | [], fifo => .ok ([], fifo)
  | fill :: fills, fifo => do
    let (pnl, fifo) ← fifo.apply fill.side.value fill.quantity fill.price
    let (pnls, fifo) ← FifoLots.run fills fifo
    pure (pnl :: pnls, fifo)

end Lots

section Units

structure Opened where
  arrival : ℕ
  price : ℚ

structure Side where
  closed : List Opened := []
  held : List Opened := []

def Side.close (k : ℕ) (s : Side) : Side where
  closed := s.closed ++ s.held.take k
  held := s.held.drop k

def Side.push (k : ℕ) (u : Opened) (s : Side) : Side :=
  { s with held := s.held ++ List.replicate k u }

structure Book where
  longs : Side := {}
  shorts : Side := {}

/-- The `n`-th fill closes units from the head of the other side's queue and opens the rest
at the end of its own. -/
def Book.fill (n : ℕ) (fill : Fill) (b : Book) : ℚ × Book :=
  let quantity := fill.quantity.toNat
  match fill.side with
  | .buy =>
    (((b.shorts.held.take quantity).map fun u => u.price - fill.price).sum,
      { shorts := b.shorts.close quantity
        longs := b.longs.push (quantity - b.shorts.held.length) ⟨n, fill.price⟩ })
  | .sell =>
    (((b.longs.held.take quantity).map fun u => fill.price - u.price).sum,
      { longs := b.longs.close quantity
        shorts := b.shorts.push (quantity - b.longs.held.length) ⟨n, fill.price⟩ })

/-- The fills from number `n` on: what each realized, and the book then. -/
def Book.run : ℕ → List Fill → Book → List ℚ × Book
  | _, [], b => ([], b)
  | n, fill :: fills, b =>
    let (pnl, b) := b.fill n fill
    let (pnls, b) := Book.run (n + 1) fills b
    (pnl :: pnls, b)

def Lot.size (lot : Lot) : ℕ := lot.quantity.toNat

def unitsOf (lots : List Lot) : List ℚ := Queue.items Lot.size Lot.price lots

def Positive (lots : List Lot) : Prop := ∀ lot ∈ lots, 0 < lot.quantity

instance (lots : List Lot) : Decidable (Positive lots) :=
  inferInstanceAs (Decidable (∀ lot ∈ lots, _))

variable {lots : List Lot} {rem : ℤ}

theorem le_eps_iff (z : ℤ) : (z : ℚ) ≤ eps ↔ z ≤ 0 := by
  constructor
  · intro h
    by_contra hz
    have hone : (1 : ℚ) ≤ z := by exact_mod_cast not_le.mp hz
    have hbig : (1 : ℚ) ≤ 1 / 10 ^ 9 := hone.trans h
    norm_num at hbig
  · intro h
    have hz : (z : ℚ) ≤ 0 := by exact_mod_cast h
    exact hz.trans (by norm_num [eps])

theorem sum_gain_replicate (gain : ℚ → ℚ) (n : ℕ) (price : ℚ) :
    ((List.replicate n price).map gain).sum = n * gain price := by
  simp [List.map_replicate, List.sum_replicate]

theorem closeLots_eq (gain : ℚ → ℚ) (realized : ℚ) (hpos : Positive lots) (hrem : 0 ≤ rem) :
    unitsOf (closeLots gain lots rem realized).1 = (unitsOf lots).drop rem.toNat ∧
      Positive (closeLots gain lots rem realized).1 ∧
      (closeLots gain lots rem realized).2.1 = max 0 (rem - (unitsOf lots).length) ∧
      (closeLots gain lots rem realized).2.2 =
        realized + (((unitsOf lots).take rem.toNat).map gain).sum := by
  induction lots generalizing rem realized with
  | nil => simp [closeLots, unitsOf, Positive, hrem]
  | cons lot lots ih =>
    have hlot : 0 < lot.quantity := hpos lot List.mem_cons_self
    have hsz : (lot.size : ℤ) = lot.quantity := Int.toNat_of_nonneg hlot.le
    have hlots : Positive lots := fun l hl => hpos l (List.mem_cons_of_mem _ hl)
    have hlen : (unitsOf (lot :: lots)).length = lot.size + (unitsOf lots).length := by
      simp [unitsOf]
    by_cases hdone : rem ≤ 0
    · have hzero : rem = 0 := le_antisymm hdone hrem
      simp [closeLots, hzero, hpos]
    · by_cases hused : lot.quantity ≤ rem
      · -- the whole lot is closed and the loop goes on
        have hmin : min rem lot.quantity = lot.quantity := min_eq_right hused
        have hsize : lot.size ≤ rem.toNat := by omega
        have hstep : closeLots gain (lot :: lots) rem realized =
            closeLots gain lots (rem - lot.quantity) (realized + lot.quantity * gain lot.price) := by
          have heps : ((lot.quantity - lot.quantity : ℤ) : ℚ) ≤ eps := by simp [eps]
          simp only [closeLots, if_neg hdone, hmin, if_pos heps]
        have hrest : (rem - lot.quantity).toNat = rem.toNat - lot.size := by omega
        have hrem' : 0 ≤ rem - lot.quantity := by omega
        obtain ⟨hunits, hp, hleft, hsum⟩ :=
          ih (realized + lot.quantity * gain lot.price) hlots hrem'
        rw [hstep]
        refine ⟨?_, hp, ?_, ?_⟩
        · rw [hunits, hrest]
          exact (Queue.drop_items_cons _ _ hsize lots).symm
        · rw [hleft, hlen]
          omega
        · simp only [unitsOf] at hsum ⊢
          rw [hsum, hrest, Queue.take_items_cons _ _ hsize lots, List.map_append, List.sum_append,
            sum_gain_replicate]
          have hcast : (lot.size : ℚ) = lot.quantity := by exact_mod_cast hsz
          rw [hcast]
          ring
      · -- the fill is used up within the lot
        have hmin : min rem lot.quantity = rem := min_eq_left (by omega)
        have hsize : rem.toNat ≤ lot.size := by omega
        have hstep : closeLots gain (lot :: lots) rem realized =
            ({ lot with quantity := lot.quantity - rem } :: lots, rem - rem,
              realized + rem * gain lot.price) := by
          have heps : ¬ ((lot.quantity - rem : ℤ) : ℚ) ≤ eps := by
            rw [le_eps_iff]
            omega
          simp only [closeLots, if_neg hdone, hmin, if_neg heps]
        have hsz' : Lot.size { lot with quantity := lot.quantity - rem } = lot.size - rem.toNat := by
          simp only [Lot.size] at hsize ⊢
          omega
        rw [hstep]
        refine ⟨?_, ?_, ?_, ?_⟩
        · exact (Queue.drop_items_within _ _ hsize hsz' rfl lots).symm
        · intro l hl
          rcases List.mem_cons.mp hl with rfl | hl
          · simp only
            omega
          · exact hlots l hl
        · simp only [hlen]
          omega
        · simp only [unitsOf]
          rw [Queue.take_items_within _ _ hsize lots, sum_gain_replicate]
          have hcast : ((rem.toNat : ℕ) : ℚ) = rem := by exact_mod_cast Int.toNat_of_nonneg hrem
          rw [hcast]

theorem unitsOf_openLot (hrem : 0 ≤ rem) (price : ℚ) :
    unitsOf (openLot lots rem price) = unitsOf lots ++ List.replicate rem.toNat price := by
  unfold openLot
  split
  · simp [unitsOf, Lot.size]
  · next hneg =>
    have hzero : rem = 0 := by omega
    simp [hzero]

theorem positive_openLot (hpos : Positive lots) (price : ℚ) :
    Positive (openLot lots rem price) := by
  unfold openLot
  split
  · next hrem =>
    intro lot hlot
    rcases List.mem_append.mp hlot with hlot | hlot
    · exact hpos lot hlot
    · rw [List.mem_singleton.mp hlot]
      exact hrem
  · exact hpos

theorem sum_quantity (hpos : Positive lots) :
    (lots.map Lot.quantity).sum = (unitsOf lots).length := by
  have hsize : lots.map Lot.quantity = lots.map fun lot => (lot.size : ℤ) := by
    refine List.map_congr_left fun lot hlot => ?_
    exact (Int.toNat_of_nonneg (hpos lot hlot).le).symm
  have hlen : (unitsOf lots).length = (lots.map Lot.size).sum := Queue.length_items _ _ lots
  have hcast := map_list_sum (Nat.castAddMonoidHom ℤ) (lots.map Lot.size)
  rw [List.map_map] at hcast
  rw [hsize, hlen]
  exact hcast.symm

def Hundredths (x : ℚ) : Prop := ∃ k : ℤ, x * 100 = k

theorem hundredths_round2 (x : ℚ) : Hundredths (Text.round2 x) :=
  ⟨Text.roundHalfEven (x * 100), div_mul_cancel₀ _ (by norm_num)⟩

theorem hundredths_zero : Hundredths 0 := ⟨0, by simp⟩

theorem Hundredths.add {x y : ℚ} (hx : Hundredths x) (hy : Hundredths y) : Hundredths (x + y) := by
  obtain ⟨k, hk⟩ := hx
  obtain ⟨l, hl⟩ := hy
  refine ⟨k + l, ?_⟩
  push_cast
  linear_combination hk + hl

theorem Hundredths.sub {x y : ℚ} (hx : Hundredths x) (hy : Hundredths y) : Hundredths (x - y) := by
  obtain ⟨k, hk⟩ := hx
  obtain ⟨l, hl⟩ := hy
  refine ⟨k - l, ?_⟩
  push_cast
  linear_combination hk - hl

theorem Hundredths.sum {xs : List ℚ} (h : ∀ x ∈ xs, Hundredths x) : Hundredths xs.sum := by
  induction xs with
  | nil => exact ⟨0, by simp⟩
  | cons x xs ih =>
    obtain ⟨k, hk⟩ := h x List.mem_cons_self
    obtain ⟨l, hl⟩ := ih fun y hy => h y (List.mem_cons_of_mem _ hy)
    refine ⟨k + l, ?_⟩
    push_cast
    rw [List.sum_cons]
    linear_combination hk + hl

theorem Hundredths.round2 {x : ℚ} (h : Hundredths x) : Text.round2 x = x := by
  obtain ⟨k, hk⟩ := h
  have hround : Text.roundHalfEven (k : ℚ) = k := by simp [Text.roundHalfEven]
  unfold Text.round2
  rw [hk, hround, ← hk]
  ring

structure Keeps (n : ℕ) (lots : List Lot) (s : Side) : Prop where
  units : unitsOf lots = s.held.map Opened.price
  positive : Positive lots
  hundredths : ∀ u ∈ s.held, Hundredths u.price
  inOrder : (s.closed ++ s.held).Pairwise fun u v => u.arrival ≤ v.arrival
  past : ∀ u ∈ s.closed ++ s.held, u.arrival < n

variable {n : ℕ} {s : Side}

theorem Keeps.length (h : Keeps n lots s) : (unitsOf lots).length = s.held.length := by
  rw [h.units, List.length_map]

theorem Keeps.close (h : Keeps n lots s) (hrem : 0 ≤ rem) (gain : ℚ → ℚ) (realized : ℚ) :
    Keeps n (closeLots gain lots rem realized).1 (s.close rem.toNat) := by
  obtain ⟨hunits, hpos, -, -⟩ := closeLots_eq gain realized h.positive hrem
  refine ⟨?_, hpos, fun u hu => h.hundredths u (List.mem_of_mem_drop hu), ?_, fun u hu => ?_⟩
  · rw [hunits, h.units, Side.close, List.map_drop]
  · exact Queue.pairwise_take_drop _ h.inOrder _
  · refine h.past u ?_
    simpa [Side.close, List.append_assoc, List.take_append_drop] using hu

theorem Keeps.push (h : Keeps n lots s) (hrem : 0 ≤ rem) {price : ℚ} (hprice : Hundredths price) :
    Keeps (n + 1) (openLot lots rem price) (s.push rem.toNat ⟨n, price⟩) := by
  refine ⟨?_, positive_openLot h.positive price, ?_, ?_, ?_⟩
  · rw [unitsOf_openLot hrem, h.units, Side.push, List.map_append, List.map_replicate]
  · intro u hu
    rcases List.mem_append.mp hu with hu | hu
    · exact h.hundredths u hu
    · rw [List.eq_of_mem_replicate hu]
      exact hprice
  · have hnew : (List.replicate rem.toNat (⟨n, price⟩ : Opened)).Pairwise
        fun u v => u.arrival ≤ v.arrival := List.pairwise_replicate.mpr (.inr le_rfl)
    rw [Side.push, ← List.append_assoc]
    refine Queue.pairwise_push _ h.inOrder hnew fun u hu v hv => ?_
    rw [List.eq_of_mem_replicate hv]
    exact (h.past u hu).le
  · intro u hu
    rw [Side.push, ← List.append_assoc] at hu
    rcases List.mem_append.mp hu with hu | hu
    · exact (h.past u hu).trans (Nat.lt_succ_self n)
    · rw [List.eq_of_mem_replicate hu]
      exact Nat.lt_succ_self n

theorem Keeps.succ (h : Keeps n lots s) : Keeps (n + 1) lots s :=
  { h with past := fun u hu => (h.past u hu).trans (Nat.lt_succ_self n) }

theorem Keeps.pnl (h : Keeps n lots s) (hrem : 0 ≤ rem) {gain : ℚ → ℚ}
    (hgain : ∀ x, Hundredths x → Hundredths (gain x)) :
    Text.round2 (closeLots gain lots rem 0).2.2 =
      ((s.held.take rem.toNat).map fun u => gain u.price).sum := by
  obtain ⟨-, -, -, hsum⟩ := closeLots_eq gain 0 h.positive hrem
  have hmap : ((unitsOf lots).take rem.toNat).map gain =
      (s.held.take rem.toNat).map fun u => gain u.price := by
    rw [h.units, ← List.map_take, List.map_map]
    rfl
  rw [hsum, hmap, zero_add]
  refine Hundredths.round2 (Hundredths.sum fun x hx => ?_)
  obtain ⟨u, hu, rfl⟩ := List.mem_map.mp hx
  exact hgain _ (h.hundredths u (List.mem_of_mem_take hu))

structure Sound (n : ℕ) (fifo : FifoLots) (b : Book) : Prop where
  longs : Keeps n fifo.longs b.longs
  shorts : Keeps n fifo.shorts b.shorts
  oneSided : b.longs.held = [] ∨ b.shorts.held = []

def Fill.Listed (fill : Fill) : Prop := 0 < fill.quantity ∧ Hundredths fill.price

theorem oneSided_fill {held other : List Opened} {k : ℕ} {u : Opened}
    (h : held = [] ∨ other = []) :
    held ++ List.replicate (k - other.length) u = [] ∨ other.drop k = [] := by
  by_cases hk : other.length ≤ k
  · exact .inr (List.drop_of_length_le hk)
  · left
    have hne : other ≠ [] := by
      rintro rfl
      exact hk (Nat.zero_le k)
    have hzero : k - other.length = 0 := by omega
    rw [h.resolve_right hne, hzero]
    rfl

theorem apply_fill {fifo : FifoLots} {b : Book} {fill : Fill} (h : Sound n fifo b)
    (hf : fill.Listed) :
    ∃ fifo', fifo.apply fill.side.value fill.quantity fill.price = .ok ((b.fill n fill).1, fifo') ∧
      Sound (n + 1) fifo' (b.fill n fill).2 := by
  obtain ⟨hqty, hprice⟩ := hf
  have hleft : ∀ held : List Opened,
      (max 0 (fill.quantity - held.length)).toNat = fill.quantity.toNat - held.length := by
    intro held
    omega
  cases hside : fill.side with
  | buy =>
    have hgain : ∀ x, Hundredths x → Hundredths (x - fill.price) := fun x hx => hx.sub hprice
    have hpnl := h.shorts.pnl hqty.le hgain
    obtain ⟨-, -, hrem, -⟩ :=
      closeLots_eq (fun opened => opened - fill.price) 0 h.shorts.positive hqty.le
    have hpush := h.longs.push (le_max_left 0 (fill.quantity - b.shorts.held.length)) hprice
    rw [h.shorts.length] at hrem
    rw [hleft] at hpush
    refine ⟨{
      longs := openLot fifo.longs (max 0 (fill.quantity - b.shorts.held.length)) fill.price
      shorts := (closeLots (fun opened => opened - fill.price) fifo.shorts fill.quantity 0).1 },
      ?_, ?_⟩
    · simp only [OrderSide.value, FifoLots.apply_buy _ hqty, Book.fill, hside, hpnl, hrem]
    · simp only [Book.fill, hside]
      exact ⟨hpush, (h.shorts.close hqty.le _ _).succ, oneSided_fill h.oneSided⟩
  | sell =>
    have hgain : ∀ x, Hundredths x → Hundredths (fill.price - x) := fun x hx => hprice.sub hx
    have hpnl := h.longs.pnl hqty.le hgain
    obtain ⟨-, -, hrem, -⟩ :=
      closeLots_eq (fun opened => fill.price - opened) 0 h.longs.positive hqty.le
    have hpush := h.shorts.push (le_max_left 0 (fill.quantity - b.longs.held.length)) hprice
    rw [h.longs.length] at hrem
    rw [hleft] at hpush
    refine ⟨{
      longs := (closeLots (fun opened => fill.price - opened) fifo.longs fill.quantity 0).1
      shorts := openLot fifo.shorts (max 0 (fill.quantity - b.longs.held.length)) fill.price },
      ?_, ?_⟩
    · simp only [OrderSide.value, FifoLots.apply_sell _ hqty, Book.fill, hside, hpnl, hrem]
    · simp only [Book.fill, hside]
      exact ⟨(h.longs.close hqty.le _ _).succ, hpush, (oneSided_fill h.oneSided.symm).symm⟩

end Units

section Net

structure FifoLots.Positive (fifo : FifoLots) : Prop where
  longs : ExecutionEngine.Positive fifo.longs
  shorts : ExecutionEngine.Positive fifo.shorts

def signed (side : String) (quantity : ℤ) : ℤ :=
  if side = "BUY" then quantity else if side = "SELL" then -quantity else 0

theorem sum_openLot (lots : List Lot) {rem : ℤ} (hrem : 0 ≤ rem) (price : ℚ) :
    ((openLot lots rem price).map Lot.quantity).sum = (lots.map Lot.quantity).sum + rem := by
  unfold openLot
  split
  · simp
  · omega

theorem sum_closeLots {lots : List Lot} {rem : ℤ} (gain : ℚ → ℚ) (hpos : Positive lots)
    (hrem : 0 ≤ rem) :
    (lots.map Lot.quantity).sum + (closeLots gain lots rem 0).2.1 =
      ((closeLots gain lots rem 0).1.map Lot.quantity).sum + rem ∧
    0 ≤ (closeLots gain lots rem 0).2.1 := by
  obtain ⟨hunits, hpos', hleft, -⟩ := closeLots_eq gain 0 hpos hrem
  rw [sum_quantity hpos, sum_quantity hpos', hunits, hleft, List.length_drop]
  omega

theorem apply_net {fifo : FifoLots} (h : fifo.Positive) {side : String} {quantity : ℤ}
    (hside : side = "BUY" ∨ side = "SELL") (hqty : 0 < quantity) (price : ℚ) :
    ∃ realized fifo', fifo.apply side quantity price = .ok (realized, fifo') ∧
      fifo'.Positive ∧ fifo'.netQuantity = fifo.netQuantity + signed side quantity := by
  rcases hside with rfl | rfl
  · obtain ⟨hsum, hrem⟩ := sum_closeLots (fun opened => opened - price) h.shorts hqty.le
    obtain ⟨-, hpos, -, -⟩ := closeLots_eq (fun opened => opened - price) 0 h.shorts hqty.le
    refine ⟨_, _, fifo.apply_buy hqty price, ⟨positive_openLot h.longs price, hpos⟩, ?_⟩
    simp only [FifoLots.netQuantity, FifoLots.longQuantity, FifoLots.shortQuantity, signed,
      if_true, sum_openLot _ hrem]
    omega
  · have hsell : ¬ "SELL" = "BUY" := by decide
    obtain ⟨hsum, hrem⟩ := sum_closeLots (fun opened => price - opened) h.longs hqty.le
    obtain ⟨-, hpos, -, -⟩ := closeLots_eq (fun opened => price - opened) 0 h.longs hqty.le
    refine ⟨_, _, fifo.apply_sell hqty price, ⟨hpos, positive_openLot h.shorts price⟩, ?_⟩
    simp only [FifoLots.netQuantity, FifoLots.longQuantity, FifoLots.shortQuantity, signed,
      if_neg hsell, if_true, sum_openLot _ hrem]
    omega

end Net

section Runs

variable {n : ℕ} {fifo : FifoLots} {b : Book}

theorem run_fills {fills : List Fill} (h : Sound n fifo b) (hf : ∀ fill ∈ fills, fill.Listed) :
    ∃ fifo', FifoLots.run fills fifo = .ok ((b.run n fills).1, fifo') ∧
      Sound (n + fills.length) fifo' (b.run n fills).2 := by
  induction fills generalizing n fifo b with
  | nil => exact ⟨fifo, rfl, h⟩
  | cons fill fills ih =>
    obtain ⟨fifo₁, happly, hsound⟩ := apply_fill h (hf fill List.mem_cons_self)
    obtain ⟨fifo₂, hrun, hsound₂⟩ := ih hsound fun f hm => hf f (List.mem_cons_of_mem _ hm)
    refine ⟨fifo₂, ?_, ?_⟩
    · simp only [FifoLots.run, happly, Book.run, bind, Except.bind, hrun, pure, Except.pure]
    · rw [List.length_cons, ← Nat.add_assoc, Nat.add_right_comm]
      exact hsound₂

def FifoLots.cost (fifo : FifoLots) : ℚ :=
  (fifo.longs.map fun lot => (lot.quantity : ℚ) * lot.price).sum -
    (fifo.shorts.map fun lot => (lot.quantity : ℚ) * lot.price).sum

def quantityOf (side : OrderSide) (fills : List Fill) : ℤ :=
  ((fills.filter fun fill => fill.side = side).map Fill.quantity).sum

def valueOf (side : OrderSide) (fills : List Fill) : ℚ :=
  ((fills.filter fun fill => fill.side = side).map fun fill => (fill.quantity : ℚ) * fill.price).sum

def Side.cost (s : Side) : ℚ := (s.held.map Opened.price).sum

def Book.net (b : Book) : ℤ := b.longs.held.length - b.shorts.held.length

def Book.cost (b : Book) : ℚ := b.longs.cost - b.shorts.cost

theorem Keeps.quantity {lots : List Lot} {s : Side} (h : Keeps n lots s) :
    (lots.map Lot.quantity).sum = s.held.length := by
  rw [sum_quantity h.positive, h.length]

theorem Keeps.cost {lots : List Lot} {s : Side} (h : Keeps n lots s) :
    (lots.map fun lot => (lot.quantity : ℚ) * lot.price).sum = s.cost := by
  have hsize : (lots.map fun lot => (lot.quantity : ℚ) * lot.price) =
      lots.map fun lot => (lot.size : ℚ) * lot.price := by
    refine List.map_congr_left fun lot hlot => ?_
    have hcast : (lot.size : ℚ) = lot.quantity := by
      exact_mod_cast Int.toNat_of_nonneg (h.positive lot hlot).le
    rw [hcast]
  have hsum := Queue.sum_items Lot.size Lot.price id lots
  rw [hsize, Side.cost, ← h.units]
  simpa [unitsOf] using hsum.symm

theorem Side.cost_close (k : ℕ) (s : Side) :
    (s.close k).cost = s.cost - ((s.held.take k).map Opened.price).sum := by
  have hsplit := congrArg (fun us => (List.map Opened.price us).sum) (List.take_append_drop k s.held)
  simp only [List.map_append, List.sum_append] at hsplit
  simp only [Side.close, Side.cost]
  linear_combination hsplit

theorem Side.cost_push (k : ℕ) (u : Opened) (s : Side) :
    (s.push k u).cost = s.cost + k * u.price := by
  simp [Side.push, Side.cost, List.sum_replicate]

theorem sum_gains (us : List Opened) (price : ℚ) :
    (us.map fun u => u.price - price).sum = (us.map Opened.price).sum - us.length * price := by
  induction us with
  | nil => simp
  | cons u us ih =>
    simp only [List.map_cons, List.sum_cons, List.length_cons, ih]
    push_cast
    ring

theorem sum_losses (us : List Opened) (price : ℚ) :
    (us.map fun u => price - u.price).sum = us.length * price - (us.map Opened.price).sum := by
  induction us with
  | nil => simp
  | cons u us ih =>
    simp only [List.map_cons, List.sum_cons, List.length_cons, ih]
    push_cast
    ring

theorem fill_totals {fill : Fill} (hq : 0 ≤ fill.quantity) :
    (b.fill n fill).2.net =
      b.net + (if fill.side = .buy then fill.quantity else -fill.quantity) ∧
    (b.fill n fill).1 = (b.fill n fill).2.cost - b.cost -
      (if fill.side = .buy then fill.quantity * fill.price else -(fill.quantity * fill.price)) := by
  have hsplit : ∀ held : List Opened, ((held.take fill.quantity.toNat).length : ℚ) +
      ((fill.quantity.toNat - held.length : ℕ) : ℚ) = fill.quantity := by
    intro held
    have hnat : (held.take fill.quantity.toNat).length + (fill.quantity.toNat - held.length) =
        fill.quantity.toNat := by
      rw [List.length_take]
      omega
    have hcast : ((fill.quantity.toNat : ℕ) : ℚ) = fill.quantity := by
      exact_mod_cast Int.toNat_of_nonneg hq
    rw [← hcast]
    exact_mod_cast hnat
  cases hside : fill.side with
  | buy =>
    have hcount := hsplit b.shorts.held
    constructor
    · simp only [Book.fill, hside, Book.net, Side.close, Side.push, List.length_append,
        List.length_replicate, List.length_drop, if_true]
      omega
    · simp only [Book.fill, hside, Book.cost, Side.cost_close, Side.cost_push, sum_gains, if_true]
      linear_combination (-fill.price) * hcount
  | sell =>
    have hcount := hsplit b.longs.held
    constructor
    · have hsell : ¬ OrderSide.sell = .buy := by decide
      simp only [Book.fill, hside, Book.net, Side.close, Side.push, List.length_append,
        List.length_replicate, List.length_drop, if_neg hsell]
      omega
    · have hsell : ¬ OrderSide.sell = .buy := by decide
      simp only [Book.fill, hside, Book.cost, Side.cost_close, Side.cost_push, sum_losses,
        if_neg hsell]
      linear_combination fill.price * hcount

theorem run_totals {fills : List Fill} (hf : ∀ fill ∈ fills, fill.Listed) :
    (b.run n fills).2.net = b.net + (quantityOf .buy fills - quantityOf .sell fills) ∧
    (b.run n fills).1.sum =
      valueOf .sell fills - valueOf .buy fills + ((b.run n fills).2.cost - b.cost) := by
  induction fills generalizing n b with
  | nil => simp [Book.run, quantityOf, valueOf]
  | cons fill fills ih =>
    obtain ⟨hnet, hpnl⟩ := fill_totals (n := n) (b := b) (hf fill List.mem_cons_self).1.le
    obtain ⟨hnets, hpnls⟩ := ih (n := n + 1) (b := (b.fill n fill).2)
      fun f hm => hf f (List.mem_cons_of_mem _ hm)
    simp only [Book.run, List.sum_cons, hnets, hpnls, hnet, hpnl]
    cases hside : fill.side with
    | buy =>
      simp [quantityOf, valueOf, hside]
      constructor <;> ring
    | sell =>
      simp [quantityOf, valueOf, hside]
      constructor <;> ring

/-- Every fill realizes what the longest open units of the other side give, and the units
ever closed, then those still open, stand in the order of their arrival. -/
def InArrivalOrder (fills : List Fill) (pnls : List ℚ) (fifo : FifoLots) : Prop :=
  ∃ b : Book, Book.run 0 fills {} = (pnls, b) ∧
    unitsOf fifo.longs = b.longs.held.map Opened.price ∧
    unitsOf fifo.shorts = b.shorts.held.map Opened.price ∧
    (b.longs.closed ++ b.longs.held).Pairwise (fun u v => u.arrival ≤ v.arrival) ∧
    (b.shorts.closed ++ b.shorts.held).Pairwise (fun u v => u.arrival ≤ v.arrival)

theorem fifo_accounts (fills : List Fill) (hf : ∀ fill ∈ fills, fill.Listed) :
    ∃ pnls fifo, FifoLots.run fills {} = .ok (pnls, fifo) ∧
      fifo.netQuantity = quantityOf .buy fills - quantityOf .sell fills ∧
      (fifo.longs = [] ∨ fifo.shorts = []) ∧ Positive (fifo.longs ++ fifo.shorts) ∧
      InArrivalOrder fills pnls fifo ∧
      pnls.sum = (valueOf .sell fills - valueOf .buy fills) + fifo.cost := by
  have hempty : Keeps 0 [] {} :=
    ⟨rfl, fun _ h => absurd h List.not_mem_nil, fun _ h => absurd h List.not_mem_nil, .nil,
      fun _ h => absurd h List.not_mem_nil⟩
  have hflat : Sound 0 {} {} := ⟨hempty, hempty, .inl rfl⟩
  obtain ⟨fifo, hrun, hsound⟩ := run_fills hflat hf
  obtain ⟨hnet, hsum⟩ := run_totals (n := 0) (b := {}) hf
  have hside : ∀ {lots : List Lot} {s : Side}, Keeps (0 + fills.length) lots s → s.held = [] →
      lots = [] := by
    intro lots s h hheld
    refine Queue.eq_nil_of_items Lot.size Lot.price (fun lot hlot => ?_) ?_
    · have hpos := h.positive lot hlot
      simp only [Lot.size]
      omega
    · have hunits := h.units
      rwa [hheld] at hunits
  refine ⟨_, fifo, hrun, ?_, ?_, ?_, ⟨_, rfl, hsound.longs.units, hsound.shorts.units,
    hsound.longs.inOrder, hsound.shorts.inOrder⟩, ?_⟩
  · rw [FifoLots.netQuantity, FifoLots.longQuantity, FifoLots.shortQuantity,
      hsound.longs.quantity, hsound.shorts.quantity]
    simpa [Book.net] using hnet
  · exact hsound.oneSided.imp (hside hsound.longs) (hside hsound.shorts)
  · intro lot hlot
    rcases List.mem_append.mp hlot with hlot | hlot
    · exact hsound.longs.positive lot hlot
    · exact hsound.shorts.positive lot hlot
  · rw [FifoLots.cost, hsound.longs.cost, hsound.shorts.cost, hsum]
    simp [Book.cost, Side.cost]

/-- Two long lots are opened, closed from the older one on, and the position is turned. -/
theorem turned_accounts :
    ∃ pnls fifo,
      FifoLots.run [⟨.buy, 10, 100⟩, ⟨.buy, 10, 110⟩, ⟨.sell, 15, 120⟩, ⟨.sell, 10, 90⟩] {} =
        .ok (pnls, fifo) ∧ pnls = [0, 0, 250, -100] ∧ fifo.shorts = [⟨5, 90⟩] ∧
      pnls.sum = 15 * 120 + 10 * 90 - (10 * 100 + 10 * 110) + fifo.cost := by
  obtain ⟨pnls, fifo, hrun, -, -, -, -, hsum⟩ := fifo_accounts
    [⟨.buy, 10, 100⟩, ⟨.buy, 10, 110⟩, ⟨.sell, 15, 120⟩, ⟨.sell, 10, 90⟩] (by
      intro fill hfill
      simp only [List.mem_cons, List.not_mem_nil, or_false] at hfill
      rcases hfill with rfl | rfl | rfl | rfl
      · exact ⟨by decide, 10000, by norm_num⟩
      · exact ⟨by decide, 11000, by norm_num⟩
      · exact ⟨by decide, 12000, by norm_num⟩
      · exact ⟨by decide, 9000, by norm_num⟩)
  have hvalue : FifoLots.run
      [⟨.buy, 10, 100⟩, ⟨.buy, 10, 110⟩, ⟨.sell, 15, 120⟩, ⟨.sell, 10, 90⟩] {} =
        .ok ([0, 0, 250, -100], { longs := [], shorts := [⟨5, 90⟩] }) := by decide +kernel
  rw [hvalue] at hrun
  cases hrun
  refine ⟨_, _, hvalue, rfl, rfl, ?_⟩
  rw [hsum]
  decide +kernel

end Runs

end Trademetrix.ExecutionEngine
