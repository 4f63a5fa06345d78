import Mathlib.Algebra.BigOperators.Group.List.Basic
import Mathlib.Algebra.Order.BigOperators.Group.List
import Mathlib.Algebra.Order.Field.Basic
import Mathlib.Data.List.MinMax
import Mathlib.Tactic.Linarith
import Mathlib.Tactic.LinearCombination
import Mathlib.Tactic.Ring

/-!
# Balance points of weights on a line

A point pays its distance to each weight: to `up` where the weight lies above it,
to `down` where it lies below. Among the places of the weights the cost is least
exactly where the weights balance.
-/

namespace Trademetrix.Balance

variable {α K : Type} [Field K] [LinearOrder K] [IsStrictOrderedRing K]
variable (pos up down : α → K) (xs : List α)

/-- What a point at `s` pays to one weight. -/
def share (s : K) (x : α) : K :=
  if s < pos x then (pos x - s) * up x else if pos x < s then (s - pos x) * down x else 0

def cost (s : K) : K := (xs.map (share pos up down s)).sum

/-- The weight of `w` strictly above a point, and at or above it. -/
def above (w : α → K) (s : K) : K := (xs.map fun x => if s < pos x then w x else 0).sum

def atLeast (w : α → K) (s : K) : K := (xs.map fun x => if s ≤ pos x then w x else 0).sum

def below (w : α → K) (s : K) : K := (xs.map fun x => if pos x < s then w x else 0).sum

def atMost (w : α → K) (s : K) : K := (xs.map fun x => if pos x ≤ s then w x else 0).sum

structure Balanced (s : K) : Prop where
  upward : above pos xs up s ≤ atMost pos xs down s
  downward : below pos xs down s ≤ atLeast pos xs up s

variable {pos up down xs}

theorem cost_add_le (hup : ∀ x ∈ xs, 0 ≤ up x) (hdown : ∀ x ∈ xs, 0 ≤ down x) {s t : K}
    (hst : s < t) :
    cost pos up down xs s + (t - s) * (atMost pos xs down s - above pos xs up s) ≤
      cost pos up down xs t := by
  induction xs with
  | nil => simp [cost, atMost, above]
  | cons x xs ih =>
    have ih := ih (fun y hy => hup y (List.mem_cons_of_mem x hy))
      fun y hy => hdown y (List.mem_cons_of_mem x hy)
    have hux : 0 ≤ up x := hup x List.mem_cons_self
    have hdx : 0 ≤ down x := hdown x List.mem_cons_self
    have hx : share pos up down s x +
        (t - s) * ((if pos x ≤ s then down x else 0) - (if s < pos x then up x else 0)) ≤
          share pos up down t x := by
      unfold share
      rcases lt_trichotomy (pos x) s with hlt | heq | hgt
      · rw [if_neg hlt.not_gt, if_pos hlt, if_pos hlt.le, if_neg hlt.not_gt,
          if_neg (hlt.trans hst).not_gt, if_pos (hlt.trans hst)]
        linarith
      · rw [← heq] at hst ⊢
        simp only [lt_irrefl, if_false, le_refl, if_true, hst.not_gt, hst]
        linarith
      · rw [if_pos hgt, if_neg hgt.not_ge, if_pos hgt]
        rcases lt_trichotomy (pos x) t with hxt | hxt | hxt
        · rw [if_neg hxt.not_gt, if_pos hxt]
          nlinarith [mul_nonneg (sub_nonneg.mpr hxt.le) hdx, mul_nonneg (sub_nonneg.mpr hxt.le) hux]
        · simp only [hxt, lt_irrefl, if_false]
          linarith
        · rw [if_pos hxt]
          linarith
    simp only [cost, atMost, above, List.map_cons, List.sum_cons] at ih ⊢
    linarith

theorem cost_add_eq {s t : K} (hst : s < t) (hgap : ∀ x ∈ xs, pos x ≤ s ∨ t ≤ pos x) :
    cost pos up down xs s + (t - s) * (atMost pos xs down s - above pos xs up s) =
      cost pos up down xs t := by
  induction xs with
  | nil => simp [cost, atMost, above]
  | cons x xs ih =>
    have ih := ih fun y hy => hgap y (List.mem_cons_of_mem x hy)
    have hx : share pos up down s x +
        (t - s) * ((if pos x ≤ s then down x else 0) - (if s < pos x then up x else 0)) =
          share pos up down t x := by
      unfold share
      rcases hgap x List.mem_cons_self with hle | hge
      · have hxt : pos x < t := hle.trans_lt hst
        rw [if_neg hle.not_gt, if_pos hle, if_neg hle.not_gt, if_neg hxt.not_gt, if_pos hxt]
        rcases hle.lt_or_eq with hlt | heq
        · rw [if_pos hlt]
          ring
        · rw [if_neg (heq ▸ lt_irrefl _), heq]
          ring
      · have hsx : s < pos x := hst.trans_le hge
        rw [if_pos hsx, if_neg hsx.not_ge, if_pos hsx, if_neg hge.not_gt]
        rcases hge.lt_or_eq with hlt | heq
        · rw [if_pos hlt]
          ring
        · rw [if_neg (heq ▸ lt_irrefl _), ← heq]
          ring
    simp only [cost, atMost, above, List.map_cons, List.sum_cons] at ih ⊢
    linear_combination ih + hx

theorem cost_neg (s : K) : cost (fun x => -pos x) down up xs (-s) = cost pos up down xs s := by
  unfold cost
  congr 1
  refine List.map_congr_left fun x _ => ?_
  simp only [share, neg_lt_neg_iff]
  rcases lt_trichotomy (pos x) s with h | h | h
  · rw [if_pos h, if_neg h.not_gt, if_pos h]
    ring
  · simp [h]
  · rw [if_neg h.not_gt, if_pos h, if_pos h]
    ring

theorem above_neg (w : α → K) (s : K) : above (fun x => -pos x) xs w (-s) = below pos xs w s := by
  simp [above, below]

theorem atMost_neg (w : α → K) (s : K) : atMost (fun x => -pos x) xs w (-s) = atLeast pos xs w s := by
  simp [atMost, atLeast]

theorem upward_iff (hup : ∀ x ∈ xs, 0 ≤ up x) (hdown : ∀ x ∈ xs, 0 ≤ down x) (s : K) :
    (∀ y ∈ xs, s < pos y → cost pos up down xs s ≤ cost pos up down xs (pos y)) ↔
      above pos xs up s ≤ atMost pos xs down s := by
  constructor
  · intro h
    cases hnext : (xs.filter fun y => s < pos y).argmin pos with
    | none =>
      have hnone : ∀ y ∈ xs, ¬ s < pos y := by simpa [List.argmin_eq_none] using hnext
      have habove : above pos xs up s = 0 := by
        refine List.sum_eq_zero fun w hw => ?_
        obtain ⟨y, hy, rfl⟩ := List.mem_map.mp hw
        exact if_neg (hnone y hy)
      rw [habove]
      refine List.sum_nonneg fun w hw => ?_
      obtain ⟨y, hy, rfl⟩ := List.mem_map.mp hw
      split
      · exact hdown y hy
      · exact le_rfl
    | some y =>
      have hy : y ∈ xs ∧ s < pos y := by simpa using List.argmin_mem hnext
      -- the next place up: nothing lies between
      have hgap : ∀ x ∈ xs, pos x ≤ s ∨ pos y ≤ pos x := by
        intro x hx
        rcases le_or_gt (pos x) s with hle | hgt
        · exact .inl hle
        · exact .inr (List.le_of_mem_argmin (List.mem_filter.mpr ⟨hx, by simpa using hgt⟩) hnext)
      have hstep := @cost_add_eq _ _ _ _ _ pos up down xs s (pos y) hy.2 hgap
      have hle := h y hy.1 hy.2
      have hpos : 0 < pos y - s := sub_pos.mpr hy.2
      by_contra hlt
      nlinarith [mul_pos hpos (sub_pos.mpr (not_le.mp hlt))]
  · intro h y _ hsy
    have hstep := @cost_add_le _ _ _ _ _ pos up down xs hup hdown s (pos y) hsy
    nlinarith [mul_nonneg (sub_pos.mpr hsy).le (sub_nonneg.mpr h)]

theorem downward_iff (hup : ∀ x ∈ xs, 0 ≤ up x) (hdown : ∀ x ∈ xs, 0 ≤ down x) (s : K) :
    (∀ y ∈ xs, pos y < s → cost pos up down xs s ≤ cost pos up down xs (pos y)) ↔
      below pos xs down s ≤ atLeast pos xs up s := by
  have h := @upward_iff _ _ _ _ _ (fun x => -pos x) down up xs hdown hup (-s)
  simpa only [neg_lt_neg_iff, cost_neg, above_neg, atMost_neg] using h

theorem least_iff (hup : ∀ x ∈ xs, 0 ≤ up x) (hdown : ∀ x ∈ xs, 0 ≤ down x) (s : K) :
    (∀ y ∈ xs, cost pos up down xs s ≤ cost pos up down xs (pos y)) ↔
      Balanced pos up down xs s := by
  constructor
  · intro h
    exact ⟨(upward_iff hup hdown s).mp fun y hy _ => h y hy,
      (downward_iff hup hdown s).mp fun y hy _ => h y hy⟩
  · intro h y hy
    rcases lt_trichotomy (pos y) s with hlt | heq | hgt
    · exact (downward_iff hup hdown s).mpr h.downward y hy hlt
    · rw [heq]
    · exact (upward_iff hup hdown s).mpr h.upward y hy hgt

theorem cost_swap (s : K) :
    cost pos up down xs s + s * (xs.map up).sum + (xs.map fun x => pos x * down x).sum =
      cost pos down up xs s + s * (xs.map down).sum + (xs.map fun x => pos x * up x).sum := by
  induction xs with
  | nil => simp [cost]
  | cons x xs ih =>
    have hx : share pos up down s x + s * up x + pos x * down x =
        share pos down up s x + s * down x + pos x * up x := by
      unfold share
      split_ifs with habove hbelow
      · ring
      · ring
      · rw [le_antisymm (not_lt.mp habove) (not_lt.mp hbelow)]
        ring
    simp only [cost, List.map_cons, List.sum_cons] at ih ⊢
    linear_combination ih + hx

theorem balanced_swap (hup : ∀ x ∈ xs, 0 ≤ up x) (hdown : ∀ x ∈ xs, 0 ≤ down x)
    (htotal : (xs.map up).sum = (xs.map down).sum) (s : K) :
    Balanced pos up down xs s ↔ Balanced pos down up xs s := by
  rw [← least_iff hup hdown, ← least_iff hdown hup]
  refine forall₂_congr fun y _ => ?_
  have hs := @cost_swap _ _ _ _ _ pos up down xs s
  have hy := @cost_swap _ _ _ _ _ pos up down xs (pos y)
  rw [htotal] at hs hy
  constructor <;> intro h <;> linarith

end Trademetrix.Balance
