import Mathlib.Algebra.BigOperators.Group.List.Basic
import Mathlib.Algebra.Order.Field.Basic
import Mathlib.Algebra.Order.Group.Unbundled.Int
import Mathlib.Data.Int.Cast.Lemmas
import Mathlib.Tactic.LinearCombination
import Mathlib.Tactic.Linarith
import Mathlib.Tactic.Ring

/-!
# Average-cost accounting

A signed holding with what its open side cost. What is closed leaves at the mean
and realises the difference to it; what goes beyond opens the other side anew.
-/

namespace Trademetrix.AverageCost

section Signs

variable {q d : ℤ}

theorem adds_sign (hq : q ≠ 0) (h : 0 ≤ q * d) : (q + d).sign = q.sign ∧ |d| = q.sign * d := by
  rcases hq.lt_or_gt with hneg | hpos
  · have hd : d ≤ 0 := by nlinarith
    rw [Int.sign_eq_neg_one_of_neg hneg, Int.sign_eq_neg_one_of_neg (by omega), abs_of_nonpos hd]
    omega
  · have hd : 0 ≤ d := by nlinarith
    rw [Int.sign_eq_one_of_pos hpos, Int.sign_eq_one_of_pos (by omega), abs_of_nonneg hd]
    omega

theorem closes_sign (h : q * d < 0) (hle : |d| ≤ |q|) :
    |d| = -(q.sign * d) ∧ ((q + d).sign = q.sign ∨ q + d = 0) := by
  rcases lt_trichotomy q 0 with hneg | rfl | hpos
  · have hd : 0 < d := by nlinarith
    rw [abs_of_pos hd, abs_of_neg hneg] at hle
    rw [Int.sign_eq_neg_one_of_neg hneg, abs_of_pos hd]
    rcases eq_or_ne (q + d) 0 with h0 | h0
    · exact ⟨by omega, .inr h0⟩
    · exact ⟨by omega, .inl (Int.sign_eq_neg_one_of_neg (by omega))⟩
  · simp at h
  · have hd : d < 0 := by nlinarith
    rw [abs_of_neg hd, abs_of_pos hpos] at hle
    rw [Int.sign_eq_one_of_pos hpos, abs_of_neg hd]
    rcases eq_or_ne (q + d) 0 with h0 | h0
    · exact ⟨by omega, .inr h0⟩
    · exact ⟨by omega, .inl (Int.sign_eq_one_of_pos (by omega))⟩

theorem turns_sign (h : q * d < 0) (hlt : |q| < |d|) :
    (q + d).sign = -q.sign ∧ |q + d| = -(q.sign * (q + d)) := by
  rcases lt_trichotomy q 0 with hneg | rfl | hpos
  · have hd : 0 < d := by nlinarith
    rw [abs_of_pos hd, abs_of_neg hneg] at hlt
    have hsum : 0 < q + d := by omega
    rw [Int.sign_eq_neg_one_of_neg hneg, Int.sign_eq_one_of_pos hsum, abs_of_pos hsum]
    omega
  · simp at h
  · have hd : d < 0 := by nlinarith
    rw [abs_of_neg hd, abs_of_pos hpos] at hlt
    have hsum : q + d < 0 := by omega
    rw [Int.sign_eq_one_of_pos hpos, Int.sign_eq_neg_one_of_neg hsum, abs_of_neg hsum]
    omega

end Signs

/-- `cost` is what the open side cost, or brought if it is short. -/
structure Holding (K : Type) where
  quantity : ℤ
  cost : K
  realised : K

namespace Holding

variable {K : Type} [Field K]

def empty : Holding K := ⟨0, 0, 0⟩

def Adds (h : Holding K) (d : ℤ) : Prop := 0 ≤ h.quantity * d

def Turns (h : Holding K) (d : ℤ) : Prop := h.quantity * d < 0 ∧ |h.quantity| < |d|

instance (h : Holding K) (d : ℤ) : Decidable (h.Adds d) := inferInstanceAs (Decidable (_ ≤ _))

instance (h : Holding K) (d : ℤ) : Decidable (h.Turns d) := inferInstanceAs (Decidable (_ ∧ _))

def mean (h : Holding K) : K := h.cost / (|h.quantity| : ℤ)

def side (h : Holding K) : K := (h.quantity.sign : ℤ)

def basis (h : Holding K) : K := h.side * h.cost

/-- The quantity `d` is bought, or sold if it is negative, at the price `p`. -/
def fill (h : Holding K) (d : ℤ) (p : K) : Holding K :=
  if h.Adds d then ⟨h.quantity + d, h.cost + (|d| : ℤ) * p, h.realised⟩
  else if h.Turns d then
    ⟨h.quantity + d, (|h.quantity + d| : ℤ) * p,
      h.realised + h.side * (p - h.mean) * (|h.quantity| : ℤ)⟩
  else
    ⟨h.quantity + d, h.cost - (|d| : ℤ) * h.mean, h.realised + h.side * (p - h.mean) * (|d| : ℤ)⟩

def fills (h : Holding K) (ds : List (ℤ × K)) : Holding K :=
  ds.foldl (fun h x => h.fill x.1 x.2) h

def Settled (h : Holding K) : Prop := h.quantity = 0 → h.cost = 0

theorem settled_empty : (empty : Holding K).Settled := fun _ => rfl

variable {h : Holding K}

theorem side_mul_self (hq : h.quantity ≠ 0) : h.side * h.side = 1 := by
  have hsign : h.quantity.sign * h.quantity.sign = 1 := by
    rcases hq.lt_or_gt with hneg | hpos
    · rw [Int.sign_eq_neg_one_of_neg hneg]
      rfl
    · rw [Int.sign_eq_one_of_pos hpos]
      rfl
  unfold side
  exact_mod_cast congrArg (Int.cast : ℤ → K) hsign

structure Conserves (h h' : Holding K) (d : ℤ) (p : K) : Prop where
  settled : h'.Settled
  basis : h'.basis + h.realised = h.basis + d * p + h'.realised

theorem fill_adds (hq : h.quantity ≠ 0) {d : ℤ} (hadds : h.Adds d) (p : K) :
    h.Conserves (h.fill d p) d p := by
  have hone := side_mul_self hq
  obtain ⟨hsign, habs⟩ := adds_sign hq hadds
  have habs' : ((|d| : ℤ) : K) = h.side * d := by
    rw [habs, side, Int.cast_mul]
  have hne : h.quantity + d ≠ 0 := by
    intro h0
    rw [h0, Int.sign_zero] at hsign
    exact hq (Int.sign_eq_zero_iff_zero.mp hsign.symm)
  unfold fill
  rw [if_pos hadds]
  constructor
  · exact fun h0 => absurd h0 hne
  · have hside : ((h.quantity + d).sign : K) = h.side := by rw [hsign, side]
    rw [habs', Holding.basis, Holding.basis, side]
    dsimp only
    rw [hside]
    linear_combination d * p * hone

variable [CharZero K]

theorem mean_mul (hs : h.Settled) : h.mean * (|h.quantity| : ℤ) = h.cost := by
  unfold mean
  by_cases hq : h.quantity = 0
  · simp [hq, hs hq]
  · have hne : ((|h.quantity| : ℤ) : K) ≠ 0 := by simpa using hq
    exact div_mul_cancel₀ _ hne

theorem mean_mul_quantity (hs : h.Settled) : h.mean * (h.quantity : K) = h.basis := by
  have hsign : (h.quantity : K) = h.side * (|h.quantity| : ℤ) := by
    unfold side
    exact_mod_cast (congrArg (Int.cast : ℤ → K) (Int.sign_mul_abs h.quantity)).symm
  rw [basis, ← mean_mul hs, hsign]
  ring

theorem fill_opens (hs : h.Settled) (hq : h.quantity = 0) (d : ℤ) (p : K) :
    h.Conserves (h.fill d p) d p := by
  have hadds : h.Adds d := by simp [Adds, hq]
  have hsign : ((d.sign : ℤ) : K) * (|d| : ℤ) = d := by exact_mod_cast Int.sign_mul_abs d
  unfold fill
  rw [if_pos hadds]
  constructor
  · intro h0
    have hd : d = 0 := by simpa [hq] using h0
    simp [hs hq, hd]
  · simp only [Holding.basis, side, hq, hs hq, zero_add, Int.sign_zero, Int.cast_zero, zero_mul]
    linear_combination p * hsign

theorem fill_turns (hs : h.Settled) {d : ℤ} (hturns : h.Turns d) (p : K) :
    h.Conserves (h.fill d p) d p := by
  have hadds : ¬h.Adds d := not_le.mpr hturns.1
  have hq : h.quantity ≠ 0 := by
    intro h0
    simp [Turns, h0] at hturns
  have hone := side_mul_self hq
  obtain ⟨hsign, habs⟩ := turns_sign hturns.1 hturns.2
  have habs' : ((|h.quantity + d| : ℤ) : K) = -(h.side * (h.quantity + d)) := by
    rw [habs, side]
    push_cast
    ring
  have hne : h.quantity + d ≠ 0 := by
    intro h0
    rw [h0, Int.sign_zero] at hsign
    exact hq (Int.sign_eq_zero_iff_zero.mp (by omega))
  have hheld : h.side * (|h.quantity| : ℤ) = h.quantity := by
    rw [side, ← Int.cast_mul, Int.sign_mul_abs]
  unfold fill
  rw [if_neg hadds, if_pos hturns]
  constructor
  · exact fun h0 => absurd h0 hne
  · have hside : ((h.quantity + d).sign : K) = -h.side := by rw [hsign, side, Int.cast_neg]
    rw [habs', ← mean_mul_quantity hs, Holding.basis, side]
    dsimp only
    rw [hside]
    linear_combination (h.quantity + d : K) * p * hone - (p - h.mean) * hheld

theorem fill_closes (hs : h.Settled) {d : ℤ} (hadds : ¬h.Adds d) (hturns : ¬h.Turns d) (p : K) :
    h.Conserves (h.fill d p) d p := by
  have hagainst : h.quantity * d < 0 := not_le.mp hadds
  have hle : |d| ≤ |h.quantity| := not_lt.mp fun hlt => hturns ⟨hagainst, hlt⟩
  have hq : h.quantity ≠ 0 := by
    intro h0
    simp [h0] at hagainst
  have hone := side_mul_self hq
  obtain ⟨habs, hsign⟩ := closes_sign hagainst hle
  have habs' : ((|d| : ℤ) : K) = -(h.side * d) := by
    rw [habs, side, Int.cast_neg, Int.cast_mul]
  have hcost : h.quantity + d = 0 → h.cost - (|d| : ℤ) * h.mean = 0 := by
    intro h0
    have hall : |d| = |h.quantity| := by rw [show d = -h.quantity by omega, abs_neg]
    rw [hall, ← mean_mul hs]
    ring
  unfold fill
  rw [if_neg hadds, if_neg hturns]
  constructor
  · exact hcost
  · have hbasis : ((h.quantity + d).sign : K) * (h.cost - (|d| : ℤ) * h.mean) =
        h.side * (h.cost - (|d| : ℤ) * h.mean) := by
      rcases hsign with hsame | h0
      · rw [hsame, side]
      · rw [hcost h0]
        ring
    rw [Holding.basis, Holding.basis, side]
    dsimp only
    rw [hbasis, habs']
    linear_combination p * d * hone

theorem basis_fill (hs : h.Settled) (d : ℤ) (p : K) : h.Conserves (h.fill d p) d p := by
  by_cases hq : h.quantity = 0
  · exact fill_opens hs hq d p
  · by_cases hadds : h.Adds d
    · exact fill_adds hq hadds p
    · by_cases hturns : h.Turns d
      · exact fill_turns hs hturns p
      · exact fill_closes hs hadds hturns p

theorem basis_fills (hs : h.Settled) (ds : List (ℤ × K)) :
    (h.fills ds).Settled ∧
      (h.fills ds).basis + h.realised =
        h.basis + (ds.map fun x => (x.1 : K) * x.2).sum + (h.fills ds).realised := by
  induction ds generalizing h with
  | nil => exact ⟨hs, by simp [fills]⟩
  | cons x ds ih =>
    obtain ⟨hs', hstep⟩ := basis_fill hs x.1 x.2
    obtain ⟨hs'', hrest⟩ := ih hs'
    refine ⟨hs'', ?_⟩
    rw [List.map_cons, List.sum_cons]
    simp only [fills, List.foldl_cons] at hrest ⊢
    linear_combination hstep + hrest

end Holding

end Trademetrix.AverageCost
