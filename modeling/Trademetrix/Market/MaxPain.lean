import Mathlib.Data.Rat.Init
import Mathlib.Tactic.NormNum
import Trademetrix.Balance

/-!
# Max pain

`calculate_max_pain` credits calls with the distance to the strikes above a point
and puts with the distance to those below, the other way round from what their
holders are owed when the market settles there.
-/

namespace Trademetrix.Market

open Balance (Balanced)

/-- The `call` or the `put` of a row. -/
structure ChainQuote where
  oi : Option ℚ := none
  deriving DecidableEq

/-- A row of `optionChain`. -/
structure ChainRow where
  strike : Option ℚ := none
  call : Option ChainQuote := none
  put : Option ChainQuote := none
  deriving DecidableEq

namespace ChainRow

variable (row : ChainRow)

def strikePrice : ℚ := row.strike.getD 0

def callOi : ℚ := (row.call.getD {}).oi.getD 0

def putOi : ℚ := (row.put.getD {}).oi.getD 0

end ChainRow

open ChainRow

section Code

variable (chain : List ChainRow)

/-- The inner loop of `calculate_max_pain`. -/
def pain (strike : ℚ) : ℚ :=
  chain.foldl (fun pain other =>
    if strike < other.strikePrice then pain + (other.strikePrice - strike) * other.callOi
    else if other.strikePrice < strike then pain + (strike - other.strikePrice) * other.putOi
    else pain) 0

def calculateMaxPain : ℚ :=
  ((chain.argmin fun row => pain chain row.strikePrice).map strikePrice).getD 0

end Code

section Settlement

variable (chain : List ChainRow)

/-- What the holders are owed when the market settles at `price`. -/
def owed (price : ℚ) : ℚ :=
  (chain.map fun row =>
    row.callOi * max (price - row.strikePrice) 0 + row.putOi * max (row.strikePrice - price) 0).sum

def IsMaxPain (strike : ℚ) : Prop :=
  strike ∈ chain.map strikePrice ∧ ∀ other ∈ chain.map strikePrice, owed chain strike ≤ owed chain other

/-- The calls above against the puts below, as `calculate_max_pain` weighs them. -/
def BalancedAsWeighed (row : ChainRow) : Prop :=
  Balanced strikePrice callOi putOi chain row.strikePrice

def BalancedAsOwed (row : ChainRow) : Prop :=
  Balanced strikePrice putOi callOi chain row.strikePrice

end Settlement

variable {chain : List ChainRow}

theorem pain_eq_cost (strike : ℚ) :
    pain chain strike = Balance.cost strikePrice callOi putOi chain strike := by
  have hfold : ∀ (rows : List ChainRow) (acc : ℚ),
      rows.foldl (fun pain other =>
        if strike < other.strikePrice then pain + (other.strikePrice - strike) * other.callOi
        else if other.strikePrice < strike then pain + (strike - other.strikePrice) * other.putOi
        else pain) acc = acc + Balance.cost strikePrice callOi putOi rows strike := by
    intro rows
    induction rows with
    | nil => simp [Balance.cost]
    | cons row rows ih =>
      intro acc
      rw [List.foldl_cons, ih]
      simp only [Balance.cost, Balance.share, List.map_cons, List.sum_cons]
      split_ifs <;> ring
  rw [pain, hfold, zero_add]

theorem owed_eq_cost (price : ℚ) :
    owed chain price = Balance.cost strikePrice putOi callOi chain price := by
  unfold owed Balance.cost
  congr 1
  refine List.map_congr_left fun row _ => ?_
  unfold Balance.share
  rcases lt_trichotomy row.strikePrice price with h | h | h
  · rw [if_neg h.not_gt, if_pos h, max_eq_left (sub_nonneg.mpr h.le),
      max_eq_right (sub_nonpos.mpr h.le)]
    ring
  · simp [h]
  · rw [if_pos h, max_eq_right (sub_nonpos.mpr h.le), max_eq_left (sub_nonneg.mpr h.le)]
    ring

section Rows

variable (hoi : ∀ row ∈ chain, 0 ≤ row.callOi ∧ 0 ≤ row.putOi)
include hoi

theorem balancedAsWeighed_iff (row : ChainRow) :
    BalancedAsWeighed chain row ↔
      ∀ other ∈ chain, pain chain row.strikePrice ≤ pain chain other.strikePrice := by
  simp only [pain_eq_cost]
  exact (Balance.least_iff (fun r hr => (hoi r hr).1) (fun r hr => (hoi r hr).2) _).symm

theorem balancedAsOwed_iff (row : ChainRow) :
    BalancedAsOwed chain row ↔
      ∀ other ∈ chain, owed chain row.strikePrice ≤ owed chain other.strikePrice := by
  simp only [owed_eq_cost]
  exact (Balance.least_iff (fun r hr => (hoi r hr).2) (fun r hr => (hoi r hr).1) _).symm

theorem mem_argmin_pain_iff (row : ChainRow) :
    row ∈ chain.argmin (fun row => pain chain row.strikePrice) ↔
      row ∈ chain ∧ BalancedAsWeighed chain row ∧
        ∀ other ∈ chain, BalancedAsWeighed chain other → chain.idxOf row ≤ chain.idxOf other := by
  rw [List.mem_argmin_iff, balancedAsWeighed_iff hoi row]
  constructor
  · rintro ⟨hmem, hleast, hfirst⟩
    refine ⟨hmem, hleast, fun other hother hbalanced => hfirst other hother ?_⟩
    exact (balancedAsWeighed_iff hoi other).mp hbalanced row hmem
  · rintro ⟨hmem, hleast, hfirst⟩
    refine ⟨hmem, hleast, fun other hother hle => hfirst other hother ?_⟩
    rw [balancedAsWeighed_iff hoi other]
    exact fun third hthird => hle.trans (hleast third hthird)

/-- The strike is one of max pain exactly when the first row that balances as the
code weighs balances as the holders are owed too. -/
theorem isMaxPain_calculateMaxPain_iff :
    IsMaxPain chain (calculateMaxPain chain) ↔
      ∃ row ∈ chain, BalancedAsWeighed chain row ∧ BalancedAsOwed chain row ∧
        ∀ other ∈ chain, BalancedAsWeighed chain other → chain.idxOf row ≤ chain.idxOf other := by
  constructor
  · rintro ⟨hlisted, hleast⟩
    cases hmin : chain.argmin fun row => pain chain row.strikePrice with
    | none =>
      rw [List.argmin_eq_none.mp hmin] at hlisted
      cases hlisted
    | some row =>
      obtain ⟨hmem, hweighed, hfirst⟩ := (mem_argmin_pain_iff hoi row).mp (Option.mem_def.mpr hmin)
      have hresult : calculateMaxPain chain = row.strikePrice := by
        simp [calculateMaxPain, hmin]
      refine ⟨row, hmem, hweighed, (balancedAsOwed_iff hoi row).mpr fun other hother => ?_, hfirst⟩
      rw [← hresult]
      exact hleast _ (List.mem_map_of_mem hother)
  · rintro ⟨row, hmem, hweighed, howed, hfirst⟩
    have hmin := Option.mem_def.mp ((mem_argmin_pain_iff hoi row).mpr ⟨hmem, hweighed, hfirst⟩)
    have hresult : calculateMaxPain chain = row.strikePrice := by
      simp [calculateMaxPain, hmin]
    rw [hresult]
    refine ⟨List.mem_map_of_mem hmem, fun price hprice => ?_⟩
    obtain ⟨other, hother, rfl⟩ := List.mem_map.mp hprice
    exact (balancedAsOwed_iff hoi row).mp howed other hother

omit hoi in
/-- The calls are written above, the puts below, and there are more of the calls. -/
theorem calculateMaxPain_callHeavy :
    let chain : List ChainRow :=
      [⟨some 100, some ⟨some 10⟩, some ⟨some 10⟩⟩, ⟨some 110, some ⟨some 50⟩, some ⟨some 5⟩⟩,
        ⟨some 120, some ⟨some 100⟩, some ⟨some 1⟩⟩]
    (chain.map strikePrice).Nodup ∧ (∀ row ∈ chain, 0 ≤ row.callOi ∧ 0 ≤ row.putOi) ∧
      calculateMaxPain chain = 120 ∧ owed chain 100 < owed chain 120 ∧
      ¬ IsMaxPain chain (calculateMaxPain chain) := by
  intro chain
  have hresult : calculateMaxPain chain = 120 := by decide +kernel
  have howed : owed chain 100 < owed chain 120 := by decide +kernel
  refine ⟨by decide, by decide, hresult, howed, fun h => ?_⟩
  rw [hresult] at h
  exact (h.2 100 (by decide)).not_gt howed

omit hoi in
theorem isMaxPain_calculateMaxPain_iff_oneRow :
    let chain : List ChainRow := [⟨some 100, some ⟨some 10⟩, some ⟨some 10⟩⟩]
    IsMaxPain chain (calculateMaxPain chain) ↔
      ∃ row ∈ chain, BalancedAsWeighed chain row ∧ BalancedAsOwed chain row ∧
        ∀ other ∈ chain, BalancedAsWeighed chain other → chain.idxOf row ≤ chain.idxOf other :=
  isMaxPain_calculateMaxPain_iff (by decide)

theorem isMaxPain_of_equal_totals (hchain : chain ≠ [])
    (htotal : (chain.map callOi).sum = (chain.map putOi).sum) :
    IsMaxPain chain (calculateMaxPain chain) := by
  rw [isMaxPain_calculateMaxPain_iff hoi]
  obtain ⟨row, hrow⟩ := Option.ne_none_iff_exists'.mp
    fun h => hchain (List.argmin_eq_none (f := fun row => pain chain row.strikePrice).mp h)
  obtain ⟨hmem, hweighed, hfirst⟩ := (mem_argmin_pain_iff hoi row).mp (Option.mem_def.mpr hrow)
  refine ⟨row, hmem, hweighed, ?_, hfirst⟩
  exact (Balance.balanced_swap (fun r hr => (hoi r hr).1) (fun r hr => (hoi r hr).2) htotal _).mp
    hweighed

end Rows

end Trademetrix.Market
