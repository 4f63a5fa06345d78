import Mathlib.Tactic.Linarith

/-!
# Folds of a range

A range cut into a number of folds of one length, of which the last takes the
rest. Every number below the end of the range is in exactly one of them.
-/

namespace Trademetrix.Folds

variable {n w i j k : ℕ}

def fold (n w i : ℕ) : ℕ × ℕ := (i * (n / w), if i < w - 1 then (i + 1) * (n / w) else n)

def Within (b : ℕ × ℕ) (k : ℕ) : Prop := b.1 ≤ k ∧ k < b.2

instance (b : ℕ × ℕ) (k : ℕ) : Decidable (Within b k) := inferInstanceAs (Decidable (_ ∧ _))

theorem mul_le_of_lt (hi : i < w) : (i + 1) * (n / w) ≤ n :=
  (Nat.mul_le_mul_right _ hi).trans (Nat.mul_div_le n w)

theorem fold_snd (hi : i + 1 < w) : (fold n w i).2 = (fold n w (i + 1)).1 := if_pos (by omega)

theorem fold_snd_le (hi : i < w) : (fold n w i).2 ≤ n := by
  unfold fold
  dsimp only
  split
  · exact mul_le_of_lt hi
  · exact le_rfl

theorem fold_nonempty (hi : i < w) (hlen : 0 < n / w) : (fold n w i).1 < (fold n w i).2 := by
  have hlast := mul_le_of_lt (n := n) hi
  unfold fold
  dsimp only
  rw [Nat.add_mul, Nat.one_mul] at hlast ⊢
  split <;> omega

theorem fst_le_of_lt (hij : i < j) (hj : j < w) : (fold n w i).2 ≤ (fold n w j).1 := by
  rw [fold_snd (by omega)]
  exact Nat.mul_le_mul_right _ hij

theorem within_unique (hi : i < w) (hj : j < w) (hik : Within (fold n w i) k)
    (hjk : Within (fold n w j) k) : i = j := by
  rcases lt_trichotomy i j with hlt | heq | hgt
  · exact absurd (hik.2.trans_le (fst_le_of_lt hlt hj)) (not_lt.mpr hjk.1)
  · exact heq
  · exact absurd (hjk.2.trans_le (fst_le_of_lt hgt hi)) (not_lt.mpr hik.1)

theorem exists_within (hw : 0 < w) (hlen : 0 < n / w) (hk : k < n) :
    ∃ i < w, Within (fold n w i) k := by
  by_cases hlast : (w - 1) * (n / w) ≤ k
  · exact ⟨w - 1, by omega, hlast, by simpa [fold] using hk⟩
  · have hlt : k / (n / w) < w - 1 := (Nat.div_lt_iff_lt_mul hlen).mpr (not_le.mp hlast)
    refine ⟨k / (n / w), by omega, Nat.div_mul_le_self _ _, ?_⟩
    unfold fold
    dsimp only
    rw [if_pos hlt]
    exact Nat.lt_mul_of_div_lt (Nat.lt_succ_self _) hlen

theorem existsUnique_within (hw : 0 < w) (hlen : 0 < n / w) (hk : k < n) :
    ∃! i, i < w ∧ Within (fold n w i) k := by
  obtain ⟨i, hi, hik⟩ := exists_within hw hlen hk
  exact ⟨i, ⟨hi, hik⟩, fun j hj => within_unique hj.1 hi hj.2 hik⟩

def before (n w i : ℕ) : ℕ × ℕ := ((fold n w i).1 - n / w, (fold n w i).1)

theorem before_zero (n w : ℕ) : before n w 0 = (0, 0) := by simp [before, fold]

theorem before_succ (hi : i + 1 < w) : before n w (i + 1) = fold n w i := by
  refine Prod.ext ?_ (fold_snd hi).symm
  simp only [before, fold]
  rw [Nat.add_mul, Nat.one_mul, Nat.add_sub_cancel]

end Trademetrix.Folds
