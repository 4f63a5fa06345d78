import Mathlib.Data.List.Basic

/-!
# Openings and closings

A log in which whatever is opened is closed before the next is opened.
-/

namespace Trademetrix

variable {α : Type} {Opens : α → Prop} {Closes : α → α → Prop} {l : List α} {o : Option α}

inductive Alternates (Opens : α → Prop) (Closes : α → α → Prop) : List α → Option α → Prop
  | nil : Alternates Opens Closes [] none
  | opens {l : List α} {a : α} (h : Alternates Opens Closes l none) (ha : Opens a) :
      Alternates Opens Closes (l ++ [a]) (some a)
  | closes {l : List α} {a b : α} (h : Alternates Opens Closes l (some a)) (hb : Closes a b) :
      Alternates Opens Closes (l ++ [b]) none

namespace Alternates

theorem snoc_of_some {a : α} (h : Alternates Opens Closes l (some a)) :
    ∃ l', l = l' ++ [a] ∧ Alternates Opens Closes l' none ∧ Opens a := by
  cases h with
  | opens h ha => exact ⟨_, rfl, h, ha⟩

theorem pairs_of_none (n : ℕ) (hn : l.length ≤ n) (h : Alternates Opens Closes l none) :
    ∃ ps : List (α × α), (∀ p ∈ ps, Opens p.1 ∧ Closes p.1 p.2) ∧
      l = ps.flatMap fun p => [p.1, p.2] := by
  induction n generalizing l with
  | zero =>
    refine ⟨[], nofun, ?_⟩
    exact List.length_eq_zero_iff.mp (Nat.le_zero.mp hn)
  | succ n ih =>
    cases h with
    | nil => exact ⟨[], nofun, rfl⟩
    | @closes l a b h hb =>
      obtain ⟨l', hl', hnone, ha⟩ := h.snoc_of_some
      have hlen : l'.length ≤ n := by
        rw [hl', List.length_append, List.length_append, List.length_singleton,
          List.length_singleton] at hn
        omega
      obtain ⟨ps, hps, hl⟩ := ih hlen hnone
      refine ⟨ps ++ [(a, b)], fun p hp => ?_, ?_⟩
      · cases List.mem_append.mp hp with
        | inl hp => exact hps p hp
        | inr hp => exact List.mem_singleton.mp hp ▸ ⟨ha, hb⟩
      · rw [hl', hl, List.flatMap_append]
        simp

theorem pairs (h : Alternates Opens Closes l o) :
    ∃ ps : List (α × α), (∀ p ∈ ps, Opens p.1 ∧ Closes p.1 p.2) ∧
      l = (ps.flatMap fun p => [p.1, p.2]) ++ o.toList := by
  cases o with
  | none =>
    obtain ⟨ps, hps, hl⟩ := h.pairs_of_none l.length (Nat.le_refl _)
    exact ⟨ps, hps, by simpa using hl⟩
  | some a =>
    obtain ⟨l', hl', hnone, -⟩ := h.snoc_of_some
    obtain ⟨ps, hps, hl⟩ := hnone.pairs_of_none l'.length (Nat.le_refl _)
    exact ⟨ps, hps, by rw [hl', hl]; rfl⟩

end Alternates

end Trademetrix
