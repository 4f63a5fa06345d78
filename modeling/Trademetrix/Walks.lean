import Mathlib.Data.Finset.Max
import Mathlib.Data.List.Chain
import Mathlib.Logic.Relation
import Mathlib.Order.Bounds.Basic
import Mathlib.Order.WellFoundedSet

/-!
# Walks of a relation

Walks are lists in which each element leads to the next. A relation has a cycle when a
walk comes back to where it started; without one, finitely many points have a source
among them, no walk visits a point twice, and the walks into a point are as long as its
predecessors say.
-/

namespace Trademetrix

open Relation

variable {α : Type} {r : α → α → Prop}

def ClosedWalk (r : α → α → Prop) (w : List α) : Prop :=
  ∃ a p, w = a :: (p ++ [a]) ∧ w.IsChain r

theorem transGen_of_walk {a b : α} {p : List α} (h : (a :: (p ++ [b])).IsChain r) :
    TransGen r a b := by
  induction p generalizing a with
  | nil => exact .single (by simpa using h)
  | cons c p ih =>
    rw [List.cons_append, List.isChain_cons_cons] at h
    exact .head h.1 (ih h.2)

theorem exists_next_of_walk {a x : α} {p : List α} (h : (p ++ [a]).IsChain r) (hx : x ∈ p) :
    ∃ y, r x y := by
  induction p with
  | nil => cases hx
  | cons b p ih =>
    rw [List.cons_append] at h
    obtain rfl | hx := List.mem_cons.mp hx
    · cases p with
      | nil => exact ⟨a, by simpa using h⟩
      | cons c p => exact ⟨c, (List.isChain_cons_cons.mp h).1⟩
    · exact ih h.tail hx

theorem ClosedWalk.cycle {w : List α} (h : ClosedWalk r w) : ∃ a, TransGen r a a := by
  obtain ⟨a, p, rfl, hp⟩ := h
  exact ⟨a, transGen_of_walk hp⟩

theorem mem_of_transGen {s : α → Prop} (hs : ∀ a, s a → ∀ b, r a b → s b) {a b : α} (ha : s a)
    (h : TransGen r a b) : s b := by
  induction h with
  | single hab => exact hs a ha _ hab
  | tail _ hbc ih => exact hs _ ih _ hbc

section Acyclic

variable (hr : ∀ a, ¬TransGen r a a)
include hr

theorem nodup_of_walk {p : List α} (h : p.IsChain r) : p.Nodup := by
  have htrans : p.IsChain (TransGen r) := h.imp fun _ _ => .single
  refine (List.isChain_iff_pairwise.mp htrans).imp ?_
  rintro a _ hab rfl
  exact hr a hab

theorem exists_source {s : Finset α} (hs : s.Nonempty) : ∃ a ∈ s, ∀ b ∈ s, ¬r b a := by
  have hstrict : IsStrictOrder α (TransGen r) :=
    { irrefl := hr, trans := fun _ _ _ => .trans }
  have hwf : (s : Set α).WellFoundedOn (TransGen r) := s.finite_toSet.wellFoundedOn
  obtain ⟨b, hb⟩ := hs
  obtain ⟨⟨a, ha⟩, -, hmin⟩ := hwf.has_min Set.univ ⟨⟨b, hb⟩, trivial⟩
  exact ⟨a, ha, fun c hc hca => hmin ⟨c, hc⟩ trivial (.single hca)⟩

end Acyclic

/-- A walk of `n` steps ends in the point. -/
def Arrives (r : α → α → Prop) (a : α) (n : ℕ) : Prop :=
  ∃ p : List α, p.length = n ∧ (p ++ [a]).IsChain r

theorem arrives_zero (a : α) : Arrives r a 0 :=
  ⟨[], rfl, .singleton a⟩

theorem arrives_succ {a : α} {n : ℕ} : Arrives r a (n + 1) ↔ ∃ b, r b a ∧ Arrives r b n := by
  constructor
  · rintro ⟨p, hlen, hp⟩
    obtain rfl | ⟨q, b, rfl⟩ := p.eq_nil_or_concat'
    · cases hlen
    · rw [List.append_assoc, List.singleton_append, List.isChain_split, List.isChain_pair] at hp
      exact ⟨b, hp.2, q, by simpa using hlen, hp.1⟩
  · rintro ⟨b, hba, q, hlen, hq⟩
    refine ⟨q ++ [b], by simpa using hlen, ?_⟩
    rw [List.append_assoc, List.singleton_append, List.isChain_split, List.isChain_pair]
    exact ⟨hq, hba⟩

theorem isGreatest_foldl_max (f : α → ℕ) (xs : List α) (m : ℕ) :
    IsGreatest (insert m {n | ∃ b ∈ xs, f b = n}) (xs.foldl (fun m b => max m (f b)) m) := by
  induction xs generalizing m with
  | nil => simp
  | cons x xs ih =>
    obtain ⟨hmem, hub⟩ := ih (max m (f x))
    rw [List.foldl_cons]
    constructor
    · obtain hmax | ⟨b, hb, hbeq⟩ := hmem
      · rw [hmax]
        obtain h | h := max_choice m (f x)
        · exact .inl h
        · exact .inr ⟨x, List.mem_cons_self, h.symm⟩
      · exact .inr ⟨b, List.mem_cons_of_mem _ hb, hbeq⟩
    · have hle : max m (f x) ≤ xs.foldl (fun m b => max m (f b)) (max m (f x)) := hub (.inl rfl)
      rintro n (rfl | ⟨b, hb, rfl⟩)
      · exact (le_max_left _ _).trans hle
      · obtain rfl | hb := List.mem_cons.mp hb
        · exact (le_max_right _ _).trans hle
        · exact hub (.inr ⟨b, hb, rfl⟩)

theorem isGreatest_arrives {a : α} {before : List α} {d : α → ℕ}
    (hbefore : ∀ b, b ∈ before ↔ r b a) (hd : ∀ b ∈ before, IsGreatest {n | Arrives r b n} (d b)) :
    IsGreatest {n | Arrives r a n} (before.foldl (fun m b => max m (d b + 1)) 0) := by
  obtain ⟨hmem, hub⟩ := isGreatest_foldl_max (fun b => d b + 1) before 0
  constructor
  · obtain hzero | ⟨b, hb, hbeq⟩ := hmem
    · rw [hzero]
      exact arrives_zero a
    · rw [← hbeq]
      exact arrives_succ.mpr ⟨b, (hbefore b).mp hb, (hd b hb).1⟩
  · intro n hn
    cases n with
    | zero => exact Nat.zero_le _
    | succ n =>
      obtain ⟨b, hba, hbn⟩ := arrives_succ.mp hn
      have hb := (hbefore b).mpr hba
      exact (Nat.succ_le_succ ((hd b hb).2 hbn)).trans (hub (.inr ⟨b, hb, rfl⟩))

end Trademetrix
