import Mathlib.Data.List.Basic
import Mathlib.Data.Nat.Basic
import Mathlib.Order.Lattice

/-!
# Events in a sliding window

`old now t` says that an event of time `t` has left the window that ends at `now`. A bound
on every window is a bound on the windows that end at an event.
-/

namespace Trademetrix.Sliding

variable {α : Type} [LinearOrder α] (old : α → α → Prop) [DecidableRel old]

def window (now : α) (ts : List α) : List α := ts.filter fun t => t ≤ now ∧ ¬ old now t

def Bounded (limit : ℕ) (ts : List α) : Prop := ∀ now, (window old now ts).length ≤ limit

def Forgets : Prop := ∀ now now' t, now ≤ now' → old now t → old now' t

variable {old} {limit : ℕ} {ts us : List α} {t now : α}

theorem window_append : window old now (ts ++ us) = window old now ts ++ window old now us := by
  unfold window
  exact List.filter_append ts us

theorem window_eq_nil (h : ∀ x ∈ ts, x ≤ now → old now x) : window old now ts = [] := by
  refine List.filter_eq_nil_iff.mpr fun x hx => ?_
  simpa using h x hx

theorem window_eq_self (h : ∀ x ∈ ts, x ≤ now ∧ ¬ old now x) : window old now ts = ts :=
  List.filter_eq_self.mpr fun x hx => by simpa using h x hx

theorem bounded_nil : Bounded old limit [] := fun _ => Nat.zero_le _

theorem Bounded.of_append (h : Bounded old limit (ts ++ us)) : Bounded old limit ts := by
  intro now
  have hboth := h now
  rw [window_append, List.length_append] at hboth
  exact le_trans (Nat.le_add_right _ _) hboth

theorem window_length_le (hold : Forgets old) (h : ∀ x ∈ ts, x ≤ t) (hnow : t ≤ now) :
    (window old now ts).length ≤ (window old t ts).length := by
  unfold window
  rw [← List.countP_eq_length_filter, ← List.countP_eq_length_filter]
  refine List.countP_mono_left fun x hx hin => ?_
  rw [decide_eq_true_iff] at hin ⊢
  exact ⟨h x hx, fun hgone => hin.2 (hold t now x hnow hgone)⟩

theorem bounded_snoc (hold : Forgets old) (hself : ¬ old t t) (h : ∀ x ∈ ts, x ≤ t) :
    Bounded old limit (ts ++ [t]) ↔
      Bounded old limit ts ∧ (window old t ts).length < limit := by
  have hone : window old t [t] = [t] := window_eq_self (by simpa using hself)
  constructor
  · intro hb
    refine ⟨hb.of_append, ?_⟩
    have hlast := hb t
    rw [window_append, hone, List.length_append] at hlast
    exact hlast
  · rintro ⟨hb, hroom⟩ now
    rw [window_append, List.length_append]
    by_cases hnow : t ≤ now
    · have hmono := window_length_le hold h hnow
      have hle : (window old now [t]).length ≤ 1 := List.length_filter_le _ _
      omega
    · have hnone : window old now [t] = [] :=
        window_eq_nil fun x hx hle => absurd (List.mem_singleton.mp hx ▸ hle) hnow
      rw [hnone]
      exact hb now

theorem le_of_replicate {n : ℕ} (hself : ¬ old t t) (h : Bounded old limit (List.replicate n t)) :
    n ≤ limit := by
  have hnow := h t
  rw [window_eq_self fun x hx => by simp [List.eq_of_mem_replicate hx, hself],
    List.length_replicate] at hnow
  exact hnow

end Trademetrix.Sliding
