import Mathlib.Data.List.GetD
import Mathlib.Data.List.Sort
import Mathlib.Order.Defs.LinearOrder

/-!
# Binary search

The halving loop over a list: where elements that are below are followed by
elements that are not, it finds the place between them. In a list in the order
of a key, what begins at that place and has the key is all that has it.
-/

namespace Trademetrix

variable {α : Type} {r : α → α → Prop} {p : α → Bool}

section Stable

variable [DecidableRel r]

theorem filter_insertionSort (xs : List α) (h : ∀ a b, p a → p b → r a b) :
    (xs.insertionSort r).filter p = xs.filter p := by
  have hrank : (xs.filter p).Pairwise r := by
    refine List.pairwise_of_forall_mem_list fun a ha b hb => ?_
    exact h a b (List.mem_filter.mp ha).2 (List.mem_filter.mp hb).2
  have hsorted : (xs.filter p).Sublist (xs.insertionSort r) :=
    List.sublist_insertionSort hrank List.filter_sublist
  have hkept : (xs.filter p).Sublist ((xs.insertionSort r).filter p) := by
    simpa using hsorted.filter p
  have hlen := ((List.perm_insertionSort r xs).filter p).length_eq
  exact (hkept.eq_of_length hlen.symm).symm

theorem find?_insertionSort (xs : List α) (h : ∀ a b, p a → p b → r a b) :
    (xs.insertionSort r).find? p = xs.find? p := by
  rw [← List.head?_filter, filter_insertionSort xs h, List.head?_filter]

end Stable

theorem filter_append_filter_not {xs : List α} (h : xs.Pairwise r)
    (hdown : ∀ a b, r a b → p b → p a) :
    xs.filter p ++ xs.filter (fun x => !p x) = xs := by
  induction xs with
  | nil => rfl
  | cons x xs ih =>
    obtain ⟨hx, hxs⟩ := List.pairwise_cons.mp h
    cases hp : p x with
    | true => simp [hp, ih hxs]
    | false =>
      have hall : ∀ y ∈ xs, p y = false := by
        intro y hy
        by_contra hy'
        have := hdown x y (hx y hy) (Bool.eq_true_of_not_eq_false hy')
        rw [hp] at this
        cases this
      have hnone : xs.filter p = [] := List.filter_eq_nil_iff.mpr fun y hy => by simp [hall y hy]
      have hsame : xs.filter (fun x => !p x) = xs :=
        List.filter_eq_self.mpr fun y hy => by simp [hall y hy]
      simp [hp, hnone, hsame]

end Trademetrix

namespace Trademetrix.Bisect

variable {α κ : Type} [Inhabited α]

def place (xs : List α) (below : α → Bool) : ℕ → ℕ → ℕ → ℕ
  | 0, lo, _ => lo
  | fuel + 1, lo, hi =>
    if lo < hi then
      let mid := (lo + hi) / 2
      if below (xs.getD mid default) then place xs below fuel (mid + 1) hi
      else place xs below fuel lo mid
    else lo

def left (xs : List α) (below : α → Bool) : ℕ := place xs below xs.length 0 xs.length

variable {below : α → Bool} {low high xs : List α}

theorem place_append (hlow : ∀ x ∈ low, below x = true) (hhigh : ∀ x ∈ high, below x = false)
    (fuel lo hi : ℕ) (hlo : lo ≤ low.length) (hhi : low.length ≤ hi)
    (hlen : hi ≤ (low ++ high).length) (hfuel : hi ≤ lo + fuel) :
    place (low ++ high) below fuel lo hi = low.length := by
  induction fuel generalizing lo hi with
  | zero =>
    rw [place]
    omega
  | succ fuel ih =>
    rw [place]
    split
    · next hlt =>
      have hmid : (lo + hi) / 2 < (low ++ high).length := by omega
      dsimp only
      rw [List.getD_eq_getElem _ _ hmid]
      rcases Nat.lt_or_ge ((lo + hi) / 2) low.length with hleft | hright
      · rw [List.getElem_append_left hleft, hlow _ (List.getElem_mem _), if_pos rfl]
        exact ih _ _ (by omega) hhi hlen (by omega)
      · rw [List.getElem_append_right hright, hhigh _ (List.getElem_mem _), if_neg (by decide)]
        exact ih _ _ hlo hright (by omega) (by omega)
    · omega

theorem left_append (hlow : ∀ x ∈ low, below x = true) (hhigh : ∀ x ∈ high, below x = false) :
    left (low ++ high) below = low.length :=
  place_append hlow hhigh _ _ _ (Nat.zero_le _) (by simp) le_rfl (by omega)

variable [LinearOrder κ] [DecidableLT κ] {f : α → κ}

theorem drop_left (h : xs.Pairwise fun a b => f a ≤ f b) (k : κ) :
    xs.drop (left xs fun x => decide (f x < k)) = xs.filter fun x => !decide (f x < k) := by
  have hsplit : (xs.filter fun x => decide (f x < k)) ++ (xs.filter fun x => !decide (f x < k)) =
      xs :=
    filter_append_filter_not h fun a b hab hb =>
      decide_eq_true (lt_of_le_of_lt hab (of_decide_eq_true hb))
  have hplace : left ((xs.filter fun x => decide (f x < k)) ++
      xs.filter fun x => !decide (f x < k)) (fun x => decide (f x < k)) =
        (xs.filter fun x => decide (f x < k)).length := left_append
    (fun x hx => (List.mem_filter.mp hx).2 : ∀ x ∈ xs.filter fun x => decide (f x < k), _)
    (fun x hx => by simpa using (List.mem_filter.mp hx).2 :
      ∀ x ∈ xs.filter fun x => !decide (f x < k), _)
  rw [hsplit] at hplace
  calc xs.drop (left xs fun x => decide (f x < k))
      = xs.drop (xs.filter fun x => decide (f x < k)).length := by rw [hplace]
    _ = ((xs.filter fun x => decide (f x < k)) ++ xs.filter fun x => !decide (f x < k)).drop
          (xs.filter fun x => decide (f x < k)).length := by rw [hsplit]
    _ = xs.filter fun x => !decide (f x < k) := List.drop_left

variable [DecidableEq κ]

theorem takeWhile_drop_left (h : xs.Pairwise fun a b => f a ≤ f b) (k : κ) :
    (xs.drop (left xs fun x => decide (f x < k))).takeWhile (fun x => decide (f x = k)) =
      xs.filter fun x => decide (f x = k) := by
  have hall : (xs.filter fun x => decide (f x = k)) =
      (xs.filter fun x => !decide (f x < k)).filter fun x => decide (f x = k) := by
    rw [List.filter_filter]
    refine List.filter_congr fun x _ => ?_
    by_cases hx : f x = k <;> simp [hx]
  have horder : (xs.filter fun x => !decide (f x < k)).Pairwise fun a b => f a ≤ f b :=
    h.sublist List.filter_sublist
  have hhigh : ∀ x ∈ xs.filter fun x => !decide (f x < k), k ≤ f x := by
    intro x hx
    simpa using (List.mem_filter.mp hx).2
  rw [drop_left h, hall]
  generalize (xs.filter fun x => !decide (f x < k)) = ys at horder hhigh
  induction ys with
  | nil => rfl
  | cons y ys ih =>
    obtain ⟨hy, hys⟩ := List.pairwise_cons.mp horder
    obtain ⟨hky, hkys⟩ := List.forall_mem_cons.mp hhigh
    by_cases hkey : f y = k
    · simp [hkey, ih hys hkys]
    · -- past the key nothing has it any more
      have hnone : ∀ x ∈ ys, f x ≠ k := fun x hx =>
        ((lt_of_le_of_ne hky (Ne.symm hkey)).trans_le (hy x hx)).ne'
      have hrest : (ys.filter fun x => decide (f x = k)) = [] :=
        List.filter_eq_nil_iff.mpr fun x hx => by simpa using hnone x hx
      simp [hkey, hrest]

theorem getElem?_left (h : xs.Pairwise fun a b => f a ≤ f b) (k : κ) :
    (xs[left xs fun x => decide (f x < k)]?).filter (fun x => decide (f x = k)) =
      xs.find? fun x => decide (f x = k) := by
  rw [← List.head?_drop, ← List.head?_takeWhile, takeWhile_drop_left h, List.head?_filter]

end Trademetrix.Bisect
