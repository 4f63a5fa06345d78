import Mathlib.Order.Basic

/-!
# Lists that differ in one place

A step of a machine with parties in a list adds one at the end, or changes one where
it is. Either way the list has a given entry in one place and is as it was in the
others, and what is kept of every entry is to be seen of the new one only.
-/

namespace Trademetrix

variable {α β : Type} {l l' : List α} {c : ℕ} {a b : α}

def Puts (l : List α) (c : ℕ) (a : α) (l' : List α) : Prop := ∀ d, l'[d]? = if d = c then some a else l[d]?

theorem puts_append (l : List α) (a : α) : Puts l l.length a (l ++ [a]) := by
  intro d
  split
  · next hd => rw [hd, List.getElem?_concat_length]
  · next hd =>
    rcases Nat.lt_or_gt_of_ne hd with hlt | hgt
    · rw [List.getElem?_append_left hlt]
    · rw [List.getElem?_eq_none (by rw [List.length_append, List.length_singleton]; omega),
        List.getElem?_eq_none (by omega)]

theorem puts_set (hb : l[c]? = some b) (a : α) : Puts l c a (l.set c a) := by
  intro d
  have hc : c < l.length := (List.getElem?_eq_some_iff.mp hb).1
  split
  · next hd => rw [hd, List.getElem?_set_self hc]
  · next hd => exact List.getElem?_set_ne fun hcd => hd hcd.symm

namespace Puts

theorem forall_mem {P : ℕ → α → Prop} (h : Puts l c a l') (hnew : P c a) (hold : ∀ (d : ℕ), ∀ b ∈ l[d]?, P d b) :
    ∀ (d : ℕ), ∀ b ∈ l'[d]?, P d b := by
  intro d b hb
  rw [h d] at hb
  split at hb
  · next hd =>
    obtain rfl := Option.some.inj hb
    rwa [hd]
  · exact hold d b hb

theorem bind_eq (h : Puts l c a l') (f : α → Option β) (d : ℕ) :
    (l'[d]?).bind f = if d = c then f a else (l[d]?).bind f := by
  rw [h d]
  split <;> rfl

theorem bind_same (h : Puts l c a l') {f : α → Option β} (hsame : f a = (l[c]?).bind f) (d : ℕ) :
    (l'[d]?).bind f = (l[d]?).bind f := by
  rw [h.bind_eq]
  split
  · next hd => rw [hsame, hd]
  · rfl

end Puts

end Trademetrix
