import Mathlib.Algebra.BigOperators.Group.List.Basic
import Mathlib.Data.List.Pairwise
import Mathlib.Algebra.Order.Field.Rat
import Mathlib.Tactic.Ring

/-!
# Queues kept as runs

A queue of equal items in a row is kept as one run of them. `items` lists the items
of a queue from its head; taking items off the head shortens the first runs.
-/

namespace Trademetrix.Queue

variable {α β : Type*} (size : β → ℕ) (item : β → α)

def items (runs : List β) : List α := runs.flatMap fun r => List.replicate (size r) (item r)

@[simp] theorem items_nil : items size item [] = [] := rfl

@[simp] theorem items_cons (r : β) (rs : List β) :
    items size item (r :: rs) = List.replicate (size r) (item r) ++ items size item rs := rfl

@[simp] theorem items_append (rs rs' : List β) :
    items size item (rs ++ rs') = items size item rs ++ items size item rs' := by
  simp [items]

theorem length_items (rs : List β) : (items size item rs).length = (rs.map size).sum := by
  induction rs with
  | nil => rfl
  | cons r rs ih => simp [ih]

theorem sum_items (f : α → ℚ) (rs : List β) :
    ((items size item rs).map f).sum = (rs.map fun r => (size r : ℚ) * f (item r)).sum := by
  induction rs with
  | nil => rfl
  | cons r rs ih => simp [ih, List.map_replicate, List.sum_replicate]

theorem take_items_cons {r : β} {n : ℕ} (h : size r ≤ n) (rs : List β) :
    (items size item (r :: rs)).take n =
      List.replicate (size r) (item r) ++ (items size item rs).take (n - size r) := by
  rw [items_cons, List.take_append, List.take_of_length_le (by simpa using h)]
  simp

theorem drop_items_cons {r : β} {n : ℕ} (h : size r ≤ n) (rs : List β) :
    (items size item (r :: rs)).drop n = (items size item rs).drop (n - size r) := by
  rw [items_cons, List.drop_append, List.drop_of_length_le (by simpa using h)]
  simp

theorem take_items_within {r : β} {n : ℕ} (h : n ≤ size r) (rs : List β) :
    (items size item (r :: rs)).take n = List.replicate n (item r) := by
  rw [items_cons, List.take_append_of_le_length (by simpa using h), List.take_replicate,
    min_eq_left h]

theorem drop_items_within {r r' : β} {n : ℕ} (h : n ≤ size r) (hsize : size r' = size r - n)
    (hitem : item r' = item r) (rs : List β) :
    (items size item (r :: rs)).drop n = items size item (r' :: rs) := by
  rw [items_cons, List.drop_append_of_le_length (by simpa using h), List.drop_replicate,
    items_cons, hsize, hitem]

theorem eq_nil_of_items {rs : List β} (hpos : ∀ r ∈ rs, 0 < size r)
    (h : items size item rs = []) : rs = [] := by
  cases rs with
  | nil => rfl
  | cons r rs =>
    have hr := hpos r List.mem_cons_self
    have hlen := congrArg List.length h
    simp at hlen
    omega

section Order

variable {γ : Type*} (le : γ → γ → Prop)

theorem pairwise_take_drop {taken queue : List γ} (h : (taken ++ queue).Pairwise le) (n : ℕ) :
    (taken ++ queue.take n ++ queue.drop n).Pairwise le := by
  rwa [List.append_assoc, List.take_append_drop]

theorem pairwise_push {queue new : List γ} (h : queue.Pairwise le) (hnew : new.Pairwise le)
    (hle : ∀ a ∈ queue, ∀ b ∈ new, le a b) : (queue ++ new).Pairwise le :=
  List.pairwise_append.mpr ⟨h, hnew, hle⟩

end Order

end Trademetrix.Queue
