import Mathlib.Data.List.Sort

/-!
# Reading a table back in order

A table is a list in no particular order. A reader gets its rows by a time, and
keeps the first row of each key.
-/

namespace Trademetrix.Ledger

variable {α κ : Type} {time : α → ℤ}

/-- `rows` is an answer to a read of `table` ordered by `time`: rows of one time come in any
order. -/
structure Lists (time : α → ℤ) (table rows : List α) : Prop where
  perm : rows.Perm table
  sorted : rows.Pairwise fun a b => time a ≤ time b

instance [DecidableEq α] (table rows : List α) : Decidable (Lists time table rows) :=
  decidable_of_iff (rows.Perm table ∧ rows.Pairwise fun a b => time a ≤ time b)
    ⟨fun h => ⟨h.1, h.2⟩, fun h => ⟨h.perm, h.sorted⟩⟩

def Strict (time : α → ℤ) (rows : List α) : Prop := rows.Pairwise fun a b => time a < time b

instance (rows : List α) : Decidable (Strict time rows) :=
  inferInstanceAs (Decidable (rows.Pairwise fun a b => time a < time b))

theorem Strict.eq_of_time {rows : List α} (h : Strict time rows) {a b : α} (ha : a ∈ rows)
    (hb : b ∈ rows) (hab : time a = time b) : a = b := by
  induction rows with
  | nil => cases ha
  | cons r rows ih =>
    obtain ⟨hr, hrows⟩ := List.pairwise_cons.mp h
    rcases List.mem_cons.mp ha with rfl | ha' <;> rcases List.mem_cons.mp hb with rfl | hb'
    · rfl
    · have := hr b hb'
      omega
    · have := hr a ha'
      omega
    · exact ih hrows ha' hb'

theorem Lists.unique {table rows rows' : List α} (h : Lists time table rows)
    (hstrict : Strict time rows) (h' : Lists time table rows') : rows = rows' := by
  have hanti : ∀ a b, a ∈ rows → b ∈ rows' → time a ≤ time b → time b ≤ time a → a = b := by
    intro a b ha hb hab hba
    have hb' : b ∈ rows := h.perm.mem_iff.mpr (h'.perm.mem_iff.mp hb)
    exact hstrict.eq_of_time ha hb' (le_antisymm hab hba)
  exact List.Perm.eq_of_pairwise hanti h.sorted h'.sorted (h.perm.trans h'.perm.symm)

theorem Lists.snoc {table rows : List α} {row : α} (h : Lists time (table ++ [row]) rows)
    (hlast : ∀ r ∈ table, time r < time row) :
    ∃ rows', rows = rows' ++ [row] ∧ Lists time table rows' := by
  have hmem : row ∈ rows := h.perm.mem_iff.mpr (by simp)
  obtain ⟨before, later, rfl⟩ := List.append_of_mem hmem
  have hrest : (before ++ later).Perm table := by
    have hperm := h.perm.trans List.perm_append_comm
    exact (List.perm_cons row).mp (List.perm_middle.symm.trans hperm)
  have hsorted := List.pairwise_append.mp h.sorted
  have hlater : later = [] := by
    refine List.eq_nil_iff_forall_not_mem.mpr fun r hr => ?_
    have hle := (List.pairwise_cons.mp hsorted.2.1).1 r hr
    have hlt := hlast r (hrest.mem_iff.mp (List.mem_append_right _ hr))
    omega
  subst hlater
  exact ⟨before, rfl, by simpa using hrest, hsorted.1⟩

theorem Strict.of_snoc {rows : List α} {row : α} (h : Strict time (rows ++ [row])) :
    Strict time rows :=
  (List.pairwise_append.mp h).1

variable [DecidableEq κ] {key : α → κ}

/-- The rows whose key is not in `seen`, the first of each key. -/
def firstOfEach (key : α → κ) : (seen : List κ) → List α → List α
  | _, [] => []
  | seen, row :: rows =>
    if key row ∈ seen then firstOfEach key seen rows
    else row :: firstOfEach key (key row :: seen) rows

theorem firstOfEach_snoc (seen : List κ) (rows : List α) {row : α} (hseen : key row ∉ seen)
    (hrows : ∀ r ∈ rows, key r ≠ key row) :
    firstOfEach key seen (rows ++ [row]) = firstOfEach key seen rows ++ [row] := by
  induction rows generalizing seen with
  | nil => simp [firstOfEach, hseen]
  | cons r rows ih =>
    have hrest : ∀ q ∈ rows, key q ≠ key row := fun q hq => hrows q (List.mem_cons_of_mem _ hq)
    simp only [List.cons_append, firstOfEach]
    split
    · exact ih seen hseen hrest
    · have hnew : key row ∉ key r :: seen := by
        simpa [hseen] using (hrows r List.mem_cons_self).symm
      rw [ih (key r :: seen) hnew hrest, List.cons_append]

end Trademetrix.Ledger
