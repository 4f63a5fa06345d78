import Mathlib.Data.List.MinMax

/-!
# The first least element of a list

`argmin` keeps the first of several least elements. An element is the first least
when it is below all before it and at or below all after it.
-/

namespace Trademetrix

variable {α β : Type} [LinearOrder β] {f : α → β} {l : List α} {x : α}

def FirstLeast (f : α → β) (l : List α) (x : α) : Prop :=
  ∃ pre post, l = pre ++ x :: post ∧ (∀ y ∈ pre, f x < f y) ∧ ∀ y ∈ post, f x ≤ f y

namespace FirstLeast

theorem mem (h : FirstLeast f l x) : x ∈ l := by
  obtain ⟨pre, post, rfl, -, -⟩ := h
  simp

theorem le (h : FirstLeast f l x) {y : α} (hy : y ∈ l) : f x ≤ f y := by
  obtain ⟨pre, post, rfl, hpre, hpost⟩ := h
  rcases List.mem_append.mp hy with hy | hy
  · exact (hpre y hy).le
  · rcases List.mem_cons.mp hy with rfl | hy
    · exact le_rfl
    · exact hpost y hy

theorem argmin_eq (h : FirstLeast f l x) : l.argmin f = some x := by
  obtain ⟨pre, post, rfl, hpre, hpost⟩ := h
  induction pre with
  | nil =>
    rw [List.nil_append, List.argmin_cons]
    cases hmin : post.argmin f with
    | none => rfl
    | some c =>
      have hc := hpost c (List.argmin_mem hmin)
      simp [not_lt.mpr hc]
  | cons a pre ih =>
    rw [List.cons_append, List.argmin_cons, ih fun y hy => hpre y (List.mem_cons_of_mem _ hy)]
    simp [hpre a List.mem_cons_self]

end FirstLeast

theorem firstLeast_of_argmin (h : l.argmin f = some x) : FirstLeast f l x := by
  induction l generalizing x with
  | nil => cases h
  | cons a l ih =>
    rw [List.argmin_cons] at h
    cases hmin : l.argmin f with
    | none =>
      rw [hmin] at h
      obtain rfl : a = x := Option.some.inj h
      rw [List.argmin_eq_none.mp hmin]
      exact ⟨[], [], rfl, by simp, by simp⟩
    | some c =>
      have hc := ih hmin
      rw [hmin] at h
      dsimp only at h
      split at h
      · next hlt =>
        obtain rfl : c = x := Option.some.inj h
        obtain ⟨pre, post, rfl, hpre, hpost⟩ := hc
        exact ⟨a :: pre, post, rfl, List.forall_mem_cons.mpr ⟨hlt, hpre⟩, hpost⟩
      · next hge =>
        obtain rfl : a = x := Option.some.inj h
        exact ⟨[], l, rfl, by simp, fun y hy => (not_lt.mp hge).trans (hc.le hy)⟩

theorem firstLeast_map {γ : Type} {g : γ → β} {h : α → γ} {y : γ} :
    FirstLeast g (l.map h) y ↔ ∃ x, FirstLeast (fun x => g (h x)) l x ∧ h x = y := by
  constructor
  · rintro ⟨pre, post, hsplit, hpre, hpost⟩
    obtain ⟨pre', rest, rfl, rfl, hrest⟩ := List.map_eq_append_iff.mp hsplit
    obtain ⟨x, post', rfl, rfl, rfl⟩ := List.map_eq_cons_iff.mp hrest
    refine ⟨x, ⟨pre', post', rfl, fun y hy => ?_, fun y hy => ?_⟩, rfl⟩
    · exact hpre _ (List.mem_map_of_mem hy)
    · exact hpost _ (List.mem_map_of_mem hy)
  · rintro ⟨x, ⟨pre, post, rfl, hpre, hpost⟩, rfl⟩
    refine ⟨pre.map h, post.map h, by simp, ?_, ?_⟩
    · exact List.forall_mem_map.mpr hpre
    · exact List.forall_mem_map.mpr hpost

theorem argmin_eq_some : l.argmin f = some x ↔ FirstLeast f l x :=
  ⟨firstLeast_of_argmin, FirstLeast.argmin_eq⟩

end Trademetrix
