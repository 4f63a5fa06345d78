import Mathlib.Data.List.Basic

/-!
# Noninterference

Users take turns on one state. If what a user sees is changed by no step of another, and its
own steps depend on nothing else, it is answered in every run as if the others were not there.
-/

namespace Trademetrix

structure Shared (σ ε ο υ : Type) where
  step : σ → ε → σ × ο
  who : ε → υ

namespace Shared

variable {σ ε ο υ : Type} (m : Shared σ ε ο υ)

def run (s : σ) (es : List ε) : σ := es.foldl (fun s e => (m.step s e).1) s

section Answers

variable [DecidableEq υ]

def answers (u : υ) : σ → List ε → List ο
  | _, [] => []
  | s, e :: es =>
    let rest := answers u (m.step s e).1 es
    if m.who e = u then (m.step s e).2 :: rest else rest

def own (u : υ) (es : List ε) : List ε := es.filter fun e => m.who e = u

end Answers

structure Unwinds (Inv : σ → Prop) (Ok : ε → Prop) (Agree : υ → σ → σ → Prop) : Prop where
  inv : ∀ {s e}, Inv s → Ok e → Inv (m.step s e).1
  others : ∀ {u s t e}, Inv s → Ok e → m.who e ≠ u → Agree u s t → Agree u (m.step s e).1 t
  mine : ∀ {u s t e}, Inv s → Inv t → Ok e → m.who e = u → Agree u s t →
    Agree u (m.step s e).1 (m.step t e).1 ∧ (m.step s e).2 = (m.step t e).2

variable {m} {Inv : σ → Prop} {Ok : ε → Prop} {Agree : υ → σ → σ → Prop} {u : υ} {s t : σ} {es : List ε}

theorem Unwinds.answers_own [DecidableEq υ] (h : m.Unwinds Inv Ok Agree) (hs : Inv s) (ht : Inv t) (hes : ∀ e ∈ es, Ok e)
    (hst : Agree u s t) :
    m.answers u s es = m.answers u t (m.own u es) ∧ Agree u (m.run s es) (m.run t (m.own u es)) := by
  induction es generalizing s t with
  | nil => exact ⟨rfl, hst⟩
  | cons e es ih =>
    have he := hes e (List.mem_cons_self ..)
    have hrest : ∀ e' ∈ es, Ok e' := fun e' he' => hes e' (List.mem_cons_of_mem _ he')
    by_cases hwho : m.who e = u
    · obtain ⟨hagree, hanswer⟩ := h.mine hs ht he hwho hst
      obtain ⟨hanswers, hend⟩ := ih (h.inv hs he) (h.inv ht he) hrest hagree
      have hown : m.own u (e :: es) = e :: m.own u es := by
        rw [Shared.own, List.filter_cons_of_pos (by simpa using hwho)]
        rfl
      rw [hown]
      refine ⟨?_, hend⟩
      simp only [answers, if_pos hwho, hanswer, hanswers]
    · obtain ⟨hanswers, hend⟩ := ih (h.inv hs he) ht hrest (h.others hs he hwho hst)
      have hown : m.own u (e :: es) = m.own u es := by
        rw [Shared.own, List.filter_cons_of_neg (by simpa using hwho)]
        rfl
      rw [hown]
      refine ⟨?_, hend⟩
      simp only [answers, if_neg hwho, hanswers]

end Shared

end Trademetrix
