import Mathlib.Algebra.Group.Basic
import Mathlib.Order.Basic

/-!
# Runs of a machine

A machine takes one action after another. What is asked of a state and the next
action is asked along a run; two such conditions that come to the same while an
invariant holds, and keep it, come to the same along every run.
-/

namespace Trademetrix

variable {σ α : Type} {step : σ → α → σ} {P Q : σ → α → Prop} {I : σ → Prop} {s : σ} {as bs : List α}

def Along (step : σ → α → σ) (P : σ → α → Prop) : σ → List α → Prop
  | _, [] => True
  | s, a :: as => P s a ∧ Along step P (step s a) as

instance decidableAlong (step : σ → α → σ) (P : σ → α → Prop) [∀ s a, Decidable (P s a)] :
    (s : σ) → (as : List α) → Decidable (Along step P s as)
  | _, [] => inferInstanceAs (Decidable True)
  | s, a :: as =>
    have := decidableAlong step P (step s a) as
    inferInstanceAs (Decidable (P s a ∧ Along step P (step s a) as))

namespace Along

@[simp] theorem nil : Along step P s [] := trivial

@[simp] theorem cons {a : α} : Along step P s (a :: as) ↔ P s a ∧ Along step P (step s a) as := Iff.rfl

theorem append : Along step P s (as ++ bs) ↔ Along step P s as ∧ Along step P (as.foldl step s) bs := by
  induction as generalizing s with
  | nil => simp
  | cons a as ih => simp only [List.cons_append, cons, List.foldl_cons, ih, and_assoc]

theorem mono (h : ∀ s a, P s a → Q s a) (hrun : Along step P s as) : Along step Q s as := by
  induction as generalizing s with
  | nil => exact trivial
  | cons a as ih => exact ⟨h s a hrun.1, ih hrun.2⟩

theorem invariant (hstep : ∀ s a, I s → P s a → I (step s a)) (hs : I s) (hrun : Along step P s as) :
    I (as.foldl step s) := by
  induction as generalizing s with
  | nil => exact hs
  | cons a as ih => exact ih (hstep s a hs hrun.1) hrun.2

theorem congr_iff (h : ∀ s a, P s a ↔ Q s a) : Along step P s as ↔ Along step Q s as :=
  ⟨mono fun s a => (h s a).mp, mono fun s a => (h s a).mpr⟩

theorem and (hP : Along step P s as) (hQ : Along step Q s as) :
    Along step (fun s a => P s a ∧ Q s a) s as := by
  induction as generalizing s with
  | nil => exact trivial
  | cons a as ih => exact ⟨⟨hP.1, hQ.1⟩, ih hP.2 hQ.2⟩

theorem mono_of_invariant (hstep : ∀ s a, I s → P s a → Q s a ∧ I (step s a)) (hs : I s)
    (hrun : Along step P s as) : Along step Q s as := by
  induction as generalizing s with
  | nil => exact trivial
  | cons a as ih =>
    obtain ⟨hq, hnext⟩ := hstep s a hs hrun.1
    exact ⟨hq, ih hnext hrun.2⟩

theorem congr (hstep : ∀ s a, I s → Q s a → I (step s a)) (heq : ∀ s a, I s → (P s a ↔ Q s a))
    (hs : I s) : Along step P s as ↔ Along step Q s as := by
  induction as generalizing s with
  | nil => exact Iff.rfl
  | cons a as ih =>
    rw [cons, cons, heq s a hs]
    exact and_congr_right fun hq => ih (hstep s a hs hq)

end Along

section Totals

variable {M : Type} [AddMonoid M] {f : σ → α → M} {V : σ → M}

def totalAlong (step : σ → α → σ) (f : σ → α → M) : σ → List α → M
  | _, [] => 0
  | s, a :: as => f s a + totalAlong step f (step s a) as

theorem totalAlong_eq (hstep : ∀ s a, I s → I (step s a) ∧ V (step s a) = V s + f s a) (hs : I s)
    (as : List α) :
    I (as.foldl step s) ∧ V (as.foldl step s) = V s + totalAlong step f s as := by
  induction as generalizing s with
  | nil => exact ⟨hs, (add_zero _).symm⟩
  | cons a as ih =>
    obtain ⟨hnext, hvalue⟩ := hstep s a hs
    obtain ⟨hend, htotal⟩ := ih hnext
    refine ⟨hend, ?_⟩
    rw [List.foldl_cons, htotal, hvalue, totalAlong, add_assoc]

theorem totalAlong_sub {M : Type} [AddCommGroup M] (step : σ → α → σ) (f g : σ → α → M) (s : σ)
    (as : List α) :
    totalAlong step (fun s a => f s a - g s a) s as =
      totalAlong step f s as - totalAlong step g s as := by
  induction as generalizing s with
  | nil => exact (sub_zero 0).symm
  | cons a as ih => rw [totalAlong, totalAlong, totalAlong, ih, add_sub_add_comm]

end Totals

end Trademetrix

/-!
# Final statuses

A machine keeps entries with statuses and takes requests on one entry each. What
is final is not to change, and a request on a final entry is to be refused.
Where requests are never refused, runs meet this exactly when they make none on a
final entry.
-/

namespace Trademetrix

/-- A machine of entries: what an entry's status is, which statuses are final, which entry an
action is a request on, and whether it succeeds. -/
structure EntryMachine (σ α κ ι : Type) where
  step : σ → α → σ
  status : σ → κ → Option ι
  Final : ι → Prop
  request : α → Option κ
  succeeds : σ → α → Prop

namespace EntryMachine

variable {σ α κ ι : Type} (m : EntryMachine σ α κ ι) {s : σ} {a : α}

def FinalAt (s : σ) (k : κ) : Prop := ∃ i, m.status s k = some i ∧ m.Final i

def Keeps (s : σ) (a : α) : Prop :=
  ∀ k i, m.status s k = some i → m.Final i → m.status (m.step s a) k = some i

def Refuses (s : σ) (a : α) : Prop :=
  ∀ k, m.request a = some k → m.FinalAt s k → ¬m.succeeds s a ∧ m.step s a = s

def Finality (s : σ) (a : α) : Prop := m.Keeps s a ∧ m.Refuses s a

def Spares (s : σ) (a : α) : Prop := ∀ k, m.request a = some k → ¬m.FinalAt s k

/-- What makes such a machine one that never refuses: under an invariant, a request on an entry
that is there succeeds, and what is final changes by a request on it only. -/
structure Obliges (I : σ → Prop) : Prop where
  invariant : ∀ s a, I s → I (m.step s a)
  succeeds : ∀ s a k, m.request a = some k → m.FinalAt s k → m.succeeds s a
  frame : ∀ s a k i, I s → m.status s k = some i → m.Final i → m.request a ≠ some k →
    m.status (m.step s a) k = some i

variable {m} {I : σ → Prop}

theorem Obliges.finality_iff (h : m.Obliges I) (hI : I s) : m.Finality s a ↔ m.Spares s a := by
  constructor
  · rintro ⟨-, hrefuses⟩ k hk hfinal
    exact (hrefuses k hk hfinal).1 (h.succeeds s a k hk hfinal)
  · intro hspares
    refine ⟨fun k i hstatus hi => ?_, fun k hk hfinal => absurd hfinal (hspares k hk)⟩
    exact h.frame s a k i hI hstatus hi fun hk => hspares k hk ⟨i, hstatus, hi⟩

theorem Obliges.along_iff (h : m.Obliges I) (hI : I s) (as : List α) :
    Along m.step m.Finality s as ↔ Along m.step m.Spares s as :=
  Along.congr (fun s a hs _ => h.invariant s a hs) (fun _ _ hs => h.finality_iff hs) hI

end EntryMachine

end Trademetrix
