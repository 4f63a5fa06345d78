import Mathlib.Data.List.Nodup
import Mathlib.Data.List.Induction

/-!
# Deduplication by a memory that forgets

Items arrive with a key and a tag. One whose tag the memory does not hold is
done and its tag remembered; what the memory holds may be replaced at any time.
An item is done once if it always arrives with one tag, and what replaced the
memory last before it arrives again holds that tag.
-/

namespace Trademetrix

variable {κ τ : Type}

structure Dedup (κ τ : Type) where
  seen : List τ := []
  done : List κ := []

inductive DedupStep (κ τ : Type)
  | arrive (key : κ) (tag : τ)
  | reset (seen : List τ)
  deriving DecidableEq

namespace DedupStep

def memory? : DedupStep κ τ → Option (List τ)
  | arrive .. => none
  | reset seen => some seen

end DedupStep

def Recognised (steps : List (DedupStep κ τ)) : Prop :=
  ∀ before key tag between tag' after,
    steps = before ++ .arrive key tag :: (between ++ .arrive key tag' :: after) →
      tag' = tag ∧ ∀ seen ∈ (between.filterMap DedupStep.memory?).getLast?, tag ∈ seen

theorem Recognised.of_append {steps later : List (DedupStep κ τ)} (h : Recognised (steps ++ later)) :
    Recognised steps := by
  intro before key tag between tag' after heq
  refine h before key tag between tag' (after ++ later) ?_
  rw [heq, List.append_assoc, List.cons_append, List.append_assoc, List.cons_append]

namespace Dedup

variable [DecidableEq τ] {m : Dedup κ τ} {steps : List (DedupStep κ τ)} {key : κ} {tag : τ}

def step (m : Dedup κ τ) : DedupStep κ τ → Dedup κ τ
  | .arrive key tag =>
    if tag ∈ m.seen then m else { seen := m.seen ++ [tag], done := m.done ++ [key] }
  | .reset seen => { m with seen := seen }

theorem mem_seen_arrive : tag ∈ (m.step (.arrive key tag)).seen := by
  rw [step]
  split
  · assumption
  · simp

theorem mem_seen_run (hm : tag ∈ m.seen)
    (hlast : ∀ seen ∈ (steps.filterMap DedupStep.memory?).getLast?, tag ∈ seen) :
    tag ∈ (steps.foldl step m).seen := by
  induction steps using List.reverseRecOn with
  | nil => exact hm
  | append_singleton steps x ih =>
    rw [List.foldl_append]
    cases x with
    | reset seen => exact hlast seen (by simp [DedupStep.memory?])
    | arrive key' tag' =>
      have hseen := ih fun seen hs => hlast seen (by simpa [DedupStep.memory?] using hs)
      rw [List.foldl_cons, List.foldl_nil, step]
      split
      · exact hseen
      · exact List.mem_append_left _ hseen

theorem arrived_of_done (h : key ∈ (steps.foldl step {}).done) :
    ∃ before tag after, steps = before ++ .arrive key tag :: after := by
  induction steps using List.reverseRecOn with
  | nil => cases h
  | append_singleton steps x ih =>
    rw [List.foldl_append, List.foldl_cons, List.foldl_nil] at h
    have hearlier : key ∈ (steps.foldl step {}).done →
        ∃ before tag after, steps ++ [x] = before ++ .arrive key tag :: after := by
      intro hdone
      obtain ⟨before, tag, after, rfl⟩ := ih hdone
      exact ⟨before, tag, after ++ [x], by rw [List.append_assoc, List.cons_append]⟩
    cases x with
    | reset seen => exact hearlier h
    | arrive key' tag' =>
      rw [step] at h
      split at h
      · exact hearlier h
      · rcases List.mem_append.mp h with hdone | hnew
        · exact hearlier hdone
        · exact ⟨steps, tag', [], by rw [List.mem_singleton.mp hnew]⟩

theorem nodup_done (h : Recognised steps) : (steps.foldl step {}).done.Nodup := by
  induction steps using List.reverseRecOn with
  | nil => exact List.nodup_nil
  | append_singleton steps x ih =>
    have hnodup := ih h.of_append
    rw [List.foldl_append, List.foldl_cons, List.foldl_nil]
    cases x with
    | reset seen => exact hnodup
    | arrive key tag =>
      rw [step]
      split
      next => exact hnodup
      next hnew =>
        rw [List.nodup_append]
        refine ⟨hnodup, List.nodup_singleton key, fun k hk k' hk' heq => hnew ?_⟩
        rw [heq, List.mem_singleton.mp hk'] at hk
        -- the key was done before, so its tag is still held
        obtain ⟨before, tag', after, rfl⟩ := arrived_of_done hk
        obtain ⟨rfl, hlast⟩ := h before key tag' after tag [] (by simp)
        rw [List.foldl_append, List.foldl_cons]
        exact mem_seen_run mem_seen_arrive hlast

def arrivals (tagOf : κ → τ) (m : Dedup κ τ) (items : List κ) : Dedup κ τ :=
  items.foldl (fun m x => m.step (.arrive x (tagOf x))) m

variable {tagOf : κ → τ} {items later : List κ}

@[simp] theorem arrivals_nil : m.arrivals tagOf [] = m := rfl

theorem arrivals_cons {x : κ} :
    m.arrivals tagOf (x :: items) = (m.step (.arrive x (tagOf x))).arrivals tagOf items := rfl

theorem arrivals_append :
    m.arrivals tagOf (items ++ later) = (m.arrivals tagOf items).arrivals tagOf later :=
  List.foldl_append

theorem arrivals_spec (tagOf : κ → τ) (m : Dedup κ τ) (items : List κ) : ∃ new,
    (m.arrivals tagOf items).done = m.done ++ new ∧
      (m.arrivals tagOf items).seen = m.seen ++ new.map tagOf ∧
      ∀ x ∈ new, tagOf x ∉ m.seen := by
  induction items generalizing m with
  | nil => exact ⟨[], by simp, by simp, nofun⟩
  | cons x items ih =>
    rw [arrivals_cons, step]
    split
    next => exact ih m
    next hnew =>
      obtain ⟨new, hdone, hseen, hfresh⟩ := ih ⟨m.seen ++ [tagOf x], m.done ++ [x]⟩
      refine ⟨x :: new, by simp [hdone], by simp [hseen], ?_⟩
      intro y hy
      rcases List.mem_cons.mp hy with rfl | hmem
      · exact hnew
      · exact fun h => hfresh y hmem (List.mem_append_left _ h)

theorem arrivals_ext (h : (arrivals tagOf {} items).done = (arrivals tagOf {} later).done) :
    arrivals tagOf {} items = arrivals tagOf {} later := by
  obtain ⟨new, hdone, hseen, -⟩ := arrivals_spec tagOf {} items
  obtain ⟨new', hdone', hseen', -⟩ := arrivals_spec tagOf {} later
  have hnew : new = new' := by simpa [hdone, hdone'] using h
  cases hm : arrivals tagOf {} items
  cases hm' : arrivals tagOf {} later
  simp_all

end Dedup

end Trademetrix
