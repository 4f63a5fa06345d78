import Mathlib.Data.List.Induction

/-!
# Registers that keep the last write

A register takes a sequence of messages, some of which write it. Where all
messages that write it agree, what it holds at the end depends only on whether
one of them was among the messages, not on their order or number.
-/

namespace Trademetrix

variable {μ β : Type} {write : μ → Option β} {x v : β} {ms ns : List μ} {m : μ}

/-- What a register that holds `x` holds after the messages. -/
def lastWrite (write : μ → Option β) (x : β) (ms : List μ) : β :=
  ms.foldl (fun y m => (write m).getD y) x

@[simp] theorem lastWrite_nil : lastWrite write x [] = x := rfl

theorem lastWrite_append :
    lastWrite write x (ms ++ ns) = lastWrite write (lastWrite write x ms) ns :=
  List.foldl_append

@[simp] theorem lastWrite_concat :
    lastWrite write x (ms ++ [m]) = (write m).getD (lastWrite write x ms) := by
  rw [lastWrite_append]
  rfl

theorem lastWrite_cases (write : μ → Option β) (x : β) (ms : List μ) :
    (∀ m ∈ ms, write m = none) ∧ lastWrite write x ms = x ∨
      ∃ m ∈ ms, write m = some (lastWrite write x ms) := by
  induction ms using List.reverseRecOn with
  | nil => exact .inl ⟨nofun, rfl⟩
  | append_singleton ms m ih =>
    rw [lastWrite_concat]
    cases hm : write m with
    | some v => exact .inr ⟨m, by simp, hm⟩
    | none =>
      rcases ih with ⟨hnone, hkept⟩ | ⟨n, hn, hwrite⟩
      · refine .inl ⟨fun n hn => ?_, hkept⟩
        rcases List.mem_append.mp hn with hn | hn
        · exact hnone n hn
        · rw [List.mem_singleton.mp hn, hm]
      · exact .inr ⟨n, List.mem_append_left _ hn, hwrite⟩

theorem lastWrite_eq (hagree : ∀ n ∈ ms, ∀ u ∈ write n, u = v) (hm : m ∈ ms) (hv : write m = some v) :
    lastWrite write x ms = v := by
  rcases lastWrite_cases write x ms with ⟨hnone, -⟩ | ⟨n, hn, hwrite⟩
  · rw [hnone m hm] at hv
    cases hv
  · exact hagree n hn _ hwrite

theorem lastWrite_congr (hagree : ∀ m ∈ ms, ∀ n ∈ ns, ∀ u ∈ write m, ∀ v ∈ write n, u = v)
    (hmn : ∀ m ∈ ms, (write m).isSome → m ∈ ns) (hnm : ∀ n ∈ ns, (write n).isSome → n ∈ ms) :
    lastWrite write x ms = lastWrite write x ns := by
  rcases lastWrite_cases write x ms with ⟨hnone, hkept⟩ | ⟨m, hm, hwrite⟩
  · rcases lastWrite_cases write x ns with ⟨-, hkept'⟩ | ⟨n, hn, hwrite⟩
    · rw [hkept, hkept']
    · have hn' := hnm n hn (by simp [hwrite])
      rw [hnone n hn'] at hwrite
      cases hwrite
  · have hm' := hmn m hm (by simp [hwrite])
    exact (lastWrite_eq (fun n hn u hu => (hagree m hm n hn _ hwrite u hu).symm) hm' hwrite).symm

end Trademetrix
