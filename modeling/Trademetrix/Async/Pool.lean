import Mathlib.Data.List.Pairwise
import Trademetrix.Async.Proc

/-!
# Pools of coroutines

An event loop holds coroutines suspended at awaits. One action starts a call and
runs its first segment, resumes one suspended task with a reply, or lets the
environment act. A tag names what a task is; `blocks a b` keeps a call tagged
`a` from starting while a task tagged `b` is in flight, so a tag that blocks
itself has at most one task.

`Contract` gives each tag a rely, a guarantee and a condition that holds while
it is idle. When the text of every call is within its contract, every effect of
every run is one some guarantee allows (`Run.legal`).
-/

namespace Trademetrix.Async

structure System (σ ε : Type) {ι : Type} (ρ : ι → Type) (τ κ : Type) where
  apply : ε → σ → σ
  tag : κ → τ
  code : κ → Proc σ ε ρ Unit
  blocks : τ → τ → Bool
  ready : (i : ι) → ρ i → σ → Bool
  env : σ → ε → Bool

structure Task (σ ε : Type) {ι : Type} (ρ : ι → Type) (τ : Type) where
  tag : τ
  code : Proc σ ε ρ Unit

structure Pool (σ ε : Type) {ι : Type} (ρ : ι → Type) (τ : Type) where
  state : σ
  tasks : List (Task σ ε ρ τ)

/-- `resume n answer` answers the await the `n`-th task is suspended in. -/
inductive Action (ε : Type) {ι : Type} (ρ : ι → Type) (κ : Type)
  | start (c : κ)
  | resume (n : ℕ) (answer : (i : ι) → ρ i)
  | env (e : ε)

variable {σ ε ι τ κ : Type} {ρ : ι → Type}

def Task.settle (t : Task σ ε ρ τ) : List (Task σ ε ρ τ) :=
  match t.code with
  | .ret _ => []
  | _ => [t]

namespace System

variable (S : System σ ε ρ τ κ)

def admits (c : κ) (ts : List (Task σ ε ρ τ)) : Bool :=
  ts.all fun t => !S.blocks (S.tag c) t.tag

/-- Run task `t` up to its next await, with `pre` and `suf` around it. -/
def segment (s : σ) (pre : List (Task σ ε ρ τ)) (t : Task σ ε ρ τ)
    (suf : List (Task σ ε ρ τ)) : List ε × Pool σ ε ρ τ :=
  let seg := t.code.advance S.apply s
  (seg.1, ⟨seg.2.1, pre ++ (Task.settle ⟨t.tag, seg.2.2⟩ ++ suf)⟩)

def step (P : Pool σ ε ρ τ) : Action ε ρ κ → Option (List ε × Pool σ ε ρ τ)
  | .start c =>
    if S.admits c P.tasks then some (S.segment P.state P.tasks ⟨S.tag c, S.code c⟩ []) else none
  | .resume n answer =>
    match P.tasks.drop n with
    | ⟨a, .await i k⟩ :: suf =>
      if S.ready i (answer i) P.state then
        some (S.segment P.state (P.tasks.take n) ⟨a, k (answer i)⟩ suf)
      else none
    | _ => none
  | .env e => if S.env P.state e then some ([e], ⟨S.apply e P.state, P.tasks⟩) else none

/-- The runs from `P₀`: the effects carried out, in order, and the pool reached. -/
inductive Run (P₀ : Pool σ ε ρ τ) : List ε → Pool σ ε ρ τ → Prop
  | nil : Run P₀ [] P₀
  | step {es fs : List ε} {P P' : Pool σ ε ρ τ} (a : Action ε ρ κ) :
      Run P₀ es P → S.step P a = some (fs, P') → Run P₀ (es ++ fs) P'

def perform (P : Pool σ ε ρ τ) : List (Action ε ρ κ) → Option (List ε × Pool σ ε ρ τ)
  | [] => some ([], P)
  | a :: as =>
    match S.step P a with
    | none => none
    | some (es, P') =>
      match perform P' as with
      | none => none
      | some (fs, P'') => some (es ++ fs, P'')

/-- Runs in which the process may also crash: the effect `crash` is carried out
and every task is gone. -/
inductive Life (crash : ε) (P₀ : Pool σ ε ρ τ) : List ε → Pool σ ε ρ τ → Prop
  | nil : Life crash P₀ [] P₀
  | step {es fs : List ε} {P P' : Pool σ ε ρ τ} (a : Action ε ρ κ) :
      Life crash P₀ es P → S.step P a = some (fs, P') → Life crash P₀ (es ++ fs) P'
  | crash {es : List ε} {P : Pool σ ε ρ τ} :
      Life crash P₀ es P → Life crash P₀ (es ++ [crash]) ⟨S.apply crash P.state, []⟩

variable {S}

theorem Run.append {P₀ P P' : Pool σ ε ρ τ} {es fs : List ε}
    (h₁ : S.Run P₀ es P) (h₂ : S.Run P fs P') : S.Run P₀ (es ++ fs) P' := by
  induction h₂ with
  | nil => simpa using h₁
  | step a _ hstep ih => simpa only [List.append_assoc] using Run.step a ih hstep

theorem run_of_perform {P P' : Pool σ ε ρ τ} {as : List (Action ε ρ κ)} {es : List ε}
    (h : S.perform P as = some (es, P')) : S.Run P es P' := by
  induction as generalizing P es with
  | nil =>
    cases h
    exact .nil
  | cons a as ih =>
    simp only [perform] at h
    cases hs : S.step P a with
    | none => simp [hs] at h
    | some first =>
      obtain ⟨es₁, P₁⟩ := first
      cases hp : S.perform P₁ as with
      | none => simp [hs, hp] at h
      | some rest =>
        obtain ⟨fs, P₂⟩ := rest
        simp only [hs, hp, Option.some.injEq, Prod.mk.injEq] at h
        obtain ⟨rfl, rfl⟩ := h
        have hone : S.Run P es₁ P₁ := by simpa using Run.step a Run.nil hs
        exact hone.append (ih hp)

theorem Run.life {crash : ε} {P₀ P : Pool σ ε ρ τ} {es : List ε} (h : S.Run P₀ es P) :
    S.Life crash P₀ es P := by
  induction h with
  | nil => exact .nil
  | step a _ hstep ih => exact .step a ih hstep

theorem exists_run (S : System σ ε ρ τ κ) (P₀ : Pool σ ε ρ τ) (as : List (Action ε ρ κ))
    {p : List ε → Pool σ ε ρ τ → Prop} [∀ es P, Decidable (p es P)]
    (h : (S.perform P₀ as).any (fun x => decide (p x.1 x.2)) = true) :
    ∃ es P, S.Run P₀ es P ∧ p es P := by
  cases hp : S.perform P₀ as with
  | none => simp [hp] at h
  | some x => exact ⟨x.1, x.2, run_of_perform hp, by simpa [hp] using h⟩

theorem segment_state (s : σ) (pre suf : List (Task σ ε ρ τ)) (t : Task σ ε ρ τ) :
    (S.segment s pre t suf).2.state = replay S.apply s (S.segment s pre t suf).1 :=
  Proc.advance_state _ _

theorem step_state {P P' : Pool σ ε ρ τ} {a : Action ε ρ κ} {es : List ε}
    (h : S.step P a = some (es, P')) : P'.state = replay S.apply P.state es := by
  cases a with
  | start c =>
    simp only [step] at h
    split at h
    · have hs := segment_state (S := S) P.state P.tasks [] ⟨S.tag c, S.code c⟩
      rwa [Option.some.inj h] at hs
    · cases h
  | resume n answer =>
    simp only [step] at h
    split at h
    · next a i k suf _ =>
      split at h
      · have hs := segment_state (S := S) P.state (P.tasks.take n) suf ⟨a, k (answer i)⟩
        rwa [Option.some.inj h] at hs
      · cases h
    · cases h
  | env e =>
    simp only [step] at h
    split at h
    · cases h
      rfl
    · cases h

theorem Run.state {P₀ P : Pool σ ε ρ τ} {es : List ε} (h : S.Run P₀ es P) :
    P.state = replay S.apply P₀.state es := by
  induction h with
  | nil => rfl
  | step a _ hstep ih => rw [step_state hstep, ih, replay_append]

theorem life_of_runs {crash : ε} {P₀ : Pool σ ε ρ τ} {rely : σ → σ → Prop}
    (hready : ∀ i r s, S.ready i r s = true)
    (henv : ∀ s s', rely s s' → ∃ e, S.env s e = true ∧ S.apply e s = s') {a : τ}
    {p : Proc σ ε ρ Unit} {s s' : σ} {rs : List (Sigma ρ)} {u : Unit}
    (h : p.Runs S.apply rely s rs u s') {es : List ε}
    (hp : S.Life crash P₀ es ⟨(p.advance S.apply s).2.1,
      Task.settle ⟨a, (p.advance S.apply s).2.2⟩⟩) (hdef : (i : ι) → ρ i) :
    ∃ fs, S.Life crash P₀ (es ++ fs) ⟨s', []⟩ := by
  induction h generalizing es with
  | ret u s => exact ⟨[], by simpa [Proc.advance, Task.settle] using hp⟩
  | read _ ih => exact ih hp
  | exec _ ih => exact ih hp
  | @await i k s t s' r rs u hrely _ ih =>
    obtain ⟨e, he, rfl⟩ := henv s t hrely
    have hmoved : S.Life crash P₀ (es ++ [e]) ⟨S.apply e s, [⟨a, .await i k⟩]⟩ := by
      refine .step (.env e) hp ?_
      simp only [step, Proc.advance, he, if_true]
      rfl
    classical
    have hstep : S.step ⟨S.apply e s, [⟨a, .await i k⟩]⟩ (.resume 0 (Function.update hdef i r)) =
        some (S.segment (S.apply e s) [] ⟨a, k r⟩ []) := by
      simp [step, hready]
    obtain ⟨fs, hfs⟩ := ih (by simpa [segment] using Life.step _ hmoved hstep)
    exact ⟨_, by simpa only [List.append_assoc] using hfs⟩

end System

structure Contract (σ ε τ : Type) where
  rely : τ → σ → σ → Prop
  guar : τ → σ → ε → Prop
  idle : τ → σ → Prop

namespace Contract

variable (K : Contract σ ε τ) (S : System σ ε ρ τ κ)

def Keeps (t : Task σ ε ρ τ) (s : σ) : Prop :=
  t.code.Within S.apply (fun i r s => S.ready i r s = true) (K.rely t.tag) (K.guar t.tag)
    (fun _ => K.idle t.tag) s

/-- The conditions on a contract that concern no text: relies are transitive and
keep the idle condition, and what one tag may do every other tag expects. -/
structure Sound : Prop where
  trans : ∀ a s t u, K.rely a s t → K.rely a t u → K.rely a s u
  refl : ∀ a s, K.rely a s s
  idle : ∀ a s t, K.rely a s t → K.idle a s → K.idle a t
  others : ∀ a b s e, (a = b → S.blocks a a = false) → K.guar b s e → K.rely a s (S.apply e s)
  env : ∀ a s e, S.env s e = true → K.rely a s (S.apply e s)
  code : ∀ c s, K.idle (S.tag c) s → K.Keeps S ⟨S.tag c, S.code c⟩ s

/-- The pool invariant behind `Run.legal`. -/
structure Holds (P : Pool σ ε ρ τ) : Prop where
  keeps : ∀ t ∈ P.tasks, K.Keeps S t P.state
  waits : ∀ t ∈ P.tasks, t.code.Suspended
  alone : P.tasks.Pairwise fun t u => t.tag = u.tag → S.blocks t.tag t.tag = false
  idle : ∀ a, (S.blocks a a = true → ∀ t ∈ P.tasks, t.tag ≠ a) → K.idle a P.state

variable {K} {S}

theorem Sound.relies {b : τ} (hK : K.Sound S) {a : τ} (hab : a = b → S.blocks a a = false)
    {s : σ} {es : List ε} (h : Legal S.apply (K.guar b) s es) :
    K.rely a s (replay S.apply s es) := by
  induction es generalizing s with
  | nil => exact hK.refl a s
  | cons e es ih => exact hK.trans _ _ _ _ (hK.others a b s e hab h.1) (ih h.2)

theorem Keeps.of_rely (hK : K.Sound S) {t : Task σ ε ρ τ} {s s' : σ} (h : K.Keeps S t s)
    (hw : t.code.Suspended) (hs : K.rely t.tag s s') : K.Keeps S t s' := by
  obtain ⟨a, code⟩ := t
  cases code with
  | ret u => exact hK.idle a s s' hs h
  | read k => exact hw.elim
  | exec e k => exact hw.elim
  | await i k => exact Proc.Within.await_of_rely (fun x y z => hK.trans a x y z) h hs

theorem settle_mem {t u : Task σ ε ρ τ} (h : u ∈ t.settle) : u = t := by
  unfold Task.settle at h
  split at h
  · cases h
  · simpa using h

theorem Holds.segment (hK : K.Sound S) {s : σ} (pre suf : List (Task σ ε ρ τ))
    {t : Task σ ε ρ τ} (ht : K.Keeps S t s)
    (keeps : ∀ u ∈ pre ++ suf, K.Keeps S u s) (waits : ∀ u ∈ pre ++ suf, u.code.Suspended)
    (alone : (pre ++ suf).Pairwise fun u v => u.tag = v.tag → S.blocks u.tag u.tag = false)
    (single : ∀ u ∈ pre ++ suf, u.tag = t.tag → S.blocks t.tag t.tag = false)
    (idle : ∀ a, (a = t.tag → S.blocks a a = false) →
      (S.blocks a a = true → ∀ u ∈ pre ++ suf, u.tag ≠ a) → K.idle a s) :
    Legal S.apply (K.guar t.tag) s (S.segment s pre t suf).1 ∧
      K.Holds S (S.segment s pre t suf).2 := by
  obtain ⟨hlegal, hrest⟩ := Proc.Within.advance ht
  have hstate : (t.code.advance S.apply s).2.1 = replay S.apply s (t.code.advance S.apply s).1 :=
    Proc.advance_state t.code s
  have hwait : (t.code.advance S.apply s).2.2.Suspended := Proc.advance_suspended t.code s
  have hmove : ∀ a, (a = t.tag → S.blocks a a = false) →
      K.rely a s (t.code.advance S.apply s).2.1 := by
    intro a ha
    rw [hstate]
    exact hK.relies ha hlegal
  have hother : ∀ u ∈ pre ++ suf, K.rely u.tag s (t.code.advance S.apply s).2.1 := by
    intro u hu
    refine hmove u.tag fun he => ?_
    rw [he]
    exact single u hu he
  have hmem : ∀ u ∈ (S.segment s pre t suf).2.tasks,
      u ∈ pre ++ suf ∨ u = ⟨t.tag, (t.code.advance S.apply s).2.2⟩ := by
    intro u hu
    simp only [System.segment, List.mem_append] at hu
    rcases hu with hu | hu | hu
    · exact .inl (List.mem_append_left _ hu)
    · exact .inr (settle_mem hu)
    · exact .inl (List.mem_append_right _ hu)
  refine ⟨hlegal, ⟨?_, ?_, ?_, ?_⟩⟩
  · intro u hu
    rcases hmem u hu with hu | rfl
    · exact (keeps u hu).of_rely hK (waits u hu) (hother u hu)
    · exact hrest
  · intro u hu
    rcases hmem u hu with hu | rfl
    · exact waits u hu
    · exact hwait
  · rw [List.pairwise_append] at alone
    obtain ⟨hpre, hsuf, hcross⟩ := alone
    simp only [System.segment, List.pairwise_append, List.mem_append]
    refine ⟨hpre, ⟨?_, hsuf, ?_⟩, ?_⟩
    · unfold Task.settle
      split <;> simp
    · intro u hu v hv he
      rw [settle_mem hu] at he ⊢
      exact single v (List.mem_append_right _ hv) he.symm
    · intro u hu v hv he
      rcases hv with hv | hv
      · rw [settle_mem hv] at he
        rw [he]
        exact single u (List.mem_append_left _ hu) he
      · exact hcross u hu v hv he
  · intro a ha
    by_cases hat : a = t.tag
    · subst hat
      by_cases hb : S.blocks t.tag t.tag = true
      · -- the tag is exclusive, so its only task has just ended
        have hnone := ha hb
        have hended : ∃ u, (t.code.advance S.apply s).2.2 = .ret u := by
          by_contra hne
          have hin : (⟨t.tag, (t.code.advance S.apply s).2.2⟩ : Task σ ε ρ τ) ∈
              (S.segment s pre t suf).2.tasks := by
            have hmid : (⟨t.tag, (t.code.advance S.apply s).2.2⟩ : Task σ ε ρ τ) ∈
                Task.settle ⟨t.tag, (t.code.advance S.apply s).2.2⟩ := by
              unfold Task.settle
              split
              · next u hu => exact absurd ⟨u, hu⟩ hne
              · simp
            simp only [System.segment, List.mem_append]
            exact .inr (.inl hmid)
          exact hnone _ hin rfl
        obtain ⟨u, hu⟩ := hended
        rw [hu] at hrest
        exact hrest
      · have hb' : S.blocks t.tag t.tag = false := by simpa using hb
        exact hK.idle _ _ _ (hmove _ fun _ => hb')
          (idle _ (fun _ => hb') fun h => absurd h hb)
    · refine hK.idle _ _ _ (hmove a fun h => absurd h hat) (idle a (fun h => absurd h hat) ?_)
      intro hb u hu
      refine ha hb u ?_
      simp only [System.segment, List.mem_append] at hu ⊢
      tauto

def Allowed (K : Contract σ ε τ) (S : System σ ε ρ τ κ) (s : σ) (e : ε) : Prop :=
  (∃ a, K.guar a s e) ∨ S.env s e = true

theorem Holds.step (hK : K.Sound S) {P P' : Pool σ ε ρ τ} {a : Action ε ρ κ} {es : List ε}
    (hP : K.Holds S P) (h : S.step P a = some (es, P')) :
    Legal S.apply (K.Allowed S) P.state es ∧ K.Holds S P' := by
  cases a with
  | start c =>
    simp only [System.step] at h
    split at h
    · next hadm =>
      have hfree : ∀ u ∈ P.tasks, S.blocks (S.tag c) u.tag = false := by
        simpa [System.admits] using hadm
      have hidle : K.idle (S.tag c) P.state := by
        refine hP.idle _ fun hb u hu he => ?_
        have hu' := hfree u hu
        rw [he, hb] at hu'
        cases hu'
      have hseg := Holds.segment hK P.tasks [] (hK.code c P.state hidle)
        (by simpa using hP.keeps) (by simpa using hP.waits) (by simpa using hP.alone)
        (by
          intro u hu he
          have hu' := hfree u (by simpa using hu)
          rwa [he] at hu')
        (by simpa using fun a _ => hP.idle a)
      rw [Option.some.inj h] at hseg
      exact ⟨hseg.1.mono fun _ _ hg => .inl ⟨_, hg⟩, hseg.2⟩
    · cases h
  | resume n answer =>
    simp only [System.step] at h
    split at h
    · next b i k suf hdrop =>
      split at h
      · next hready =>
        have hsplit : P.tasks = P.tasks.take n ++ ⟨b, .await i k⟩ :: suf := by
          rw [← hdrop, List.take_append_drop]
        have hin : ∀ u ∈ P.tasks.take n ++ suf, u ∈ P.tasks := by
          intro u hu
          rw [hsplit]
          simp only [List.mem_append, List.mem_cons] at hu ⊢
          tauto
        have hself : (⟨b, .await i k⟩ : Task σ ε ρ τ) ∈ P.tasks := by
          rw [hsplit]
          simp
        have halone := hP.alone
        rw [hsplit, List.pairwise_append, List.pairwise_cons] at halone
        obtain ⟨hpre, ⟨hhead, hsuf⟩, hcross⟩ := halone
        have hseg := Holds.segment hK (P.tasks.take n) suf (t := ⟨b, k (answer i)⟩)
          (hP.keeps _ hself P.state (hK.refl _ _) (answer i) hready)
          (fun u hu => hP.keeps u (hin u hu)) (fun u hu => hP.waits u (hin u hu))
          (by
            rw [List.pairwise_append]
            exact ⟨hpre, hsuf, fun u hu v hv => hcross u hu v (List.mem_cons_of_mem _ hv)⟩)
          (by
            intro u hu he
            rcases List.mem_append.mp hu with hu | hu
            · have hc := hcross u hu _ List.mem_cons_self he
              rwa [he] at hc
            · exact hhead u hu he.symm)
          (by
            intro a hab hnone
            refine hP.idle a fun hb u hu => ?_
            rw [hsplit] at hu
            simp only [List.mem_append, List.mem_cons] at hu
            rcases hu with hu | rfl | hu
            · exact hnone hb u (List.mem_append_left _ hu)
            · intro he
              have hf := hab he.symm
              rw [hb] at hf
              cases hf
            · exact hnone hb u (List.mem_append_right _ hu))
        rw [Option.some.inj h] at hseg
        exact ⟨hseg.1.mono fun _ _ hg => .inl ⟨_, hg⟩, hseg.2⟩
      · cases h
    · cases h
  | env e =>
    simp only [System.step] at h
    split at h
    · next henv =>
      cases h
      refine ⟨⟨.inr henv, trivial⟩, ⟨?_, hP.waits, hP.alone, ?_⟩⟩
      · exact fun t ht => (hP.keeps t ht).of_rely hK (hP.waits t ht) (hK.env _ _ _ henv)
      · exact fun a ha => hK.idle _ _ _ (hK.env _ _ _ henv) (hP.idle a ha)
    · cases h

theorem Run.legal (hK : K.Sound S) {P₀ P : Pool σ ε ρ τ} {es : List ε} (h₀ : K.Holds S P₀)
    (h : S.Run P₀ es P) : Legal S.apply (K.Allowed S) P₀.state es ∧ K.Holds S P := by
  induction h with
  | nil => exact ⟨trivial, h₀⟩
  | step a hrun hstep ih =>
    obtain ⟨hlegal, hholds⟩ := ih
    obtain ⟨hlast, hnext⟩ := hholds.step hK hstep
    refine ⟨(legal_append _ _ _).mpr ⟨hlegal, ?_⟩, hnext⟩
    rw [← System.Run.state hrun]
    exact hlast

theorem Life.legal (hK : K.Sound S) {crash : ε}
    (hcrash : ∀ s a, S.blocks a a = false → K.idle a s → ∀ b, K.idle b (S.apply crash s))
    {a : τ} (ha : S.blocks a a = false) {P₀ P : Pool σ ε ρ τ} {es : List ε}
    (h₀ : K.Holds S P₀) (h : S.Life crash P₀ es P) :
    Legal S.apply (fun s e => K.Allowed S s e ∨ e = crash) P₀.state es ∧ K.Holds S P ∧
      P.state = replay S.apply P₀.state es := by
  induction h with
  | nil => exact ⟨trivial, h₀, rfl⟩
  | step act hrun hstep ih =>
    obtain ⟨hlegal, hholds, hstate⟩ := ih
    obtain ⟨hlast, hnext⟩ := hholds.step hK hstep
    refine ⟨(legal_append _ _ _).mpr ⟨hlegal, ?_⟩, hnext, ?_⟩
    · rw [← hstate]
      exact hlast.mono fun _ _ h => .inl h
    · rw [System.step_state hstep, hstate, replay_append]
  | crash hrun ih =>
    obtain ⟨hlegal, hholds, hstate⟩ := ih
    refine ⟨(legal_append _ _ _).mpr ⟨hlegal, .inr rfl, trivial⟩, ⟨?_, ?_, .nil, ?_⟩, ?_⟩
    · exact fun t ht => absurd ht List.not_mem_nil
    · exact fun t ht => absurd ht List.not_mem_nil
    · refine fun b _ => hcrash _ a ha (hholds.idle a fun hb => ?_) b
      rw [ha] at hb
      cases hb
    · rw [replay_append, ← hstate]
      rfl

section Rules

variable (K) (S) {α β : Type} {a : τ} {s : σ}

/-- Text of a task tagged `a`, run from `s`, is within the contract and ends in `post`. -/
def Does (a : τ) (post : α → σ → Prop) (p : Proc σ ε ρ α) (s : σ) : Prop :=
  p.Within S.apply (fun i r s => S.ready i r s = true) (K.rely a) (K.guar a) post s

variable {K} {S} {post : β → σ → Prop}

theorem Does.mono {p : Proc σ ε ρ α} {post post' : α → σ → Prop} (h : K.Does S a post p s)
    (hp : ∀ x t, post x t → post' x t) : K.Does S a post' p s :=
  Proc.Within.mono h hp

theorem Does.pure {x : β} (h : post x s) : K.Does S a post (Pure.pure x) s := h

theorem Does.of_look {f : σ → Proc σ ε ρ β} (h : K.Does S a post (f s) s) :
    K.Does S a post (Proc.look >>= f) s :=
  (Proc.within_bind _ _ _).mpr h

theorem Does.of_emit {e : ε} {f : Unit → Proc σ ε ρ β} (hg : K.guar a s e)
    (h : K.Does S a post (f ()) (S.apply e s)) : K.Does S a post (Proc.emit e >>= f) s :=
  (Proc.within_bind _ _ _).mpr ⟨hg, h⟩

theorem Does.of_wait {i : ι} {f : ρ i → Proc σ ε ρ β}
    (h : ∀ r t, K.rely a s t → S.ready i r t = true → K.Does S a post (f r) t) :
    K.Does S a post (Proc.wait i >>= f) s :=
  (Proc.within_bind _ _ _).mpr fun t ht r hr => h r t ht hr

theorem Does.bind {p : Proc σ ε ρ α} {f : α → Proc σ ε ρ β} {mid : α → σ → Prop}
    (hp : K.Does S a mid p s) (hf : ∀ x t, mid x t → K.Does S a post (f x) t) :
    K.Does S a post (p >>= f) s :=
  (Proc.within_bind _ _ _).mpr (Proc.Within.mono hp hf)

variable (K) (S)

/-- Text of a task tagged `a` that keeps `Q`, whatever it returns. -/
def Stays (a : τ) (Q : σ → Prop) (p : Proc σ ε ρ α) : Prop :=
  ∀ s, Q s → K.Does S a (fun _ t => Q t) p s

variable {K} {S} {Q : σ → Prop}

theorem Stays.pure (x : α) : K.Stays S a Q (Pure.pure x : Proc σ ε ρ α) := fun _ h => h

theorem Stays.bind {p : Proc σ ε ρ α} {f : α → Proc σ ε ρ β} (hp : K.Stays S a Q p)
    (hf : ∀ x, K.Stays S a Q (f x)) : K.Stays S a Q (p >>= f) :=
  fun s h => Does.bind (hp s h) fun x t ht => hf x t ht

theorem Stays.look : K.Stays S a Q (Proc.look : Proc σ ε ρ σ) := fun _ h => h

theorem Stays.emit {e : ε} (h : ∀ s, Q s → K.guar a s e ∧ Q (S.apply e s)) :
    K.Stays S a Q (Proc.emit e : Proc σ ε ρ Unit) := h

theorem Stays.wait (h : ∀ s t, Q s → K.rely a s t → Q t) (i : ι) :
    K.Stays S a Q (Proc.wait i : Proc σ ε ρ (ρ i)) :=
  fun s hs t ht _ _ => h s t hs ht

end Rules

end Contract

end Trademetrix.Async

/-!
## History variables

A history variable notes what a run has done without the program ever reading it.
`Proc.beside` is the same text over the state with the variable next to it, and every
life of a system is a life of the system with the variable carried along, so that a
contract may speak of the past.
-/

namespace Trademetrix.Async

variable {σ ε ι τ κ γ α β : Type} {ρ : ι → Type}

namespace Proc

def beside : Proc σ ε ρ α → Proc (σ × γ) ε ρ α
  | ret a => ret a
  | read k => read fun x => (k x.1).beside
  | exec e k => exec e k.beside
  | await i k => await i fun r => (k r).beside

theorem beside_bind (p : Proc σ ε ρ α) (f : α → Proc σ ε ρ β) :
    ((p >>= f).beside : Proc (σ × γ) ε ρ β) = p.beside >>= fun a => (f a).beside := by
  change ((p.bind f).beside : Proc (σ × γ) ε ρ β) = p.beside.bind fun a => (f a).beside
  induction p with
  | ret a => rfl
  | read k ih => exact congrArg Proc.read (funext fun x => ih x.1)
  | exec e k ih => exact congrArg (Proc.exec e) ih
  | await i k ih => exact congrArg (Proc.await i) (funext fun r => ih r)

theorem Only.beside {P : ι → Prop} {Q : ε → Prop} {p : Proc σ ε ρ α} (h : p.Only P Q) :
    (p.beside : Proc (σ × γ) ε ρ α).Only P Q := by
  induction p with
  | ret a => trivial
  | read k ih => exact fun x => ih x.1 (h x.1)
  | exec e k ih => exact ⟨h.1, ih h.2⟩
  | await i k ih => exact ⟨h.1, fun r => ih r (h.2 r)⟩

theorem advance_beside (apply : ε → σ → σ) (note : σ → ε → γ → γ) (p : Proc σ ε ρ α) (s : σ) (g : γ) :
    p.beside.advance (track apply note) (s, g) =
      ((p.advance apply s).1, replay (track apply note) (s, g) (p.advance apply s).1,
        (p.advance apply s).2.2.beside) := by
  induction p generalizing s g with
  | ret a => rfl
  | read k ih => exact ih s s g
  | exec e k ih =>
    have hk := ih (apply e s) (note s e g)
    simp only [Proc.beside, advance, track, replay_cons] at hk ⊢
    rw [hk]
  | await i k ih => rfl

end Proc

theorem replay_track_fst {apply : ε → σ → σ} {note : σ → ε → γ → γ} (s : σ) (g : γ)
    (es : List ε) : (replay (track apply note) (s, g) es).1 = replay apply s es := by
  induction es generalizing s g with
  | nil => rfl
  | cons e es ih => exact ih _ _

def Task.beside (t : Task σ ε ρ τ) : Task (σ × γ) ε ρ τ := ⟨t.tag, t.code.beside⟩

theorem Task.settle_beside (t : Task σ ε ρ τ) :
    (t.beside : Task (σ × γ) ε ρ τ).settle = t.settle.map Task.beside := by
  obtain ⟨a, code⟩ := t
  cases code <;> rfl

def Pool.beside (P : Pool σ ε ρ τ) (g : γ) : Pool (σ × γ) ε ρ τ :=
  ⟨(P.state, g), P.tasks.map Task.beside⟩

namespace System

/-- The system with a history variable that `note` writes. -/
def withHistory (S : System σ ε ρ τ κ) (note : σ → ε → γ → γ) : System (σ × γ) ε ρ τ κ where
  apply := track S.apply note
  tag := S.tag
  code c := (S.code c).beside
  blocks := S.blocks
  ready i r x := S.ready i r x.1
  env x e := S.env x.1 e

variable {S : System σ ε ρ τ κ}

theorem segment_beside (note : σ → ε → γ → γ) (s : σ) (g : γ) (pre suf : List (Task σ ε ρ τ)) (t : Task σ ε ρ τ) :
    (S.withHistory note).segment (s, g) (pre.map Task.beside) t.beside (suf.map Task.beside) =
      ((S.segment s pre t suf).1,
        (S.segment s pre t suf).2.beside
          (replay (track S.apply note) (s, g) (S.segment s pre t suf).1).2) := by
  have hadv := Proc.advance_beside S.apply note t.code s g
  have hset := Task.settle_beside (γ := γ) ⟨t.tag, (t.code.advance S.apply s).2.2⟩
  have hstate : (replay (track S.apply note) (s, g) (t.code.advance S.apply s).1).1 =
      (t.code.advance S.apply s).2.1 := by
    rw [replay_track_fst, Proc.advance_state]
  simp only [segment, Task.beside, withHistory, Pool.beside] at hadv hset ⊢
  rw [hadv]
  simp only [hset, List.map_append]
  rw [← hstate]

theorem step_beside (note : σ → ε → γ → γ) {P P' : Pool σ ε ρ τ} {a : Action ε ρ κ} {es : List ε}
    (h : S.step P a = some (es, P')) (g : γ) :
    (S.withHistory note).step (P.beside g) a =
      some (es, P'.beside (replay (track S.apply note) (P.state, g) es).2) := by
  cases a with
  | start c =>
    simp only [step] at h ⊢
    split at h
    · next hadm =>
      have hadm' : (S.withHistory note).admits c (P.beside g).tasks = true := by
        simpa [admits, withHistory, Pool.beside, Task.beside, Function.comp_def] using hadm
      have hseg := segment_beside (S := S) note P.state g P.tasks [] ⟨S.tag c, S.code c⟩
      rw [Option.some.inj h] at hseg
      rw [if_pos hadm']
      exact congrArg some hseg
    · cases h
  | resume n answer =>
    simp only [step] at h ⊢
    split at h
    · next a i k suf hdrop =>
      split at h
      · next hready =>
        have hdrop' : (P.beside g).tasks.drop n =
            Task.beside ⟨a, .await i k⟩ :: suf.map Task.beside := by
          simp only [Pool.beside, ← List.map_drop, hdrop, List.map_cons]
        have hready' : (S.withHistory note).ready i (answer i) (P.beside g).state = true := hready
        have hseg := segment_beside (S := S) note P.state g (P.tasks.take n) suf
          ⟨a, k (answer i)⟩
        rw [Option.some.inj h] at hseg
        rw [hdrop']
        simp only [Task.beside, Proc.beside]
        rw [if_pos hready']
        simp only [Pool.beside, ← List.map_take] at hseg ⊢
        exact congrArg some hseg
      · cases h
    · cases h
  | env e =>
    simp only [step] at h ⊢
    split at h
    · next henv =>
      cases h
      have henv' : (S.withHistory note).env (P.beside g).state e = true := henv
      rw [if_pos henv']
      rfl
    · cases h

theorem Life.beside (note : σ → ε → γ → γ) {crash : ε} {P₀ P : Pool σ ε ρ τ} {es : List ε} (h : S.Life crash P₀ es P)
    (g : γ) :
    (S.withHistory note).Life crash (P₀.beside g) es
      (P.beside (replay (track S.apply note) (P₀.state, g) es).2) := by
  have hstate : ∀ {es P}, S.Life crash P₀ es P →
      (replay (track S.apply note) (P₀.state, g) es).1 = P.state := by
    intro es P h
    rw [replay_track_fst]
    induction h with
    | nil => rfl
    | step a _ hstep ih => rw [replay_append, ih, step_state hstep]
    | crash _ ih => rw [replay_append, ih]; rfl
  induction h with
  | nil => exact .nil
  | @step es _ _ _ a hrun hstep ih =>
    have hnext := step_beside note hstep (replay (track S.apply note) (P₀.state, g) es).2
    refine Life.step a ih (hnext.trans ?_)
    rw [replay_append, ← hstate hrun]
  | @crash es _ hrun ih =>
    have hnext := Life.crash ih
    rw [replay_append]
    simp only [Pool.beside, ← hstate hrun] at hnext ⊢
    exact hnext

end System

end Trademetrix.Async
