import Mathlib.Data.List.Basic
import Mathlib.Order.Basic

/-!
# Coroutines with named effects

A coroutine runs without interruption between two of its awaits. `Proc` is its
text: it looks at the shared state, carries out named effects, and at an await
gives up control until a reply of that await's type arrives. `advance` runs one
uninterrupted segment and records the effects in order. `Within` is its
rely/guarantee condition: every effect is one the guarantee allows, whatever
the others do inside the rely while the coroutine is suspended. `ready` says
which replies an await can get in a state, such as a free lock.
-/

namespace Trademetrix.Async

/-- `σ` is the shared state, `ε` the effects, `ρ i` the replies of await `i`. -/
inductive Proc (σ ε : Type) {ι : Type} (ρ : ι → Type) (α : Type) : Type
  | ret (a : α)
  | read (k : σ → Proc σ ε ρ α)
  | exec (e : ε) (k : Proc σ ε ρ α)
  | await (i : ι) (k : ρ i → Proc σ ε ρ α)

namespace Proc

variable {σ ε ι : Type} {ρ : ι → Type} {α β : Type}

def bind : Proc σ ε ρ α → (α → Proc σ ε ρ β) → Proc σ ε ρ β
  | ret a, f => f a
  | read k, f => .read fun s => (k s).bind f
  | exec e k, f => .exec e (k.bind f)
  | await i k, f => .await i fun r => (k r).bind f

instance : Monad (Proc σ ε ρ) where
  pure := ret
  bind := bind

def look : Proc σ ε ρ σ := .read .ret

def emit (e : ε) : Proc σ ε ρ Unit := .exec e (.ret ())

def wait (i : ι) : Proc σ ε ρ (ρ i) := .await i .ret

/-- Run up to the next await: the effects in order, the state they lead to and
what is left to run. -/
def advance (apply : ε → σ → σ) : Proc σ ε ρ α → σ → List ε × σ × Proc σ ε ρ α
  | ret a, s => ([], s, ret a)
  | read k, s => (k s).advance apply s
  | exec e k, s =>
    let rest := k.advance apply (apply e s)
    (e :: rest.1, rest.2)
  | await i k, s => ([], s, await i k)

/-- Every effect meets `guar` at the state it is carried out in, the end meets
`post`, and between an await and its reply the state moves inside `rely`. -/
def Within (apply : ε → σ → σ) (ready : (i : ι) → ρ i → σ → Prop) (rely : σ → σ → Prop)
    (guar : σ → ε → Prop) (post : α → σ → Prop) : Proc σ ε ρ α → σ → Prop
  | ret a, s => post a s
  | read k, s => (k s).Within apply ready rely guar post s
  | exec e k, s => guar s e ∧ k.Within apply ready rely guar post (apply e s)
  | await i k, s =>
    ∀ s', rely s s' → ∀ r, ready i r s' → (k r).Within apply ready rely guar post s'

variable {apply : ε → σ → σ} {ready : (i : ι) → ρ i → σ → Prop} {rely : σ → σ → Prop}
  {guar : σ → ε → Prop} {post : α → σ → Prop}

theorem within_bind {post : β → σ → Prop} (p : Proc σ ε ρ α) (f : α → Proc σ ε ρ β) (s : σ) :
    (p >>= f).Within apply ready rely guar post s ↔
      p.Within apply ready rely guar (fun a s' => (f a).Within apply ready rely guar post s') s := by
  change (p.bind f).Within apply ready rely guar post s ↔ _
  induction p generalizing s with
  | ret a => rfl
  | read k ih => exact ih s s
  | exec e k ih => exact and_congr Iff.rfl (ih _)
  | await i k ih =>
    exact forall_congr' fun s' => forall_congr' fun _ => forall_congr' fun r =>
      forall_congr' fun _ => ih r s'

theorem Within.mono {post' : α → σ → Prop} {p : Proc σ ε ρ α} {s : σ}
    (h : p.Within apply ready rely guar post s) (hp : ∀ a s', post a s' → post' a s') :
    p.Within apply ready rely guar post' s := by
  induction p generalizing s with
  | ret a => exact hp a s h
  | read k ih => exact ih s h
  | exec e k ih => exact ⟨h.1, ih h.2⟩
  | await i k ih => exact fun s' hs r hr => ih r (h s' hs r hr)

theorem Within.relax {guar' : σ → ε → Prop} {p : Proc σ ε ρ α} {s : σ}
    (h : p.Within apply ready rely guar post s) (hg : ∀ s e, guar s e → guar' s e) :
    p.Within apply ready rely guar' post s := by
  induction p generalizing s with
  | ret a => exact h
  | read k ih => exact ih s h
  | exec e k ih => exact ⟨hg _ _ h.1, ih h.2⟩
  | await i k ih => exact fun s' hs r hr => ih r (h s' hs r hr)

theorem Within.await_of_rely (htrans : ∀ a b c, rely a b → rely b c → rely a c)
    {i : ι} {k : ρ i → Proc σ ε ρ α} {s s' : σ}
    (h : (await i k).Within apply ready rely guar post s) (hs : rely s s') :
    (await i k).Within apply ready rely guar post s' :=
  fun _ ht r hr => h _ (htrans _ _ _ hs ht) r hr

def Suspended : Proc σ ε ρ α → Prop
  | ret _ | await _ _ => True
  | read _ | exec _ _ => False

theorem advance_suspended (p : Proc σ ε ρ α) (s : σ) : (p.advance apply s).2.2.Suspended := by
  induction p generalizing s with
  | ret a => trivial
  | read k ih => exact ih s s
  | exec e k ih => exact ih _
  | await i k ih => trivial

end Proc

def replay {σ ε : Type} (apply : ε → σ → σ) (s : σ) (es : List ε) : σ :=
  es.foldl (fun s e => apply e s) s

section Replay

variable {σ ε : Type} {apply : ε → σ → σ} {G H : σ → ε → Prop}

@[simp] theorem replay_nil (s : σ) : replay apply s [] = s := rfl

@[simp] theorem replay_cons (s : σ) (e : ε) (es : List ε) :
    replay apply s (e :: es) = replay apply (apply e s) es := rfl

theorem replay_append (s : σ) (es fs : List ε) :
    replay apply s (es ++ fs) = replay apply (replay apply s es) fs :=
  List.foldl_append

/-- Each effect of the list meets `G` in the state it is carried out in. -/
def Legal (apply : ε → σ → σ) (G : σ → ε → Prop) : σ → List ε → Prop
  | _, [] => True
  | s, e :: es => G s e ∧ Legal apply G (apply e s) es

instance Legal.decidable [∀ s e, Decidable (G s e)] :
    ∀ (s : σ) (es : List ε), Decidable (Legal apply G s es)
  | _, [] => isTrue trivial
  | s, e :: es =>
    have := Legal.decidable (apply e s) es
    inferInstanceAs (Decidable (G s e ∧ Legal apply G (apply e s) es))

@[simp] theorem legal_nil (s : σ) : Legal apply G s [] := trivial

@[simp] theorem legal_cons (s : σ) (e : ε) (es : List ε) :
    Legal apply G s (e :: es) ↔ G s e ∧ Legal apply G (apply e s) es := Iff.rfl

theorem legal_append (s : σ) (es fs : List ε) :
    Legal apply G s (es ++ fs) ↔ Legal apply G s es ∧ Legal apply G (replay apply s es) fs := by
  induction es generalizing s with
  | nil => simp
  | cons e es ih => simp [ih, and_assoc]

theorem Legal.mono {s : σ} {es : List ε} (h : Legal apply G s es)
    (hGH : ∀ s e, G s e → H s e) : Legal apply H s es := by
  induction es generalizing s with
  | nil => trivial
  | cons e es ih => exact ⟨hGH _ _ h.1, ih h.2⟩

theorem Legal.of_forall (h : ∀ s e, G s e) (s : σ) (es : List ε) : Legal apply G s es := by
  induction es generalizing s with
  | nil => trivial
  | cons e es ih => exact ⟨h s e, ih (apply e s)⟩

theorem Legal.and {s : σ} {es : List ε} (hG : Legal apply G s es) (hH : Legal apply H s es) :
    Legal apply (fun s e => G s e ∧ H s e) s es := by
  induction es generalizing s with
  | nil => trivial
  | cons e es ih => exact ⟨⟨hG.1, hH.1⟩, ih hG.2 hH.2⟩

theorem Legal.congr {F : σ → ε → Prop} {s : σ} {es : List ε} (hF : Legal apply F s es)
    (h : ∀ s e, F s e → (G s e ↔ H s e)) : Legal apply G s es ↔ Legal apply H s es :=
  ⟨fun hG => (hF.and hG).mono fun s e he => (h s e he.1).mp he.2,
    fun hH => (hF.and hH).mono fun s e he => (h s e he.1).mpr he.2⟩

theorem Legal.invariant {I : σ → Prop} (hstep : ∀ s e, I s → G s e → I (apply e s))
    {s : σ} {es : List ε} (h : Legal apply G s es) (hs : I s) : I (replay apply s es) := by
  induction es generalizing s with
  | nil => exact hs
  | cons e es ih => exact ih h.2 (hstep _ _ hs h.1)

theorem Legal.history {I : List ε → σ → Prop}
    (hstep : ∀ past s e, I past s → G s e → I (past ++ [e]) (apply e s))
    {s : σ} {past es : List ε} (h : Legal apply G s es) (hs : I past s) :
    I (past ++ es) (replay apply s es) := by
  induction es generalizing s past with
  | nil => simpa using hs
  | cons e es ih =>
    have hnext := ih h.2 (hstep _ _ _ hs h.1)
    simpa [List.append_assoc] using hnext

theorem Legal.at {s : σ} {es fs : List ε} {e : ε} (h : Legal apply G s (es ++ e :: fs)) :
    G (replay apply s es) e :=
  ((legal_append s es (e :: fs)).mp h).2.1

/-- `P` holds at the start and after each effect. -/
def Always (apply : ε → σ → σ) (P : σ → Prop) (s : σ) (es : List ε) : Prop :=
  ∀ pre, pre <+: es → P (replay apply s pre)

theorem Legal.of_isPrefix {s : σ} {es pre : List ε} (h : Legal apply G s es) (hp : pre <+: es) :
    Legal apply G s pre := by
  obtain ⟨suf, rfl⟩ := hp
  exact ((legal_append s pre suf).mp h).1

theorem Legal.always {I : σ → Prop} (hstep : ∀ s e, I s → G s e → I (apply e s))
    {s : σ} {es : List ε} (h : Legal apply G s es) (hs : I s) : Always apply I s es :=
  fun _ hp => (h.of_isPrefix hp).invariant hstep hs

theorem Always.mono {P Q : σ → Prop} {s : σ} {es : List ε} (h : Always apply P s es)
    (hPQ : ∀ s, P s → Q s) : Always apply Q s es :=
  fun pre hp => hPQ _ (h pre hp)

theorem Legal.with_invariant {I : σ → Prop} (hstep : ∀ s e, I s → G s e → I (apply e s))
    {s : σ} {es : List ε} (h : Legal apply G s es) (hs : I s) :
    Legal apply (fun s e => I s ∧ G s e) s es := by
  induction es generalizing s with
  | nil => trivial
  | cons e es ih => exact ⟨⟨hs, h.1⟩, ih h.2 (hstep _ _ hs h.1)⟩

theorem Legal.of_always {P : σ → Prop} (hstep : ∀ s e, G s e → P s → P (apply e s) → H s e)
    {s : σ} {es : List ε} (h : Legal apply G s es) (hP : Always apply P s es) :
    Legal apply H s es := by
  induction es generalizing s with
  | nil => trivial
  | cons e es ih =>
    have hnext : Always apply P (apply e s) es :=
      fun pre hp => hP (e :: pre) (List.cons_prefix_cons.mpr ⟨rfl, hp⟩)
    exact ⟨hstep s e h.1 (hP [] List.nil_prefix) (hnext [] List.nil_prefix), ih h.2 hnext⟩

/-- Carry a history variable along: `note` says how an effect changes it, given
the state the effect is carried out in. -/
def track {γ : Type} (apply : ε → σ → σ) (note : σ → ε → γ → γ) (e : ε) (x : σ × γ) : σ × γ :=
  (apply e x.1, note x.1 e x.2)

theorem legal_map {σ' : Type} {apply' : ε → σ' → σ'} {π : σ' → σ}
    (hπ : ∀ e x, π (apply' e x) = apply e (π x)) (x : σ') (es : List ε) :
    Legal apply' (fun y e => G (π y) e) x es ↔ Legal apply G (π x) es := by
  induction es generalizing x with
  | nil => exact Iff.rfl
  | cons e es ih => rw [legal_cons, legal_cons, ih, hπ]

theorem replay_map {σ' : Type} {apply' : ε → σ' → σ'} {π : σ' → σ}
    (hπ : ∀ e x, π (apply' e x) = apply e (π x)) (x : σ') (es : List ε) :
    π (replay apply' x es) = replay apply (π x) es := by
  induction es generalizing x with
  | nil => rfl
  | cons e es ih => rw [replay_cons, replay_cons, ih, hπ]

theorem always_map {σ' : Type} {apply' : ε → σ' → σ'} {π : σ' → σ} {P : σ → Prop}
    (hπ : ∀ e x, π (apply' e x) = apply e (π x)) (x : σ') (es : List ε) :
    Always apply' (fun y => P (π y)) x es ↔ Always apply P (π x) es := by
  simp only [Always, replay_map hπ]

theorem Legal.track {γ : Type} {s : σ} {es : List ε} (h : Legal apply G s es)
    (note : σ → ε → γ → γ) (g : γ) :
    Legal (track apply note) (fun y e => G y.1 e) (s, g) es :=
  (legal_map (π := Prod.fst) (fun _ _ => rfl) (s, g) es).mpr h

end Replay

namespace Proc

variable {σ ε ι : Type} {ρ : ι → Type} {α : Type} {apply : ε → σ → σ}
  {ready : (i : ι) → ρ i → σ → Prop} {rely : σ → σ → Prop} {guar : σ → ε → Prop}
  {post : α → σ → Prop}

theorem advance_state (p : Proc σ ε ρ α) (s : σ) :
    (p.advance apply s).2.1 = replay apply s (p.advance apply s).1 := by
  induction p generalizing s with
  | ret a => rfl
  | read k ih => exact ih s s
  | exec e k ih => exact ih _
  | await i k ih => rfl

theorem Within.advance {p : Proc σ ε ρ α} {s : σ} (h : p.Within apply ready rely guar post s) :
    Legal apply guar s (p.advance apply s).1 ∧
      (p.advance apply s).2.2.Within apply ready rely guar post (p.advance apply s).2.1 := by
  induction p generalizing s with
  | ret a => exact ⟨trivial, h⟩
  | read k ih => exact ih s h
  | exec e k ih =>
    obtain ⟨hl, hw⟩ := ih h.2
    exact ⟨⟨h.1, hl⟩, hw⟩
  | await i k ih => exact ⟨trivial, h⟩

end Proc

section Runs

variable {σ ε ι : Type} {ρ : ι → Type} {α β : Type}

namespace Proc

/-- A coroutine run from its start to its end: the replies it got, in order, its
result and the state it leaves. While it is suspended the state moves inside `rely`. -/
inductive Runs (apply : ε → σ → σ) (rely : σ → σ → Prop) :
    Proc σ ε ρ α → σ → List (Sigma ρ) → α → σ → Prop
  | ret (a : α) (s : σ) : Runs apply rely (ret a) s [] a s
  | read {k : σ → Proc σ ε ρ α} {s s' : σ} {rs : List (Sigma ρ)} {a : α} :
      Runs apply rely (k s) s rs a s' → Runs apply rely (read k) s rs a s'
  | exec {e : ε} {k : Proc σ ε ρ α} {s s' : σ} {rs : List (Sigma ρ)} {a : α} :
      Runs apply rely k (apply e s) rs a s' → Runs apply rely (exec e k) s rs a s'
  | await {i : ι} {k : ρ i → Proc σ ε ρ α} {s t s' : σ} {r : ρ i} {rs : List (Sigma ρ)} {a : α} :
      rely s t → Runs apply rely (k r) t rs a s' → Runs apply rely (await i k) s (⟨i, r⟩ :: rs) a s'

variable {apply : ε → σ → σ} {rely : σ → σ → Prop} {s s' : σ} {rs : List (Sigma ρ)}

theorem runs_pure {a b : α} (h : Runs apply rely (pure a : Proc σ ε ρ α) s rs b s') :
    rs = [] ∧ b = a ∧ s' = s := by
  cases h
  exact ⟨rfl, rfl, rfl⟩

theorem runs_bind {p : Proc σ ε ρ α} {f : α → Proc σ ε ρ β} {b : β}
    (h : Runs apply rely (p >>= f) s rs b s') :
    ∃ rs₁ a t rs₂, rs = rs₁ ++ rs₂ ∧ Runs apply rely p s rs₁ a t ∧
      Runs apply rely (f a) t rs₂ b s' := by
  change Runs apply rely (p.bind f) s rs b s' at h
  induction p generalizing s rs with
  | ret a => exact ⟨[], a, s, rs, rfl, .ret a s, h⟩
  | read k ih =>
    cases h with
    | read h =>
      obtain ⟨rs₁, a, t, rs₂, hrs, hp, hf⟩ := ih s h
      exact ⟨rs₁, a, t, rs₂, hrs, .read hp, hf⟩
  | exec e k ih =>
    cases h with
    | exec h =>
      obtain ⟨rs₁, a, t, rs₂, hrs, hp, hf⟩ := ih h
      exact ⟨rs₁, a, t, rs₂, hrs, .exec hp, hf⟩
  | await i k ih =>
    cases h with
    | @await _ _ _ u _ r rest _ hrely h =>
      obtain ⟨rs₁, a, t, rs₂, hrs, hp, hf⟩ := ih r h
      exact ⟨⟨i, r⟩ :: rs₁, a, t, rs₂, by rw [hrs, List.cons_append], .await hrely hp, hf⟩

theorem runs_look {t : σ} (h : Runs apply rely (look : Proc σ ε ρ σ) s rs t s') :
    rs = [] ∧ t = s ∧ s' = s := by
  cases h with
  | read h => exact runs_pure h

theorem runs_emit {e : ε} {u : Unit} (h : Runs apply rely (emit e : Proc σ ε ρ Unit) s rs u s') :
    rs = [] ∧ s' = apply e s := by
  cases h with
  | exec h =>
    obtain ⟨hrs, -, hs⟩ := runs_pure h
    exact ⟨hrs, hs⟩

theorem runs_wait {i : ι} {r : ρ i} (h : Runs apply rely (wait i : Proc σ ε ρ (ρ i)) s rs r s') :
    rs = [⟨i, r⟩] ∧ rely s s' := by
  cases h with
  | await hrely h =>
    obtain ⟨rfl, rfl, rfl⟩ := runs_pure h
    exact ⟨rfl, hrely⟩

theorem Runs.post {ready : (i : ι) → ρ i → σ → Prop} {guar : σ → ε → Prop} {post : α → σ → Prop}
    {p : Proc σ ε ρ α} {a : α} (h : Runs apply rely p s rs a s')
    (hp : p.Within apply ready rely guar post s) (hready : ∀ i r t, ready i r t) : post a s' := by
  induction h with
  | ret a s => exact hp
  | read _ ih => exact ih hp
  | exec _ ih => exact ih hp.2
  | await hrely _ ih => exact ih (hp _ hrely _ (hready _ _ _))

def Only (P : ι → Prop) (Q : ε → Prop) : Proc σ ε ρ α → Prop
  | ret _ => True
  | read k => ∀ s, (k s).Only P Q
  | exec e k => Q e ∧ k.Only P Q
  | await i k => P i ∧ ∀ r, (k r).Only P Q

section Only

variable {P P' : ι → Prop} {Q Q' : ε → Prop}

theorem Only.bind {p : Proc σ ε ρ α} {f : α → Proc σ ε ρ β} (hp : p.Only P Q)
    (hf : ∀ a, (f a).Only P Q) : (p >>= f).Only P Q := by
  change (p.bind f).Only P Q
  induction p with
  | ret a => exact hf a
  | read k ih => exact fun s => ih s (hp s)
  | exec e k ih => exact ⟨hp.1, ih hp.2⟩
  | await i k ih => exact ⟨hp.1, fun r => ih r (hp.2 r)⟩

theorem Only.pure (a : α) : (Pure.pure a : Proc σ ε ρ α).Only P Q := trivial

theorem Only.look : (look : Proc σ ε ρ σ).Only P Q := fun _ => trivial

theorem Only.emit {e : ε} (h : Q e) : (emit e : Proc σ ε ρ Unit).Only P Q := ⟨h, trivial⟩

theorem Only.wait {i : ι} (h : P i) : (wait i : Proc σ ε ρ (ρ i)).Only P Q :=
  ⟨h, fun _ => trivial⟩

theorem Only.mono {p : Proc σ ε ρ α} (h : p.Only P Q) (hP : ∀ i, P i → P' i)
    (hQ : ∀ e, Q e → Q' e) : p.Only P' Q' := by
  induction p with
  | ret a => trivial
  | read k ih => exact fun s => ih s (h s)
  | exec e k ih => exact ⟨hQ e h.1, ih h.2⟩
  | await i k ih => exact ⟨hP i h.1, fun r => ih r (h.2 r)⟩

theorem Runs.awaits {p : Proc σ ε ρ α} {a : α} (h : Runs apply rely p s rs a s')
    (hp : p.Only P Q) : ∀ x ∈ rs, P x.1 := by
  induction h with
  | ret a s => exact fun x hx => absurd hx List.not_mem_nil
  | read _ ih => exact ih (hp _)
  | exec _ ih => exact ih hp.2
  | await _ _ ih =>
    intro x hx
    rcases List.mem_cons.mp hx with rfl | hx
    · exact hp.1
    · exact ih (hp.2 _) x hx

theorem Only.moves {ready : (i : ι) → ρ i → σ → Prop} {guar : σ → ε → Prop} {R : σ → σ → Prop}
    {p : Proc σ ε ρ α} (h : p.Only P Q) (hrefl : ∀ s, R s s)
    (htrans : ∀ s t u, R s t → R t u → R s u) (hQ : ∀ s e, Q e → guar s e ∧ R s (apply e s))
    (hrely : ∀ s t, rely s t → R s t) (s : σ) :
    p.Within apply ready rely guar (fun _ t => R s t) s := by
  have hgoes : ∀ t, R s t → p.Within apply ready rely guar (fun _ t => R s t) t := by
    induction p with
    | ret a => exact fun t ht => ht
    | read k ih => exact fun t ht => ih t (h t) t ht
    | exec e k ih =>
      exact fun t ht => ⟨(hQ t e h.1).1, ih h.2 _ (htrans _ _ _ ht (hQ t e h.1).2)⟩
    | await i k ih => exact fun t ht u hu r _ => ih r (h.2 r) u (htrans _ _ _ ht (hrely t u hu))
  exact hgoes s (hrefl s)

end Only

/-- The end of a coroutine each of whose awaits of one kind gets the same reply, with
nothing beside it. -/
def finish (apply : ε → σ → σ) (answer : (i : ι) → ρ i) : Proc σ ε ρ α → σ → α × σ
  | ret a, s => (a, s)
  | read k, s => (k s).finish apply answer s
  | exec e k, s => k.finish apply answer (apply e s)
  | await i k, s => (k (answer i)).finish apply answer s

def answers (apply : ε → σ → σ) (answer : (i : ι) → ρ i) : Proc σ ε ρ α → σ → List (Sigma ρ)
  | ret _, _ => []
  | read k, s => (k s).answers apply answer s
  | exec e k, s => k.answers apply answer (apply e s)
  | await i k, s => ⟨i, answer i⟩ :: (k (answer i)).answers apply answer s

theorem runs_finish (hrely : ∀ s, rely s s) (answer : (i : ι) → ρ i) (p : Proc σ ε ρ α) (s : σ) :
    Runs apply rely p s (p.answers apply answer s) (p.finish apply answer s).1
      (p.finish apply answer s).2 := by
  induction p generalizing s with
  | ret a => exact .ret a s
  | read k ih => exact .read (ih s s)
  | exec e k ih => exact .exec (ih (apply e s))
  | await i k ih => exact .await (hrely s) (ih (answer i) s)

end Proc

end Runs

end Trademetrix.Async
