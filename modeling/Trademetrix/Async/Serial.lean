import Trademetrix.Async.Proc

/-!
# Calls made one after another

A call that runs alone may still be cut at any effect, by a crash or for good.
`Goes` is such a run of one text: the effects carried out, the state they leave
and the result, if the call came to one. `Lives` strings calls together, each
cut or not. `Within`, with nothing moving the state from outside, says what
every run carries out and how it ends.
-/

namespace Trademetrix.Async

namespace Proc

variable {σ ε ι : Type} {ρ : ι → Type} {α β : Type}

/-- A run of a call that is alone; `none` when it was cut. -/
inductive Goes (apply : ε → σ → σ) :
    Proc σ ε ρ α → σ → List ε → σ → Option α → Prop
  | cut (p : Proc σ ε ρ α) (s : σ) : Goes apply p s [] s none
  | ret (a : α) (s : σ) : Goes apply (ret a) s [] s (some a)
  | read {k : σ → Proc σ ε ρ α} {s s' : σ} {es : List ε} {o : Option α} :
      Goes apply (k s) s es s' o → Goes apply (read k) s es s' o
  | exec {e : ε} {k : Proc σ ε ρ α} {s s' : σ} {es : List ε} {o : Option α} :
      Goes apply k (apply e s) es s' o → Goes apply (exec e k) s (e :: es) s' o
  | await {i : ι} {k : ρ i → Proc σ ε ρ α} {s s' : σ} {r : ρ i} {es : List ε} {o : Option α} :
      Goes apply (k r) s es s' o → Goes apply (await i k) s es s' o

variable {apply : ε → σ → σ} {guar : σ → ε → Prop} {s s' : σ} {es : List ε}

theorem Goes.state {p : Proc σ ε ρ α} {o : Option α} (h : Goes apply p s es s' o) :
    s' = replay apply s es := by
  induction h with
  | cut | ret => rfl
  | read _ ih | exec _ ih | await _ ih => exact ih

theorem Goes.of_bind {p : Proc σ ε ρ α} {f : α → Proc σ ε ρ β} {b : β}
    (h : Goes apply (p >>= f) s es s' (some b)) :
    ∃ a t es₁ es₂, Goes apply p s es₁ t (some a) ∧ Goes apply (f a) t es₂ s' (some b) := by
  change Goes apply (p.bind f) s es s' (some b) at h
  induction p generalizing s es with
  | ret a => exact ⟨a, s, [], es, .ret a s, h⟩
  | read k ih =>
    cases h with
    | read h =>
      obtain ⟨a, t, es₁, es₂, hp, hf⟩ := ih s h
      exact ⟨a, t, es₁, es₂, .read hp, hf⟩
  | exec e k ih =>
    cases h with
    | exec h =>
      obtain ⟨a, t, es₁, es₂, hp, hf⟩ := ih h
      exact ⟨a, t, e :: es₁, es₂, .exec hp, hf⟩
  | await i k ih =>
    cases h with
    | await h =>
      obtain ⟨a, t, es₁, es₂, hp, hf⟩ := ih _ h
      exact ⟨a, t, es₁, es₂, .await hp, hf⟩

/-- Text of a call that is alone: every effect is one `guar` allows, the end meets `post`. -/
def Alone (apply : ε → σ → σ) (guar : σ → ε → Prop) (post : α → σ → Prop) (p : Proc σ ε ρ α)
    (s : σ) : Prop :=
  p.Within apply (fun _ _ _ => True) Eq guar post s

theorem Alone.goes {post : α → σ → Prop} {p : Proc σ ε ρ α} {o : Option α}
    (h : p.Alone apply guar post s) (hgo : Goes apply p s es s' o) :
    Legal apply guar s es ∧ ∀ a, o = some a → post a s' := by
  induction hgo with
  | cut => exact ⟨trivial, nofun⟩
  | ret a s =>
    refine ⟨trivial, fun b hb => ?_⟩
    cases hb
    exact h
  | read _ ih => exact ih h
  | exec _ ih =>
    obtain ⟨hlegal, hpost⟩ := ih h.2
    exact ⟨⟨h.1, hlegal⟩, hpost⟩
  | @await i k s _ r _ _ _ ih => exact ih (h s rfl r trivial)

section Rules

variable {post : β → σ → Prop}

theorem Alone.mono {post post' : α → σ → Prop} {p : Proc σ ε ρ α} (h : p.Alone apply guar post s)
    (hp : ∀ a t, post a t → post' a t) : p.Alone apply guar post' s :=
  Within.mono h hp

theorem Alone.pure {b : β} (h : post b s) : (Pure.pure b : Proc σ ε ρ β).Alone apply guar post s :=
  h

theorem Alone.bind {p : Proc σ ε ρ α} {f : α → Proc σ ε ρ β} {mid : α → σ → Prop}
    (hp : p.Alone apply guar mid s) (hf : ∀ a t, mid a t → (f a).Alone apply guar post t) :
    (p >>= f).Alone apply guar post s :=
  (within_bind _ _ _).mpr (Within.mono hp hf)

theorem Alone.discard {γ : Type} {p : Proc σ ε ρ γ} {mid : γ → σ → Prop}
    (h : p.Alone apply guar mid s) :
    (Functor.discard p : Proc σ ε ρ Unit).Alone apply guar (fun _ _ => True) s :=
  Alone.bind h fun _ _ _ => Alone.pure trivial

theorem Alone.of_look {f : σ → Proc σ ε ρ β} (h : (f s).Alone apply guar post s) :
    ((look : Proc σ ε ρ σ) >>= f).Alone apply guar post s :=
  (within_bind _ _ _).mpr h

theorem Alone.of_emit {e : ε} {f : Unit → Proc σ ε ρ β} (hg : guar s e)
    (h : (f ()).Alone apply guar post (apply e s)) :
    ((emit e : Proc σ ε ρ Unit) >>= f).Alone apply guar post s :=
  (within_bind _ _ _).mpr ⟨hg, h⟩

theorem Alone.of_wait {i : ι} {f : ρ i → Proc σ ε ρ β}
    (h : ∀ r, (f r).Alone apply guar post s) :
    ((wait i : Proc σ ε ρ (ρ i)) >>= f).Alone apply guar post s := by
  refine (within_bind _ _ _).mpr fun t ht r _ => ?_
  subst ht
  exact h r

end Rules

section Raising

variable {χ : Type}

/-- The same for a call that may raise; nothing is asked of how it ends when it does. -/
def Tries (apply : ε → σ → σ) (guar : σ → ε → Prop) (post : α → σ → Prop)
    (p : ExceptT χ (Proc σ ε ρ) α) (s : σ) : Prop :=
  p.run.Alone apply guar (fun r t => ∀ a, r = .ok a → post a t) s

variable {post : β → σ → Prop}

theorem Tries.mono {post post' : α → σ → Prop} {p : ExceptT χ (Proc σ ε ρ) α}
    (h : Tries apply guar post p s) (hp : ∀ a t, post a t → post' a t) :
    Tries apply guar post' p s :=
  Alone.mono h fun _ t hr a ha => hp a t (hr a ha)

theorem Tries.pure {b : β} (h : post b s) :
    Tries apply guar post (Pure.pure b : ExceptT χ (Proc σ ε ρ) β) s :=
  fun _ ha => Except.ok.inj ha ▸ h

theorem Tries.bind {p : ExceptT χ (Proc σ ε ρ) α} {f : α → ExceptT χ (Proc σ ε ρ) β}
    {mid : α → σ → Prop} (hp : Tries apply guar mid p s)
    (hf : ∀ a t, mid a t → Tries apply guar post (f a) t) :
    Tries apply guar post (p >>= f) s := by
  refine Alone.bind hp fun r t hr => ?_
  cases r with
  | ok a => exact hf a t (hr a rfl)
  | error e => exact nofun

theorem Tries.forM {p : α → ExceptT χ (Proc σ ε ρ) PUnit} {inv : σ → Prop} {xs : List α}
    (h : ∀ x ∈ xs, ∀ t, inv t → Tries apply guar (fun _ => inv) (p x) t) (hs : inv s) :
    Tries apply guar (fun _ => inv) (xs.forM p) s := by
  induction xs generalizing s with
  | nil => exact Tries.pure hs
  | cons x xs ih =>
    refine Tries.bind (h x List.mem_cons_self s hs) fun _ t ht => ?_
    exact ih (fun y hy => h y (List.mem_cons_of_mem _ hy)) ht

end Raising

def performed (apply : ε → σ → σ) (answer : (i : ι) → ρ i) : Proc σ ε ρ α → σ → List ε
  | ret _, _ => []
  | read k, s => (k s).performed apply answer s
  | exec e k, s => e :: k.performed apply answer (apply e s)
  | await i k, s => (k (answer i)).performed apply answer s

theorem goes_performed (answer : (i : ι) → ρ i) (p : Proc σ ε ρ α) (s : σ) :
    Goes apply p s (p.performed apply answer s) (p.finish apply answer s).2
      (some (p.finish apply answer s).1) := by
  induction p generalizing s with
  | ret a => exact .ret a s
  | read k ih => exact .read (ih s s)
  | exec e k ih => exact .exec (ih (apply e s))
  | await i k ih => exact .await (ih (answer i) s)

theorem goes_finish (answer : (i : ι) → ρ i) (p : Proc σ ε ρ α) (s : σ) :
    ∃ es, Goes apply p s es (p.finish apply answer s).2 (some (p.finish apply answer s).1) :=
  ⟨_, goes_performed answer p s⟩

/-- The first effects of a call that gets these replies, and the state they leave. -/
def upTo (apply : ε → σ → σ) (answer : (i : ι) → ρ i) : ℕ → Proc σ ε ρ α → σ → List ε × σ
  | _, ret _, s => ([], s)
  | n, read k, s => upTo apply answer n (k s) s
  | 0, exec _ _, s => ([], s)
  | n + 1, exec e k, s =>
    let rest := upTo apply answer n k (apply e s)
    (e :: rest.1, rest.2)
  | n, await i k, s => upTo apply answer n (k (answer i)) s

theorem goes_upTo (answer : (i : ι) → ρ i) (n : ℕ) (p : Proc σ ε ρ α) (s : σ) :
    Goes apply p s (p.upTo apply answer n s).1 (p.upTo apply answer n s).2 none := by
  induction p generalizing n s with
  | ret a => exact .cut _ s
  | read k ih => exact .read (ih s n s)
  | exec e k ih =>
    cases n with
    | zero => exact .cut _ s
    | succ n => exact .exec (ih n (apply e s))
  | await i k ih => exact .await (ih (answer i) n s)

theorem finish_bind (answer : (i : ι) → ρ i) (p : Proc σ ε ρ α) (f : α → Proc σ ε ρ β) (s : σ) :
    (p >>= f).finish apply answer s =
      (f (p.finish apply answer s).1).finish apply answer (p.finish apply answer s).2 := by
  change (p.bind f).finish apply answer s = _
  induction p generalizing s with
  | ret a => rfl
  | read k ih => exact ih s s
  | exec e k ih => exact ih _
  | await i k ih => exact ih _ s

section Finish

variable (answer : (i : ι) → ρ i) (s : σ)

@[simp] theorem finish_pure (a : α) :
    (Pure.pure a : Proc σ ε ρ α).finish apply answer s = (a, s) := rfl

@[simp] theorem finish_look : (look : Proc σ ε ρ σ).finish apply answer s = (s, s) := rfl

@[simp] theorem finish_emit (e : ε) :
    (emit e : Proc σ ε ρ Unit).finish apply answer s = ((), apply e s) := rfl

@[simp] theorem finish_wait (i : ι) :
    (wait i : Proc σ ε ρ (ρ i)).finish apply answer s = (answer i, s) := rfl

end Finish

section Evaluation

variable {χ : Type} {answer : (i : ι) → ρ i}

/-- A call comes to one end: with these replies it ends in `x` and `t`, and with any others it
ends there or raises, unless it is cut. Its effects are ones `guar` allows. -/
structure Does (apply : ε → σ → σ) (answer : (i : ι) → ρ i) (guar : σ → ε → Prop)
    (p : ExceptT χ (Proc σ ε ρ) α) (s : σ) (x : Except χ α) (t : σ) : Prop where
  keeps : Tries apply guar (fun a u => x = .ok a ∧ u = t) p s
  ends : p.run.finish apply answer s = (x, t)

variable {x : Except χ β} {t u : σ}

theorem Does.pure (b : β) :
    Does apply answer guar (Pure.pure b : ExceptT χ (Proc σ ε ρ) β) s (.ok b) s :=
  ⟨Tries.pure ⟨rfl, rfl⟩, rfl⟩

theorem Does.bind {p : ExceptT χ (Proc σ ε ρ) α} {f : α → ExceptT χ (Proc σ ε ρ) β} {a : α}
    (hp : Does apply answer guar p s (.ok a) t) (hf : Does apply answer guar (f a) t x u) :
    Does apply answer guar (p >>= f) s x u := by
  constructor
  · refine Tries.bind hp.keeps fun b v hb => ?_
    obtain ⟨hab, rfl⟩ := hb
    cases hab
    exact hf.keeps
  · refine (finish_bind answer p.run _ s).trans ?_
    rw [hp.ends]
    exact hf.ends

theorem Does.raises {p : ExceptT χ (Proc σ ε ρ) α} {f : α → ExceptT χ (Proc σ ε ρ) β} {e : χ}
    (hp : Does apply answer guar p s (.error e) t) :
    Does apply answer guar (p >>= f) s (.error e) t := by
  constructor
  · refine Tries.bind hp.keeps fun b v hb => ?_
    cases hb.1
  · refine (finish_bind answer p.run _ s).trans ?_
    rw [hp.ends]
    rfl

theorem Does.relax {guar' : σ → ε → Prop} {p : ExceptT χ (Proc σ ε ρ) β}
    (h : Does apply answer guar p s x t) (hg : ∀ s e, guar s e → guar' s e) :
    Does apply answer guar' p s x t :=
  ⟨Within.relax h.keeps hg, h.ends⟩

theorem Does.returns {p : ExceptT χ (Proc σ ε ρ) β} (h : Does apply answer guar p s x t) {b : β}
    (hgo : Goes apply p.run s es s' (some (.ok b))) : x = .ok b ∧ s' = t :=
  (Alone.goes h.keeps hgo).2 _ rfl b rfl

theorem Does.goes {p : ExceptT χ (Proc σ ε ρ) β} (h : Does apply answer guar p s x t)
    {o : Option (Except χ β)} (hgo : Goes apply p.run s es s' o) : Legal apply guar s es :=
  (Alone.goes h.keeps hgo).1

end Evaluation

/-- Calls made one after another from `s`, each cut or not. -/
inductive Lives {κ : Type} (apply : ε → σ → σ) (code : κ → Proc σ ε ρ α) (s : σ) :
    List ε → σ → Prop
  | nil : Lives apply code s [] s
  | call {es fs : List ε} {t u : σ} {o : Option α} (c : κ) :
      Lives apply code s es t → Goes apply (code c) t fs u o → Lives apply code s (es ++ fs) u

def finishAll {κ : Type} (apply : ε → σ → σ) (code : κ → Proc σ ε ρ α) (answer : (i : ι) → ρ i) :
    σ → List κ → σ
  | s, [] => s
  | s, c :: cs => finishAll apply code answer ((code c).finish apply answer s).2 cs

theorem Lives.append {κ : Type} {code : κ → Proc σ ε ρ α} {t u : σ} {fs : List ε}
    (h₁ : Lives apply code s es t) (h₂ : Lives apply code t fs u) :
    Lives apply code s (es ++ fs) u := by
  induction h₂ with
  | nil => simpa using h₁
  | call c _ hgo ih => simpa only [List.append_assoc] using Lives.call c ih hgo

theorem lives_finishAll {κ : Type} (code : κ → Proc σ ε ρ α) (answer : (i : ι) → ρ i) (s : σ)
    (cs : List κ) : ∃ es, Lives apply code s es (finishAll apply code answer s cs) := by
  induction cs generalizing s with
  | nil => exact ⟨[], .nil⟩
  | cons c cs ih =>
    obtain ⟨es, hgo⟩ := goes_finish answer (code c) s
    obtain ⟨fs, hrest⟩ := ih ((code c).finish apply answer s).2
    have hone : Lives apply code s es ((code c).finish apply answer s).2 := by
      simpa using Lives.call c Lives.nil hgo
    exact ⟨es ++ fs, hone.append hrest⟩

theorem Lives.legal {κ : Type} {code : κ → Proc σ ε ρ α}
    (hcode : ∀ c t, (code c).Alone apply guar (fun _ _ => True) t)
    (h : Lives apply code s es s') :
    Legal apply guar s es ∧ s' = replay apply s es := by
  induction h with
  | nil => exact ⟨trivial, rfl⟩
  | call c _ hgo ih =>
    obtain ⟨hlegal, rfl⟩ := ih
    refine ⟨(legal_append _ _ _).mpr ⟨hlegal, ((hcode c _).goes hgo).1⟩, ?_⟩
    rw [hgo.state, replay_append]

end Proc

end Trademetrix.Async
