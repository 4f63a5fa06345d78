import Trademetrix.Engine.Gate
import Mathlib.Data.List.Basic
import Mathlib.Logic.Function.Basic

/-!
# One call at a time

When a lock is only made for an id none of whose calls is at work, the calls of
one id share a lock object, and at most one of them is ever between acquiring and
releasing it. When the duplicate check finds what was placed before, at most one
of them places an order.
-/

namespace Trademetrix.Engine

open Async
open Execution (ExecutionRequest OrderResult)

variable {cfg : GateSettings} {g : Gate} {e : GateEffect} {n : ℕ} {key : String}

section Contract

def GateEffect.call : GateEffect → ℕ
  | .lockFor n _ | .acquired n _ | .awaits n | .woken n _ | .gaveUp n | .passed n _
  | .placing n _ _ | .dropped n _ | .released n _ => n

def Outside (g : Gate) (n : ℕ) (key : String) (p : Lock → Bool) : Prop :=
  ∃ a, g.calls n = some a ∧ a.key = key ∧ a.inside = false ∧ p (g.locks a.lock) = true

def Inside (g : Gate) (n : ℕ) (key : String) : Prop :=
  ∃ a, g.calls n = some a ∧ a.key = key ∧ a.inside = true

/-- What the text of `execute_order` makes true of an effect. -/
def GateFacts (g : Gate) : GateEffect → Prop
  | .lockFor n _ => g.calls n = none
  | .acquired n key => Outside g n key Lock.free
  | .awaits n => ∃ key, Outside g n key fun _ => true
  | .woken n key => Outside g n key fun l => l.turn n
  | .gaveUp n => ∃ key, Outside g n key fun _ => true
  | .passed n key | .dropped n key | .released n key => Inside g n key
  | .placing n key _ => ∃ a, g.calls n = some a ∧ a.key = key ∧ a.inside = true ∧ a.passed = true

def gateContract : Contract Gate GateEffect ℕ where
  rely n g g' := g'.calls n = g.calls n
  guar n g e := e.call = n ∧ GateFacts g e
  idle n g := g.calls n = none

theorem onLock_calls (g : Gate) (n : ℕ) (f : Lock → Lock) : (g.onLock n f).calls = g.calls := by
  unfold Gate.onLock
  split <;> rfl

theorem apply_calls_ne {m : ℕ} (h : m ≠ e.call) : (Gate.apply e g).calls m = g.calls m := by
  cases e with
  | lockFor n key =>
    simp only [Gate.apply, Gate.getOrderLock]
    split <;> exact Function.update_of_ne h _ _
  | awaits n => simp [Gate.apply, onLock_calls]
  | dropped n key => rfl
  | acquired n key | woken n key | gaveUp n | passed n key | placing n key req | released n key =>
    simp only [GateEffect.call] at h
    simp [Gate.apply, Gate.onCall, Gate.forget, onLock_calls, Function.update_of_ne h]

theorem onCall_self {f : CallAt → CallAt} : (g.onCall n f).calls n = (g.calls n).map f :=
  Function.update_self _ _ _

theorem forget_self : (g.forget n).calls n = none := Function.update_self _ _ _

def Passed (g : Gate) (n : ℕ) (key : String) : Prop :=
  ∃ a, g.calls n = some a ∧ a.key = key ∧ a.inside = true ∧ a.passed = true

theorem Passed.inside (h : Passed g n key) : Inside g n key := by
  obtain ⟨a, ha, hkey, hin, -⟩ := h
  exact ⟨a, ha, hkey, hin⟩

variable {g' : Gate}

theorem Inside.of_rely (h : Inside g n key) (hr : g'.calls n = g.calls n) : Inside g' n key := by
  unfold Inside
  rwa [hr]

theorem Passed.of_rely (h : Passed g n key) (hr : g'.calls n = g.calls n) : Passed g' n key := by
  unfold Passed
  rwa [hr]

theorem Inside.after (h : Inside g n key) (f : CallAt → CallAt) (hkey : ∀ a, (f a).key = a.key)
    (hin : ∀ a, (f a).inside = a.inside) : Inside (g.onCall n f) n key := by
  obtain ⟨a, ha, rfl, hina⟩ := h
  exact ⟨f a, by rw [onCall_self, ha]; rfl, hkey a, (hin a).trans hina⟩

/-- `p`, run by call `n`, is within the contract and ends in `post`. -/
def Does (cfg : GateSettings) (n : ℕ) {α : Type} (post : α → Gate → Prop) (p : G α) (g : Gate) :
    Prop :=
  gateContract.Does (gate cfg) n post p g

/-- The call is still inside when `p` ends. -/
def StaysInside (cfg : GateSettings) (n : ℕ) (key : String) {α : Type} (p : G α) (g : Gate) : Prop :=
  Does cfg n (fun _ g' => Inside g' n key) p g

theorem staysInside_wait {α : Type} {i : GatePoint} {f : GateReply i → G α} (h : Inside g n key)
    (hf : ∀ r g', Inside g' n key → StaysInside cfg n key (f r) g') :
    StaysInside cfg n key (wait i >>= f) g :=
  Contract.Does.of_wait fun r g' hr _ => hf r g' (h.of_rely hr)

theorem staysInside_refuse (h : Inside g n key) (c : Order) (order : NormalizedOrder)
    (code reason message : String) :
    StaysInside cfg n key (refuse c order code reason message) g :=
  staysInside_wait h fun _ _ h => h

theorem staysInside_place (h : Passed g n key) (c : Order) (order : NormalizedOrder)
    (hkey : order.clientOrderId = key) : StaysInside cfg n key (place n c order) g := by
  subst hkey
  refine Contract.Does.of_emit ⟨rfl, h⟩ ?_
  refine staysInside_wait (h.inside.after _ (fun _ => rfl) fun _ => rfl) fun r g' h => ?_
  cases r with
  | raised message => exact h
  | cancelled => exact h
  | order o => exact staysInside_wait h fun _ _ h => h

theorem passed_wait {α : Type} {i : GatePoint} {f : GateReply i → G α} (h : Passed g n key)
    (hf : ∀ r g', Passed g' n key → StaysInside cfg n key (f r) g') :
    StaysInside cfg n key (wait i >>= f) g :=
  Contract.Does.of_wait fun r g' hr _ => hf r g' (h.of_rely hr)

theorem staysInside_checkRisk (h : Passed g n key) (c : Order) (order : NormalizedOrder)
    (hkey : order.clientOrderId = key) : StaysInside cfg n key (checkRisk cfg n c order) g := by
  unfold checkRisk
  simp only
  split
  · exact staysInside_refuse h.inside _ _ _ _ _
  · refine passed_wait h fun risk g' h => ?_
    match risk with
    | none => exact h.inside
    | some none => exact staysInside_refuse h.inside _ _ _ _ _
    | some (some risk) =>
      simp only
      split
      · exact staysInside_refuse h.inside _ _ _ _ _
      · refine passed_wait h fun resolved g' h => ?_
        cases resolved with
        | none => exact h.inside
        | some symbol => exact staysInside_place h c _ hkey

theorem staysInside_check (h : Passed g n key) (c : Order) (order : NormalizedOrder)
    (broker : String) (hkey : order.clientOrderId = key) :
    StaysInside cfg n key (check cfg n c order broker) g := by
  unfold check
  simp only
  split
  · refine passed_wait h fun snapped g' h => ?_
    match snapped with
    | none => exact h.inside
    | some none => exact staysInside_checkRisk h c _ hkey
    | some (some snap) => exact staysInside_checkRisk h c _ hkey
  · exact staysInside_checkRisk h c _ hkey

theorem staysInside_guarded (h : Inside g n key) (c : Order) (order : NormalizedOrder)
    (hkey : order.clientOrderId = key) : StaysInside cfg n key (guarded cfg n c order) g := by
  subst hkey
  refine staysInside_wait h fun existing g' h => ?_
  match existing with
  | none => exact h
  | some (some brokerOrderId) => exact staysInside_wait h fun _ _ h => h
  | some none =>
    refine Contract.Does.of_emit ⟨rfl, h⟩ ?_
    have hpassed : Passed (Gate.apply (.passed n order.clientOrderId) g') n
        order.clientOrderId := by
      obtain ⟨a, ha, hkey, hin⟩ := h
      exact ⟨{ a with passed := true }, by simp [Gate.apply, onCall_self, ha], hkey, hin, rfl⟩
    split
    · exact staysInside_check hpassed c order "paper" rfl
    · refine passed_wait hpassed fun broker g' h => ?_
      cases broker with
      | none => exact h.inside
      | some broker =>
        simp only
        split
        · exact staysInside_refuse h.inside _ _ _ _ _
        · exact staysInside_check h c order _ rfl

theorem does_acquire (h : Outside g n key fun _ => true) :
    Does cfg n (fun got g' => if got = true then Inside g' n key else g'.calls n = none)
      (acquire n key) g := by
  obtain ⟨a, ha, hkey, hout, -⟩ := h
  have hlock : g.lockOf n = g.locks a.lock := by simp [Gate.lockOf, ha]
  have hinside : ∀ {g' : Gate} (f : Lock → Lock), g'.calls n = some a →
      Inside ((g'.onLock n f).onCall n fun a => { a with inside := true }) n key := by
    intro g' f ha'
    exact ⟨{ a with inside := true }, by rw [onCall_self, onLock_calls, ha']; rfl, hkey, rfl⟩
  refine Contract.Does.of_look ?_
  split
  · next hfree =>
    refine Contract.Does.of_emit ⟨rfl, a, ha, hkey, hout, hlock ▸ hfree⟩ ?_
    exact hinside _ ha
  · refine Contract.Does.of_emit ⟨rfl, key, a, ha, hkey, hout, rfl⟩ ?_
    refine Contract.Does.of_wait fun mine g' hr hready => ?_
    have ha' : g'.calls n = some a := hr.trans (by simp [gate, Gate.apply, onLock_calls, ha])
    split
    · next hmine =>
      have hturn : (g'.locks a.lock).turn n = true := by
        simpa [gate, hmine, Gate.lockOf, ha'] using hready
      exact Contract.Does.of_emit ⟨rfl, a, ha', hkey, hout, hturn⟩ (hinside _ ha')
    · refine Contract.Does.of_emit ⟨rfl, key, a, ha', hkey, hout, rfl⟩ ?_
      exact forget_self

theorem lockFor_outside : Outside (Gate.apply (.lockFor n key) g) n key fun _ => true := by
  simp only [Gate.apply, Gate.getOrderLock]
  split
  · exact ⟨_, Function.update_self _ _ _, rfl, rfl, rfl⟩
  · exact ⟨_, Function.update_self _ _ _, rfl, rfl, rfl⟩

theorem does_executeOrder (h : g.calls n = none) (c : Order) :
    Does cfg n (fun _ g' => g'.calls n = none) (executeOrder cfg n c) g := by
  refine Contract.Does.of_emit ⟨rfl, h⟩ ?_
  refine Contract.Does.bind (does_acquire lockFor_outside) fun got g' hgot => ?_
  cases got with
  | false => exact hgot
  | true =>
    refine Contract.Does.bind (staysInside_guarded hgot c _ rfl) fun result g' h => ?_
    refine Contract.Does.of_emit ⟨rfl, h⟩ (Contract.Does.of_emit ⟨rfl, h⟩ ?_)
    exact forget_self

theorem gateContract_sound (cfg : GateSettings) : gateContract.Sound (gate cfg) where
  trans n s t u h h' := h'.trans h
  refl n s := rfl
  idle n s t h hs := h.trans hs
  others n m s e h hg := by
    refine apply_calls_ne fun hnm => ?_
    rw [hg.1] at hnm
    simpa [gate] using h hnm
  env n s e h := by cases h
  code c s hs := Contract.Does.bind (does_executeOrder hs c.2) fun _ _ h => h

def unopened : Pool Gate GateEffect GateReply ℕ := ⟨{}, []⟩

theorem facts_of_run {es : List GateEffect} {P : Pool Gate GateEffect GateReply ℕ}
    (h : (gate cfg).Run unopened es P) : Legal Gate.apply GateFacts {} es := by
  have hholds : gateContract.Holds (gate cfg) unopened := by
    refine ⟨?_, ?_, .nil, fun n _ => rfl⟩
    · exact fun t ht => absurd ht List.not_mem_nil
    · exact fun t ht => absurd ht List.not_mem_nil
  refine (Contract.Run.legal (gateContract_sound cfg) hholds h).1.mono fun s e he => ?_
  rcases he with ⟨n, hn⟩ | henv
  · exact hn.2
  · cases henv

end Contract

/-- The calls past `_get_order_lock`, those between acquiring and releasing, each with
its id, and the ids an order was placed for. -/
structure Traffic where
  users : List (ℕ × String) := []
  inside : List (ℕ × String) := []
  placed : List String := []

def noteTraffic (_ : Gate) (e : GateEffect) (t : Traffic) : Traffic :=
  match e with
  | .lockFor n key => { t with users := (n, key) :: t.users }
  | .acquired n key | .woken n key => { t with inside := (n, key) :: t.inside }
  | .placing _ key _ => { t with placed := key :: t.placed }
  | .gaveUp n | .released n _ =>
    { t with
      users := t.users.filter fun p => p.1 ≠ n
      inside := t.inside.filter fun p => p.1 ≠ n }
  | _ => t

/-- Nobody is inside when a call of the id enters, and no call of the id has placed an
order when one does. -/
def OneStep (x : Gate × Traffic) : GateEffect → Prop
  | .acquired _ key | .woken _ key => ∀ p ∈ x.2.inside, p.2 ≠ key
  | .placing _ key _ => key ∉ x.2.placed
  | _ => True

/-- A lock is only made for an id none of whose calls is at work, and the duplicate
check finds what was placed before. -/
def Shared (x : Gate × Traffic) : GateEffect → Prop
  | .lockFor _ key => x.1.orderLocks.get key = none → ∀ p ∈ x.2.users, p.2 ≠ key
  | .passed _ key => key ∉ x.2.placed
  | _ => True

instance (x : Gate × Traffic) (e : GateEffect) : Decidable (OneStep x e) := by
  apply GateEffect.casesOn (motive := fun e => Decidable (OneStep x e)) e <;> intros <;>
    (dsimp only [OneStep]; infer_instance)

instance (x : Gate × Traffic) (e : GateEffect) : Decidable (Shared x e) := by
  apply GateEffect.casesOn (motive := fun e => Decidable (Shared x e)) e <;> intros <;>
    (dsimp only [Shared]; infer_instance)

section Step

variable {t : Traffic}

structure Exclusive (x : Gate × Traffic) : Prop where
  registered : ∀ key l n a, x.1.orderLocks.get key = some l → x.1.calls n = some a →
    a.key = key → a.lock = l
  sameLock : ∀ n m a b, x.1.calls n = some a → x.1.calls m = some b → a.key = b.key →
    a.lock = b.lock
  held : ∀ n a, x.1.calls n = some a → a.inside = true → (x.1.locks a.lock).locked = true
  alone : ∀ n m a b, x.1.calls n = some a → x.1.calls m = some b → a.inside = true →
    b.inside = true → a.lock = b.lock → n = m
  users : ∀ n a, x.1.calls n = some a → (n, a.key) ∈ x.2.users
  insiders : ∀ n key, (n, key) ∈ x.2.inside → Inside x.1 n key
  fresh : ∀ n a, x.1.calls n = some a → a.passed = true → a.inside = true ∧ a.key ∉ x.2.placed

theorem Exclusive.enters (h : Exclusive (g, t)) (hout : Outside g n key fun l => !l.locked) :
    ∀ p ∈ t.inside, p.2 ≠ key := by
  rintro ⟨m, k⟩ hm rfl
  obtain ⟨a, ha, hkey, -, hfree⟩ := hout
  obtain ⟨b, hb, hkb, hin⟩ := h.insiders m _ hm
  have hlock := h.sameLock m n b a hb ha (hkb.trans hkey.symm)
  have hheld := h.held m b hb hin
  rw [hlock] at hheld
  simp only at hheld
  simp [hheld] at hfree

theorem Outside.mono {p q : Lock → Bool} (h : Outside g n key p) (hpq : ∀ l, p l = true → q l = true) :
    Outside g n key q := by
  obtain ⟨a, ha, hkey, hout, hp⟩ := h
  exact ⟨a, ha, hkey, hout, hpq _ hp⟩

theorem oneStep (h : Exclusive (g, t)) (hf : GateFacts g e) : OneStep (g, t) e := by
  cases e with
  | acquired n key =>
    refine h.enters (Outside.mono hf fun l hl => ?_)
    simp only [Lock.free, Bool.and_eq_true] at hl
    exact hl.1
  | woken n key =>
    refine h.enters (Outside.mono (p := fun l => l.turn n) hf fun l hl => ?_)
    simp only [Lock.turn, Bool.and_eq_true] at hl
    exact hl.1
  | placing n key req =>
    obtain ⟨a, ha, rfl, -, hpassed⟩ := hf
    exact (h.fresh n a ha hpassed).2
  | _ => trivial

theorem onCall_calls (g : Gate) (n m : ℕ) (f : CallAt → CallAt) :
    (g.onCall n f).calls m = if m = n then (g.calls n).map f else g.calls m := by
  simp [Gate.onCall, Function.update_apply]

theorem forget_calls (g : Gate) (n m : ℕ) :
    (g.forget n).calls m = if m = n then none else g.calls m := by
  simp [Gate.forget, Function.update_apply]

theorem onLock_locks {a : CallAt} (ha : g.calls n = some a) (f : Lock → Lock) (l : ℕ) :
    (g.onLock n f).locks l = if l = a.lock then f (g.locks a.lock) else g.locks l := by
  simp [Gate.onLock, ha, Function.update_apply]

theorem onLock_orderLocks (g : Gate) (n : ℕ) (f : Lock → Lock) :
    (g.onLock n f).orderLocks = g.orderLocks := by
  unfold Gate.onLock
  split <;> rfl

theorem onCall_cases {f : CallAt → CallAt} {a : CallAt} (ha : g.calls n = some a) {m : ℕ}
    {b : CallAt} (hb : (g.onCall n f).calls m = some b) :
    (m = n ∧ b = f a) ∨ (m ≠ n ∧ g.calls m = some b) := by
  rw [onCall_calls] at hb
  split at hb
  · next hm =>
    rw [ha] at hb
    cases hb
    exact .inl ⟨hm, rfl⟩
  · next hm => exact .inr ⟨hm, hb⟩

theorem forget_cases {m : ℕ} {b : CallAt} (hb : (g.forget n).calls m = some b) :
    m ≠ n ∧ g.calls m = some b := by
  rw [forget_calls] at hb
  split at hb
  · cases hb
  · next hm => exact ⟨hm, hb⟩

theorem update_cases {a : CallAt} {m : ℕ} {b : CallAt}
    (hb : Function.update g.calls n (some a) m = some b) :
    (m = n ∧ b = a) ∨ (m ≠ n ∧ g.calls m = some b) := by
  rw [Function.update_apply] at hb
  split at hb
  · next hm => exact .inl ⟨hm, (Option.some.inj hb).symm⟩
  · next hm => exact .inr ⟨hm, hb⟩

theorem Exclusive.getOrderLock (h : Exclusive (g, t)) (n : ℕ)
    (hc : g.orderLocks.get key = none → ∀ p ∈ t.users, p.2 ≠ key) :
    ∃ l orderLocks nextLock,
      g.getOrderLock n key =
        { g with
          orderLocks := orderLocks
          nextLock := nextLock
          calls := Function.update g.calls n (some { key := key, lock := l }) } ∧
      (∀ q k, orderLocks.get q = some k → q = key ∧ k = l ∨ q ≠ key ∧ g.orderLocks.get q = some k) ∧
      ∀ m a, g.calls m = some a → a.key = key → a.lock = l := by
  unfold Gate.getOrderLock
  cases hreg : g.orderLocks.get key with
  | some l =>
    refine ⟨l, g.orderLocks, g.nextLock, rfl, fun q k hq => ?_, fun m a ha hk => ?_⟩
    · by_cases hqk : q = key
      · subst hqk
        rw [hreg] at hq
        exact .inl ⟨rfl, (Option.some.inj hq).symm⟩
      · exact .inr ⟨hqk, hq⟩
    · exact h.registered key l m a hreg ha hk
  | none =>
    refine ⟨g.nextLock, _, _, rfl, fun q k hq => ?_, fun m a ha hk => ?_⟩
    · rw [Dict.get_set] at hq
      split at hq
      · next hqk => exact .inl ⟨hqk, (Option.some.inj hq).symm⟩
      · next hqk => exact .inr ⟨hqk, hq⟩
    · exact absurd hk (hc hreg _ (h.users m a ha))

theorem Exclusive.lockFor (h : Exclusive (g, t)) (hn : g.calls n = none)
    (hc : g.orderLocks.get key = none → ∀ p ∈ t.users, p.2 ≠ key) :
    Exclusive (g.getOrderLock n key, { t with users := (n, key) :: t.users }) := by
  obtain ⟨l, orderLocks, nextLock, heq, hget, hold⟩ := h.getOrderLock n hc
  rw [heq]
  refine ⟨?_, ?_, ?_, ?_, ?_, ?_, ?_⟩
  · intro q k m a hq ha hk
    rcases hget q k hq with ⟨rfl, rfl⟩ | ⟨hne, hq⟩
    · rcases update_cases ha with ⟨rfl, rfl⟩ | ⟨-, ha⟩
      · rfl
      · exact hold m a ha hk
    · rcases update_cases ha with ⟨rfl, rfl⟩ | ⟨-, ha⟩
      · exact absurd hk.symm hne
      · exact h.registered q k m a hq ha hk
  · intro m m' a b ha hb hab
    rcases update_cases ha with ⟨rfl, rfl⟩ | ⟨-, ha'⟩ <;> rcases update_cases hb with ⟨rfl, rfl⟩ | ⟨-, hb'⟩
    · rfl
    · exact (hold m' b hb' hab.symm).symm
    · exact hold m a ha' hab
    · exact h.sameLock m m' a b ha' hb' hab
  · intro m a ha hin
    rcases update_cases ha with ⟨rfl, rfl⟩ | ⟨-, ha⟩
    · cases hin
    · exact h.held m a ha hin
  · intro m m' a b ha hb hia hib hab
    rcases update_cases ha with ⟨rfl, rfl⟩ | ⟨-, ha⟩
    · cases hia
    · rcases update_cases hb with ⟨rfl, rfl⟩ | ⟨-, hb⟩
      · cases hib
      · exact h.alone m m' a b ha hb hia hib hab
  · intro m a ha
    rcases update_cases ha with ⟨rfl, rfl⟩ | ⟨-, ha⟩
    · exact List.mem_cons_self
    · exact List.mem_cons_of_mem _ (h.users m a ha)
  · intro m k hm
    obtain ⟨a, ha, hk, hin⟩ := h.insiders m k hm
    have hne : m ≠ n := by
      rintro rfl
      simp only [hn] at ha
      cases ha
    exact ⟨a, (Function.update_of_ne hne _ _).trans ha, hk, hin⟩
  · intro m a ha hp
    rcases update_cases ha with ⟨rfl, rfl⟩ | ⟨-, ha⟩
    · cases hp
    · exact h.fresh m a ha hp

theorem Exclusive.enter (h : Exclusive (g, t)) (hout : Outside g n key fun l => !l.locked)
    {f : Lock → Lock} (hf : ∀ l, (f l).locked = true) :
    Exclusive ((g.onLock n f).onCall n fun a => { a with inside := true },
      { t with inside := (n, key) :: t.inside }) := by
  obtain ⟨a, ha, hkey, hnot, hfree⟩ := hout
  have hcalls : (g.onLock n f).calls n = some a := by rw [onLock_calls, ha]
  have hold : ∀ {m b}, (g.onLock n f).calls m = some b → g.calls m = some b := by
    intro m b hb
    rwa [onLock_calls] at hb
  have hempty : ∀ m b, g.calls m = some b → b.inside = true → b.lock ≠ a.lock := by
    intro m b hb hin hlock
    have hheld := h.held m b hb hin
    rw [hlock] at hheld
    simp only at hheld
    simp [hheld] at hfree
  refine ⟨?_, ?_, ?_, ?_, ?_, ?_, ?_⟩
  · intro q k m b hq hb hk
    simp only [Gate.onCall, onLock_orderLocks] at hq
    rcases onCall_cases hcalls hb with ⟨rfl, rfl⟩ | ⟨-, hb⟩
    · exact h.registered q k m a hq ha hk
    · exact h.registered q k m b hq (hold hb) hk
  · intro m m' b c hb hc hbc
    rcases onCall_cases hcalls hb with ⟨rfl, rfl⟩ | ⟨-, hb⟩ <;>
      rcases onCall_cases hcalls hc with ⟨rfl, rfl⟩ | ⟨-, hc⟩
    · rfl
    · exact h.sameLock m m' a c ha (hold hc) hbc
    · exact h.sameLock m m' b a (hold hb) ha hbc
    · exact h.sameLock m m' b c (hold hb) (hold hc) hbc
  · intro m b hb hin
    have hlocked : ∀ l, ((g.onLock n f).locks l).locked = true ↔
        l = a.lock ∨ (g.locks l).locked = true := by
      intro l
      rw [onLock_locks ha]
      split
      · next hl => simp [hl, hf]
      · next hl => simp [hl]
    rcases onCall_cases hcalls hb with ⟨rfl, rfl⟩ | ⟨-, hb⟩
    · exact (hlocked _).mpr (.inl rfl)
    · exact (hlocked _).mpr (.inr (h.held m b (hold hb) hin))
  · intro m m' b c hb hc hib hic hbc
    rcases onCall_cases hcalls hb with ⟨rfl, rfl⟩ | ⟨-, hb⟩ <;>
      rcases onCall_cases hcalls hc with ⟨rfl, rfl⟩ | ⟨-, hc⟩
    · rfl
    · exact absurd hbc.symm (hempty m' c (hold hc) hic)
    · exact absurd hbc (hempty m b (hold hb) hib)
    · exact h.alone m m' b c (hold hb) (hold hc) hib hic hbc
  · intro m b hb
    rcases onCall_cases hcalls hb with ⟨rfl, rfl⟩ | ⟨-, hb⟩
    · exact h.users m a ha
    · exact h.users m b (hold hb)
  · intro m k hm
    rcases List.mem_cons.mp hm with heq | hm
    · cases heq
      exact ⟨{ a with inside := true }, by rw [onCall_self, hcalls]; rfl, hkey, rfl⟩
    · obtain ⟨b, hb, hk, hin⟩ := h.insiders m k hm
      have hne : m ≠ n := by
        rintro rfl
        simp only [ha, Option.some.injEq] at hb
        subst hb
        rw [hin] at hnot
        cases hnot
      refine ⟨b, ?_, hk, hin⟩
      rw [onCall_calls, if_neg hne, onLock_calls]
      exact hb
  · intro m b hb hp
    rcases onCall_cases hcalls hb with ⟨rfl, rfl⟩ | ⟨-, hb⟩
    · exact ⟨rfl, (h.fresh m a ha hp).2⟩
    · exact h.fresh m b (hold hb) hp

theorem Exclusive.wait (h : Exclusive (g, t)) {f : Lock → Lock}
    (hf : ∀ l, (f l).locked = l.locked) : Exclusive (g.onLock n f, t) := by
  cases hn : g.calls n with
  | none =>
    have heq : g.onLock n f = g := by simp [Gate.onLock, hn]
    rwa [heq]
  | some a =>
    have hlocked : ∀ l, ((g.onLock n f).locks l).locked = (g.locks l).locked := by
      intro l
      rw [onLock_locks hn]
      split
      · next hl => rw [hf, hl]
      · rfl
    have hcalls := onLock_calls g n f
    refine ⟨?_, ?_, ?_, ?_, ?_, ?_, ?_⟩
    · simpa only [hcalls, onLock_orderLocks] using h.registered
    · simpa only [hcalls] using h.sameLock
    · simpa only [hcalls, hlocked] using h.held
    · simpa only [hcalls] using h.alone
    · simpa only [hcalls] using h.users
    · simpa only [Inside, hcalls] using h.insiders
    · simpa only [hcalls] using h.fresh

theorem Exclusive.leave (h : Exclusive (g, t)) {a : CallAt} (ha : g.calls n = some a)
    {f : Lock → Lock} (hf : (∀ l, (f l).locked = l.locked) ∨ a.inside = true) :
    Exclusive ((g.onLock n f).forget n,
      { t with
        users := t.users.filter fun p => p.1 ≠ n
        inside := t.inside.filter fun p => p.1 ≠ n }) := by
  have hcase : ∀ {m b}, ((g.onLock n f).forget n).calls m = some b →
      m ≠ n ∧ g.calls m = some b := by
    intro m b hb
    obtain ⟨hm, hb⟩ := forget_cases hb
    rw [onLock_calls] at hb
    exact ⟨hm, hb⟩
  refine ⟨?_, ?_, ?_, ?_, ?_, ?_, ?_⟩
  · intro q k m b hq hb hk
    simp only [Gate.forget, onLock_orderLocks] at hq
    exact h.registered q k m b hq (hcase hb).2 hk
  · intro m m' b c hb hc hbc
    exact h.sameLock m m' b c (hcase hb).2 (hcase hc).2 hbc
  · intro m b hb hin
    obtain ⟨hm, hb⟩ := hcase hb
    have hheld := h.held m b hb hin
    simp only [Gate.forget]
    rw [onLock_locks ha]
    split
    · next hl =>
      rcases hf with hf | hia
      · rw [hf, ← hl]
        exact hheld
      · exact absurd (h.alone m n b a hb ha hin hia hl) hm
    · exact hheld
  · intro m m' b c hb hc hib hic hbc
    exact h.alone m m' b c (hcase hb).2 (hcase hc).2 hib hic hbc
  · intro m b hb
    obtain ⟨hm, hb⟩ := hcase hb
    exact List.mem_filter.mpr ⟨h.users m b hb, by simpa using hm⟩
  · intro m k hmem
    obtain ⟨hmem, hm⟩ := List.mem_filter.mp hmem
    have hne : m ≠ n := by simpa using hm
    obtain ⟨b, hb, hk, hin⟩ := h.insiders m k hmem
    refine ⟨b, ?_, hk, hin⟩
    rw [forget_calls, if_neg hne, onLock_calls]
    exact hb
  · intro m b hb hp
    exact h.fresh m b (hcase hb).2 hp

theorem Exclusive.flag (h : Exclusive (g, t)) {a : CallAt} (ha : g.calls n = some a)
    (hin : a.inside = true) {flag : Bool} {placed : List String}
    (hflag : flag = true → a.key ∉ placed)
    (hplaced : ∀ key ∈ placed, key ∈ t.placed ∨ key = a.key) :
    Exclusive (g.onCall n fun a => { a with passed := flag }, { t with placed := placed }) := by
  refine ⟨?_, ?_, ?_, ?_, ?_, ?_, ?_⟩
  · intro q k m b hq hb hk
    rcases onCall_cases ha hb with ⟨rfl, rfl⟩ | ⟨-, hb⟩
    · exact h.registered q k m a hq ha hk
    · exact h.registered q k m b hq hb hk
  · intro m m' b c hb hc hbc
    rcases onCall_cases ha hb with ⟨rfl, rfl⟩ | ⟨-, hb'⟩ <;>
      rcases onCall_cases ha hc with ⟨rfl, rfl⟩ | ⟨-, hc'⟩
    · rfl
    · exact h.sameLock m m' a c ha hc' hbc
    · exact h.sameLock m m' b a hb' ha hbc
    · exact h.sameLock m m' b c hb' hc' hbc
  · intro m b hb hib
    rcases onCall_cases ha hb with ⟨rfl, rfl⟩ | ⟨-, hb⟩
    · exact h.held m a ha hin
    · exact h.held m b hb hib
  · intro m m' b c hb hc hib hic hbc
    rcases onCall_cases ha hb with ⟨rfl, rfl⟩ | ⟨-, hb'⟩ <;>
      rcases onCall_cases ha hc with ⟨rfl, rfl⟩ | ⟨-, hc'⟩
    · rfl
    · exact h.alone m m' a c ha hc' hin hic hbc
    · exact h.alone m m' b a hb' ha hib hin hbc
    · exact h.alone m m' b c hb' hc' hib hic hbc
  · intro m b hb
    rcases onCall_cases ha hb with ⟨rfl, rfl⟩ | ⟨-, hb⟩
    · exact h.users m a ha
    · exact h.users m b hb
  · intro m k hmem
    by_cases hm : m = n
    · subst hm
      obtain ⟨b, hb, hk, -⟩ := h.insiders m k hmem
      simp only [ha, Option.some.injEq] at hb
      subst hb
      exact ⟨{ a with passed := flag }, by rw [onCall_self, ha]; rfl, hk, hin⟩
    · obtain ⟨b, hb, hk, hib⟩ := h.insiders m k hmem
      refine ⟨b, ?_, hk, hib⟩
      rw [onCall_calls, if_neg hm]
      exact hb
  · intro m b hb hp
    rcases onCall_cases ha hb with ⟨rfl, rfl⟩ | ⟨hm, hb⟩
    · exact ⟨hin, hflag hp⟩
    · obtain ⟨hib, hfresh⟩ := h.fresh m b hb hp
      refine ⟨hib, fun hmem => ?_⟩
      rcases hplaced _ hmem with hold | hkey
      · exact hfresh hold
      · -- two calls of one id would be inside
        exact hm (h.alone m n b a hb ha hib hin (h.sameLock m n b a hb ha hkey))

theorem Exclusive.drop (h : Exclusive (g, t)) :
    Exclusive ({ g with orderLocks := g.orderLocks.pop key }, t) := by
  refine ⟨fun q k m a hq ha hk => ?_, h.sameLock, h.held, h.alone, h.users, h.insiders, h.fresh⟩
  simp only [Dict.get_pop] at hq
  split at hq
  · cases hq
  · exact h.registered q k m a hq ha hk

theorem exclusive_step (h : Exclusive (g, t)) (hf : GateFacts g e) (hc : Shared (g, t) e) :
    Exclusive (track Gate.apply noteTraffic e (g, t)) := by
  cases e with
  | lockFor n key => exact h.lockFor hf hc
  | acquired n key =>
    refine h.enter (Outside.mono (p := Lock.free) hf fun l hl => ?_) fun _ => rfl
    simp only [Lock.free, Bool.and_eq_true] at hl
    exact hl.1
  | woken n key =>
    refine h.enter (Outside.mono (p := fun l => l.turn n) hf fun l hl => ?_) fun _ => rfl
    simp only [Lock.turn, Bool.and_eq_true] at hl
    exact hl.1
  | awaits n => exact h.wait (f := fun l => l.enqueue n) fun _ => rfl
  | gaveUp n =>
    obtain ⟨key, a, ha, -⟩ := hf
    exact h.leave ha (.inl fun _ => rfl)
  | released n key =>
    obtain ⟨a, ha, -, hin⟩ := hf
    exact h.leave ha (.inr hin)
  | dropped n key => exact h.drop
  | passed n key =>
    obtain ⟨a, ha, rfl, hin⟩ := hf
    exact h.flag ha hin (fun _ => hc) fun _ hk => .inl hk
  | placing n key req =>
    obtain ⟨a, ha, rfl, hin, -⟩ := hf
    refine h.flag ha hin nofun fun _ hk => ?_
    exact (List.mem_cons.mp hk).symm

end Step

section Runs

/-- At most one call of an id is ever between acquiring and releasing its lock, and at
most one reaches the order manager. -/
def OneAtATime (es : List GateEffect) : Prop :=
  Legal (track Gate.apply noteTraffic) OneStep ({}, {}) es

instance (es : List GateEffect) : Decidable (OneAtATime es) :=
  inferInstanceAs (Decidable (Legal _ _ _ _))

theorem one_at_a_time {es : List GateEffect} {P : Pool Gate GateEffect GateReply ℕ}
    (h : (gate cfg).Run unopened es P)
    (hc : Legal (track Gate.apply noteTraffic) Shared ({}, {}) es) : OneAtATime es := by
  have hlegal := ((facts_of_run h).track noteTraffic {}).and hc
  have hinit : Exclusive ({}, {}) :=
    ⟨nofun, nofun, nofun, nofun, nofun, nofun, nofun⟩
  refine (hlegal.with_invariant (I := Exclusive) ?_ hinit).mono ?_
  · intro x e hx hg
    exact exclusive_step hx hg.1 hg.2
  · intro x e hx
    exact oneStep hx.1 hx.2.1

structure GateOutside where
  existing : Option (Option String) := some none
  risk : Option (Option RiskCheck) := some (some { allowed := true })
  placed : Placed := .order { omsOrderId := 0, state := .pending, brokerOrderId := "b1" }

def GateOutside.reply (o : GateOutside) : (i : GatePoint) → GateReply i
  | .turn _ => true
  | .existing _ _ => o.existing
  | .audit _ _ _ _ _ _ => some ()
  | .auditPlaced _ _ _ _ _ _ => match o.placed with
    | .order record => some record
    | _ => none
  | .resolveBroker _ => some (some "dhan")
  | .snap _ _ => some none
  | .riskCheck _ => o.risk
  | .resolveSymbol _ _ => some none
  | .placeAndWait _ => o.placed

def plain : GateSettings where
  sha256 s := s
  resolve _ _ _ := none

/-- A paper order under the id `k1`. -/
def buyOne : Order where
  userId := "u1"
  order :=
    { symbol := "RELIANCE", exchange := .nse, side := .buy, orderType := .market
      product := .intraday, quantity := 1, isPaper := true }
  idempotencyKey := "k1"

/-- Answer the await of the `i`-th task in flight `k` times. -/
def GateOutside.times (o : GateOutside) (i k : ℕ) :
    List (Action GateEffect GateReply (ℕ × Order)) :=
  List.replicate k (.resume i o.reply)

/-- The second call awaits the first one's lock, and then finds the row of its order. -/
theorem waitTurn_one_at_a_time :
    ∃ es P, (gate plain).Run unopened es P ∧ GateEffect.woken 1 "k1" ∈ es ∧ OneAtATime es := by
  obtain ⟨es, P, hrun, hwoken, hc⟩ := (gate plain).exists_run unopened
    ([.start (0, buyOne), .start (1, buyOne)] ++ GateOutside.times {} 0 5 ++
      GateOutside.times { existing := some (some "b1") } 0 3)
    (p := fun es _ => GateEffect.woken 1 "k1" ∈ es ∧
      Legal (track Gate.apply noteTraffic) Shared ({}, {}) es)
    (by decide)
  exact ⟨es, P, hrun, hwoken, one_at_a_time hrun hc⟩

/-- The first call drops the lock the second one awaits; the third makes a new one, and
the second and the third are inside together. -/
theorem droppedLock_two_inside : ∃ es P, (gate plain).Run unopened es P ∧ ¬ OneAtATime es := by
  obtain ⟨es, P, hrun, hbad⟩ := (gate plain).exists_run unopened
    ([.start (0, buyOne), .start (1, buyOne)] ++ GateOutside.times {} 0 5 ++
      [.start (2, buyOne)] ++ GateOutside.times {} 0 1)
    (p := fun es _ => ¬ OneAtATime es)
    (by decide)
  exact ⟨es, P, hrun, hbad⟩

end Runs

end Trademetrix.Engine
