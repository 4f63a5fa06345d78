import Trademetrix.BrokerConnect.Engine

/-!
# What the tasks of a fan-out keep to

A task moves only what is its own; Redis answers it at most once for each request.
It places an order only after its kill switch was found off and its claim was
granted, and only one; a call gathers its tasks only after the global switch was
found off.
-/

namespace Trademetrix.BrokerConnect

open Async

variable {eng : ExecutionEngine} {s t u : Exec} {e : ExecEffect} {p q : Party} {c : ℕ × ℕ} {n : ℕ}

def ExecEffect.party : ExecEffect → Option Party
  | .calls n _ | .gathers n _ _ | .returns n _ => some (.dispatch n)
  | .sends p _ | .audits p _ _ _ _ _ => some p
  | .enters c | .marks c _ _ _ | .records c _ _ _ _ | .leaves c _ => some (.task c)
  | .places o => some (.task o.task)
  | .serves _ | .trips _ | .resets _ | .books _ => none

abbrev passing (signalId userId : String) : List (Request × Bool) :=
  [(.killed (some userId), false), (.claim signalId userId, true)]

def Created (c : ℕ × ℕ) (sub : Subscriber) (signal : Signal) (s : Exec) : Prop :=
  ∃ subs, s.created c.1 = some (signal, subs) ∧ subs[c.2]? = some sub

def Passed (s : Exec) (o : Order) : Prop :=
  s.lines (.task o.task) = ⟨none, passing o.signalId o.intent.userId⟩ ∧
    ∃ sub signal, Created o.task sub signal s ∧ o.signalId = signal.signalId ∧
      o.intent.userId = sub.userId

def Exec.subscribers (s : Exec) (n : ℕ) : List Subscriber := ((s.created n).map Prod.snd).getD []

structure Tallied (s : Exec) (n : ℕ) (batch : ExecutionBatch) : Prop where
  dispatched : batch.dispatched = (s.subscribers n).length
  counted : batch.placed + batch.skipped + batch.blocked + batch.errors = batch.dispatched
  length : batch.results.length = (s.subscribers n).length
  results : ∀ i sub, (s.subscribers n)[i]? = some sub →
    ∃ r, s.outcomes (n, i) = some r ∧ batch.results[i]? = some (settle sub r)

def ExecFacts (s : Exec) : ExecEffect → Prop
  | .calls n _ => n ∉ s.calls
  | .sends p r =>
    (s.lines p).asked = none ∧ r ∉ (s.lines p).log.map Prod.fst ∧ ∀ o ∈ s.orders, .task o.task ≠ p
  | .gathers n _ _ => s.created n = none ∧ (.killed none, false) ∈ (s.lines (.dispatch n)).log
  | .places o => (∀ o' ∈ s.orders, o'.task ≠ o.task) ∧ Passed s o
  | .leaves c _ => s.outcomes c = none
  | .returns n batch => (.killed none, true) ∈ (s.lines (.dispatch n)).log ∨ Tallied s n batch
  | _ => True

def Line.Moves (l l' : Line) : Prop :=
  l' = l ∨ ∃ r a, l.asked = some r ∧ l' = ⟨none, l.log ++ [(r, a)]⟩

namespace Line.Moves

variable {l l' l'' : Line}

theorem refl (l : Line) : l.Moves l := .inl rfl

theorem trans (h : l.Moves l') (h' : l'.Moves l'') : l.Moves l'' := by
  rcases h with rfl | ⟨r, a, hr, rfl⟩
  · exact h'
  · rcases h' with rfl | ⟨r', a', hr', -⟩
    · exact .inr ⟨r, a, hr, rfl⟩
    · cases hr'

theorem eq (h : l.Moves l') (hnone : l.asked = none) : l' = l := by
  rcases h with rfl | ⟨r, a, hr, -⟩
  · rfl
  · rw [hnone] at hr
    cases hr

end Line.Moves

def Own (p : Party) (s t : Exec) : Prop :=
  match p with
  | .dispatch n => (n ∈ t.calls ↔ n ∈ s.calls) ∧ t.created n = s.created n
  | .user n i =>
    ((n, i) ∈ t.entered ↔ (n, i) ∈ s.entered) ∧ t.outcomes (n, i) = s.outcomes (n, i) ∧
      ∀ o, o.task = (n, i) → (o ∈ t.orders ↔ o ∈ s.orders)

structure Leaves (p : Party) (s t : Exec) : Prop where
  line : (s.lines p).Moves (t.lines p)
  own : Own p s t
  created : ∀ n x, s.created n = some x → t.created n = some x

def Unused (p : Party) (s : Exec) : Prop :=
  match p with
  | .dispatch n => n ∉ s.calls → s.lines (.dispatch n) = {} ∧ s.created n = none
  | .user n i => (n, i) ∉ s.entered →
    s.lines (.user n i) = {} ∧ s.outcomes (n, i) = none ∧ ∀ o ∈ s.orders, o.task ≠ (n, i)

def execContract : Contract Exec ExecEffect Party where
  rely := Leaves
  guar p s e := e.party = some p ∧ ExecFacts s e
  idle := Unused

theorem Own.called (h : Own (.dispatch n) s t) : n ∈ t.calls ↔ n ∈ s.calls := h.1

theorem Own.created (h : Own (.dispatch n) s t) : t.created n = s.created n := h.2

theorem Own.refl (p : Party) (s : Exec) : Own p s s := by
  cases p with
  | dispatch n => exact ⟨Iff.rfl, rfl⟩
  | user n i => exact ⟨Iff.rfl, rfl, fun _ _ => Iff.rfl⟩

theorem Own.trans (h : Own p s t) (h' : Own p t u) : Own p s u := by
  cases p with
  | dispatch n => exact ⟨h'.1.trans h.1, h'.2.trans h.2⟩
  | user n i =>
    exact ⟨h'.1.trans h.1, h'.2.1.trans h.2.1, fun o ho => (h'.2.2 o ho).trans (h.2.2 o ho)⟩

theorem Leaves.refl (p : Party) (s : Exec) : Leaves p s s :=
  ⟨.refl _, .refl p s, fun _ _ h => h⟩

theorem Leaves.trans (h : Leaves p s t) (h' : Leaves p t u) : Leaves p s u :=
  ⟨h.line.trans h'.line, h.own.trans h'.own, fun n x hx => h'.created n x (h.created n x hx)⟩

theorem Leaves.unused (h : Leaves p s t) (hs : Unused p s) : Unused p t := by
  cases p with
  | dispatch n =>
    intro hn
    obtain ⟨hline, hcreated⟩ := hs fun hmem => hn (h.own.1.mpr hmem)
    refine ⟨?_, by rw [h.own.2, hcreated]⟩
    rw [← hline]
    exact h.line.eq (by rw [hline])
  | user n i =>
    intro hn
    obtain ⟨hline, hout, horders⟩ := hs fun hmem => hn (h.own.1.mpr hmem)
    refine ⟨?_, by rw [h.own.2.1, hout], fun o ho heq => ?_⟩
    · rw [← hline]
      exact h.line.eq (by rw [hline])
    · exact horders o ((h.own.2.2 o heq).mp ho) heq

namespace Exec

@[simp] theorem onLine_self {f : Line → Line} : (s.onLine p f).lines p = f (s.lines p) :=
  Function.update_self _ _ _

theorem serve_cases (s : Exec) (p : Party) :
    (s.lines p).asked = none ∧ s.serve p = s ∨
      ∃ r a keys, (s.lines p).asked = some r ∧
        s.serve p = { s.onLine p fun l => ⟨none, l.log ++ [(r, a)]⟩ with keys := keys } ∧
        (∀ u, r = .killed u → (a = true ↔ r.key ∈ s.keys) ∧ keys = s.keys) ∧
        ∀ i u, r = .claim i u → (a = true ↔ r.key ∉ s.keys) ∧ r.key ∈ keys ∧ ∀ k ∈ s.keys, k ∈ keys := by
  unfold serve
  split
  next hnone => exact .inl ⟨hnone, rfl⟩
  next v hasked =>
    refine .inr ⟨_, _, s.keys, hasked, rfl, ?_, by rintro _ _ ⟨⟩⟩
    rintro _ ⟨⟩
    exact ⟨decide_eq_true_iff, rfl⟩
  next signalId userId hasked =>
    simp only
    split
    next hmem =>
      refine .inr ⟨_, _, s.keys, hasked, rfl, by rintro _ ⟨⟩, ?_⟩
      rintro _ _ ⟨⟩
      exact ⟨decide_eq_true_iff, hmem, fun k hk => hk⟩
    next hmem =>
      refine .inr ⟨_, _, _, hasked, rfl, by rintro _ ⟨⟩, ?_⟩
      rintro _ _ ⟨⟩
      exact ⟨decide_eq_true_iff, List.mem_cons_self, fun k hk => List.mem_cons_of_mem _ hk⟩

end Exec

theorem Leaves.of_serve (p q : Party) (s : Exec) : Leaves q s (s.serve p) := by
  rcases s.serve_cases p with ⟨-, hs⟩ | ⟨r, a, keys, hasked, hs, -⟩
  · rw [hs]
    exact .refl q s
  · rw [hs]
    refine ⟨?_, ?_, fun _ _ h => h⟩
    · by_cases hq : q = p
      · subst hq
        exact .inr ⟨r, a, hasked, by simp⟩
      · exact .inl (Function.update_of_ne hq _ _)
    · cases q with
      | dispatch n => exact ⟨Iff.rfl, rfl⟩
      | user n i => exact ⟨Iff.rfl, rfl, fun _ _ => Iff.rfl⟩

theorem Leaves.of_env (h : e.party = none) (p : Party) (s : Exec) : Leaves p s (Exec.apply e s) := by
  cases e with
  | serves q => exact .of_serve q p s
  | trips v | resets v | books v =>
    refine ⟨.refl _, ?_, fun _ _ hx => hx⟩
    cases p with
    | dispatch n => exact ⟨Iff.rfl, rfl⟩
    | user n i => exact ⟨Iff.rfl, rfl, fun _ _ => Iff.rfl⟩
  | calls _ _ | sends _ _ | gathers _ _ _ | enters _ | marks _ _ _ _ | places _ | audits _ _ _ _ _ _
  | records _ _ _ _ _ | leaves _ _ | returns _ _ => cases h

theorem Leaves.of_others (hparty : e.party = some q) (hfacts : ExecFacts s e) (hne : p ≠ q) :
    Leaves p s (Exec.apply e s) := by
  have hsame : ∀ {t : Exec}, t.lines = s.lines → t.created = s.created → t.calls = s.calls →
      t.entered = s.entered → t.outcomes = s.outcomes → t.orders = s.orders → Leaves p s t := by
    intro t hl hc hcalls hen hout hord
    refine ⟨by rw [hl]; exact .refl _, ?_, fun n x hx => by rw [hc]; exact hx⟩
    cases p with
    | dispatch n => exact ⟨by rw [hcalls], by rw [hc]⟩
    | user n i => exact ⟨by rw [hen], by rw [hout], fun o _ => by rw [hord]⟩
  cases e with
  | calls m signal =>
    cases hparty
    refine ⟨.refl _, ?_, fun _ _ h => h⟩
    cases p with
    | dispatch n =>
      have hnm : n ≠ m := fun h => hne (by rw [h])
      exact ⟨by simp [Exec.apply, hnm], rfl⟩
    | user n i => exact ⟨Iff.rfl, rfl, fun _ _ => Iff.rfl⟩
  | gathers m signal subs =>
    cases hparty
    have hcreated : ∀ n x, s.created n = some x →
        (Exec.apply (.gathers m signal subs) s).created n = some x := by
      intro n x hx
      have hnm : n ≠ m := by
        rintro rfl
        rw [hfacts.1] at hx
        cases hx
      exact (Function.update_of_ne hnm _ _).trans hx
    refine ⟨.refl _, ?_, hcreated⟩
    cases p with
    | dispatch n =>
      have hnm : n ≠ m := fun h => hne (by rw [h])
      exact ⟨Iff.rfl, Function.update_of_ne hnm _ _⟩
    | user n i => exact ⟨Iff.rfl, rfl, fun _ _ => Iff.rfl⟩
  | sends r x =>
    cases hparty
    refine ⟨.inl (Function.update_of_ne hne _ _), ?_, fun _ _ h => h⟩
    cases p with
    | dispatch n => exact ⟨Iff.rfl, rfl⟩
    | user n i => exact ⟨Iff.rfl, rfl, fun _ _ => Iff.rfl⟩
  | enters c =>
    cases hparty
    refine ⟨.refl _, ?_, fun _ _ h => h⟩
    cases p with
    | dispatch n => exact ⟨Iff.rfl, rfl⟩
    | user n i =>
      have hc : (n, i) ≠ c := fun h => hne (by rw [← h]; rfl)
      exact ⟨by simp [Exec.apply, hc], rfl, fun _ _ => Iff.rfl⟩
  | leaves c outcome =>
    cases hparty
    refine ⟨.refl _, ?_, fun _ _ h => h⟩
    cases p with
    | dispatch n => exact ⟨Iff.rfl, rfl⟩
    | user n i =>
      have hc : (n, i) ≠ c := fun h => hne (by rw [← h]; rfl)
      exact ⟨Iff.rfl, Function.update_of_ne hc _ _, fun _ _ => Iff.rfl⟩
  | places o =>
    cases hparty
    refine ⟨.refl _, ?_, fun _ _ h => h⟩
    cases p with
    | dispatch n => exact ⟨Iff.rfl, rfl⟩
    | user n i =>
      refine ⟨Iff.rfl, rfl, fun o' ho' => ?_⟩
      have hoo : o' ≠ o := by
        rintro rfl
        exact hne (by rw [ho']; rfl)
      simp [Exec.apply, hoo]
  | marks _ _ _ _ | audits _ _ _ _ _ _ | records _ _ _ _ _ | returns _ _ =>
    exact hsame rfl rfl rfl rfl rfl rfl
  | serves _ | trips _ | resets _ | books _ => cases hparty

section Text

variable {α β : Type} {signal : Signal} {sub : Subscriber}

structure Busy (c : ℕ × ℕ) (sub : Subscriber) (signal : Signal) (s : Exec) : Prop where
  created : Created c sub signal s
  entered : c ∈ s.entered
  running : s.outcomes c = none

structure Asked (c : ℕ × ℕ) (sub : Subscriber) (signal : Signal) (log : List (Request × Bool))
    (s : Exec) : Prop extends Busy c sub signal s where
  line : s.lines (.task c) = ⟨none, log⟩
  unplaced : ∀ o ∈ s.orders, o.task ≠ c

theorem Busy.of_leaves (h : Busy c sub signal s) (hs : Leaves (.task c) s t) : Busy c sub signal t := by
  obtain ⟨subs, hcreated, hsub⟩ := h.created
  exact ⟨⟨subs, hs.created _ _ hcreated, hsub⟩, hs.own.1.mpr h.entered, hs.own.2.1.trans h.running⟩

theorem Asked.of_leaves {log : List (Request × Bool)} (h : Asked c sub signal log s)
    (hs : Leaves (.task c) s t) : Asked c sub signal log t := by
  refine ⟨h.toBusy.of_leaves hs, ?_, fun o ho heq => ?_⟩
  · rw [← h.line]
    exact hs.line.eq (by rw [h.line])
  · exact h.unplaced o ((hs.own.2.2 o heq).mp ho) heq

/-- Text of the task that may raise: the task stays busy, and its result meets `post`. -/
def Tries (eng : ExecutionEngine) (c : ℕ × ℕ) (sub : Subscriber) (signal : Signal) (post : α → Exec → Prop) (p : Raising α) (s : Exec) :
    Prop :=
  execContract.Does (system eng) (.task c) (fun r t => Busy c sub signal t ∧ ∀ a, r = .ok a → post a t) p.run s

variable {post : β → Exec → Prop}

theorem Tries.pure {b : β} (hb : Busy c sub signal s) (h : post b s) :
    Tries eng c sub signal post (Pure.pure b : Raising β) s :=
  ⟨hb, fun _ ha => Except.ok.inj ha ▸ h⟩

theorem Tries.bind {p : Raising α} {f : α → Raising β} {mid : α → Exec → Prop}
    (hp : Tries eng c sub signal mid p s) (hf : ∀ a t, Busy c sub signal t → mid a t → Tries eng c sub signal post (f a) t) :
    Tries eng c sub signal post (p >>= f) s := by
  refine Contract.Does.bind hp fun r t hr => ?_
  cases r with
  | ok a => exact hf a t hr.1 (hr.2 a rfl)
  | error m => exact ⟨hr.1, by simp⟩

theorem Tries.mono {p : Raising β} {post' : β → Exec → Prop} (h : Tries eng c sub signal post p s)
    (hpost : ∀ a t, post a t → post' a t) : Tries eng c sub signal post' p s :=
  Contract.Does.mono h fun _ t hr => ⟨hr.1, fun a ha => hpost a t (hr.2 a ha)⟩

theorem Tries.now {f : Books → Except String α} (hb : Busy c sub signal s) {Q : Exec → Prop} (hq : Q s) :
    Tries eng c sub signal (fun _ => Q) (now f) s :=
  ⟨hb, fun _ _ => hq⟩

theorem Tries.except {x : Except String α} (hb : Busy c sub signal s) {Q : Exec → Prop} (hq : Q s) :
    Tries eng c sub signal (fun _ => Q) (liftM x : Raising α) s := by
  cases x with
  | ok a => exact ⟨hb, fun _ _ => hq⟩
  | error m => exact ⟨hb, fun _ _ => hq⟩

theorem Tries.wait {Q : Exec → Prop} (hQ : ∀ s t, Q s → Leaves (.task c) s t → Q t)
    {i : ExecPoint} {f : ExecReply i → Except String α} (hb : Busy c sub signal s) (hq : Q s) :
    Tries eng c sub signal (fun _ => Q) (ExceptT.mk (do let r ← wait i; Pure.pure (f r))) s := by
  refine Contract.Does.of_wait fun r t ht _ => ?_
  exact ⟨hb.of_leaves ht, fun _ _ => hQ s t hq ht⟩

theorem Tries.emit {Q : Exec → Prop} (hg : e.party = some (.task c)) (hf : ExecFacts s e)
    (hb : Busy c sub signal (Exec.apply e s)) (hq : Q (Exec.apply e s)) :
    Tries eng c sub signal (fun _ => Q) (liftM (emit e) : Raising Unit) s :=
  Contract.Does.of_emit ⟨hg, hf⟩ ⟨hb, fun _ _ => hq⟩

/-- Text that keeps a busy task busy and `Q` true. -/
def Keeps (eng : ExecutionEngine) (c : ℕ × ℕ) (sub : Subscriber) (signal : Signal) (Q : Exec → Prop) (p : Raising α) : Prop :=
  ∀ s, Busy c sub signal s → Q s → Tries eng c sub signal (fun _ => Q) p s

section Keeps

variable {Q : Exec → Prop}

theorem Keeps.pure (b : β) : Keeps eng c sub signal Q (Pure.pure b : Raising β) :=
  fun _ hb hq => Tries.pure hb hq

theorem Keeps.bind {p : Raising α} {f : α → Raising β} (hp : Keeps eng c sub signal Q p)
    (hf : ∀ a, Keeps eng c sub signal Q (f a)) : Keeps eng c sub signal Q (p >>= f) :=
  fun s hb hq => Tries.bind (hp s hb hq) fun a t hb hq => hf a t hb hq

theorem Keeps.audits {r : Signal} {b : String} {i : Option String} {res : ExecutionResult}
    {intent : Option OrderIntent} :
    Keeps eng c sub signal Q (liftM (emit (.audits (.task c) r b i res intent)) : Raising Unit) :=
  fun _ hb hq => Tries.emit rfl trivial hb hq

theorem Keeps.auditRet (status : ResultStatus) (reason : Option String)
    (intent : Option OrderIntent) :
    Keeps eng c sub signal Q (auditRet c sub signal status reason intent) :=
  Keeps.bind Keeps.audits fun _ => Keeps.pure _

theorem Keeps.now (f : Books → Except String α) : Keeps eng c sub signal Q (now f) :=
  fun _ hb hq => Tries.now hb hq

theorem Keeps.recordAttempt (intent : OrderIntent) (result : ExecutionResult) (mode : Mode) :
    Keeps eng c sub signal Q (liftM (recordAttempt c signal intent result mode) : Raising Unit) := by
  unfold BrokerConnect.recordAttempt
  split
  · exact fun _ hb hq => Tries.emit rfl trivial hb hq
  · exact fun _ hb hq => ⟨hb, fun _ _ => hq⟩

variable (hQ : ∀ s t, Q s → Leaves (.task c) s t → Q t)
include hQ

theorem Keeps.notify (userId kind message : String) :
    Keeps eng c sub signal Q (notify userId kind message) :=
  fun _ hb hq => Tries.wait hQ hb hq

theorem Keeps.announce (intent : OrderIntent) (result : ExecutionResult) (mode : Mode) :
    Keeps eng c sub signal Q (announce sub signal intent result mode) := by
  unfold BrokerConnect.announce
  split
  · exact Keeps.notify hQ _ _ _
  · exact Keeps.pure _

theorem Keeps.placeOrder (a : TradingAdapter) (intent : OrderIntent) (accessToken : String) :
    Keeps eng c sub signal Q (a.placeOrder intent accessToken) := by
  cases a with
  | paper broker => exact Keeps.bind (Keeps.now _) fun _ => Keeps.pure _
  | fyersLive appId =>
    intro s hb hq
    refine Contract.Does.of_wait fun answer t ht _ => ?_
    have hb := hb.of_leaves ht
    have hq := hQ s t hq ht
    cases answer with
    | error m => exact ⟨hb, fun _ _ => hq⟩
    | ok data =>
      simp only
      split
      · exact ⟨hb, fun _ _ => hq⟩
      · exact ⟨hb, fun _ _ => hq⟩

end Keeps

theorem tries_place (profile : UserTradingProfile) (intent : OrderIntent) (accessToken : String)
    (h : Asked c sub signal (passing signal.signalId intent.userId) s)
    (huser : intent.userId = sub.userId) :
    Tries eng c sub signal (fun _ _ => True) (place eng c sub signal profile intent accessToken) s := by
  have htrue : ∀ s t : Exec, True → Leaves (.task c) s t → True := fun _ _ _ _ => trivial
  have hfacts : ExecFacts s (.places ⟨c, signal.signalId, intent, accessToken⟩) :=
    ⟨h.unplaced, h.line, sub, signal, h.created, rfl, huser⟩
  refine Tries.bind (Tries.emit (Q := fun _ => True) rfl hfacts
    ⟨h.created, h.entered, h.running⟩ trivial) fun _ t hb _ => ?_
  refine Keeps.bind (Keeps.placeOrder htrue _ intent accessToken) (fun result => ?_) t hb trivial
  refine Keeps.bind Keeps.audits fun _ => ?_
  refine Keeps.bind (Keeps.recordAttempt _ _ _) fun _ => ?_
  exact Keeps.bind (Keeps.announce htrue _ _ _) fun _ => Keeps.pure _

theorem tries_tradeForUser (h : Asked c sub signal (passing signal.signalId sub.userId) s) :
    Tries eng c sub signal (fun _ _ => True) (tradeForUser eng c sub signal) s := by
  have hstays : ∀ s t, Asked c sub signal (passing signal.signalId sub.userId) s → Leaves (.task c) s t →
      Asked c sub signal (passing signal.signalId sub.userId) t := fun s t => Asked.of_leaves
  have hno : ∀ s, Asked c sub signal (passing signal.signalId sub.userId) s → ∀ kind message status reason,
      Tries eng c sub signal (fun _ _ => True) (do
        notify sub.userId kind message
        auditRet c sub signal status reason) s := by
    intro s hs kind message status reason
    refine (Keeps.bind (Keeps.notify hstays sub.userId kind message) (fun _ =>
      Keeps.auditRet status reason none) s hs.toBusy hs).mono fun _ _ _ => trivial
  unfold tradeForUser
  refine Tries.bind (Tries.now h.toBusy h) fun tok t _ ht => ?_
  cases tok with
  | none => exact hno t ht _ _ _ _
  | some tok =>
    simp only
    split
    · exact hno t ht _ _ _ _
    refine Tries.bind (Tries.now ht.toBusy ht) fun exp t _ ht => ?_
    split
    · refine Tries.bind (Tries.now ht.toBusy ht) fun _ t _ ht => ?_
      refine Tries.bind (Tries.emit (Q := Asked c sub signal (passing signal.signalId sub.userId)) rfl trivial
        ht.toBusy ht) fun _ t _ ht => ?_
      exact hno t ht _ _ _ _
    refine Tries.bind (Tries.wait hstays ht.toBusy ht) fun profile t _ ht => ?_
    refine Tries.bind (Tries.except ht.toBusy ht) fun qty t hb ht => ?_
    split
    · exact Tries.mono (Keeps.auditRet _ _ _ t hb ht) fun _ _ _ => trivial
    refine Tries.bind (Tries.now ht.toBusy ht) fun brokerSymbol t _ ht => ?_
    refine Tries.bind (Tries.wait hstays ht.toBusy ht) fun verdict t hb ht => ?_
    obtain ⟨allowed, reason⟩ := verdict
    simp only
    split
    · exact Tries.mono (Keeps.auditRet _ _ _ t hb ht) fun _ _ _ => trivial
    · exact tries_place profile _ tok.accessToken ht rfl

theorem does_command {log : List (Request × Bool)} {r : Request} (h : s.lines p = ⟨none, log⟩)
    (hr : r ∉ log.map Prod.fst) (ho : ∀ o ∈ s.orders, .task o.task ≠ p) :
    execContract.Does (system eng) p
      (fun answer t => Leaves p (Exec.apply (.sends p r) s) t ∧
        ∀ a, answer = .ok a → t.lines p = ⟨none, log ++ [(r, a)]⟩) (command p r).run s := by
  have hsent : (Exec.apply (.sends p r) s).lines p = ⟨some r, log⟩ := by
    rw [Exec.apply, Exec.onLine_self, h]
  refine Contract.Does.of_emit ⟨rfl, by rw [h], by rw [h]; exact hr, ho⟩ ?_
  refine Contract.Does.of_wait fun answer t ht hready => ⟨ht, fun a ha => ?_⟩
  subst ha
  have hline : Line.Moves ⟨some r, log⟩ (t.lines p) := hsent ▸ Leaves.line ht
  have hanswer : (t.lines p).asked.isNone = true ∧
      ((t.lines p).log.getLast?.any fun x => x.2 = a) = true := by
    simpa [system, ready] using hready
  rcases hline with hline | ⟨r', b, hr', hline⟩
  · rw [hline] at hanswer
    cases hanswer.1
  · cases hr'
    rw [hline] at hanswer ⊢
    have hab : b = a := by simpa using hanswer.2
    rw [hab]

theorem tries_command {log : List (Request × Bool)} {r : Request} (h : Asked c sub signal log s)
    (hr : r ∉ log.map Prod.fst) :
    Tries eng c sub signal (fun a => Asked c sub signal (log ++ [(r, a)])) (command (.task c) r) s := by
  have ho : ∀ o ∈ s.orders, Party.task o.task ≠ .task c := by
    intro o ho heq
    exact h.unplaced o ho (by simpa [Party.task, Prod.ext_iff] using heq)
  refine Contract.Does.mono (does_command h.line hr ho) fun answer t ht => ?_
  obtain ⟨hl, hline⟩ := ht
  have hsent : Busy c sub signal (Exec.apply (.sends (.task c) r) s) := ⟨h.created, h.entered, h.running⟩
  refine ⟨hsent.of_leaves hl, fun a ha => ⟨hsent.of_leaves hl, hline a ha, fun o ho heq => ?_⟩⟩
  exact h.unplaced o ((hl.own.2.2 o heq).mp ho) heq

theorem tries_executeForUser (h : Asked c sub signal [] s) :
    Tries eng c sub signal (fun _ _ => True) (executeForUser eng c sub signal) s := by
  unfold executeForUser
  refine Tries.bind (tries_command h (by simp)) fun tripped t hb ht => ?_
  cases tripped with
  | true => exact Tries.mono (Keeps.auditRet _ _ _ t hb ht) fun _ _ _ => trivial
  | false =>
    refine Tries.bind (tries_command ht (by simp)) fun claimed t hb ht => ?_
    cases claimed with
    | true => exact tries_tradeForUser ht
    | false => exact Tries.mono (Keeps.auditRet _ _ _ t hb ht) fun _ _ _ => trivial

theorem does_guarded (h : Unused (.task c) s) :
    execContract.Does (system eng) (.task c) (fun _ => Unused (.task c))
      (guarded eng c sub signal) s := by
  refine Contract.Does.of_wait fun _ t ht hready => ?_
  have hslot : ((t.created c.1).any fun x => x.1 = signal ∧ x.2[c.2]? = some sub) = true ∧
      c ∉ t.entered := by
    have hready' := hready
    simp only [system, ready, Bool.and_eq_true, decide_eq_true_eq] at hready'
    exact hready'.1
  obtain ⟨hline, hout, horders⟩ := (Leaves.unused ht h) hslot.2
  refine Contract.Does.of_emit ⟨rfl, trivial⟩ ?_
  have hcreated : Created c sub signal t := by
    obtain ⟨⟨signal', subs⟩, hx, hmine⟩ := (Option.any_eq_true _ _).mp hslot.1
    obtain ⟨rfl, hsub⟩ : signal' = signal ∧ subs[c.2]? = some sub := by simpa using hmine
    exact ⟨subs, hx, hsub⟩
  have hasked : Asked c sub signal [] (Exec.apply (.enters c) t) :=
    ⟨⟨hcreated, List.mem_cons_self, hout⟩, hline, horders⟩
  refine Contract.Does.bind (tries_executeForUser hasked) fun r u hr => ?_
  have hended : ∀ {u : Exec}, Busy c sub signal u → ∀ res, Unused (.task c) (Exec.apply (.leaves c res) u) :=
    fun hb _ hn => absurd hb.entered hn
  cases r with
  | ok res => exact Contract.Does.of_emit ⟨rfl, hr.1.running⟩ (hended hr.1 _)
  | error m =>
    refine Contract.Does.of_emit ⟨rfl, trivial⟩ ?_
    exact Contract.Does.of_emit ⟨rfl, hr.1.running⟩ (hended hr.1 _)

section Dispatch

structure Collected (batch : ExecutionBatch) (dispatched : ℕ)
    (pairs : List (Subscriber × Except String ExecutionResult)) : Prop where
  dispatched : batch.dispatched = dispatched
  counted : batch.placed + batch.skipped + batch.blocked + batch.errors = pairs.length
  results : batch.results = pairs.map fun x => settle x.1 x.2

variable {batch : ExecutionBatch} {d : ℕ} {pairs : List (Subscriber × Except String ExecutionResult)}

theorem Collected.add (h : Collected batch d pairs) (x : Subscriber × Except String ExecutionResult) :
    Collected (batch.add (settle x.1 x.2)) d (pairs ++ [x]) := by
  obtain ⟨hd, hc, hr⟩ := h
  have hres : ∀ r, (batch.add r).results = batch.results ++ [r] := by
    intro r
    unfold ExecutionBatch.add
    cases r.status <;> rfl
  refine ⟨?_, ?_, by rw [hres, hr, List.map_append]; rfl⟩
  · unfold ExecutionBatch.add
    cases (settle x.1 x.2).status <;> exact hd
  · rw [List.length_append, ← hc]
    unfold ExecutionBatch.add
    cases (settle x.1 x.2).status <;> simp <;> omega

theorem does_collect {Q : Exec → Prop} {rest : List (Subscriber × Except String ExecutionResult)}
    (h : Collected batch d pairs) (hq : Q s)
    (hQ : ∀ s (sub : Subscriber) res, Q s →
      Q (Exec.apply (.audits (.dispatch n) signal sub.broker sub.brokerUserId res none) s)) :
    execContract.Does (system eng) (.dispatch n)
      (fun b t => Collected b d (pairs ++ rest) ∧ Q t) (collect n signal rest batch) s := by
  induction rest generalizing batch pairs s with
  | nil => exact ⟨by simpa using h, hq⟩
  | cons x rest ih =>
    obtain ⟨sub, r⟩ := x
    have hnext := h.add (sub, r)
    have happ : pairs ++ (sub, r) :: rest = pairs ++ [(sub, r)] ++ rest := by simp
    rw [happ]
    cases r with
    | ok res => exact ih hnext hq
    | error m => exact Contract.Does.of_emit ⟨rfl, trivial⟩ (ih hnext (hQ s sub (unhandled sub m) hq))

structure Calling (n : ℕ) (log : List (Request × Bool)) (s : Exec) : Prop where
  called : n ∈ s.calls
  line : s.lines (.dispatch n) = ⟨none, log⟩
  created : s.created n = none

theorem Calling.of_leaves {log : List (Request × Bool)} (h : Calling n log s)
    (hs : Leaves (.dispatch n) s t) : Calling n log t := by
  refine ⟨hs.own.1.mpr h.called, ?_, hs.own.2.trans h.created⟩
  rw [← h.line]
  exact hs.line.eq (by rw [h.line])

structure Gathered (n : ℕ) (signal : Signal) (subs : List Subscriber)
    (results : List (Except String ExecutionResult)) (s : Exec) : Prop where
  called : n ∈ s.calls
  created : s.created n = some (signal, subs)
  length : results.length = subs.length
  outcomes : ∀ i, i < subs.length → s.outcomes (n, i) = results[i]?

theorem Gathered.tallied {subs : List Subscriber} {results : List (Except String ExecutionResult)}
    (h : Gathered n signal subs results s)
    (hc : Collected batch subs.length (subs.zip results)) : Tallied s n batch := by
  have hsubs : s.subscribers n = subs := by rw [Exec.subscribers, h.created]; rfl
  have hlen : (subs.zip results).length = subs.length := by simp [h.length]
  refine ⟨by rw [hsubs, hc.dispatched], by rw [hc.counted, hlen, hc.dispatched],
    by rw [hsubs, hc.results, List.length_map, hlen], fun i sub hi => ?_⟩
  rw [hsubs] at hi
  have hlt : i < subs.length := (List.getElem?_eq_some_iff.mp hi).1
  obtain ⟨r, hr⟩ : ∃ r, results[i]? = some r := ⟨_, List.getElem?_eq_getElem (h.length ▸ hlt)⟩
  refine ⟨r, (h.outcomes i hlt).trans hr, ?_⟩
  rw [hc.results, List.getElem?_map, List.getElem?_zip_eq_some (z := (sub, r)) |>.mpr ⟨hi, hr⟩]
  rfl

theorem does_dispatchSignal (h : Calling n [] s) :
    execContract.Does (system eng) (.dispatch n)
      (fun r t => n ∈ t.calls ∧ ∀ batch, r = .ok batch → ExecFacts t (.returns n batch))
      (dispatchSignal n signal).run s := by
  refine Contract.Does.bind (does_command h.line (by simp) fun o _ => by simp [Party.task]) fun answer t ht => ?_
  obtain ⟨hl, hline⟩ := ht
  have hcalled : n ∈ t.calls := hl.own.1.mpr h.called
  cases answer with
  | error m => exact ⟨hcalled, by simp⟩
  | ok tripped =>
    have ht : Calling n [(.killed none, tripped)] t :=
      ⟨hcalled, hline tripped rfl, hl.own.2.trans h.created⟩
    cases tripped with
    | true =>
      refine ⟨hcalled, fun _ _ => .inl ?_⟩
      rw [ht.line]
      exact List.mem_cons_self
    | false =>
      refine Contract.Does.of_wait fun answer u hu _ => ?_
      have hu := ht.of_leaves hu
      cases answer with
      | error m => exact ⟨hu.called, by simp⟩
      | ok subs =>
        simp only [ExceptT.bindCont]
        split
        next hnil =>
          refine ⟨hu.called, fun batch hb => .inr ?_⟩
          cases hb
          have hnone : u.subscribers n = [] := by rw [Exec.subscribers, hu.created]; rfl
          refine ⟨by rw [hnone, hnil], by rw [hnil]; rfl, by rw [hnone]; rfl, ?_⟩
          rw [hnone]
          simp
        next hnil =>
          have hgathers : execContract.Does (system eng) (.dispatch n)
              (fun r v => r = .ok () ∧ v = Exec.apply (.gathers n signal subs) u)
              (liftM (emit (.gathers n signal subs)) : Raising Unit).run u := by
            refine Contract.Does.of_emit ⟨rfl, hu.created, ?_⟩ ⟨rfl, rfl⟩
            rw [hu.line]
            exact List.mem_cons_self
          refine Contract.Does.bind hgathers fun _ v hv => ?_
          obtain ⟨rfl, rfl⟩ := hv
          have hwaits : execContract.Does (system eng) (.dispatch n)
              (fun r v => ∃ results, r = .ok results ∧ Gathered n signal subs results v)
              (liftM (wait (.gather n)) : Raising (List (Except String ExecutionResult))).run
              (Exec.apply (.gathers n signal subs) u) := by
            refine Contract.Does.of_wait
              fun (results : List (Except String ExecutionResult)) v hv hready => ⟨results, rfl, ?_⟩
            have hcreated : v.created n = some (signal, subs) :=
              (Own.created (Leaves.own hv)).trans (Function.update_self _ _ _)
            have hended : results.length = subs.length ∧ ∀ i < subs.length,
                (v.outcomes (n, i)).isSome = true ∧ v.outcomes (n, i) = results[i]? := by
              simpa [system, ready, hcreated] using hready
            exact ⟨(Own.called (Leaves.own hv)).mpr hu.called, hcreated, hended.1,
              fun i hi => (hended.2 i hi).2⟩
          refine Contract.Does.bind hwaits fun _ v hv => ?_
          obtain ⟨results, rfl, hgathered⟩ := hv
          have hstart : Collected ⟨signal.signalId, signal.strategyId, subs.length, 0, 0, 0, 0, []⟩
              subs.length [] := ⟨rfl, rfl, rfl⟩
          have hcollect : execContract.Does (system eng) (.dispatch n)
              (fun b t => Collected b subs.length (subs.zip results) ∧ Gathered n signal subs results t)
              (collect n signal (subs.zip results)
                ⟨signal.signalId, signal.strategyId, subs.length, 0, 0, 0, 0, []⟩) v :=
            does_collect hstart hgathered fun _ _ _ h => h
          refine Contract.Does.bind hcollect fun batch v hv => ⟨hv.2.called, fun b hb => .inr ?_⟩
          cases hb
          exact hv.2.tallied hv.1

end Dispatch

end Text

theorem execContract_sound (eng : ExecutionEngine) : execContract.Sound (system eng) where
  trans p s t u h h' := h.trans h'
  refl p s := .refl p s
  idle p s t h hs := Leaves.unused h hs
  others p q s e h hg := by
    refine Leaves.of_others hg.1 hg.2 fun heq => ?_
    simpa [system] using h heq
  env p s e h := by
    refine Leaves.of_env ?_ p s
    cases e <;> first | rfl | cases h
  code call s hs := by
    cases call with
    | guarded c sub signal => exact does_guarded hs
    | dispatchSignal n signal =>
      refine Contract.Does.of_look ?_
      split
      next hmem => exact hs
      next hnew =>
        obtain ⟨hline, hcreated⟩ := hs hnew
        refine Contract.Does.of_emit ⟨rfl, hnew⟩ ?_
        have hcalling : Calling n [] (Exec.apply (.calls n signal) s) :=
          ⟨List.mem_cons_self, hline, hcreated⟩
        refine Contract.Does.bind (does_dispatchSignal hcalling) fun r t hr => ?_
        have hended : Unused (.dispatch n) t := fun hn => absurd hr.1 hn
        cases r with
        | error m => exact hended
        | ok batch => exact Contract.Does.of_emit ⟨rfl, hr.2 batch rfl⟩ hended

def unopened (keys : List String) (books : Books) : Pool Exec ExecEffect ExecReply Party :=
  ⟨{ keys := keys, books := books }, []⟩

theorem unopened_holds (eng : ExecutionEngine) (keys : List String) (books : Books) :
    execContract.Holds (system eng) (unopened keys books) := by
  refine ⟨?_, ?_, .nil, fun p _ => ?_⟩
  · exact fun t ht => absurd ht List.not_mem_nil
  · exact fun t ht => absurd ht List.not_mem_nil
  · cases p with
    | dispatch n => exact fun _ => ⟨rfl, rfl⟩
    | user n i => exact fun _ => ⟨rfl, rfl, fun o ho => absurd ho List.not_mem_nil⟩

theorem facts_of_run {keys : List String} {books : Books} {es : List ExecEffect}
    {P : Pool Exec ExecEffect ExecReply Party} (h : (system eng).Run (unopened keys books) es P) :
    Legal Exec.apply ExecFacts { keys := keys, books := books } es ∧
      execContract.Holds (system eng) P := by
  obtain ⟨hlegal, hholds⟩ :=
    Contract.Run.legal (execContract_sound eng) (unopened_holds eng keys books) h
  refine ⟨hlegal.mono fun s e he => ?_, hholds⟩
  rcases he with ⟨p, hp⟩ | henv
  · exact hp.2
  · cases e <;> trivial

end Trademetrix.BrokerConnect
