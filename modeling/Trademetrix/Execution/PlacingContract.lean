import Trademetrix.Execution.Placing

/-!
# What the calls of the execution manager keep to

Rows of the orders table stay with their keys. A call goes on to the broker only once its
row is in the table and its insert has not been given up, and a call whose insert gave no
row returns what the lookup by client order id finds.
-/

namespace Trademetrix.Execution.Placing

open Async
open Engine (NormalizedOrder)
open Oms (Time)
open RiskRules (RiskConfig RiskRuleType Texts)

variable {texts : Texts} {s t u : Desk} {e : DeskEffect} {c : Call} {o n : ℕ}
  {order : NormalizedOrder} {req : ExecutionRequest}

def DeskEffect.owner : DeskEffect → Option ℕ
  | .starts o => some o
  | .judges c _ _ | .inserts c _ _ | .loses c _ _ | .sends c _ | .posts c _ _ | .updates c _ _ _
  | .returns c _ => some c.order
  | .clock _ | .adds _ | .marks _ _ _ => none

def Stored (c : Call) (order : NormalizedOrder) (s : Desk) : Prop :=
  ∃ r ∈ s.orders, r.storedBy = some c ∧ r.HasKey order.userId order.clientOrderId

/-- The attempts from the `n`-th on have not lost an insert. -/
def Unlost (o n : ℕ) (s : Desk) : Prop := ∀ x ∈ s.lost, x.1.order = o → x.1.attempt < n

/-- The attempts from the `n`-th on have not gone to the broker. -/
def Unsent (o n : ℕ) (s : Desk) : Prop := ∀ c ∈ s.sent, c.order = o → c.attempt < n

def DeskFacts (s : Desk) : DeskEffect → Prop
  | .loses c _ _ => c ∉ s.sent
  | .sends c order | .posts c order _ => Stored c order s ∧ ∀ x ∈ s.lost, x.1 ≠ c
  | .returns c res => ∀ x ∈ s.lost, x.1 = c →
    Manager.refusal x.2.1.clientOrderId
      (.duplicate (lostResult s x.2.1.clientOrderId x.2.2)) = some res
  | _ => True

structure Leaves (o : ℕ) (s t : Desk) : Prop where
  grows : OrdersTable.Grows s.orders t.orders
  lost : ∀ x : Call × NormalizedOrder × Bool, x.1.order = o → (x ∈ t.lost ↔ x ∈ s.lost)
  sent : ∀ c : Call, c.order = o → (c ∈ t.sent ↔ c ∈ s.sent)
  started : o ∈ t.started ↔ o ∈ s.started

def deskContract : Contract Desk DeskEffect ℕ where
  rely := Leaves
  guar o s e := e.owner = some o ∧ DeskFacts s e
  idle o s := o ∉ s.started → Unlost o 0 s ∧ Unsent o 0 s

theorem Leaves.refl (o : ℕ) (s : Desk) : Leaves o s s := ⟨.refl _, fun _ _ => Iff.rfl, fun _ _ => Iff.rfl, Iff.rfl⟩

theorem Leaves.trans (h : Leaves o s t) (h' : Leaves o t u) : Leaves o s u :=
  ⟨h.grows.trans h'.grows, fun x hx => (h'.lost x hx).trans (h.lost x hx),
    fun c hc => (h'.sent c hc).trans (h.sent c hc), h'.started.trans h.started⟩

theorem Unlost.of_leaves (h : Unlost o n s) (hs : Leaves o s t) : Unlost o n t :=
  fun x hx ho => h x ((hs.lost x ho).mp hx) ho

theorem Unsent.of_leaves (h : Unsent o n s) (hs : Leaves o s t) : Unsent o n t :=
  fun c hc ho => h c ((hs.sent c ho).mp hc) ho

theorem Stored.of_grows (h : Stored c order s) (hs : OrdersTable.Grows s.orders t.orders) :
    Stored c order t := by
  obtain ⟨r, hr, hby, hkey⟩ := h
  obtain ⟨r', hr', hkey', hby'⟩ := hs r hr
  rw [hkey.1, hkey.2] at hkey'
  exact ⟨r', hr', hby'.trans hby, hkey'⟩

theorem apply_grows (texts : Texts) (e : DeskEffect) (s : Desk) :
    OrdersTable.Grows s.orders (Desk.apply texts e s).orders := by
  cases e with
  | inserts c order createdAt => exact OrdersTable.insert_grows _ _
  | adds row => exact OrdersTable.insert_grows _ _
  | updates c order brokerOrderId status => exact OrdersTable.update_grows _ _ _ _
  | marks id brokerOrderId status => exact OrdersTable.update_grows _ _ _ _
  | starts | judges | loses | sends | posts | returns | clock => exact .refl _

theorem apply_indexed (texts : Texts) (e : DeskEffect) (h : s.orders.Indexed) :
    (Desk.apply texts e s).orders.Indexed := by
  cases e with
  | inserts c order createdAt => exact h.insert _
  | adds row => exact h.insert _
  | updates c order brokerOrderId status => exact h.update _ _ _
  | marks id brokerOrderId status => exact h.update _ _ _
  | starts | judges | loses | sends | posts | returns | clock => exact h

theorem Leaves.of_others (h : e.owner ≠ some o) : Leaves o s (Desk.apply texts e s) := by
  refine ⟨apply_grows texts e s, fun x hx => ?_, fun c hc => ?_, ?_⟩
  · cases e with
    | loses c order answered =>
      have hne : x ≠ (c, order, answered) := by
        rintro rfl
        exact h (congrArg some hx)
      simp [Desk.apply, hne]
    | _ => exact Iff.rfl
  · cases e with
    | sends d order =>
      have hne : c ≠ d := by
        rintro rfl
        exact h (congrArg some hc)
      simp [Desk.apply, hne]
    | _ => exact Iff.rfl
  · cases e with
    | starts o' =>
      have hne : o ≠ o' := by
        rintro rfl
        exact h rfl
      simp [Desk.apply, hne]
    | _ => exact Iff.rfl

section Text

/-- A logical order at work, whose attempts from the `n`-th on have neither lost an insert
nor gone to the broker. -/
structure Working (o n : ℕ) (s : Desk) : Prop where
  started : o ∈ s.started
  unlost : Unlost o n s
  unsent : Unsent o n s

theorem Working.of_leaves (h : Working o n s) (hs : Leaves o s t) : Working o n t :=
  ⟨hs.started.mpr h.started, h.unlost.of_leaves hs, h.unsent.of_leaves hs⟩

abbrev Keeps {α : Type} (texts : Texts) (o n : ℕ) (p : M α) : Prop :=
  deskContract.Stays (system texts) o (Working o n) p

variable {α β : Type}

theorem keeps_pure (a : α) : Keeps texts o n (pure a : M α) := Contract.Stays.pure a

theorem keeps_bind {p : M α} {f : α → M β} (hp : Keeps texts o n p)
    (hf : ∀ a, Keeps texts o n (f a)) : Keeps texts o n (p >>= f) := Contract.Stays.bind hp hf

theorem keeps_wait (i : DeskPoint) : Keeps texts o n (wait i) :=
  Contract.Stays.wait (fun _ _ h hs => h.of_leaves hs) i

theorem keeps_run_pure (a : α) : Keeps texts o n (pure a : Raising α).run := keeps_pure _

theorem keeps_run_bind {p : Raising α} {f : α → Raising β} (hp : Keeps texts o n p.run)
    (hf : ∀ a, Keeps texts o n (f a).run) : Keeps texts o n (p >>= f).run := by
  refine keeps_bind hp fun r => ?_
  cases r with
  | ok a => exact hf a
  | error e => exact keeps_pure _

theorem keeps_lift {p : M α} (hp : Keeps texts o n p) :
    Keeps texts o n (liftM p : Raising α).run := keeps_bind hp fun _ => keeps_pure _

theorem keeps_judged (check : Check) : Keeps texts o n (judged texts ⟨o, n⟩ req check) := by
  refine keeps_bind Contract.Stays.look fun s => keeps_bind ?_ fun _ => keeps_pure _
  exact Contract.Stays.emit fun _ h => ⟨⟨rfl, trivial⟩, h.started, h.unlost, h.unsent⟩

theorem keeps_validateOrder :
    Keeps texts o n (validateOrder texts ⟨o, n⟩ req order).run := by
  unfold validateOrder
  refine keeps_run_bind (keeps_lift ?_) fun session => ?_
  · unfold validateTradingSession
    split
    · exact keeps_pure _
    · refine keeps_bind (keeps_wait _) fun isOpen => ?_
      split <;> exact keeps_pure _
  refine keeps_run_bind (keeps_lift ?_) fun duplicate => ?_
  · unfold checkDuplicate
    split
    · exact keeps_pure _
    · refine keeps_bind (keeps_wait _) fun answered => ?_
      split
      · refine keeps_bind (keeps_judged _) fun r => ?_
        split <;> exact keeps_pure _
      · exact keeps_pure _
  refine keeps_run_bind (keeps_lift ?_) fun margin => ?_
  · refine keeps_bind (keeps_wait _) fun margin => ?_
    split
    · exact keeps_pure _
    · exact keeps_pure _
    · split <;> exact keeps_pure _
  refine keeps_run_bind ?_ fun price => keeps_run_pure _
  unfold checkPriceBand
  split
  · exact keeps_run_pure _
  · refine keeps_run_bind (keeps_wait _) fun quote => ?_
    split
    · exact keeps_run_pure _
    · split
      · exact keeps_run_pure _
      · simp only
        split <;> exact keeps_run_pure _

theorem keeps_evaluateRule (config : RiskConfig) (rule : RiskRuleType) :
    Keeps texts o n (evaluateRule texts ⟨o, n⟩ req config rule) := by
  cases rule with
  | tradeCooldown | maxOrdersPerMinute | duplicateOrder =>
    exact keeps_bind (keeps_wait _) fun _ => keeps_judged _
  | maxTradesPerDay =>
    refine keeps_bind (keeps_wait _) fun answered => ?_
    split
    · exact keeps_judged _
    · exact keeps_pure _
  | killSwitch | liveMode | emergencyStop | brokerOffline | marketClosed | tradingWindow
  | dailyLossLimit | dailyProfitTarget | maxOpenPositions | maxQuantity | maxExposure
  | maxSymbolExposure | maxCapital | maxDrawdown => exact keeps_wait _

theorem keeps_firstRejection (config : RiskConfig) (rules : List RiskRuleType) :
    Keeps texts o n (firstRejection texts ⟨o, n⟩ req config rules) := by
  induction rules with
  | nil => exact keeps_pure _
  | cons rule rest ih =>
    refine keeps_bind (keeps_evaluateRule config rule) fun r => ?_
    split
    · exact keeps_pure _
    · exact ih

theorem keeps_evaluate : Keeps texts o n (evaluate texts ⟨o, n⟩ req).run :=
  keeps_run_bind (keeps_wait _) fun config => keeps_lift (keeps_firstRejection config _)

def Settled (c : Call) (order : NormalizedOrder) (p : Preflight) (s : Desk) : Prop :=
  match p with
  | .ready => Working c.order c.attempt s ∧ Stored c order s
  | .duplicate existing => Working c.order (c.attempt + 1) s ∧ ∀ x ∈ s.lost, x.1 = c →
    x.2.1.clientOrderId = order.clientOrderId ∧
      existing = lostResult s order.clientOrderId x.2.2
  | .raised _ => False
  | _ => Working c.order c.attempt s

abbrev Does {α : Type} (texts : Texts) (o : ℕ) (post : α → Desk → Prop) (p : M α) (s : Desk) : Prop :=
  deskContract.Does (system texts) o post p s

theorem Stored.of_leaves (h : Stored c order s) (hs : Leaves o s t) : Stored c order t :=
  h.of_grows hs.grows

theorem does_insertOrderAtomic (createdAt : Time) (h : Working c.order c.attempt s) :
    Does texts c.order (fun b t => Working c.order c.attempt t ∧ (b = true → Stored c order t))
      (insertOrderAtomic c order createdAt) s := by
  refine Contract.Does.of_wait fun carried t ht _ => ?_
  have hw := h.of_leaves ht
  change Carried at carried
  split
  · exact Contract.Does.pure ⟨hw, by simp⟩
  · refine Contract.Does.of_look (Contract.Does.of_emit ⟨rfl, trivial⟩ (Contract.Does.pure ?_))
    refine ⟨⟨hw.started, hw.unlost, hw.unsent⟩, fun hb => ?_⟩
    have hfree : t.orders.conflicts (t.rowOf c order createdAt) = false := by
      simp only [Bool.and_eq_true, Bool.not_eq_true'] at hb
      exact hb.1
    exact ⟨_, OrdersTable.mem_insert hfree, rfl, rfl, rfl⟩

theorem does_claimRow (createdAt : Time) (h : Working c.order c.attempt s) :
    Does texts c.order (Settled c order) (claimRow c order createdAt) s := by
  refine Contract.Does.bind (does_insertOrderAtomic createdAt h) fun inserted t ht => ?_
  obtain ⟨hw, hstored⟩ := ht
  split
  · next hb => exact Contract.Does.pure ⟨hw, hstored hb⟩
  · refine Contract.Does.of_wait fun answered u hu _ => ?_
    have hw' := hw.of_leaves hu
    have hunsent : c ∉ u.sent := fun hc => absurd (hw'.unsent c hc rfl) (Nat.lt_irrefl _)
    refine Contract.Does.of_look (Contract.Does.of_emit ⟨rfl, hunsent⟩ (Contract.Does.pure ?_))
    refine ⟨⟨hw'.started, ?_, fun d hd ho => Nat.lt_succ_of_lt (hw'.unsent d hd ho)⟩, ?_⟩
    · intro x hx ho
      rcases List.mem_cons.mp hx with rfl | hx
      · exact Nat.lt_succ_self _
      · exact Nat.lt_succ_of_lt (hw'.unlost x hx ho)
    · intro x hx hc
      rcases List.mem_cons.mp hx with rfl | hx
      · exact ⟨rfl, rfl⟩
      · have hlt := hw'.unlost x hx (by rw [hc])
        rw [hc] at hlt
        exact absurd hlt (Nat.lt_irrefl _)

def Checked (c : Call) (order : NormalizedOrder) : Except Raised Preflight → Desk → Prop
  | .error _, s => Working c.order c.attempt s
  | .ok p, s => Settled c order p s

theorem does_run_bind {α β : Type} {p : Raising α} {f : α → Raising β}
    {post : Except Raised β → Desk → Prop} (hp : Keeps texts o n p.run) (hs : Working o n s)
    (hf : ∀ a t, Working o n t → Does texts o post (f a).run t)
    (herr : ∀ e t, Working o n t → post (.error e) t) : Does texts o post (p >>= f).run s := by
  refine Contract.Does.bind (hp s hs) fun r t ht => ?_
  cases r with
  | ok a => exact hf a t ht
  | error e => exact Contract.Does.pure (herr e t ht)

theorem does_checks (createdAt : Time) (h : Working c.order c.attempt s) :
    Does texts c.order (Checked c order) (checks texts c req order createdAt).run s := by
  unfold checks
  refine does_run_bind keeps_validateOrder h (fun errors t ht => ?_) fun _ _ h => h
  split
  · refine does_run_bind (keeps_wait _) ht (fun _ u hu => ?_) fun _ _ h => h
    exact Contract.Does.pure hu
  · refine does_run_bind keeps_evaluate ht (fun reason u hu => ?_) fun _ _ h => h
    cases reason with
    | some reason =>
      refine does_run_bind (keeps_wait _) hu (fun _ v hv => ?_) fun _ _ h => h
      exact Contract.Does.pure hv
    | none =>
      refine does_run_bind (keeps_wait _) hu (fun available v hv => ?_) fun _ _ h => h
      split
      · exact Contract.Does.bind (does_claimRow createdAt hv) fun p w hp => Contract.Does.pure hp
      · exact Contract.Does.pure hv

structure Over (c : Call) (r : Except Raised ExecutionResult) (s : Desk) : Prop where
  working : Working c.order (c.attempt + 1) s
  result : ∀ x ∈ s.lost, x.1 = c → ∃ res, r = .ok res ∧
    Manager.refusal x.2.1.clientOrderId
      (.duplicate (lostResult s x.2.1.clientOrderId x.2.2)) = some res

theorem Working.not_lost (h : Working c.order c.attempt s) : ∀ x ∈ s.lost, x.1 ≠ c := by
  rintro x hx rfl
  exact absurd (h.unlost x hx rfl) (Nat.lt_irrefl _)

theorem Working.over (h : Working c.order c.attempt s) (r : Except Raised ExecutionResult) :
    Over c r s :=
  ⟨⟨h.started, fun x hx ho => Nat.lt_succ_of_lt (h.unlost x hx ho),
      fun d hd ho => Nat.lt_succ_of_lt (h.unsent d hd ho)⟩,
    fun x hx hc => absurd hc (h.not_lost x hx)⟩

structure AtBroker (c : Call) (s : Desk) : Prop where
  started : c.order ∈ s.started
  unlost : Unlost c.order c.attempt s
  unsent : Unsent c.order (c.attempt + 1) s

theorem AtBroker.of_leaves (h : AtBroker c s) (hs : Leaves c.order s t) : AtBroker c t :=
  ⟨hs.started.mpr h.started, h.unlost.of_leaves hs, h.unsent.of_leaves hs⟩

theorem AtBroker.not_lost (h : AtBroker c s) : ∀ x ∈ s.lost, x.1 ≠ c := by
  rintro x hx rfl
  exact absurd (h.unlost x hx rfl) (Nat.lt_irrefl _)

theorem AtBroker.over (h : AtBroker c s) (r : Except Raised ExecutionResult) : Over c r s :=
  ⟨⟨h.started, fun x hx ho => Nat.lt_succ_of_lt (h.unlost x hx ho), h.unsent⟩,
    fun x hx hc => absurd hc (h.not_lost x hx)⟩

theorem does_sendOrder (requestId : String) (p : Preflight) (h : Working c.order c.attempt s)
    (hstored : Stored c order s) :
    Does texts c.order (Over c) (sendOrder c order requestId p) s := by
  have hsent : AtBroker c (Desk.apply texts (.sends c order) s) := by
    refine ⟨h.started, h.unlost, fun d hd ho => ?_⟩
    rcases List.mem_cons.mp hd with rfl | hd
    · exact Nat.lt_succ_self _
    · exact Nat.lt_succ_of_lt (h.unsent d hd ho)
  refine Contract.Does.of_emit ⟨rfl, hstored, h.not_lost⟩ ?_
  refine Contract.Does.of_wait fun out t ht _ => ?_
  have hw : AtBroker c t := hsent.of_leaves ht
  refine Contract.Does.of_emit ⟨rfl, hstored.of_grows ht.grows, hw.not_lost⟩ ?_
  refine Contract.Does.bind (?_ : Does texts c.order (fun _ u => AtBroker c u) _ _) fun _ u hu =>
    Contract.Does.pure (hu.over _)
  have hw' : ∀ posts, AtBroker c ((system texts).apply (.posts c order posts) t) :=
    fun _ => ⟨hw.started, hw.unlost, hw.unsent⟩
  unfold updateOrderInDb
  split
  · exact Contract.Does.pure (hw' _)
  · split
    · exact Contract.Does.pure (hw' _)
    · refine Contract.Does.of_wait fun answered u hu _ => ?_
      have hu' := (hw' _).of_leaves hu
      split
      · exact ⟨⟨rfl, trivial⟩, hu'.started, hu'.unlost, hu'.unsent⟩
      · exact Contract.Does.pure hu'

theorem buildNormalizedOrder_clientOrderId (h : buildNormalizedOrder req = some order) :
    order.clientOrderId = req.executionRequestId := by
  unfold buildNormalizedOrder at h
  simp only [Option.bind_eq_bind, Option.bind_eq_some_iff, Option.some.injEq] at h
  obtain ⟨_, -, _, -, _, -, _, -, _, -, _, -, rfl⟩ := h
  rfl

theorem does_placeNamed (h : Working c.order c.attempt s) :
    Does texts c.order (Over c) (placeNamed texts c req req.executionRequestId) s := by
  unfold placeNamed
  split
  · exact Contract.Does.pure (h.over _)
  · next order hbuild =>
    have hid := buildNormalizedOrder_clientOrderId hbuild
    refine Contract.Does.of_look (Contract.Does.bind (does_checks _ h) fun r t ht => ?_)
    cases r with
    | error e =>
      refine Contract.Does.of_wait fun logged u hu _ => ?_
      have hw := Working.of_leaves ht hu
      cases logged with
      | error e' => exact Contract.Does.pure (hw.over _)
      | ok x => exact Contract.Does.pure (hw.over _)
    | ok p =>
      rw [← hid]
      cases p with
      | duplicate existing =>
        obtain ⟨hw, hlost⟩ := ht
        have hreturn : ∀ res, Manager.refusal order.clientOrderId (.duplicate existing) = some res →
            Over c (.ok res) t := by
          refine fun res hres => ⟨hw, fun x hx hc => ⟨res, rfl, ?_⟩⟩
          obtain ⟨hkey, hexisting⟩ := hlost x hx hc
          rw [hkey, ← hexisting]
          exact hres
        cases existing with
        | none => exact Contract.Does.pure (hreturn _ rfl)
        | some x => exact Contract.Does.pure (hreturn _ rfl)
      | raised e => exact ht.elim
      | ready => exact does_sendOrder _ _ ht.1 ht.2
      | unbuildable | invalid | riskRejected message | unavailable =>
        exact Contract.Does.pure (Working.over ht _)

theorem does_placeOrder (h : Working c.order c.attempt s) :
    Does texts c.order (Over c) (placeOrder texts c req) s :=
  Contract.Does.of_look (does_placeNamed h)

theorem keeps_attempts (o : ℕ) (req : ExecutionRequest) (left : ℕ) :
    ∀ n s, Working o n s →
      Does texts o (fun _ t => o ∈ t.started) (attempts texts o req left n) s := by
  induction left with
  | zero =>
    intro n s h
    unfold attempts
    refine Contract.Does.bind (does_placeOrder (c := ⟨o, n⟩) h) fun placed t ht => ?_
    cases placed with
    | error e => exact Contract.Does.pure ht.working.started
    | ok res =>
      refine Contract.Does.of_emit ⟨rfl, fun x hx hc => ?_⟩ (Contract.Does.pure ht.working.started)
      obtain ⟨_, heq, hres⟩ := ht.result x hx hc
      cases heq
      exact hres
  | succ left ih =>
    intro n s h
    unfold attempts
    refine Contract.Does.bind (does_placeOrder (c := ⟨o, n⟩) h) fun placed t ht => ?_
    cases placed with
    | error e => exact Contract.Does.pure ht.working.started
    | ok res =>
      refine Contract.Does.of_emit ⟨rfl, fun x hx hc => ?_⟩ ?_
      · obtain ⟨_, heq, hres⟩ := ht.result x hx hc
        cases heq
        exact hres
      have hw : Working o (n + 1) ((system texts).apply (.returns ⟨o, n⟩ res) t) :=
        ⟨ht.working.started, ht.working.unlost, ht.working.unsent⟩
      dsimp only
      split
      · exact Contract.Does.of_wait fun _ u hu _ => ih _ _ (hw.of_leaves hu)
      · exact Contract.Does.pure hw.started

end Text

theorem working_of_idle (texts : Texts) (hidle : deskContract.idle o s) (ho : o ∉ s.started) :
    Working o n (Desk.apply texts (.starts o) s) := by
  obtain ⟨hlost, hsent⟩ := hidle ho
  exact ⟨List.mem_cons_self, fun x hx hxo => absurd (hlost x hx hxo) (Nat.not_lt_zero _),
    fun c hc hco => absurd (hsent c hc hco) (Nat.not_lt_zero _)⟩

theorem deskContract_sound (texts : Texts) : deskContract.Sound (system texts) where
  trans _ _ _ _ h h' := h.trans h'
  refl o s := .refl o s
  idle o s t h hidle hstarted := by
    obtain ⟨hlost, hsent⟩ := hidle (by rwa [← h.started])
    exact ⟨hlost.of_leaves h, hsent.of_leaves h⟩
  others a b s e hab hg := by
    refine Leaves.of_others fun heq => ?_
    have hsame : a = b := by
      rw [hg.1] at heq
      exact (Option.some.inj heq).symm
    have hfalse := hab hsame
    simp [system, hsame] at hfalse
  env a s e henv := by
    refine Leaves.of_others fun heq => ?_
    cases e <;> simp [system, DeskEffect.owner] at henv heq
  code w s hidle := by
    cases w with
    | process o record =>
      refine Contract.Does.of_look ?_
      split
      · next hmem => exact Contract.Does.pure fun hno => absurd hmem hno
      · next hmem =>
        refine Contract.Does.of_emit ⟨rfl, trivial⟩ ?_
        exact Contract.Does.mono (keeps_attempts o _ _ _ _ (working_of_idle texts hidle hmem))
          fun _ t ht hno => absurd ht hno
    | place o req =>
      refine Contract.Does.of_look ?_
      split
      · next hmem => exact Contract.Does.pure fun hno => absurd hmem hno
      · next hmem =>
        refine Contract.Does.of_emit ⟨rfl, trivial⟩ ?_
        exact Contract.Does.mono (keeps_attempts o _ _ _ _ (working_of_idle texts hidle hmem))
          fun _ t ht hno => absurd ht hno

structure Fresh (s : Desk) : Prop where
  indexed : s.orders.Indexed
  lost : s.lost = []
  sent : s.sent = []

theorem facts_of_run {P : Pool Desk DeskEffect DeskReply ℕ} {es : List DeskEffect}
    (hs : Fresh s) (h : (system texts).Run ⟨s, []⟩ es P) :
    Legal (Desk.apply texts) DeskFacts s es := by
  have hholds : deskContract.Holds (system texts) ⟨s, []⟩ := by
    refine ⟨by simp, by simp, .nil, fun o _ _ => ⟨fun x hx => ?_, fun c hc => ?_⟩⟩
    · rw [hs.lost] at hx
      cases hx
    · rw [hs.sent] at hc
      cases hc
  refine (Contract.Run.legal (deskContract_sound texts) hholds h).1.mono fun t e he => ?_
  rcases he with ⟨o, -, hfacts⟩ | henv
  · exact hfacts
  · cases e <;> trivial

def PlacingFacts (s : Desk) (e : DeskEffect) : Prop := s.orders.Indexed ∧ DeskFacts s e

theorem placingFacts_of_run {P : Pool Desk DeskEffect DeskReply ℕ} {es : List DeskEffect}
    (hs : Fresh s) (h : (system texts).Run ⟨s, []⟩ es P) :
    Legal (Desk.apply texts) PlacingFacts s es := by
  have hboth := (facts_of_run hs h).with_invariant (I := fun s => s.orders.Indexed)
    (fun _ e hi _ => apply_indexed texts e hi) hs.indexed
  exact hboth.mono fun _ _ he => he

theorem replay_grows (texts : Texts) (s : Desk) (es : List DeskEffect) :
    OrdersTable.Grows s.orders (replay (Desk.apply texts) s es).orders := by
  induction es generalizing s with
  | nil => exact .refl _
  | cons e es ih => exact (apply_grows texts e s).trans (ih _)

theorem stored_of_mem {es : List DeskEffect} (h : Legal (Desk.apply texts) PlacingFacts s es)
    (he : e ∈ es) (hstored : ∀ t, DeskFacts t e → Stored c order t) :
    Stored c order (replay (Desk.apply texts) s es) := by
  obtain ⟨pre, post, rfl⟩ := List.append_of_mem he
  rw [replay_append]
  exact (hstored _ h.at.2).of_grows (replay_grows texts _ _)

def allClear (out : Sending) : (i : DeskPoint) → DeskReply i
  | .turn => ()
  | .query => true
  | .insert => Carried.answered
  | .marketOpen => true
  | .margin _ _ => (some none : Option (Option ℚ))
  | .quote _ => (.ok none : Except Raised (Option ℚ))
  | .config _ => (.ok {} : Except Raised RiskRules.RiskConfig)
  | .rule _ _ => ({} : RiskRules.RiskRuleResult)
  | .adapter _ _ => (.ok true : Except Raised Bool)
  | .log => (.ok () : Except Raised Unit)
  | .send _ => out
  | .delay _ => ()

def someTexts : Texts where
  sha256 _ := "5d3330f4e75fc9607dd937fe40629768583e455b0ed0812096d9a84901519cce"
  str _ := "0.0"

end Trademetrix.Execution.Placing
