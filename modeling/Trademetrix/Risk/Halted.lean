import Trademetrix.Risk.Orders

/-!
# Orders and trading halts

Every order is sent from `ExecutionManager.place_order`, whose risk check looks at
the Redis key and at the cached config, not at the emergency flags. While that
check works on halts it can read and a config that is up to date, for a user with
no emergency stop, and no halt is engaged or goes out of reach between the check
and the last send, no order of a user is sent under a halt.
-/

namespace Trademetrix.Risk

open Trademetrix.Async
open Contract (Stays)

def Trading.blocked (s : Trading) (userId : String) : Bool :=
  s.killSwitch.engaged.halts userId || !s.killSwitch.reachable || !s.database

def HaltRespected (s : Trading) : Effect → Prop
  | .sent _ userId => s.blocked userId = false
  | _ => True

instance (s : Trading) : ∀ e, Decidable (HaltRespected s e)
  | .sent _ userId => inferInstanceAs (Decidable (s.blocked userId = false))
  | .halt _ | .database _ | .settingsSaved _ _ | .live _ _ | .cached _ _ | .enqueued _
  | .dequeued | .cleared _ _ _ | .closed _ | .crash => isTrue trivial

/-- What call `n` may do. -/
def Guarantee (n : ℕ) (s : Trading) : Effect → Prop
  | .cleared m _ killSwitchEnabled =>
    m = n ∧ killSwitchEnabled = false ∧ s.killSwitch.cacheGet ≠ some "1"
  | .sent m userId => m = n ∧ s.cleared.get n = some userId
  | .closed m => m = n
  | .crash => False
  | _ => True

def Effect.plain : Effect → Bool
  | .cleared _ _ _ | .sent _ _ | .closed _ | .crash => false
  | _ => true

def contract : Contract Trading Effect (Option ℕ) where
  rely a s t := ∀ n, a = some n → t.cleared.get n = s.cleared.get n
  guar a s e := ∃ n, a = some n ∧ Guarantee n s e
  idle _ _ := True

variable {s : Trading} {e : Effect} {n m : ℕ}

theorem guarantee_of_plain (h : e.plain = true) : Guarantee n s e := by
  cases e with
  | cleared | sent | closed | crash => cases h
  | _ => trivial

@[simp] theorem writeRow_cleared (s : Trading) (u : String) (sid : Option String)
    (f : SettingsRow → SettingsRow) : (s.writeRow u sid f).cleared = s.cleared := by
  unfold Trading.writeRow
  split <;> rfl

@[simp] theorem writeRow_blocked (s : Trading) (u v : String) (sid : Option String)
    (f : SettingsRow → SettingsRow) : (s.writeRow u sid f).blocked v = s.blocked v := by
  unfold Trading.writeRow
  split <;> rfl

theorem apply_cleared_of_plain (h : e.plain = true) : (s.apply e).cleared = s.cleared := by
  cases e with
  | cleared | sent | closed | crash => cases h
  | halt c => cases c <;> simp [Trading.apply]
  | _ => simp [Trading.apply]

theorem apply_cleared_of_ne (hmn : m ≠ n) (h : Guarantee n s e) :
    (s.apply e).cleared.get m = s.cleared.get m := by
  by_cases hp : e.plain = true
  · rw [apply_cleared_of_plain hp]
  cases e with
  | cleared k u flag =>
    obtain ⟨rfl, -⟩ := h
    simp [Trading.apply, Dict.get_set, hmn]
  | closed k =>
    cases h
    simp [Trading.apply, Dict.get_pop, hmn]
  | sent k u => rfl
  | crash => exact h.elim
  | _ => exact absurd rfl hp

section Texts

variable {α : Type}

abbrev Plain (n : ℕ) (Q : Trading → Prop) (p : Call α) : Prop := contract.Stays system (some n) Q p

/-- A property of states that only the order of call `n` matters to. -/
def Local (n : ℕ) (Q : Trading → Prop) : Prop :=
  ∀ s t : Trading, t.cleared.get n = s.cleared.get n → Q s → Q t

variable {Q : Trading → Prop}

theorem Plain.emit (hQ : Local n Q) (he : e.plain = true) :
    Plain n Q (Proc.emit e : Call Unit) :=
  Stays.emit fun s h => ⟨⟨n, rfl, guarantee_of_plain he⟩,
    hQ _ _ (by rw [show system.apply e s = s.apply e from rfl, apply_cleared_of_plain he]) h⟩

theorem Plain.wait (hQ : Local n Q) (i : Await) : Plain n Q (Proc.wait i : Call (Reply i)) :=
  Stays.wait (fun s t hs (ht : contract.rely (some n) s t) => hQ s t (ht n rfl) hs) i

theorem Plain.loadConfig (hQ : Local n Q) (userId : String) : Plain n Q (loadConfig userId) := by
  refine Stays.bind Stays.look fun s => ?_
  split
  · exact Stays.pure _
  · refine Stays.bind (Plain.wait hQ (.settingsRow userId none)) fun row => ?_
    exact Stays.bind (Plain.emit hQ rfl) fun _ => Stays.pure _

theorem Plain.loadSettings (hQ : Local n Q) (userId : String) (strategyId : Option String) :
    Plain n Q (loadSettings userId strategyId) := by
  unfold Risk.loadSettings
  split
  · exact Plain.wait hQ (.settingsRow userId none)
  · next sid _ =>
    refine Stays.bind (Plain.wait hQ (.settingsRow userId (some sid))) fun row => ?_
    split
    · exact Stays.pure _
    · exact Stays.pure _
    · exact Plain.wait hQ (.settingsRow userId none)

theorem Plain.checkOrder (hQ : Local n Q) (req : ExecutionRequest) (strategyId : Option String) :
    Plain n Q (checkOrder req strategyId) := by
  refine Stays.bind (Plain.wait hQ .cacheGet) fun val => ?_
  split
  · exact Stays.pure _
  refine Stays.bind (Plain.loadSettings hQ req.userId strategyId) fun settings => ?_
  split
  · exact Stays.pure _
  · dsimp only
    split
    · exact Stays.pure _
    split
    · exact Stays.pure _
    · exact Plain.wait hQ .check

theorem Plain.executeOrder (hQ : Local n Q) (req : ExecutionRequest) (strategyId : Option String) :
    Plain n Q (executeOrder req strategyId) := by
  refine Stays.bind (Plain.wait hQ .check) fun passed => ?_
  split
  · refine Stays.bind (Plain.checkOrder hQ req strategyId) fun allowed => ?_
    split
    · exact Stays.bind (Plain.wait hQ .io) fun _ => Plain.emit hQ rfl
    · exact Stays.pure _
  · exact Stays.pure _

theorem Plain.strategyOrder (hQ : Local n Q) (req : ExecutionRequest) (strategyId : String) :
    Plain n Q (strategyOrder req strategyId) := by
  refine Stays.bind (Plain.wait hQ .cacheGet) fun val => Stays.bind Stays.look fun s => ?_
  split
  · exact Stays.pure _
  refine Stays.bind (Plain.wait hQ .check) fun withinLimits => ?_
  split
  · exact Plain.executeOrder hQ req _
  · exact Stays.pure _

theorem local_true : Local n fun _ => True := fun _ _ _ _ => trivial

theorem local_cleared (userId : String) : Local n fun s => s.cleared.get n = some userId :=
  fun _ _ heq h => heq.trans h

theorem evaluate_spec (req : ExecutionRequest) :
    contract.Does system (some n)
      (fun approved t => approved = true → t.cleared.get n = some req.userId)
      (evaluate n req) s := by
  refine Contract.Does.bind (Plain.loadConfig local_true req.userId s trivial) fun config t _ => ?_
  refine Contract.Does.of_wait fun val u _ hready => ?_
  have hval : val = u.killSwitch.cacheGet := by simpa [system] using hready
  split
  · rintro ⟨⟩
  next hpass =>
  simp only [Bool.or_eq_true, not_or, Bool.not_eq_true] at hpass
  obtain ⟨hglobal, hflag⟩ := hpass
  have hkey : u.killSwitch.cacheGet ≠ some "1" := by
    rw [← hval]
    simpa [KillSwitch.globalKillSwitchActive] using hglobal
  refine Contract.Does.of_emit ⟨n, rfl, rfl, hflag, hkey⟩ ?_
  have hcleared : (u.apply (.cleared n req.userId config.killSwitchEnabled)).cleared.get n =
      some req.userId := by
    simp [Trading.apply, Dict.get_set]
  split
  · rintro ⟨⟩
  split
  · rintro ⟨⟩
  exact Contract.Does.mono (Plain.wait (local_cleared req.userId) .check _ hcleared)
    fun _ _ h _ => h

theorem sendLoop_spec (userId : String) (left : ℕ) :
    Plain n (fun s => s.cleared.get n = some userId) (sendLoop n userId left) := by
  induction left with
  | zero => exact Stays.pure _
  | succ left ih =>
    refine Stays.bind (Plain.wait (local_cleared userId) .io) fun _ => ?_
    refine Stays.bind (Stays.emit fun s h => ⟨⟨n, rfl, rfl, h⟩, h⟩) fun _ => ?_
    refine Stays.bind (Plain.wait (local_cleared userId) .brokerReply) fun again => ?_
    split
    · exact ih
    · exact Stays.pure _

theorem close_spec : contract.Does system (some n) (fun _ _ => True)
    (Proc.emit (.closed n) : Call Unit) s := ⟨⟨n, rfl, rfl⟩, trivial⟩

theorem placeOrder_spec (req : ExecutionRequest) :
    Plain n (fun _ => True) (placeOrder n req) := by
  intro s _
  unfold placeOrder
  refine Contract.Does.of_wait fun valid t _ _ => ?_
  split
  · refine Contract.Does.bind (evaluate_spec req) fun approved u hu => ?_
    split
    · next happroved =>
      have hcleared := hu happroved
      refine Contract.Does.bind (Plain.wait (local_cleared req.userId) .check u hcleared)
        fun inserted v hv => ?_
      split
      · exact Contract.Does.bind (sendLoop_spec req.userId maxSends v hv) fun _ _ _ => close_spec
      · exact close_spec
    · exact close_spec
  · exact close_spec

theorem processQueue_spec : Plain n (fun _ => True) (processQueue n) := by
  refine Stays.bind Stays.look fun s => ?_
  split
  · exact Stays.pure _
  · next req _ _ =>
    refine Stays.bind (Plain.emit local_true rfl) fun _ => ?_
    refine Stays.bind (Plain.wait local_true .check) fun current => ?_
    split
    · refine Stays.bind (placeOrder_spec req) fun _ => ?_
      refine Stays.bind (Plain.wait local_true .check) fun retry => ?_
      split
      · exact Plain.emit local_true rfl
      · exact Stays.pure _
    · exact Stays.pure _

theorem path_spec (p : Path) : Plain n (fun _ => True) (p.run n) := by
  cases p with
  | place req => exact placeOrder_spec req
  | gate req strategyId => exact Plain.executeOrder local_true req strategyId
  | omsWorker => exact processQueue_spec
  | strategy req strategyId => exact Plain.strategyOrder local_true req strategyId

end Texts

theorem contract_sound : contract.Sound system where
  trans _ _ _ _ h h' n hn := (h' n hn).trans (h n hn)
  refl _ _ _ _ := rfl
  idle _ _ _ _ _ := trivial
  others a b s e hab := by
    rintro ⟨n, rfl, hg⟩ m rfl
    refine apply_cleared_of_ne ?_ hg
    rintro rfl
    simpa [system] using hab rfl
  env a s e he n _ := by
    have hplain : e.plain = true := by
      cases e <;> first | rfl | cases he
    change (s.apply e).cleared.get n = _
    rw [apply_cleared_of_plain hplain]
  code c s _ := path_spec c.2 s trivial

/-- Each effect of a run is one a call may carry out, one from outside or the end of
the process. -/
def Granted (s : Trading) (e : Effect) : Prop := (∃ n, Guarantee n s e) ∨ e = .crash

theorem run_granted {es : List Effect} {P : Pool Trading Effect Reply (Option ℕ)}
    (h : system.Life .crash ⟨s, []⟩ es P) : Legal Trading.apply Granted s es := by
  have hstart : contract.Holds system ⟨s, []⟩ := ⟨by simp, by simp, .nil, fun _ _ => trivial⟩
  have hlegal := Contract.Life.legal contract_sound (fun _ _ _ _ _ => trivial) (a := none)
    (by simp [system]) hstart h
  refine hlegal.1.mono ?_
  rintro s e ((⟨a, n, -, hg⟩ | henv) | rfl)
  · exact .inl ⟨n, hg⟩
  · refine .inl ⟨0, guarantee_of_plain ?_⟩
    cases e <;> first | rfl | cases henv
  · exact .inr rfl

/-- No halt is engaged or goes out of reach for a user with an order past its check; and
the check works on stores it can read, a config that shows the user's kill switch, and no
emergency stop. -/
def Careful (s : Trading) : Effect → Prop
  | .cleared _ userId killSwitchEnabled =>
    s.killSwitch.reachable = true ∧ s.database = true ∧
      (s.killSwitch.engaged.global = true → s.killSwitch.globalKey = some "1") ∧
      active s.killSwitch.engaged.emergency userId = false ∧
      (userId ∈ s.killSwitch.engaged.killSwitch → killSwitchEnabled = true)
  | .halt c => ∀ n userId, s.cleared.get n = some userId → (s.apply (.halt c)).blocked userId = false
  | .database up => up = true ∨ s.cleared = []
  | _ => True

instance (s : Trading) : ∀ e, Decidable (Careful s e)
  | .cleared _ _ _ => inferInstanceAs (Decidable (_ ∧ _ ∧ _ ∧ _ ∧ _))
  | .halt c => decidable_of_iff (∀ n ∈ s.cleared.map Prod.fst, ∀ u ∈ s.cleared.get n,
      (s.apply (.halt c)).blocked u = false) <| by
    refine ⟨fun h n u hn => h n ?_ u hn, fun h n _ u hn => h n u hn⟩
    by_contra hmem
    rw [Dict.get_eq_none.mpr hmem] at hn
    cases hn
  | .database _ => inferInstanceAs (Decidable (_ ∨ _))
  | .settingsSaved _ _ | .live _ _ | .cached _ _ | .enqueued _ | .dequeued | .sent _ _
  | .closed _ | .crash => isTrue trivial

def ClearedUnblocked (s : Trading) : Prop :=
  ∀ n userId, s.cleared.get n = some userId → s.blocked userId = false

theorem unblocked_of_cleared {userId : String} {flag : Bool}
    (hg : Guarantee n s (.cleared m userId flag)) (hc : Careful s (.cleared m userId flag)) :
    s.blocked userId = false := by
  obtain ⟨-, hflag, hkey⟩ := hg
  obtain ⟨hreach, hdb, hglobal, hemergency, hswitch⟩ := hc
  have hnoglobal : s.killSwitch.engaged.global = false := by
    by_contra hg
    refine hkey ?_
    rw [KillSwitch.cacheGet, if_pos hreach]
    exact hglobal (by simpa using hg)
  have hnoswitch : userId ∉ s.killSwitch.engaged.killSwitch := by
    intro hmem
    rw [hswitch hmem] at hflag
    cases hflag
  simp [Trading.blocked, Engaged.halts, hnoglobal, hemergency, hnoswitch, hreach, hdb]

theorem clearedUnblocked_step (hs : ClearedUnblocked s) (hgranted : Granted s e)
    (hcareful : Careful s e) : ClearedUnblocked (s.apply e) := by
  intro n userId hn
  rcases hgranted with ⟨m, hg⟩ | rfl
  · cases e with
    | halt c =>
      rw [apply_cleared_of_plain rfl] at hn
      exact hcareful n userId hn
    | database up =>
      rcases hcareful with rfl | hnil
      · have hbefore := hs n userId hn
        simp only [Trading.blocked, Bool.or_eq_false_iff] at hbefore
        simp [Trading.blocked, Trading.apply, hbefore.1]
      · simp [Trading.apply, hnil, Dict.get] at hn
    | cleared k u flag =>
      simp only [Trading.apply, Dict.get_set] at hn
      split at hn
      · cases hn
        exact unblocked_of_cleared hg hcareful
      · exact hs n userId hn
    | closed k =>
      simp only [Trading.apply, Dict.get_pop] at hn
      split at hn
      · cases hn
      · exact hs n userId hn
    | settingsSaved u sid | live u b =>
      simp only [Trading.apply, writeRow_cleared] at hn
      simp only [Trading.apply, writeRow_blocked]
      exact hs n userId hn
    | crash => exact hg.elim
    | cached | enqueued | dequeued | sent => exact hs n userId hn
  · simp [Trading.apply, Dict.get] at hn

theorem respected (hs : ClearedUnblocked s) (hgranted : Granted s e) : HaltRespected s e := by
  cases e with
  | sent k userId =>
    rcases hgranted with ⟨m, rfl, hcleared⟩ | h
    · exact hs _ userId hcleared
    · cases h
  | _ => trivial

/-- Triggers, releases, orders on every path, outages and crashes in any order: where
checks and halts keep apart as `Careful` says, no order of a user is sent while a halt is
engaged for him or cannot be read. -/
theorem no_order_sent_under_halt {s₀ : Trading} (h₀ : s₀.cleared = []) {es : List Effect}
    {P : Pool Trading Effect Reply (Option ℕ)} (h : system.Life .crash ⟨s₀, []⟩ es P)
    (hcareful : Legal Trading.apply Careful s₀ es) : Legal Trading.apply HaltRespected s₀ es := by
  have hstart : ClearedUnblocked s₀ := by
    intro n userId hn
    rw [h₀] at hn
    cases hn
  have hboth := (run_granted h).and hcareful
  have hinv := hboth.with_invariant
    (fun s e hs he => clearedUnblocked_step hs he.1 he.2) hstart
  exact hinv.mono fun s e he => respected he.1 he.2.1

def exampleTrading : Trading :=
  ⟨⟨⟨false, [], []⟩, none, true, []⟩, [(("u1", none), ⟨false, true, false⟩)], true, [], [], []⟩

def exampleReply : (i : Await) → Reply i
  | .cacheGet => none
  | .settingsRow _ (some _) => some none
  | .settingsRow _ none => some (some ⟨false, true, false⟩)
  | .check => true
  | .brokerReply => false
  | .io => ()

/-- A call from its first step to its end, `k` awaits later. -/
def callThrough (p : Path) (k : ℕ) : List (Action Effect Reply (ℕ × Path)) :=
  .start (0, p) :: List.replicate k (.resume 0 exampleReply)

/-- A live order goes through the execution manager with no halt engaged. -/
theorem no_order_sent_under_halt_place : ∃ es P, system.Life .crash ⟨exampleTrading, []⟩ es P ∧
    es.length = 4 ∧ Legal Trading.apply HaltRespected exampleTrading es := by
  obtain ⟨es, P, hrun, hlen, hcareful⟩ := System.exists_run system ⟨exampleTrading, []⟩
    (callThrough (.place ⟨"u1", false⟩) 7)
    (p := fun es _ => es.length = 4 ∧ Legal Trading.apply Careful exampleTrading es)
    (by decide)
  exact ⟨es, P, hrun.life, hlen, no_order_sent_under_halt rfl hrun.life hcareful⟩

/-- An order of a user with an emergency stop goes out through the gate. -/
theorem order_sent_under_emergency_stop :
    ¬ ∀ (s₀ : Trading) (es : List Effect) (P : Pool Trading Effect Reply (Option ℕ)),
      s₀.cleared = [] → system.Life .crash ⟨s₀, []⟩ es P →
        Legal Trading.apply HaltRespected s₀ es := by
  intro hall
  obtain ⟨es, P, hrun, hbad⟩ := System.exists_run system ⟨exampleTrading, []⟩
    ([.env (.halt (.triggerEmergencyStop "u1"))] ++ callThrough (.gate ⟨"u1", false⟩ none) 5 ++
      callThrough .omsWorker 9)
    (p := fun es _ => ¬ Legal Trading.apply HaltRespected exampleTrading es) (by decide)
  exact hbad (hall _ _ _ rfl hrun.life)

end Trademetrix.Risk
