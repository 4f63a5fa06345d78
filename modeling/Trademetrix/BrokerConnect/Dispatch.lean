import Trademetrix.BrokerConnect.FanOut
import Mathlib.Data.List.Nodup

/-!
# A signal is placed once for a user

Redis grants a claim to one task. So however the calls of `dispatch_signal`
interleave, a signal is placed at most once for a user, and not at all by a call
or a task that finds a switch tripped.
-/

namespace Trademetrix.BrokerConnect

open Async

variable {eng : ExecutionEngine} {s s₀ : Exec} {e : ExecEffect} {es : List ExecEffect} {p q : Party}
  {n : ℕ}

theorem key_claim_ne (signalId userId : String) (u : Option String) :
    (Request.claim signalId userId).key ≠ (Request.killed u).key := by
  have hclaim : (Request.claim signalId userId).key.toList[5]? = some 'i' := by
    change ("exec:idem:" ++ signalId ++ ":" ++ userId).toList[5]? = some 'i'
    simp [String.toList_append]
  have hkilled : (Request.killed u).key.toList[5]? = some 'k' := by
    cases u with
    | none => rfl
    | some user =>
      change ("exec:kill:user:" ++ user).toList[5]? = some 'k'
      simp [String.toList_append]
  intro h
  rw [h, hkilled] at hclaim
  cases hclaim

structure Guarded (s : Exec) : Prop where
  once : ∀ p, ((s.lines p).log.map Prod.fst ++ (s.lines p).asked.toList).Nodup
  held : ∀ p i u, (.claim i u, true) ∈ (s.lines p).log → (Request.claim i u).key ∈ s.keys
  claimant : ∀ p q i u j v, (.claim i u, true) ∈ (s.lines p).log →
    (.claim j v, true) ∈ (s.lines q).log → (Request.claim i u).key = (Request.claim j v).key → p = q
  gathered : ∀ n, (s.created n).isSome = true → (.killed none, false) ∈ (s.lines (.dispatch n)).log
  passed : ∀ o ∈ s.orders, Passed s o
  apart : s.orders.Pairwise fun o o' => o.task ≠ o'.task

namespace Guarded

theorem of_frame {t : Exec} (h : Guarded s) (hlines : t.lines = s.lines)
    (hkeys : ∀ p i u, (.claim i u, true) ∈ (s.lines p).log → (Request.claim i u).key ∈ t.keys)
    (hcreated : t.created = s.created) (horders : t.orders = s.orders) : Guarded t := by
  obtain ⟨h₁, -, h₃, h₄, h₅, h₆⟩ := h
  refine ⟨by rwa [hlines], by rwa [hlines], by rwa [hlines], by rwa [hlines, hcreated], ?_,
    by rwa [horders]⟩
  intro o ho
  rw [horders] at ho
  unfold Passed Created
  rw [hlines, hcreated]
  exact h₅ o ho

theorem serve (h : Guarded s) (p : Party) : Guarded (s.serve p) := by
  rcases s.serve_cases p with ⟨-, hs⟩ | ⟨r, a, keys, hasked, hs, hkilled, hclaim⟩
  · rw [hs]
    exact h
  have hself : (s.serve p).lines p = ⟨none, (s.lines p).log ++ [(r, a)]⟩ := by
    rw [hs]
    exact Function.update_self _ _ _
  have hother : ∀ q, q ≠ p → (s.serve p).lines q = s.lines q := by
    intro q hq
    rw [hs]
    exact Function.update_of_ne hq _ _
  have hkeys : ∀ k ∈ s.keys, k ∈ (s.serve p).keys := by
    intro k hk
    rw [hs]
    cases r with
    | killed u =>
      change k ∈ keys
      rw [(hkilled u rfl).2]
      exact hk
    | claim i u => exact (hclaim i u rfl).2.2 k hk
  have hmem : ∀ q i u, (.claim i u, true) ∈ ((s.serve p).lines q).log →
      (.claim i u, true) ∈ (s.lines q).log ∨
        q = p ∧ r = .claim i u ∧ (Request.claim i u).key ∉ s.keys := by
    intro q i u hq
    by_cases hqp : q = p
    · subst hqp
      rw [hself] at hq
      rcases List.mem_append.mp hq with hq | hq
      · exact .inl hq
      · obtain ⟨hr, ha⟩ := Prod.mk.injEq _ _ _ _ ▸ List.mem_singleton.mp hq
        subst hr
        exact .inr ⟨rfl, rfl, (hclaim i u rfl).1.mp ha.symm⟩
    · rw [hother q hqp] at hq
      exact .inl hq
  have hgrows : ∀ q x, x ∈ (s.lines q).log → x ∈ ((s.serve p).lines q).log := by
    intro q x hx
    by_cases hqp : q = p
    · subst hqp
      rw [hself]
      exact List.mem_append_left _ hx
    · rwa [hother q hqp]
  refine ⟨?_, ?_, ?_, ?_, ?_, by rw [hs]; exact h.apart⟩
  · intro q
    by_cases hqp : q = p
    · subst hqp
      have honce := h.once q
      rw [hself]
      rw [hasked] at honce
      simpa using honce
    · rw [hother q hqp]
      exact h.once q
  · intro q i u hq
    rcases hmem q i u hq with hold | ⟨-, rfl, -⟩
    · exact hkeys _ (h.held q i u hold)
    · rw [hs]
      exact (hclaim i u rfl).2.1
  · intro q q' i u j v hq hq' hkey
    rcases hmem q i u hq with hold | ⟨rfl, -, hnew⟩
    · rcases hmem q' j v hq' with hold' | ⟨rfl, -, hnew'⟩
      · exact h.claimant q q' i u j v hold hold' hkey
      · exact absurd (hkey ▸ h.held q i u hold) hnew'
    · rcases hmem q' j v hq' with hold' | ⟨rfl, -, -⟩
      · exact absurd (hkey ▸ h.held q' j v hold') hnew
      · rfl
  · intro n hn
    refine hgrows _ _ (h.gathered n ?_)
    rw [hs] at hn
    exact hn
  · intro o ho
    have ho' : o ∈ s.orders := by
      rw [hs] at ho
      exact ho
    obtain ⟨hline, hmine⟩ := h.passed o ho'
    have hne : Party.task o.task ≠ p := by
      rintro rfl
      rw [hline] at hasked
      cases hasked
    refine ⟨(hother _ hne).trans hline, ?_⟩
    rw [hs]
    exact hmine

theorem sends {r : Request} (h : Guarded s) (hf : ExecFacts s (.sends p r)) :
    Guarded (Exec.apply (.sends p r) s) := by
  obtain ⟨hasked, hnew, horders⟩ := hf
  have hlog : ∀ q, ((Exec.apply (.sends p r) s).lines q).log = (s.lines q).log := by
    intro q
    by_cases hqp : q = p
    · subst hqp
      rw [Exec.apply, Exec.onLine_self]
    · exact congrArg Line.log (Function.update_of_ne hqp _ _)
  refine ⟨?_, ?_, ?_, ?_, ?_, h.apart⟩
  · intro q
    by_cases hqp : q = p
    · subst hqp
      have honce := h.once q
      rw [hasked, Option.toList_none, List.append_nil] at honce
      rw [hlog, Exec.apply, Exec.onLine_self]
      exact honce.append (List.nodup_singleton r) (by simpa using hnew)
    · rw [show (Exec.apply (.sends p r) s).lines q = s.lines q from Function.update_of_ne hqp _ _]
      exact h.once q
  · intro q i u
    rw [hlog]
    exact h.held q i u
  · intro q q' i u j v
    rw [hlog, hlog]
    exact h.claimant q q' i u j v
  · intro n
    rw [hlog]
    exact h.gathered n
  · intro o ho
    obtain ⟨hline, hmine⟩ := h.passed o ho
    exact ⟨(Function.update_of_ne (horders o ho) _ _).trans hline, hmine⟩

theorem step (h : Guarded s) (hf : ExecFacts s e) : Guarded (Exec.apply e s) := by
  cases e with
  | sends p r => exact h.sends hf
  | serves p => exact h.serve p
  | trips u => exact h.of_frame rfl (fun p i u hp => List.mem_cons_of_mem _ (h.held p i u hp)) rfl rfl
  | resets u =>
    refine h.of_frame rfl (fun p i v hp => ?_) rfl rfl
    exact List.mem_filter.mpr ⟨h.held p i v hp, by simpa using key_claim_ne i v u⟩
  | gathers n signal subs =>
    refine ⟨h.once, h.held, h.claimant, ?_, ?_, h.apart⟩
    · intro m hm
      by_cases hmn : m = n
      · rw [hmn]
        exact hf.2
      · exact h.gathered m (by rwa [show (Exec.apply (.gathers n signal subs) s).created m =
          s.created m from Function.update_of_ne hmn _ _] at hm)
    · intro o ho
      obtain ⟨hline, sub, sig, ⟨subs', hcreated, hsub⟩, hmine⟩ := h.passed o ho
      have hne : o.task.1 ≠ n := by
        rintro rfl
        rw [hf.1] at hcreated
        cases hcreated
      exact ⟨hline, sub, sig, ⟨subs', (Function.update_of_ne hne _ _).trans hcreated, hsub⟩, hmine⟩
  | places o =>
    refine ⟨h.once, h.held, h.claimant, h.gathered, ?_, ?_⟩
    · intro o' ho'
      rcases List.mem_append.mp ho' with ho' | ho'
      · exact h.passed o' ho'
      · rw [List.mem_singleton.mp ho']
        exact hf.2
    · refine List.pairwise_append.mpr ⟨h.apart, List.pairwise_singleton _ _, fun a ha b hb => ?_⟩
      rw [List.mem_singleton.mp hb]
      exact hf.1 a ha
  | calls _ _ | enters _ | marks _ _ _ _ | audits _ _ _ _ _ _ | records _ _ _ _ _ | leaves _ _
  | returns _ _ | books _ => exact h.of_frame rfl h.held rfl rfl

theorem nodup (h : Guarded s) : (s.orders.map fun o => (o.signalId, o.intent.userId)).Nodup := by
  refine List.Pairwise.map _ ?_ (h.apart.imp_of_mem fun ho ho' hne => (⟨ho, ho', hne⟩ : _ ∧ _ ∧ _))
  rintro o o' ⟨ho, ho', hne⟩ heq
  obtain ⟨hid, huser⟩ := Prod.mk.injEq _ _ _ _ ▸ heq
  have hclaim : ∀ o ∈ s.orders,
      (.claim o.signalId o.intent.userId, true) ∈ (s.lines (.task o.task)).log := by
    intro o ho
    rw [(h.passed o ho).1]
    simp
  have hsame := h.claimant _ _ _ _ _ _ (hclaim o ho) (hclaim o' ho') (by rw [hid, huser])
  exact hne (by simpa [Party.task, Prod.ext_iff] using hsame)

end Guarded

def FoundTripped (s₀ : Exec) (es : List ExecEffect) (p : Party) (u : Option String) : Prop :=
  ∃ before after, es = before ++ .serves p :: after ∧
    ((replay Exec.apply s₀ before).lines p).asked = some (.killed u) ∧
      (Request.killed u).key ∈ (replay Exec.apply s₀ before).keys

theorem mem_log_apply {x : Request × Bool} (h : x ∈ (s.lines p).log) (e : ExecEffect) :
    x ∈ ((Exec.apply e s).lines p).log := by
  cases e with
  | sends q r =>
    by_cases hqp : p = q
    · subst hqp
      rw [Exec.apply, Exec.onLine_self]
      exact h
    · rwa [show (Exec.apply (.sends q r) s).lines p = s.lines p from Function.update_of_ne hqp _ _]
  | serves q =>
    rcases s.serve_cases q with ⟨-, hs⟩ | ⟨r, a, keys, -, hs, -⟩
    · rwa [Exec.apply, hs]
    · rw [Exec.apply, hs]
      by_cases hqp : p = q
      · subst hqp
        simp only [Exec.onLine_self]
        exact List.mem_append_left _ h
      · change x ∈ (Function.update s.lines q _ p).log
        rwa [Function.update_of_ne hqp]
  | calls _ _ | gathers _ _ _ | enters _ | marks _ _ _ _ | places _ | audits _ _ _ _ _ _
  | records _ _ _ _ _ | leaves _ _ | returns _ _ | trips _ | resets _ | books _ => exact h

theorem mem_log_replay {x : Request × Bool} (h : x ∈ (s.lines p).log) (es : List ExecEffect) :
    x ∈ ((replay Exec.apply s es).lines p).log := by
  induction es generalizing s with
  | nil => exact h
  | cons e es ih => exact ih (mem_log_apply h e)

theorem FoundTripped.mem_log {u : Option String} (h : FoundTripped s₀ es p u) :
    (.killed u, true) ∈ ((replay Exec.apply s₀ es).lines p).log := by
  obtain ⟨before, after, rfl, hasked, hkey⟩ := h
  rw [replay_append, replay_cons]
  refine mem_log_replay ?_ after
  rcases (replay Exec.apply s₀ before).serve_cases p with ⟨hnone, -⟩ | ⟨r, a, keys, hr, hs, hkilled, -⟩
  · rw [hnone] at hasked
    cases hasked
  · cases hr.symm.trans hasked
    rw [Exec.apply, hs]
    simp [(hkilled u rfl).1.mpr hkey]

theorem FoundTripped.of_mem_log {u : Option String} (hs₀ : (s₀.lines p).log = [])
    (h : (.killed u, true) ∈ ((replay Exec.apply s₀ es).lines p).log) : FoundTripped s₀ es p u := by
  induction es using List.reverseRecOn with
  | nil =>
    rw [replay_nil, hs₀] at h
    cases h
  | append_singleton es e ih =>
    have hearlier : (.killed u, true) ∈ ((replay Exec.apply s₀ es).lines p).log →
        FoundTripped s₀ (es ++ [e]) p u := by
      intro hmem
      obtain ⟨before, after, rfl, hfound⟩ := ih hmem
      exact ⟨before, after ++ [e], by rw [List.append_assoc, List.cons_append], hfound⟩
    rw [replay_append, replay_cons, replay_nil] at h
    generalize hs : replay Exec.apply s₀ es = s at h hearlier
    cases e with
    | sends q r =>
      by_cases hqp : p = q
      · subst hqp
        rw [Exec.apply, Exec.onLine_self] at h
        exact hearlier h
      · rw [show (Exec.apply (.sends q r) s).lines p = s.lines p from
          Function.update_of_ne hqp _ _] at h
        exact hearlier h
    | serves q =>
      rcases s.serve_cases q with ⟨-, hq⟩ | ⟨r, a, keys, hr, hq, hkilled, -⟩
      · rw [Exec.apply, hq] at h
        exact hearlier h
      · rw [Exec.apply, hq] at h
        by_cases hqp : p = q
        · subst hqp
          simp only [Exec.onLine_self] at h
          rcases List.mem_append.mp h with h | h
          · exact hearlier h
          · obtain ⟨rfl, rfl⟩ := Prod.mk.injEq _ _ _ _ ▸ List.mem_singleton.mp h
            exact ⟨es, [], rfl, by rw [hs, hr], by rw [hs]; exact (hkilled u rfl).1.mp rfl⟩
        · change _ ∈ (Function.update s.lines q _ p).log at h
          rw [Function.update_of_ne hqp] at h
          exact hearlier h
    | calls _ _ | gathers _ _ _ | enters _ | marks _ _ _ _ | places _ | audits _ _ _ _ _ _
    | records _ _ _ _ _ | leaves _ _ | returns _ _ | trips _ | resets _ | books _ => exact hearlier h

structure DispatchLaw (eng : ExecutionEngine) (s₀ : Exec) (es : List ExecEffect)
    (P : Pool Exec ExecEffect ExecReply Party) : Prop where
  /-- A signal is placed at most once for a user. -/
  once : (P.state.orders.map fun o => (o.signalId, o.intent.userId)).Nodup
  /-- An order is the one of its task's subscriber, on the signal of the call. -/
  owner : ∀ o ∈ P.state.orders, ∃ sub signal, Created o.task sub signal P.state ∧
    o.signalId = signal.signalId ∧ o.intent.userId = sub.userId
  /-- A task that finds its user's switch tripped places no order. -/
  userKilled : ∀ o ∈ P.state.orders, ∀ u, ¬FoundTripped s₀ es (.task o.task) u
  /-- No task of a call that finds the global switch tripped places an order. -/
  globalKilled : ∀ o ∈ P.state.orders, ¬FoundTripped s₀ es (.dispatch o.task.1) none
  /-- The counters of a batch that was not killed add up to the subscribers, and its results
  are those of their tasks. -/
  tallied : ∀ before n batch after, es = before ++ .returns n batch :: after →
    FoundTripped s₀ before (.dispatch n) none ∨ Tallied (replay Exec.apply s₀ before) n batch
  /-- Whatever a task is answered, an exception too, the other tasks go on as they were, and
  the results of other users stay. -/
  isolated : ∀ k answer fs P' t, (system eng).step P (.resume k answer) = some (fs, P') →
    P.tasks[k]? = some t →
      (∃ rest, P'.tasks = P.tasks.take k ++ (rest ++ P.tasks.drop (k + 1)) ∧ rest.length ≤ 1) ∧
        ∀ c, .task c ≠ t.tag → P'.state.outcomes c = P.state.outcomes c

theorem resume_isolated {P P' : Pool Exec ExecEffect ExecReply Party} {k : ℕ}
    {answer : (i : ExecPoint) → ExecReply i} {t : Task Exec ExecEffect ExecReply Party}
    (hP : execContract.Holds (system eng) P)
    (h : (system eng).step P (.resume k answer) = some (es, P')) (ht : P.tasks[k]? = some t) :
    (∃ rest, P'.tasks = P.tasks.take k ++ (rest ++ P.tasks.drop (k + 1)) ∧ rest.length ≤ 1) ∧
      ∀ c, .task c ≠ t.tag → P'.state.outcomes c = P.state.outcomes c := by
  have hdrop := (List.getElem?_eq_some_iff.mp ht).elim fun hk heq =>
    heq ▸ List.drop_eq_getElem_cons hk
  simp only [System.step, hdrop] at h
  split at h
  next tag i code suf heq =>
    cases heq
    split at h
    next hready =>
      have hmem : (⟨tag, .await i code⟩ : Task Exec ExecEffect ExecReply Party) ∈ P.tasks :=
        List.mem_of_getElem? ht
      have hkeeps := hP.keeps _ hmem P.state (.refl _ _) (answer i) hready
      obtain ⟨hlegal, -⟩ := Proc.Within.advance hkeeps
      cases h
      refine ⟨⟨_, rfl, ?_⟩, fun c hc => ?_⟩
      · unfold Task.settle
        split <;> simp
      · have hrely : Leaves (.task c) P.state _ :=
          (execContract_sound eng).relies (fun heq => absurd heq hc) hlegal
        rw [← Proc.advance_state] at hrely
        exact hrely.own.2.1
    next => cases h
  next => cases h

theorem dispatch_law {keys : List String} {books : Books} {P : Pool Exec ExecEffect ExecReply Party}
    (h : (system eng).Run (unopened keys books) es P) :
    DispatchLaw eng { keys := keys, books := books } es P := by
  obtain ⟨hlegal, hholds⟩ := facts_of_run h
  have hstate := System.Run.state h
  have hstart : Guarded { keys := keys, books := books } := by
    refine ⟨fun _ => List.nodup_nil, ?_, ?_, ?_, ?_, .nil⟩
    · exact fun p i u hp => absurd hp List.not_mem_nil
    · exact fun p q i u j v hp => absurd hp List.not_mem_nil
    · exact fun n hn => by cases hn
    · exact fun o ho => absurd ho List.not_mem_nil
  have hguarded : Guarded P.state := by
    rw [hstate]
    exact hlegal.invariant (fun s e hs he => hs.step he) hstart
  have hanswers : ∀ p r, (r, true) ∈ (P.state.lines p).log → (r, false) ∉ (P.state.lines p).log := by
    intro p r htrue hfalse
    have honce := (List.nodup_append.mp (hguarded.once p)).1
    have hpair := List.inj_on_of_nodup_map honce htrue hfalse rfl
    cases hpair
  refine ⟨hguarded.nodup, fun o ho => (hguarded.passed o ho).2, ?_, ?_, ?_, ?_⟩
  · intro o ho u hfound
    have hmem := hfound.mem_log
    change _ ∈ ((replay (system eng).apply (unopened keys books).state es).lines _).log at hmem
    rw [← hstate, (hguarded.passed o ho).1] at hmem
    simp at hmem
  · intro o ho hfound
    have hmem := hfound.mem_log
    change _ ∈ ((replay (system eng).apply (unopened keys books).state es).lines _).log at hmem
    rw [← hstate] at hmem
    obtain ⟨-, sub, signal, ⟨subs, hcreated, -⟩, -⟩ := hguarded.passed o ho
    refine hanswers _ _ hmem (hguarded.gathered _ ?_)
    rw [hcreated]
    rfl
  · rintro before n batch after rfl
    rcases hlegal.at with hmem | htallied
    · exact .inl (.of_mem_log rfl hmem)
    · exact .inr htallied
  · exact fun k answer fs P' t hstep ht => resume_isolated hholds hstep ht

/-- What is answered in the run below: Redis `b`, the gather `results`. -/
def fanReply (b : Bool) (results : List (Except String ExecutionResult) := []) :
    (i : ExecPoint) → ExecReply i
  | .answer _ => (.ok b : Except String Bool)
  | .liveSubscribers _ => (.ok [⟨"u1", "fyers", none⟩, ⟨"u2", "dhan", none⟩] : Except String _)
  | .gather _ => results
  | .slot _ _ _ => ()
  | .profile userId => (.ok { userId := userId, capital := 100000 } : Except String _)
  | .risk _ _ => (.ok (true, none) : Except String _)
  | .post _ _ => (.error "timeout" : Except String _)
  | .notify _ _ _ => (.ok () : Except String Unit)

/-- Two deliveries of one signal run side by side: the order of `u1` is placed by the one that
gets the claim, and `u2`, whose switch is tripped, has none. -/
theorem dispatch_law_twice :
    let eng : ExecutionEngine :=
      { size := fun p s => .ok (capitalFractionSize p s), fromisoformat := fun _ => some 9 }
    let books : Books :=
      { getDecryptedToken := fun _ _ => .ok (some ⟨"t", some "2026-01-05", "connected"⟩), now := 5 }
    let keys := ["exec:kill:user:u2"]
    ∃ es P, (system eng).Run (unopened keys books) es P ∧
      (P.state.orders.map (fun o => (o.task, o.intent.userId, o.intent.qty)) = [((0, 0), "u1", 10)] ∧
        P.tasks.length = 1) ∧
        DispatchLaw eng { keys := keys, books := books } es P := by
  intro eng books keys
  let signal : Signal :=
    { signalId := "s1", strategyId := "m", symbol := "NIFTY", side := .buy, refPrice := 100 }
  let placed : ExecutionResult := ⟨"u1", "fyers", .placed, some "PAPER-", 10, some "paper_fill"⟩
  let killed : ExecutionResult := ⟨"u2", "dhan", .skippedKilled, none, 0, some "user_killswitch"⟩
  have hrun := System.exists_run (system eng) (unopened keys books)
    (p := fun _ P => P.state.orders.map (fun o => (o.task, o.intent.userId, o.intent.qty)) =
      [((0, 0), "u1", 10)] ∧ P.tasks.length = 1)
    [.start (.dispatchSignal 0 signal), .env (.serves (.dispatch 0)), .resume 0 (fanReply false),
      .start (.dispatchSignal 1 signal), .env (.serves (.dispatch 1)), .resume 1 (fanReply false),
      .resume 0 (fanReply false), .resume 1 (fanReply false),
      .start (.guarded (0, 0) ⟨"u1", "fyers", none⟩ signal),
      .start (.guarded (1, 0) ⟨"u1", "fyers", none⟩ signal),
      .start (.guarded (0, 1) ⟨"u2", "dhan", none⟩ signal),
      .resume 2 (fanReply false), .resume 3 (fanReply false), .resume 4 (fanReply false),
      .env (.serves (.user 0 0)), .env (.serves (.user 1 0)), .env (.serves (.user 0 1)),
      .resume 2 (fanReply false), .resume 3 (fanReply false), .resume 4 (fanReply true),
      .env (.serves (.user 0 0)), .env (.serves (.user 1 0)),
      .resume 3 (fanReply false), .resume 2 (fanReply true), .resume 2 (fanReply true),
      .resume 2 (fanReply true), .resume 2 (fanReply true),
      .resume 0 (fanReply true [.ok placed, .ok killed])]
    (by decide +kernel)
  obtain ⟨es, P, hrun, hp⟩ := hrun
  exact ⟨es, P, hrun, hp, dispatch_law hrun⟩

end Trademetrix.BrokerConnect
