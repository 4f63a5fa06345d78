import Trademetrix.Brokers.Transport

/-!
# The calls in flight

Deduplicated calls under one key are to have one wire request at a time between
them. A caller of which the leader failed leads itself without another look at the
calls in flight, and a leader that ends pops whatever entry there is; a cancelled
leader passes its `CancelledError` on. Where no caller wakes to either, the entries
are those of the leaders.
-/

namespace Trademetrix.Brokers

def Call.leads (cfg : TransportConfig) (call : Call) : Option String :=
  if call.request.dedup ∧ call.stage.leading then some (cacheKey cfg call.request) else none

namespace Transport

variable (cfg : TransportConfig) (s : Transport)

def opened (token : Token) (now : ℚ) : Transport := { token, now }

def leads (c : ℕ) : Option String := (s.calls[c]?).bind (Call.leads cfg)

def OnWire (k : String) (c : ℕ) : Prop :=
  ∃ call ∈ s.calls[c]?, call.request.dedup = true ∧ cacheKey cfg call.request = k ∧ call.stage = .onWire

def Raised (c : ℕ) (f : Failure) : Prop := ∃ call ∈ s.calls[c]?, call.stage = .raised f

end Transport

variable (cfg : TransportConfig) (s : Transport) (e : Event)

/-- After the step there is one wire request to a key; the calls it made fail failed by their own
request or their own cancellation; and the entries it removed were those of the call whose turn it was. -/
structure Isolated : Prop where
  oneWire : ∀ k c d, (step cfg s e).OnWire cfg k c → (step cfg s e).OnWire cfg k d → c = d
  failed : ∀ c f, (step cfg s e).Raised c f → s.Raised c f ∨ e.Raises c f
  removed : ∀ k owner, s.inflight.get k = some owner →
    (step cfg s e).inflight.get k ≠ some owner → e.call = some owner

/-- No call wakes to a cancelled leader, and none to a leader that failed while another is in flight
under the key. -/
def Clear : Event → Prop
  | .wake c => ∀ call ∈ s.calls[c]?, ∀ owner, call.stage = .following owner →
    s.future owner ≠ some (.error .cancelled) ∧
      ∀ message, s.future owner = some (.error (.error message)) →
        s.inflight.get (cacheKey cfg call.request) = none
  | _ => True

structure Registered : Prop where
  entry : ∀ k c, s.inflight.get k = some c ↔ s.leads cfg c = some k
  dedup : ∀ (c : ℕ), ∀ call ∈ s.calls[c]?, ∀ owner, call.stage = .following owner → call.request.dedup = true

variable {cfg s e} {s' : Transport} {c d : ℕ} {call call' : Call} {k : String}

section Leads

theorem Call.leads_of_not_leading (h : call.stage.leading = false) : call.leads cfg = none := by
  simp [leads, h]

theorem Call.leads_of_leading (h : call.stage.leading = true) :
    call.leads cfg = if call.request.dedup then some (cacheKey cfg call.request) else none := by
  simp [leads, h]

theorem leads_puts (h : Puts s.calls c call s'.calls) (d : ℕ) :
    s'.leads cfg d = if d = c then call.leads cfg else s.leads cfg d :=
  h.bind_eq (Call.leads cfg) d

theorem leads_eq (hcall : s.calls[c]? = some call) : s.leads cfg c = call.leads cfg := by
  rw [Transport.leads, hcall, Option.bind_some]

theorem leads_of_following {owner : ℕ} (hcall : s.calls[c]? = some call)
    (hstage : call.stage = .following owner) : s.leads cfg c = none := by
  rw [leads_eq hcall, Call.leads_of_not_leading (by rw [hstage]; rfl)]

theorem leads_length : s.leads cfg s.calls.length = none := by
  rw [Transport.leads, List.getElem?_eq_none (Nat.le_refl _), Option.bind_none]

theorem leads_puts_same (h : Puts s.calls c call s'.calls) (hsame : call.leads cfg = s.leads cfg c) :
    s'.leads cfg = s.leads cfg :=
  funext fun d => h.bind_same hsame d

theorem get_register (c : ℕ) (r : Request) (k : String) :
    (s.register cfg c r).inflight.get k =
      if r.dedup ∧ k = cacheKey cfg r then some c else s.inflight.get k := by
  unfold Transport.register
  by_cases hdedup : r.dedup = true
  · rw [if_pos hdedup]
    simp [Dict.get_set, hdedup]
  · rw [if_neg hdedup, if_neg fun h => hdedup h.1]

theorem get_settle (c : ℕ) (call : Call) (stage : Stage) (k : String) :
    (s.settle cfg c call stage).inflight.get k =
      if call.request.dedup ∧ k = cacheKey cfg call.request then none else s.inflight.get k := by
  unfold Transport.settle
  dsimp only
  by_cases hdedup : call.request.dedup = true
  · rw [if_pos hdedup]
    simp [Dict.get_pop, hdedup]
  · rw [if_neg hdedup, if_neg fun h => hdedup h.1]

theorem joined_eq (r : Request) (hjoined : s.joined cfg r = none) (hdedup : r.dedup = true) :
    s.inflight.get (cacheKey cfg r) = none := by
  rwa [Transport.joined, if_pos hdedup] at hjoined

end Leads

namespace Registered

theorem dedup_puts (h : Registered cfg s) (hputs : Puts s.calls c call s'.calls)
    (hnew : ∀ owner, call.stage = .following owner → call.request.dedup = true) :
    ∀ (d : ℕ), ∀ call ∈ s'.calls[d]?, ∀ owner, call.stage = .following owner → call.request.dedup = true :=
  hputs.forall_mem (P := fun _ call => ∀ owner, call.stage = .following owner → call.request.dedup = true)
    hnew h.dedup

theorem puts_same (h : Registered cfg s) (hputs : Puts s.calls c call s'.calls) (hsame : call.leads cfg = s.leads cfg c)
    (hinflight : s'.inflight = s.inflight)
    (hnew : ∀ owner, call.stage = .following owner → call.request.dedup = true) : Registered cfg s' where
  entry k d := by rw [hinflight, leads_puts_same hputs hsame, h.entry]
  dedup := h.dedup_puts hputs hnew

theorem puts_idle (h : Registered cfg s) (hputs : Puts s.calls c call s'.calls) (hbefore : s.leads cfg c = none)
    (hidle : call.stage.leading = false) (hinflight : s'.inflight = s.inflight)
    (hnew : ∀ owner, call.stage = .following owner → call.request.dedup = true) : Registered cfg s' :=
  h.puts_same hputs ((Call.leads_of_not_leading hidle).trans hbefore.symm) hinflight hnew

theorem puts_lead (h : Registered cfg s) (hputs : Puts s.calls c call s'.calls) (hbefore : s.leads cfg c = none)
    (hstage : call.stage = .preparing)
    (hinflight : s'.inflight = (s.register cfg c call.request).inflight)
    (hfree : call.request.dedup = true → s.inflight.get (cacheKey cfg call.request) = none) :
    Registered cfg s' where
  entry k d := by
    have hleading : call.stage.leading = true := by rw [hstage]; rfl
    rw [hinflight, get_register, leads_puts hputs, call.leads_of_leading hleading]
    have hentry := h.entry k d
    by_cases hd : d = c
    · subst hd
      rw [if_pos rfl]
      rw [hbefore] at hentry
      grind
    · rw [if_neg hd]
      grind
  dedup := h.dedup_puts hputs fun owner howner => by
    rw [hstage] at howner
    cases howner

theorem puts_end (h : Registered cfg s) (hcall : s.calls[c]? = some call)
    (hleading : call.stage.leading = true) {stage : Stage} (hputs : Puts s.calls c { call with stage } s'.calls)
    (hended : stage.leading = false) (hnew : ∀ owner, stage ≠ .following owner)
    (hinflight : s'.inflight = (s.settle cfg c call stage).inflight) : Registered cfg s' where
  entry k d := by
    have hbefore : s.leads cfg c = _ := (leads_eq hcall).trans (call.leads_of_leading hleading)
    rw [hinflight, get_settle, leads_puts hputs, Call.leads_of_not_leading hended]
    have hentry := h.entry k d
    have howner := h.entry k c
    rw [hbefore] at howner
    by_cases hd : d = c
    · subst hd
      grind
    · rw [if_neg hd]
      grind
  dedup := h.dedup_puts hputs fun owner howner => absurd howner (hnew owner)

theorem kept (h : Registered cfg s) (hclear : Clear cfg s e) : Registered cfg (step cfg s e) := by
  cases step_effect cfg s e with
  | quiet hcalls hinflight =>
    refine ⟨fun k c => ?_, ?_⟩
    · rw [hinflight, Transport.leads, hcalls]
      exact h.entry k c
    · rw [hcalls]
      exact h.dedup
  | shares resp hcached hcalls hinflight =>
    exact h.puts_idle hcalls leads_length rfl hinflight fun _ => Stage.noConfusion
  | joins owner hcached hjoined hcalls hinflight =>
    refine h.puts_idle hcalls leads_length rfl hinflight fun _ _ => ?_
    by_contra hdedup
    rw [Transport.joined, if_neg hdedup] at hjoined
    cases hjoined
  | leads hcached hjoined hcalls hinflight =>
    exact h.puts_lead hcalls leads_length rfl hinflight (joined_eq _ hjoined)
  | follows hcall hstage hfuture hcalls hinflight =>
    exact h.puts_idle hcalls (leads_of_following hcall hstage) rfl hinflight fun _ => Stage.noConfusion
  | again hcall hstage hfuture hcalls hinflight =>
    exact h.puts_lead hcalls (leads_of_following hcall hstage) rfl hinflight
      fun _ => (hclear _ hcall _ hstage).2 _ hfuture
  | dragged hcall hstage hfuture hcalls hinflight =>
    exact absurd hfuture (hclear _ hcall _ hstage).1
  | leaves hcall hstage hcalls hinflight =>
    exact h.puts_idle hcalls (leads_of_following hcall hstage) rfl hinflight fun _ => Stage.noConfusion
  | moves attempt stage hcall hstage hnext hcalls hinflight =>
    refine h.puts_same hcalls ?_ hinflight fun owner howner => ?_
    · rw [leads_eq hcall, Call.leads_of_leading hnext, Call.leads_of_leading hstage]
    · dsimp only at howner
      rw [howner] at hnext
      cases hnext
  | returns resp hevent hcall hstage hresp hcalls hinflight =>
    exact h.puts_end hcall hstage hcalls rfl (fun _ => Stage.noConfusion) hinflight
  | fails f hevent hcall hstage hraises hcalls hinflight =>
    exact h.puts_end hcall hstage hcalls rfl (fun _ => Stage.noConfusion) hinflight

end Registered

section Isolation

theorem raised_puts (h : Puts s.calls c call s'.calls) (d : ℕ) (f : Failure) :
    s'.Raised d f ↔ if d = c then call.stage = .raised f else s.Raised d f := by
  unfold Transport.Raised
  rw [h d]
  split
  · simp
  · rfl

theorem raised_of_puts (hputs : Puts s.calls c call s'.calls) (hnot : ∀ f, call.stage ≠ .raised f) {f : Failure}
    (hraised : s'.Raised d f) : s.Raised d f := by
  rw [raised_puts hputs] at hraised
  split at hraised
  · exact absurd hraised (hnot f)
  · exact hraised

theorem failed_of_clear (hclear : Clear cfg s e) {f : Failure} (hraised : (step cfg s e).Raised d f) :
    s.Raised d f ∨ e.Raises d f := by
  cases step_effect cfg s e with
  | quiet hcalls hinflight =>
    left
    rwa [Transport.Raised, hcalls] at hraised
  | shares resp hcached hcalls hinflight =>
    exact Or.inl (raised_of_puts hcalls (fun _ => Stage.noConfusion) hraised)
  | joins owner hcached hjoined hcalls hinflight =>
    exact Or.inl (raised_of_puts hcalls (fun _ => Stage.noConfusion) hraised)
  | leads hcached hjoined hcalls hinflight =>
    exact Or.inl (raised_of_puts hcalls (fun _ => Stage.noConfusion) hraised)
  | follows hcall hstage hfuture hcalls hinflight =>
    exact Or.inl (raised_of_puts hcalls (fun _ => Stage.noConfusion) hraised)
  | again hcall hstage hfuture hcalls hinflight =>
    exact Or.inl (raised_of_puts hcalls (fun _ => Stage.noConfusion) hraised)
  | dragged hcall hstage hfuture hcalls hinflight =>
    exact absurd hfuture (hclear _ hcall _ hstage).1
  | leaves hcall hstage hcalls hinflight =>
    rw [raised_puts hcalls] at hraised
    split at hraised
    · next hd => exact Or.inr ⟨hd.symm, (Stage.raised.inj hraised).symm⟩
    · exact Or.inl hraised
  | moves attempt stage hcall hstage hnext hcalls hinflight =>
    refine Or.inl (raised_of_puts hcalls (fun f hf => ?_) hraised)
    dsimp only at hf
    rw [hf] at hnext
    cases hnext
  | returns resp hevent hcall hstage hresp hcalls hinflight =>
    exact Or.inl (raised_of_puts hcalls (fun _ => Stage.noConfusion) hraised)
  | fails f' hevent hcall hstage hraises hcalls hinflight =>
    rw [raised_puts hcalls] at hraised
    split at hraised
    · next hd =>
      rw [hd, ← Stage.raised.inj hraised]
      exact Or.inr hraises
    · exact Or.inl hraised

theorem get_register_of_free {r : Request} {owner : ℕ}
    (hfree : r.dedup = true → s.inflight.get (cacheKey cfg r) = none) (howner : s.inflight.get k = some owner) :
    (s.register cfg c r).inflight.get k = some owner := by
  rw [get_register, if_neg, howner]
  rintro ⟨hdedup, rfl⟩
  rw [hfree hdedup] at howner
  cases howner

theorem Registered.owner_eq (h : Registered cfg s) (hcall : s.calls[c]? = some call)
    (hleading : call.stage.leading = true) {stage : Stage} {owner : ℕ} (howner : s.inflight.get k = some owner)
    (hgone : (s.settle cfg c call stage).inflight.get k ≠ some owner) : c = owner := by
  rw [get_settle] at hgone
  split at hgone
  · next hkey =>
    have hlead : s.leads cfg c = some k := by
      rw [leads_eq hcall, Call.leads_of_leading hleading, if_pos hkey.1, hkey.2]
    rw [← h.entry, howner] at hlead
    exact (Option.some.inj hlead).symm
  · exact absurd howner hgone

theorem Registered.removed (h : Registered cfg s) (hclear : Clear cfg s e) {owner : ℕ}
    (howner : s.inflight.get k = some owner) (hgone : (step cfg s e).inflight.get k ≠ some owner) :
    e.call = some owner := by
  cases step_effect cfg s e with
  | quiet hcalls hinflight => exact absurd (hinflight ▸ howner) hgone
  | shares resp hcached hcalls hinflight => exact absurd (hinflight ▸ howner) hgone
  | joins owner hcached hjoined hcalls hinflight => exact absurd (hinflight ▸ howner) hgone
  | leads hcached hjoined hcalls hinflight =>
    rw [hinflight] at hgone
    exact absurd (get_register_of_free (joined_eq _ hjoined) howner) hgone
  | follows hcall hstage hfuture hcalls hinflight => exact absurd (hinflight ▸ howner) hgone
  | again hcall hstage hfuture hcalls hinflight =>
    rw [hinflight] at hgone
    exact absurd (get_register_of_free (fun _ => (hclear _ hcall _ hstage).2 _ hfuture) howner) hgone
  | dragged hcall hstage hfuture hcalls hinflight => exact absurd (hinflight ▸ howner) hgone
  | leaves hcall hstage hcalls hinflight => exact absurd (hinflight ▸ howner) hgone
  | moves attempt stage hcall hstage hnext hcalls hinflight => exact absurd (hinflight ▸ howner) hgone
  | returns resp hevent hcall hstage hresp hcalls hinflight =>
    rw [hinflight] at hgone
    rw [hevent, h.owner_eq hcall hstage howner hgone]
  | fails f hevent hcall hstage hraises hcalls hinflight =>
    rw [hinflight] at hgone
    rw [hevent, h.owner_eq hcall hstage howner hgone]

theorem Registered.oneWire (h : Registered cfg s) (hc : s.OnWire cfg k c) (hd : s.OnWire cfg k d) : c = d := by
  have hentry : ∀ {c}, s.OnWire cfg k c → s.inflight.get k = some c := by
    rintro c ⟨call, hcall, hdedup, hkey, hstage⟩
    rw [h.entry, leads_eq hcall, Call.leads_of_leading (by rw [hstage]; rfl), if_pos hdedup, hkey]
  have hsame := (hentry hc).symm.trans (hentry hd)
  exact Option.some.inj hsame

theorem step_wake {owner : ℕ} (hcall : s.calls[c]? = some call) (hstage : call.stage = .following owner) :
    step cfg s (.wake c) = s.wake cfg c call owner := by
  simp [step, Event.call, hcall, Transport.turn, hstage]

theorem Isolated.clear (h : Isolated cfg s e) (hregistered : Registered cfg s) : Clear cfg s e := by
  cases e with
  | wake c =>
    intro call hcall owner hstage
    have hstep : step cfg s (.wake c) = s.wake cfg c call owner := step_wake hcall hstage
    refine ⟨fun hfuture => ?_, fun message hfuture => ?_⟩
    · have hputs : Puts s.calls c { call with stage := .raised .cancelled } (step cfg s (.wake c)).calls := by
        rw [hstep, Transport.wake, hfuture]
        exact puts_set hcall _
      obtain ⟨call', hcall', hraised⟩ | hraises :=
        h.failed c .cancelled ((raised_puts hputs c .cancelled).mpr (by rw [if_pos rfl]))
      · rw [hcall] at hcall'
        rw [← Option.some.inj hcall', hstage] at hraised
        cases hraised
      · exact hraises
    · by_contra hentry
      obtain ⟨other, hother⟩ := Option.ne_none_iff_exists'.mp hentry
      have hdedup := hregistered.dedup c call hcall owner hstage
      have hget : (step cfg s (.wake c)).inflight.get (cacheKey cfg call.request) = some c := by
        have hinflight : (step cfg s (.wake c)).inflight = (s.register cfg c call.request).inflight := by
          rw [hstep, Transport.wake, hfuture]
          rfl
        rw [hinflight, get_register, if_pos ⟨hdedup, rfl⟩]
      have hlead := (hregistered.entry _ other).mp hother
      have hne : c ≠ other := by
        rintro rfl
        rw [leads_of_following hcall hstage] at hlead
        cases hlead
      have hremoved := h.removed _ other hother (by rw [hget]; exact fun heq => hne (Option.some.inj heq))
      exact hne (Option.some.inj hremoved)
  | _ => trivial

theorem isolated_iff_clear (h : Registered cfg s) : Isolated cfg s e ↔ Clear cfg s e where
  mp hisolated := hisolated.clear h
  mpr hclear :=
    { oneWire := fun _ _ _ hc hd => (h.kept hclear).oneWire hc hd
      failed := fun _ _ => failed_of_clear hclear
      removed := fun _ _ => h.removed hclear }

theorem Registered.opened (token : Token) (now : ℚ) : Registered cfg (.opened token now) where
  entry k c := by simp [Transport.opened, Transport.leads, Dict.get]
  dedup c call hcall := by simp [Transport.opened] at hcall

/-- Whatever the order of the turns, the answers, the failures and the cancellations. -/
theorem isolated_iff (cfg : TransportConfig) (token : Token) (now : ℚ) (es : List Event) :
    Along (step cfg) (Isolated cfg) (.opened token now) es ↔
      Along (step cfg) (Clear cfg) (.opened token now) es :=
  Along.congr (fun _ _ h hclear => h.kept hclear) (fun _ _ => isolated_iff_clear)
    (Registered.opened token now)

end Isolation

section Counterexample

def genericConfig : TransportConfig where
  authorization := bearer
  build := buildUrl "https://api.example.com"
  translate := translate "generic" id
  sha256 := id

def positionsRequest : Request := { method := "GET", path := "/positions", retries := some 0 }

def positionsKey : String := cacheKey genericConfig positionsRequest

def leaderFails : List Event :=
  [.request positionsRequest, .request positionsRequest, .request positionsRequest, .send 0,
    .netError 0 "ReadTimeout", .wake 1, .wake 2, .send 1]

/-- The two that waited are on the wire together; the first of them pops the entry of the second; and
a caller that waits for one that is cancelled is cancelled too. -/
theorem waiting_not_isolated :
    ¬Along (step genericConfig) (Isolated genericConfig) (.opened ⟨"app", "a"⟩ 0) (leaderFails ++ [.send 2]) ∧
    ¬Along (step genericConfig) (Isolated genericConfig) (.opened ⟨"app", "a"⟩ 0)
      (leaderFails ++ [.reply 1 200 "ok"]) ∧
    ¬Along (step genericConfig) (Isolated genericConfig) (.opened ⟨"app", "a"⟩ 0)
      ([.request positionsRequest, .request positionsRequest, .cancel 0] ++ [.wake 1]) := by
  refine ⟨fun h => ?_, fun h => ?_, fun h => ?_⟩
  · obtain ⟨-, hlast, -⟩ := Along.append.mp h
    have hsame := hlast.oneWire positionsKey 1 2 ⟨_, rfl, rfl, rfl, by decide⟩
      ⟨_, rfl, rfl, rfl, by decide⟩
    exact absurd hsame (by decide)
  · obtain ⟨-, hlast, -⟩ := Along.append.mp h
    have howner := hlast.removed positionsKey 2 (by decide) (by decide)
    exact absurd howner (by decide)
  · obtain ⟨-, hlast, -⟩ := Along.append.mp h
    obtain ⟨call, hcall, hraised⟩ | hraises := hlast.failed 1 .cancelled ⟨_, rfl, by decide⟩
    · revert call
      decide
    · exact hraises

end Counterexample

end Trademetrix.Brokers
