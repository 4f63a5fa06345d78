import Trademetrix.Brokers.InFlight

/-!
# Responses and the token they were obtained with

A response is shared from the cache or by joining a call in flight, and both go by
the key of the request alone. A transport of which the token is changed while there
is something to share gives it to the requests under the new token.
-/

namespace Trademetrix.Brokers

def SameToken (cfg : TransportConfig) (s : Transport) : Event → Prop
  | .request r => (∀ resp ∈ s.cached cfg r, ∀ t ∈ resp.token, t = s.token) ∧
    (s.cached cfg r = none → ∀ owner ∈ s.joined cfg r, ∀ call ∈ s.calls[owner]?, ∀ t ∈ call.auth, t = s.token)
  | _ => True

instance (cfg : TransportConfig) (s : Transport) : (e : Event) → Decidable (SameToken cfg s e)
  | .request _ => inferInstanceAs (Decidable (_ ∧ _))
  | .setToken _ | .elapse _ | .wake _ | .send _ | .reply _ _ _ | .netError _ _ | .fault _ _ | .cancel _ =>
    inferInstanceAs (Decidable True)

def Confined (s : Transport) : Prop :=
  ∀ call ∈ s.calls, ∀ resp, call.stage = .returned resp true → ∀ t ∈ resp.token, t = call.made

structure Call.Serves (leader : Call) (made : Token) : Prop where
  leads : ∀ owner, leader.stage ≠ .following owner
  result : ∀ resp shared, leader.stage = .returned resp shared → resp.token = leader.auth
  auth : ∀ t ∈ leader.auth, t = made

structure Private (cfg : TransportConfig) (s : Transport) : Prop where
  owned : ∀ k c, s.inflight.get k = some c → s.leads cfg c = some k
  shared : ∀ (c : ℕ), ∀ call ∈ s.calls[c]?, ∀ resp, call.stage = .returned resp true →
    ∀ t ∈ resp.token, t = call.made
  follows : ∀ (c : ℕ), ∀ call ∈ s.calls[c]?, ∀ owner, call.stage = .following owner →
    ∃ leader ∈ s.calls[owner]?, leader.Serves call.made

variable {cfg : TransportConfig} {s s' : Transport} {e : Event} {c : ℕ} {call : Call} {k : String}

section Owned

variable (h : ∀ k c, s.inflight.get k = some c → s.leads cfg c = some k)

include h

theorem owned_same (hleads : s'.leads cfg = s.leads cfg) (hinflight : s'.inflight = s.inflight) :
    ∀ k c, s'.inflight.get k = some c → s'.leads cfg c = some k := by
  rw [hleads, hinflight]
  exact h

theorem owned_idle (hputs : Puts s.calls c call s'.calls) (hbefore : s.leads cfg c = none)
    (hidle : call.stage.leading = false) (hinflight : s'.inflight = s.inflight) :
    ∀ k c, s'.inflight.get k = some c → s'.leads cfg c = some k :=
  owned_same h (leads_puts_same hputs ((Call.leads_of_not_leading hidle).trans hbefore.symm)) hinflight

theorem owned_lead (hputs : Puts s.calls c call s'.calls) (hbefore : s.leads cfg c = none)
    (hleading : call.stage.leading = true)
    (hinflight : s'.inflight = (s.register cfg c call.request).inflight) :
    ∀ k c, s'.inflight.get k = some c → s'.leads cfg c = some k := by
  intro k d hget
  rw [hinflight, get_register] at hget
  rw [leads_puts hputs, Call.leads_of_leading hleading]
  have hentry := h k d
  grind

theorem owned_end (hcall : s.calls[c]? = some call) (hleading : call.stage.leading = true) {stage : Stage}
    (hputs : Puts s.calls c { call with stage } s'.calls)
    (hinflight : s'.inflight = (s.settle cfg c call stage).inflight) :
    ∀ k c, s'.inflight.get k = some c → s'.leads cfg c = some k := by
  intro k d hget
  rw [hinflight, get_settle] at hget
  have hbefore : s.leads cfg c = _ := (leads_eq hcall).trans (Call.leads_of_leading hleading)
  have hentry := h k d
  rw [leads_puts hputs]
  grind

theorem owned_step (e : Event) :
    ∀ k c, (step cfg s e).inflight.get k = some c → (step cfg s e).leads cfg c = some k := by
  cases step_effect cfg s e with
  | quiet hcalls hinflight =>
    exact owned_same h (by unfold Transport.leads; rw [hcalls]) hinflight
  | shares resp hcached hcalls hinflight =>
    exact owned_idle h hcalls leads_length rfl hinflight
  | joins owner hcached hjoined hcalls hinflight =>
    exact owned_idle h hcalls leads_length rfl hinflight
  | leads hcached hjoined hcalls hinflight => exact owned_lead h hcalls leads_length rfl hinflight
  | follows hcall hstage hfuture hcalls hinflight =>
    exact owned_idle h hcalls (leads_of_following hcall hstage) rfl hinflight
  | again hcall hstage hfuture hcalls hinflight =>
    exact owned_lead h hcalls (leads_of_following hcall hstage) rfl hinflight
  | dragged hcall hstage hfuture hcalls hinflight =>
    exact owned_idle h hcalls (leads_of_following hcall hstage) rfl hinflight
  | leaves hcall hstage hcalls hinflight =>
    exact owned_idle h hcalls (leads_of_following hcall hstage) rfl hinflight
  | moves attempt stage hcall hstage hnext hcalls hinflight =>
    refine owned_same h (leads_puts_same hcalls ?_) hinflight
    rw [leads_eq hcall, Call.leads_of_leading hnext, Call.leads_of_leading hstage]
  | returns resp hevent hcall hstage hresp hcalls hinflight => exact owned_end h hcall hstage hcalls hinflight
  | fails f hevent hcall hstage hraises hcalls hinflight => exact owned_end h hcall hstage hcalls hinflight

end Owned

theorem Private.leading (h : Private cfg s) {owner : ℕ} (howner : s.inflight.get k = some owner) :
    ∃ leader ∈ s.calls[owner]?, leader.stage.leading = true := by
  have hlead := h.owned k owner howner
  obtain ⟨leader, hleader, hkey⟩ := Option.bind_eq_some_iff.mp hlead
  refine ⟨leader, hleader, ?_⟩
  by_contra hidle
  rw [Call.leads_of_not_leading (Bool.not_eq_true _ ▸ hidle)] at hkey
  cases hkey

theorem Call.serves_of_leading (hleading : call.stage.leading = true) {made : Token}
    (hauth : ∀ t ∈ call.auth, t = made) : call.Serves made where
  leads owner hstage := by
    rw [hstage] at hleading
    cases hleading
  result resp shared hstage := by
    rw [hstage] at hleading
    cases hleading
  auth := hauth

namespace Private

theorem puts (h : Private cfg s) (hputs : Puts s.calls c call s'.calls)
    (howned : ∀ k c, s'.inflight.get k = some c → s'.leads cfg c = some k)
    (hshared : ∀ resp, call.stage = .returned resp true → ∀ t ∈ resp.token, t = call.made)
    (hfollows : ∀ owner, call.stage = .following owner → ∃ leader ∈ s.calls[owner]?, leader.Serves call.made)
    (hserves : ∀ before ∈ s.calls[c]?, ∀ made, before.Serves made → call.Serves made) : Private cfg s' where
  owned := howned
  shared := hputs.forall_mem hshared h.shared
  follows d call' hcall' owner hstage := by
    have hbefore : ∃ leader ∈ s.calls[owner]?, leader.Serves call'.made := by
      rw [hputs d] at hcall'
      split at hcall'
      · obtain rfl := Option.some.inj hcall'
        exact hfollows owner hstage
      · exact h.follows d call' hcall' owner hstage
    obtain ⟨leader, hleader, hserve⟩ := hbefore
    rw [hputs owner]
    split
    · next howner =>
      subst howner
      exact ⟨call, rfl, hserves leader hleader _ hserve⟩
    · exact ⟨leader, hleader, hserve⟩

theorem serves_of_serves {before new : Call} (hcall : s.calls[c]? = some before)
    (h : ∀ made, before.Serves made → new.Serves made) :
    ∀ before ∈ s.calls[c]?, ∀ made, before.Serves made → new.Serves made := by
  intro before' hbefore
  rw [hcall] at hbefore
  obtain rfl := Option.some.inj hbefore
  exact h

theorem not_serves_of_following {owner : ℕ} (hcall : s.calls[c]? = some call)
    (hstage : call.stage = .following owner) {P : Token → Prop} :
    ∀ before ∈ s.calls[c]?, ∀ made, before.Serves made → P made := by
  intro before hbefore made hserves
  rw [hcall] at hbefore
  obtain rfl := Option.some.inj hbefore
  exact absurd hstage (hserves.leads owner)

theorem not_serves_length {P : Token → Prop} :
    ∀ before ∈ s.calls[s.calls.length]?, ∀ made, before.Serves made → P made := by
  intro before hbefore
  rw [List.getElem?_eq_none (Nat.le_refl _)] at hbefore
  cases hbefore

theorem kept (h : Private cfg s) (hsame : SameToken cfg s e) : Private cfg (step cfg s e) := by
  have howned := owned_step h.owned e
  cases step_effect cfg s e with
  | quiet hcalls hinflight =>
    refine ⟨howned, ?_, ?_⟩
    · rw [hcalls]
      exact h.shared
    · rw [hcalls]
      exact h.follows
  | shares resp hcached hcalls hinflight =>
    refine h.puts hcalls howned (fun resp' hstage => ?_) (fun _ => Stage.noConfusion) not_serves_length
    obtain ⟨rfl, -⟩ := Stage.returned.inj hstage
    exact hsame.1 resp hcached
  | joins owner hcached hjoined hcalls hinflight =>
    refine h.puts hcalls howned (fun _ => Stage.noConfusion) (fun owner' hstage => ?_) not_serves_length
    obtain rfl := Stage.following.inj hstage
    have hget := hjoined
    unfold Transport.joined at hget
    split at hget
    · obtain ⟨leader, hleader, hleading⟩ := h.leading hget
      exact ⟨leader, hleader, Call.serves_of_leading hleading (hsame.2 hcached owner hjoined leader hleader)⟩
    · cases hget
  | leads hcached hjoined hcalls hinflight =>
    exact h.puts hcalls howned (fun _ => Stage.noConfusion) (fun _ => Stage.noConfusion) not_serves_length
  | @follows c _ call owner resp hcall hstage hfuture hcalls hinflight =>
    refine h.puts hcalls howned (fun resp' hresp => ?_) (fun _ => Stage.noConfusion)
      (not_serves_of_following hcall hstage)
    obtain ⟨rfl, -⟩ := Stage.returned.inj hresp
    obtain ⟨leader, hleader, hserves⟩ := h.follows c call hcall owner hstage
    rw [Transport.future, Option.mem_def.mp hleader, Option.map_some] at hfuture
    split at hfuture
    · next resp' shared hleaderStage =>
      obtain rfl := Except.ok.inj (Option.some.inj hfuture)
      rw [hserves.result _ _ (Option.some.inj hleaderStage)]
      exact hserves.auth
    · cases Option.some.inj hfuture
    · cases hfuture
  | again hcall hstage hfuture hcalls hinflight =>
    exact h.puts hcalls howned (fun _ => Stage.noConfusion) (fun _ => Stage.noConfusion)
      (not_serves_of_following hcall hstage)
  | dragged hcall hstage hfuture hcalls hinflight =>
    exact h.puts hcalls howned (fun _ => Stage.noConfusion) (fun _ => Stage.noConfusion)
      (not_serves_of_following hcall hstage)
  | leaves hcall hstage hcalls hinflight =>
    exact h.puts hcalls howned (fun _ => Stage.noConfusion) (fun _ => Stage.noConfusion)
      (not_serves_of_following hcall hstage)
  | moves attempt stage hcall hstage hnext hcalls hinflight =>
    refine h.puts hcalls howned (fun resp hresp => ?_) (fun owner howner => ?_)
      (serves_of_serves hcall fun made hserves => ?_)
    · dsimp only at hresp
      rw [hresp] at hnext
      cases hnext
    · dsimp only at howner
      rw [howner] at hnext
      cases hnext
    · exact Call.serves_of_leading hnext hserves.auth
  | returns resp hevent hcall hstage hresp hcalls hinflight =>
    refine h.puts hcalls howned (fun resp' hreturned => ?_) (fun _ => Stage.noConfusion)
      (serves_of_serves hcall fun made hserves => ?_)
    · cases (Stage.returned.inj hreturned).2
    · refine ⟨fun _ => Stage.noConfusion, fun resp' shared hreturned => ?_, hserves.auth⟩
      obtain ⟨rfl, -⟩ := Stage.returned.inj hreturned
      exact hresp
  | fails f hevent hcall hstage hraises hcalls hinflight =>
    refine h.puts hcalls howned (fun _ => Stage.noConfusion) (fun _ => Stage.noConfusion)
      (serves_of_serves hcall fun made hserves => ?_)
    exact ⟨fun _ => Stage.noConfusion, fun _ _ => Stage.noConfusion, hserves.auth⟩

theorem confined (h : Private cfg s) : Confined s := by
  intro call hcall resp hstage
  obtain ⟨c, hc, rfl⟩ := List.mem_iff_getElem.mp hcall
  exact h.shared c _ (List.getElem?_eq_getElem hc) resp hstage

theorem opened (token : Token) (now : ℚ) : Private cfg (.opened token now) where
  owned k c hget := by cases hget
  shared c call hcall := by simp [Transport.opened] at hcall
  follows c call hcall := by simp [Transport.opened] at hcall

end Private

/-- In every state of a run in which no request finds another token's response, or request in flight,
under its key. -/
theorem confined_of_sameToken (cfg : TransportConfig) (token : Token) (now : ℚ) (es : List Event)
    (h : Along (step cfg) (SameToken cfg) (.opened token now) es) :
    Confined (es.foldl (step cfg) (.opened token now)) :=
  (Along.invariant (fun _ _ hprivate => hprivate.kept) (Private.opened token now) h).confined

section Runs

def fundsRequest : Request := { method := "GET", path := "/funds", cacheTtl := 30 }

def fundsOfA : Response := ⟨200, "funds of a", some ⟨"app", "a"⟩⟩

def fundsCall : Call := { request := fundsRequest, made := ⟨"app", "b"⟩, stage := .returned fundsOfA true }

/-- One call joins another, the token is changed, and the next request comes when the response has
expired. -/
theorem expired_confined :
    Confined (([.request fundsRequest, .request fundsRequest, .send 0, .reply 0 200 "funds of a", .wake 1,
        .setToken ⟨"app", "b"⟩, .elapse 30, .request fundsRequest] : List Event).foldl (step genericConfig)
      (.opened ⟨"app", "a"⟩ 0)) :=
  confined_of_sameToken genericConfig ⟨"app", "a"⟩ 0 _ (by decide +kernel)

def cachedChange : List Event :=
  [.request fundsRequest, .send 0, .reply 0 200 "funds of a", .setToken ⟨"app", "b"⟩, .request fundsRequest]

def joinedChange : List Event :=
  [.request fundsRequest, .setToken ⟨"app", "b"⟩, .request fundsRequest, .send 0, .reply 0 200 "funds of a",
    .wake 1]

theorem tokenChange_not_confined :
    ¬Confined (cachedChange.foldl (step genericConfig) (.opened ⟨"app", "a"⟩ 0)) ∧
    ¬Confined (joinedChange.foldl (step genericConfig) (.opened ⟨"app", "a"⟩ 0)) := by
  constructor <;> intro h
  · have hcall : fundsCall ∈ (cachedChange.foldl (step genericConfig) (.opened ⟨"app", "a"⟩ 0)).calls := by
      decide +kernel
    exact absurd (h fundsCall hcall fundsOfA rfl _ rfl) (by decide)
  · have hcall : fundsCall ∈ (joinedChange.foldl (step genericConfig) (.opened ⟨"app", "a"⟩ 0)).calls := by
      decide
    exact absurd (h fundsCall hcall fundsOfA rfl _ rfl) (by decide)

end Runs

end Trademetrix.Brokers
