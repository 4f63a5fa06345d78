import Trademetrix.Market.Feed
import Trademetrix.Market.Wire

/-!
# What the feed's coroutines may do

The session is the only one to move `phase` and to set READY. It tests its loop
again only after a drop whose reason does not say "expired", sends what it has
built for the desired set it found, and hands over an event only of the frame it
is at.
-/

namespace Trademetrix.Market

open Trademetrix.Async

variable {F : Type}

def saysExpired (text : String) : Bool := Text.contains (Text.lower text) "expired"

/-- The last terminal disconnect of this run, if any, has a reason `run` does not break on. -/
def Feed.Calm (s : Feed F) : Prop :=
  ∀ code, s.refused = some code → saysExpired (disconnectReason code) = false

/-- `_send_subscriptions` is not under way. -/
def Feed.Quiet (s : Feed F) : Prop := ∀ frames, s.phase ≠ .sending frames

/-- What the session (`true`) or a call of `unsubscribe_now` may do. -/
def Guarantee (flt : SinglePrecision F) (session : Bool) (s : Feed F) : Effect F → Prop
  | .setState state _ => session = true ∧ state ≠ .ready
  | .lastError _ | .started | .reconnecting => session = true
  | .disconnected _ => session = true ∧ s.phase ≠ .round
  | .tested => session = true ∧ s.Calm ∧ s.Quiet
  | .attempt byRun => session = true ∧ (byRun = true → s.phase = .round)
  | .opened | .detached => session = true ∧ s.state ≠ .ready ∧ s.Quiet
  | .sending frames =>
    session = true ∧ s.ws = some [] ∧ s.state ≠ .ready ∧
      frames = buildSubscribeFrame s.subscriptions.values
  | .sent frame => session = true ∧ ∃ frames, s.phase = .sending (frame :: frames)
  | .abandoned => session = true
  | .ready _ => session = true ∧ s.phase = .sending []
  | .received _ | .handled => session = true ∧ s.Quiet
  | .event e =>
    session = true ∧ ∃ data now, s.phase = .handling (.binary data) s.stop s.identities ∧
      parsePacket flt now data = .ok (.event e)
  | .withdrawn _ | .withdrawnMore _ => session = false
  | .subscribed _ | .unsubscribed _ | .cleared | .stop => False

def feedContract (flt : SinglePrecision F) : Contract (Feed F) (Effect F) Bool where
  rely session s t := session = true →
    t.phase = s.phase ∧ t.refused = s.refused ∧ (t.state = .ready → s.state = .ready)
  guar session s e := Guarantee flt session s e
  idle session s := session = true → s.Quiet

variable {s t : Feed F}

theorem Feed.Quiet.of_phase (h : s.Quiet) (hp : t.phase = s.phase) : t.Quiet :=
  fun frames => hp ▸ h frames

theorem Feed.Calm.of_refused (h : s.Calm) (hr : t.refused = s.refused) : t.Calm :=
  fun code hc => h code (hr ▸ hc)

@[simp] theorem send_phase (s : Feed F) (f : InstrumentFrame) : (s.send f).phase = s.phase := rfl

@[simp] theorem send_refused (s : Feed F) (f : InstrumentFrame) : (s.send f).refused = s.refused :=
  rfl

@[simp] theorem send_state (s : Feed F) (f : InstrumentFrame) : (s.send f).state = s.state := rfl

@[simp] theorem send_stop (s : Feed F) (f : InstrumentFrame) : (s.send f).stop = s.stop := rfl

@[simp] theorem send_subscriptions (s : Feed F) (f : InstrumentFrame) :
    (s.send f).subscriptions = s.subscriptions := rfl

@[simp] theorem send_acknowledged (s : Feed F) (f : InstrumentFrame) :
    (s.send f).acknowledged = s.acknowledged := rfl

def Effect.beside : Effect F → Bool
  | .subscribed _ | .unsubscribed _ | .cleared | .withdrawn _ | .withdrawnMore _ | .stop => true
  | _ => false

theorem apply_beside {e : Effect F} (h : e.beside = true) :
    (s.apply e).phase = s.phase ∧ (s.apply e).refused = s.refused ∧
      ((s.apply e).state = .ready → s.state = .ready) := by
  cases e with
  | subscribed | unsubscribed | cleared | withdrawnMore => exact ⟨rfl, rfl, id⟩
  | stop => exact ⟨rfl, rfl, nofun⟩
  | withdrawn subs =>
    simp only [Feed.apply]
    split <;> exact ⟨rfl, rfl, id⟩
  | _ => cases h

section Texts

variable (flt : SinglePrecision F) {α : Type}

/-- Text of the session from `s` keeps to its guarantee and ends in `post`. -/
abbrev Session (post : α → Feed F → Prop) (p : Call F α) (s : Feed F) : Prop :=
  (feedContract flt).Does (feedSystem flt) true post p s

variable {flt}

open Contract (Does)

theorem openSocket_spec {byRun : Bool} (hquiet : s.Quiet)
    (hround : byRun = true → s.phase = .round) :
    Session flt (fun failed t => t.Quiet ∧ t.refused = s.refused ∧
      (failed = none → t.ws = some [] ∧ t.state ≠ .ready)) (openSocket byRun) s := by
  refine Does.of_emit ⟨rfl, nofun⟩ (Does.of_emit ⟨rfl, hround⟩ ?_)
  refine Does.of_wait fun failed t ht _ => ?_
  obtain ⟨hphase, hrefused, hready⟩ := ht rfl
  have hq : t.Quiet := hquiet.of_phase hphase
  have hnot : t.state ≠ .ready := fun h => absurd (hready h) nofun
  cases failed with
  | some exc =>
    exact Does.of_emit rfl (Does.of_emit ⟨rfl, nofun⟩ (Does.pure ⟨hq, hrefused, nofun⟩))
  | none =>
    refine Does.of_emit ⟨rfl, hnot, hq⟩ (Does.of_emit ⟨rfl, nofun⟩ (Does.of_emit ⟨rfl, nofun⟩ ?_))
    exact Does.pure ⟨hq, hrefused, fun _ => ⟨rfl, nofun⟩⟩

theorem sendFrames_spec (frames : List InstrumentFrame) (hphase : s.phase = .sending frames) :
    Session flt (fun failed t => t.refused = s.refused ∧
      match failed with
      | none => t.phase = .sending []
      | some _ => t.Quiet) (sendFrames frames) s := by
  induction frames generalizing s with
  | nil => exact Does.pure ⟨rfl, hphase⟩
  | cons frame frames ih =>
    refine Does.of_emit ⟨rfl, frames, hphase⟩ (Does.of_wait fun failed t ht _ => ?_)
    obtain ⟨hp, hrefused, -⟩ := ht rfl
    have hsent : (s.apply (.sent frame)).phase = .sending frames := by simp [Feed.apply, hphase]
    have hkept : (s.apply (.sent frame)).refused = s.refused := by simp [Feed.apply, hphase]
    have hr : t.refused = s.refused := hrefused.trans hkept
    cases failed with
    | some exc => exact Does.of_emit rfl (Does.pure ⟨hr, nofun⟩)
    | none => exact (ih (hp.trans hsent)).mono fun _ _ h => ⟨h.1.trans hr, h.2⟩

theorem sendSubscriptions_spec (hws : s.ws = some []) :
    Session flt (fun _ t => t.Quiet ∧ t.refused = s.refused) sendSubscriptions s := by
  refine Does.of_emit ⟨rfl, nofun⟩ (Does.of_look ?_)
  split
  · next hempty =>
    have hnil : s.subscriptions = [] := List.isEmpty_iff.mp hempty
    have hframes : [] = buildSubscribeFrame s.subscriptions.values := by
      rw [hnil]
      rfl
    refine Does.of_emit ⟨rfl, hws, nofun, hframes⟩ (Does.of_emit ⟨rfl, rfl⟩ ?_)
    exact Does.pure ⟨nofun, rfl⟩
  · refine Does.of_emit ⟨rfl, hws, nofun, rfl⟩ (Does.bind (sendFrames_spec _ rfl) ?_)
    rintro failed t ⟨hrefused, hend⟩
    cases failed with
    | some exc => exact Does.pure ⟨hend, hrefused⟩
    | none => exact Does.of_look (Does.of_emit ⟨rfl, hend⟩ (Does.pure ⟨nofun, hrefused⟩))

theorem connectOnce_spec {byRun : Bool} (hquiet : s.Quiet)
    (hround : byRun = true → s.phase = .round) :
    Session flt (fun _ t => t.Quiet ∧ t.refused = s.refused) (connectOnce byRun) s := by
  refine Does.bind (openSocket_spec hquiet hround) fun failed t ht => ?_
  obtain ⟨hq, hrefused, hopen⟩ := ht
  cases failed with
  | some exc => exact Does.pure ⟨hq, hrefused⟩
  | none =>
    exact (sendSubscriptions_spec (hopen rfl).1).mono fun _ _ h => ⟨h.1, h.2.trans hrefused⟩

/-- The exception of a drop, where the disconnect behind it, if any, is one `run` breaks on
unless the feed is still calm. -/
def Drop (exc : Exc) (t : Feed F) : Prop :=
  t.Quiet ∧ (t.Calm ∨ exc.connection = true ∧ saysExpired exc.text = true)

theorem handleFrame_spec (raw : RawFrame) (now : ℚ) (callback : Option Exc) (hcalm : s.Calm)
    (hphase : s.phase = .handling raw s.stop s.identities) :
    Session flt (fun raised t => t.Quiet ∧ ∀ exc, (raised = some exc → Drop exc t) ∧
      (raised = none → t.Calm)) (handleFrame flt raw now callback) s := by
  have hquiet : s.Quiet := fun frames h => by rw [hphase] at h; cases h
  cases raw with
  | text message =>
    cases message with
    | unparseable | other => exact Does.pure ⟨hquiet, fun _ => ⟨nofun, fun _ => hcalm⟩⟩
    | serverDisconnect reason terminal =>
      cases reason with
      | none => exact Does.pure ⟨hquiet, fun _ => ⟨fun _ => ⟨hquiet, .inl hcalm⟩, nofun⟩⟩
      | some reason =>
        refine Does.of_emit rfl ?_
        cases terminal with
        | true =>
          refine Does.of_emit ⟨rfl, nofun⟩ (Does.pure ⟨hquiet, fun _ => ⟨fun _ => ?_, nofun⟩⟩)
          exact ⟨hquiet, .inl hcalm⟩
        | false => exact Does.pure ⟨hquiet, fun _ => ⟨fun _ => ⟨hquiet, .inl hcalm⟩, nofun⟩⟩
  | binary data =>
    simp only [handleFrame]
    split
    · exact Does.pure ⟨hquiet, fun _ => ⟨nofun, fun _ => hcalm⟩⟩
    · exact Does.pure ⟨hquiet, fun _ => ⟨nofun, fun _ => hcalm⟩⟩
    · next code reason terminal hparse =>
      have hreason := reason_of_parsePacket flt now hparse
      have hround : s.phase ≠ .round := by
        rw [hphase]
        nofun
      refine Does.of_emit ⟨rfl, hround⟩ (Does.of_emit rfl (Does.of_emit ⟨rfl, nofun⟩ (Does.pure ?_)))
      refine ⟨hquiet, fun exc => ⟨fun hexc => ⟨hquiet, ?_⟩, nofun⟩⟩
      cases hexc
      by_cases hexpired : saysExpired reason = true
      · exact .inr ⟨rfl, hexpired⟩
      · refine .inl fun c hc => ?_
        have hrefused : (if code ∈ terminalDisconnectCodes then some code else s.refused) = some c :=
          hc
        split at hrefused
        · cases hrefused
          rw [← hreason]
          simpa using hexpired
        · exact hcalm c hrefused
    · next e hparse =>
      refine Does.of_emit ⟨rfl, data, now, hphase, hparse⟩ (Does.pure ⟨hquiet, fun exc => ?_⟩)
      exact ⟨fun _ => ⟨hquiet, .inl hcalm⟩, fun _ => hcalm⟩

theorem pump_spec (rounds : ℕ) (hquiet : s.Quiet) (hcalm : s.Calm) :
    Session flt (fun raised t => t.Quiet ∧ ∀ exc, raised = some exc → Drop exc t)
      (pump flt rounds) s := by
  induction rounds generalizing s with
  | zero => exact Does.pure ⟨hquiet, nofun⟩
  | succ rounds ih =>
    refine Does.of_wait fun got t ht _ => ?_
    obtain ⟨hphase, hrefused, -⟩ := ht rfl
    have hq : t.Quiet := hquiet.of_phase hphase
    have hc : t.Calm := hcalm.of_refused hrefused
    cases got with
    | timeout => exact ih hq hc
    | raised exc => exact Does.of_emit rfl (Does.pure ⟨hq, fun _ _ => ⟨hq, .inl hc⟩⟩)
    | frame raw now callback =>
      refine Does.of_emit ⟨rfl, hq⟩ (Does.bind (handleFrame_spec raw now callback hc rfl) ?_)
      rintro raised u ⟨hu, hend⟩
      refine Does.of_emit ⟨rfl, hu⟩ ?_
      cases raised with
      | some exc =>
        refine Does.pure ⟨nofun, fun exc' hexc => ⟨nofun, ?_⟩⟩
        exact ((hend exc').1 hexc).2
      | none => exact ih nofun ((hend ⟨"", false⟩).2 rfl)

theorem closeWs_spec (hquiet : s.Quiet) (hready : s.state ≠ .ready) :
    Session flt (fun _ t => t.Quiet ∧ t.refused = s.refused) closeWs s := by
  refine Does.of_look (Does.of_emit ⟨rfl, hready, hquiet⟩ ?_)
  split
  · refine Does.of_wait fun _ t ht _ u hu _ _ => ?_
    obtain ⟨hp, hr, -⟩ := ht rfl
    obtain ⟨hp', hr', -⟩ := hu rfl
    exact ⟨hquiet.of_phase (hp'.trans hp), hr'.trans hr⟩
  · exact Does.pure ⟨hquiet, rfl⟩

theorem dropped_spec (exc : Exc) (delay : ℚ) (hdrop : Drop exc s) :
    Session flt (fun again t => t.Quiet ∧ ∀ d, again = some d → t.Calm) (dropped exc delay) s := by
  obtain ⟨hquiet, hcalm⟩ := hdrop
  refine Does.of_emit rfl (Does.of_look ?_)
  split
  · exact Does.pure ⟨hquiet, nofun⟩
  split
  · exact Does.of_emit ⟨rfl, nofun⟩ (Does.pure ⟨hquiet, nofun⟩)
  next hnot =>
  refine Does.of_emit rfl (Does.of_emit ⟨rfl, nofun⟩ (Does.of_wait fun _ t ht _ => ?_))
  obtain ⟨hphase, hrefused, hready⟩ := ht rfl
  have hnotReady : t.state ≠ .ready := fun h => absurd (hready h) nofun
  refine Does.bind (closeWs_spec (hquiet.of_phase hphase) hnotReady) fun _ u hu => ?_
  refine Does.pure ⟨hu.1, fun _ _ => ?_⟩
  rcases hcalm with hcalm | ⟨hconnection, hexpired⟩
  · exact hcalm.of_refused (hu.2.trans hrefused)
  · refine absurd ?_ hnot
    rw [hconnection, Bool.true_and]
    exact hexpired

theorem connectAndPump_spec (frames : ℕ) (delay : ℚ) (hquiet : s.Quiet) (hcalm : s.Calm)
    (hround : s.phase = .round) :
    Session flt (fun ended t => t.Quiet ∧ ∀ exc d, ended = some (exc, d) → Drop exc t)
      (connectAndPump flt frames delay) s := by
  refine Does.bind (connectOnce_spec hquiet fun _ => hround) fun failed t ht => ?_
  have hc : t.Calm := hcalm.of_refused ht.2
  cases failed with
  | some exc => exact Does.pure ⟨ht.1, fun _ _ _ => ⟨ht.1, .inl hc⟩⟩
  | none =>
    refine Does.bind (pump_spec frames ht.1 hc) fun raised u hu => ?_
    cases raised with
    | none => exact Does.pure ⟨hu.1, nofun⟩
    | some exc =>
      refine Does.of_wait fun _ v hv _ => ?_
      obtain ⟨hphase, hrefused, -⟩ := hv rfl
      have hq : v.Quiet := hu.1.of_phase hphase
      refine Does.pure ⟨hq, fun exc' d hexc => ⟨hq, ?_⟩⟩
      cases hexc
      exact (hu.2 exc rfl).2.imp (fun h => h.of_refused hrefused) id

theorem runLoop_spec (frames rounds : ℕ) (delay : ℚ) (hquiet : s.Quiet) (hcalm : s.Calm) :
    Session flt (fun _ t => t.Quiet) (runLoop flt frames rounds delay) s := by
  induction rounds generalizing s delay with
  | zero => exact Does.pure hquiet
  | succ rounds ih =>
    refine Does.of_emit ⟨rfl, hcalm, hquiet⟩ (Does.of_look ?_)
    split
    · next hstop =>
      refine Does.pure fun frames => ?_
      change (if s.stop then Phase.off else .round) ≠ _
      split <;> nofun
    next hstop =>
    have hround : (s.apply .tested).phase = .round := if_neg hstop
    have hq : (s.apply .tested).Quiet := fun frames => by rw [hround]; nofun
    refine Does.bind (connectAndPump_spec frames delay hq hcalm hround) fun ended t ht => ?_
    cases ended with
    | none => exact Does.pure ht.1
    | some ended =>
      obtain ⟨exc, d⟩ := ended
      refine Does.bind (dropped_spec exc d (ht.2 exc d rfl)) fun again u hu => ?_
      cases again with
      | none => exact Does.pure hu.1
      | some d' => exact ih d' hu.1 (hu.2 d' rfl)

theorem run_spec (frames rounds : ℕ) (hquiet : s.Quiet) :
    Session flt (fun _ t => t.Quiet) (run flt frames rounds) s := by
  refine Does.of_emit rfl (Does.bind (runLoop_spec frames rounds _ hquiet nofun) fun left t ht => ?_)
  cases left with
  | false => exact Does.pure ht
  | true =>
    refine Does.of_look (Does.of_emit ⟨rfl, nofun⟩ ?_)
    refine Contract.Does.mono (closeWs_spec ?_ ?_) fun _ _ h => h.1
    · exact ht
    · exact FeedState.noConfusion

theorem sendMore_spec (frames : List InstrumentFrame) :
    (feedContract flt).Does (feedSystem flt) false (fun _ _ => True) (sendMore frames) s := by
  induction frames generalizing s with
  | nil => exact Does.pure trivial
  | cons frame frames ih =>
    refine Does.of_emit rfl (Does.of_wait fun failed t _ _ => ?_)
    cases failed with
    | some exc => exact Does.pure trivial
    | none => exact ih

theorem unsubscribeNow_spec (subs : List DhanSubscription) :
    (feedContract flt).Does (feedSystem flt) false (fun _ _ => True) (unsubscribeNow subs) s := by
  refine Does.of_look (Does.of_emit rfl ?_)
  split
  · exact Does.pure trivial
  · refine Does.of_wait fun failed t _ _ => ?_
    cases failed with
    | some exc => exact Does.pure trivial
    | none => exact sendMore_spec _

end Texts

variable {flt : SinglePrecision F}

theorem feedContract_sound : (feedContract flt).Sound (feedSystem flt) where
  trans _ _ _ _ h h' ha := by
    obtain ⟨hp, hr, hs⟩ := h ha
    obtain ⟨hp', hr', hs'⟩ := h' ha
    exact ⟨hp'.trans hp, hr'.trans hr, fun h => hs (hs' h)⟩
  refl _ _ _ := ⟨rfl, rfl, id⟩
  idle _ _ _ h hidle ha := (hidle ha).of_phase (h ha).1
  others a b s e hab hg ha := by
    subst ha
    have hb : b = false := by
      cases b with
      | false => rfl
      | true => exact absurd (hab rfl) nofun
    subst hb
    refine apply_beside ?_
    cases e with
    | withdrawn | withdrawnMore => rfl
    | subscribed | unsubscribed | cleared | stop => exact hg.elim
    | lastError | started | reconnecting | abandoned => cases hg
    | _ => cases hg.1
  env a s e he _ := apply_beside (by cases e <;> first | rfl | cases he)
  code c s hidle := by
    cases c with
    | run frames rounds => exact (run_spec frames rounds (hidle rfl)).mono fun _ _ h _ => h
    | connectOnce =>
      refine Contract.Does.bind (connectOnce_spec (hidle rfl) nofun) fun _ t ht => ?_
      exact Contract.Does.pure fun _ => ht.1
    | unsubscribeNow subs => exact (unsubscribeNow_spec subs).mono fun _ _ _ => nofun

def Granted (flt : SinglePrecision F) (s : Feed F) (e : Effect F) : Prop :=
  (∃ session, Guarantee flt session s e) ∨ (feedSystem flt).env s e = true

theorem feed_granted {es : List (Effect F)} {P : Pool (Feed F) (Effect F) Reply Bool}
    (h : (feedSystem flt).Run ⟨Feed.new F, []⟩ es P) :
    Legal Feed.apply (Granted flt) (Feed.new F) es := by
  have hstart : (feedContract flt).Holds (feedSystem flt) ⟨Feed.new F, []⟩ :=
    ⟨by simp, by simp, .nil, fun _ _ _ => nofun⟩
  exact (Contract.Run.legal feedContract_sound hstart h).1

end Trademetrix.Market

/-!
# Stopping the feed

A terminal disconnect ends `run` when its reason says "expired", which only that
of code 807 does; otherwise the loop goes round again unless `stop` has been
called in the meantime. The pump does not look at `_stop`: what it receives it
hands over.
-/

namespace Trademetrix.Market

open Trademetrix.Async

variable {F : Type} {flt : SinglePrecision F} {s : Feed F} {e : Effect F}

/-- No attempt follows a terminal disconnect, and no frame that comes after `stop` is
handed over. -/
def StopsAsTold (s : Feed F) : Effect F → Prop
  | .attempt true => s.refused = none
  | .event _ => s.stop = false
  | _ => True

/-- `run`'s condition is tested after a disconnect with 806, 808 or 809 only once `stop` has
been called, and no packet that carries a quote comes after `stop`. -/
def StopsInTime (s : Feed F) : Effect F → Prop
  | .tested => ∀ code ∈ s.refused, code ≠ 807 → s.stop = true
  | .received (.binary data) => s.stop = true → carriesQuote data = false
  | _ => True

/-- In a round nothing terminal has come; a frame taken after `stop` carries no quote. -/
def StopInvariant (s : Feed F) : Prop :=
  match s.phase with
  | .round => s.refused = none
  | .handling (.binary data) true _ => carriesQuote data = false
  | _ => True

theorem refused_ne_807 (h : s.Calm) : s.refused ≠ some 807 := by
  intro hrefused
  have hsays : saysExpired (disconnectReason 807) = true := by decide
  rw [h 807 hrefused] at hsays
  cases hsays

theorem refused_none (hcalm : s.Calm) (hcareful : StopsInTime s .tested) (hstop : s.stop = false) :
    s.refused = none := by
  cases hrefused : s.refused with
  | none => rfl
  | some code =>
    have hne : code ≠ 807 := by
      rintro rfl
      exact refused_ne_807 hcalm hrefused
    have hstopped := hcareful code hrefused hne
    rw [hstop] at hstopped
    cases hstopped

theorem StopInvariant.of_same {t : Feed F} (h : StopInvariant s) (hp : t.phase = s.phase)
    (hr : t.refused = s.refused) : StopInvariant t := by
  unfold StopInvariant at h ⊢
  rw [hp, hr]
  exact h

theorem stopInvariant_step (hs : StopInvariant s) (hgranted : Granted flt s e)
    (hcareful : StopsInTime s e) : StopInvariant (s.apply e) := by
  by_cases hbeside : e.beside = true
  · exact hs.of_same (apply_beside hbeside).1 (apply_beside hbeside).2.1
  rcases hgranted with ⟨session, hg⟩ | henv
  swap
  · cases e <;> first | exact absurd rfl hbeside | cases henv
  cases e with
  | tested =>
    obtain ⟨-, hcalm, -⟩ := hg
    cases hstop : s.stop with
    | true => simp [StopInvariant, Feed.apply, hstop]
    | false => simpa [StopInvariant, Feed.apply, hstop] using refused_none hcalm hcareful hstop
  | started =>
    simp only [StopInvariant, Feed.apply] at hs ⊢
    split <;> simp_all
  | disconnected code =>
    obtain ⟨-, hround⟩ := hg
    simp only [StopInvariant, Feed.apply] at hs ⊢
    split
    · next h => exact absurd h hround
    · next h => simpa [h] using hs
    · trivial
  | received raw =>
    cases raw with
    | text message => simp [StopInvariant, Feed.apply]
    | binary data =>
      cases hstop : s.stop with
      | true => simpa [StopInvariant, Feed.apply, hstop] using hcareful hstop
      | false => simp [StopInvariant, Feed.apply, hstop]
  | sent frame =>
    obtain ⟨-, frames, hphase⟩ := hg
    simp [StopInvariant, Feed.apply, hphase]
  | sending | abandoned | ready | handled => trivial
  | subscribed | unsubscribed | cleared | withdrawn | withdrawnMore | stop =>
    exact absurd rfl hbeside
  | setState | lastError | attempt | opened | event | reconnecting | detached =>
    exact hs.of_same rfl rfl

theorem stopsAsTold (hs : StopInvariant s) (hgranted : Granted flt s e) : StopsAsTold s e := by
  rcases hgranted with ⟨session, hg⟩ | henv
  swap
  · cases e <;> first | exact trivial | cases henv
  cases e with
  | attempt byRun =>
    cases byRun with
    | false => trivial
    | true =>
      simp only [StopInvariant, hg.2 rfl] at hs
      exact hs
  | event e =>
    obtain ⟨-, data, now, hphase, hparse⟩ := hg
    cases hstop : s.stop with
    | false => exact hstop
    | true =>
      simp only [StopInvariant, hphase, hstop] at hs
      rw [carriesQuote_of_parsePacket flt now hparse] at hs
      cases hs
  | _ => trivial

/-- Frames, failures, calls of `stop` and of the subscription methods in any order: where
`stop` comes in time, `run` makes no attempt after a terminal disconnect, and nothing that
comes after `stop` is handed over. -/
theorem run_stopsAsTold {es : List (Effect F)} {P : Pool (Feed F) (Effect F) Reply Bool}
    (h : (feedSystem flt).Run ⟨Feed.new F, []⟩ es P)
    (hcareful : Legal Feed.apply StopsInTime (Feed.new F) es) :
    Legal Feed.apply StopsAsTold (Feed.new F) es := by
  have hboth := (feed_granted h).and hcareful
  have hinv := hboth.with_invariant
    (fun s e hs he => stopInvariant_step hs he.1 he.2) (show StopInvariant (Feed.new F) from trivial)
  exact hinv.mono fun s e he => stopsAsTold he.1 he.2.1

instance : ∀ (s : Feed F) (e : Effect F), Decidable (StopsAsTold s e)
  | s, .attempt true => inferInstanceAs (Decidable (s.refused = none))
  | s, .event _ => inferInstanceAs (Decidable (s.stop = false))
  | _, .attempt false | _, .setState _ _ | _, .lastError _ | _, .started | _, .tested | _, .opened
  | _, .sending _ | _, .sent _ | _, .abandoned | _, .ready _ | _, .received _ | _, .handled
  | _, .disconnected _ | _, .reconnecting | _, .detached | _, .subscribed _ | _, .unsubscribed _
  | _, .cleared | _, .withdrawn _ | _, .withdrawnMore _ | _, .stop => isTrue trivial

instance : ∀ (s : Feed F) (e : Effect F), Decidable (StopsInTime s e)
  | s, .tested => inferInstanceAs (Decidable (∀ code ∈ s.refused, code ≠ 807 → s.stop = true))
  | s, .received (.binary data) =>
    inferInstanceAs (Decidable (s.stop = true → carriesQuote data = false))
  | _, .received (.text _) | _, .attempt _ | _, .setState _ _ | _, .lastError _ | _, .started
  | _, .opened | _, .sending _ | _, .sent _ | _, .abandoned | _, .ready _ | _, .handled
  | _, .disconnected _ | _, .event _ | _, .reconnecting | _, .detached | _, .subscribed _
  | _, .unsubscribed _ | _, .cleared | _, .withdrawn _ | _, .withdrawnMore _ | _, .stop =>
    isTrue trivial

def exampleBits : SinglePrecision UInt32 := ⟨id, fun bits => bits != 0⟩

def disconnectPacket (low high : UInt8) : RawFrame :=
  .binary [50, 10, 0, 0, 0, 0, 0, 0, low, high]

/-- `connect` and `send` succeed and `recv` returns the frame. -/
def feedReply (raw : RawFrame) : (i : Await) → Reply i
  | .connect | .send => none
  | .recv => .frame raw 0 none
  | .wakeup | .backoff _ | .io => ()

/-- One `run` whose first frame is `raw`, resumed `k` times. -/
def runWith (raw : RawFrame) (k : ℕ) : List (Action (Effect UInt32) Reply Entry) :=
  .start (.run 2 2) :: List.replicate k (.resume 0 (feedReply raw))

/-- The server says that the token has expired (807); the run ends. -/
theorem run_stopsAsTold_expired : ∃ es P, (feedSystem exampleBits).Run ⟨Feed.new UInt32, []⟩ es P ∧
    P.tasks.length = 0 ∧ Legal Feed.apply StopsAsTold (Feed.new UInt32) es := by
  obtain ⟨es, P, hrun, hend, hcareful⟩ := System.exists_run (feedSystem exampleBits)
    ⟨Feed.new UInt32, []⟩ (runWith (disconnectPacket 0x27 0x03) 5)
    (p := fun es P => P.tasks.length = 0 ∧ Legal Feed.apply StopsInTime (Feed.new UInt32) es)
    (by decide)
  exact ⟨es, P, hrun, hend, run_stopsAsTold hrun hcareful⟩

/-- After a disconnect with 806 `run` connects again. -/
theorem run_reconnects_after_806 :
    ¬ ∀ (es : List (Effect UInt32)) (P : Pool (Feed UInt32) (Effect UInt32) Reply Bool),
      (feedSystem exampleBits).Run ⟨Feed.new UInt32, []⟩ es P →
        Legal Feed.apply StopsAsTold (Feed.new UInt32) es := by
  intro hall
  obtain ⟨es, P, hrun, hbad⟩ := System.exists_run (feedSystem exampleBits)
    ⟨Feed.new UInt32, []⟩ (runWith (disconnectPacket 0x26 0x03) 6)
    (p := fun es _ => ¬ Legal Feed.apply StopsAsTold (Feed.new UInt32) es) (by decide)
  exact hbad (hall es P hrun)

end Trademetrix.Market
