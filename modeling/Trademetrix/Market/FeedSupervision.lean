import Trademetrix.Market.BrokerFeeds
import Mathlib.Data.List.Basic

/-!
# One feed for each broker type

A feed task is alone and registered as long as none is registered while another of
its type is unfinished, no done callback takes out the entry of a feed that runs,
and no supervisor calls while its feed is registered. Then a supervisor returns only
on a permanent error, on an explicit stop or after the manager has been stopped.
-/

namespace Trademetrix.Market

open Async

variable {cfg : FeedSettings} {s t : Feeds} {e : BrokerFeedEffect} {es : List BrokerFeedEffect}
  {k : ℕ} {broker : String}

structure OneFeed (s : Feeds) : Prop where
  alone : ∀ (f g : ℕ) (t u : FeedTask), s.feeds[f]? = some t → s.feeds[g]? = some u → t.done = false →
    u.done = false → t.broker = u.broker → f = g
  registered : ∀ (f : ℕ) (t : FeedTask), s.feeds[f]? = some t → t.done = false → t.cancelled = false →
    s.brokerFeeds.get t.broker = some f

/-- No feed is registered beside an unfinished one of its type, no callback takes out a feed
that runs, and no supervisor calls for a feed that is registered. -/
def Careful (cfg : FeedSettings) (s : Feeds) : BrokerFeedEffect → Prop
  | .registers broker => ∀ t ∈ s.feeds, t.broker = broker → t.done = true
  | .unregisters f => ∀ t ∈ s.feeds[f]?, ∀ g ∈ s.brokerFeeds.get t.broker, ∀ u ∈ s.feeds[g]?,
    u.done = true ∨ u.cancelled = true
  | .tries k => ∀ sup ∈ s.sups[k]?, s.refuses cfg sup.broker = false
  | _ => True

section Contract

def BrokerFeedEffect.owner : BrokerFeedEffect → Option FeedTag
  | .begins f | .ends f | .unregisters f => some (.feed f)
  | .tries k | .returns k _ => some (.sup k)
  | _ => none

def FeedFacts (s : Feeds) : BrokerFeedEffect → Prop
  | .unregisters f => ∃ t, s.feeds[f]? = some t ∧ t.done = true
  | .returns k .alreadyRunning => ∃ sup, s.sups[k]? = some sup ∧ sup.refused = true
  | .returns k .cancelled => ∃ sup, s.sups[k]? = some sup ∧ sup.cancelled = true
  | .returns _ .shutDown => s.running = false
  | _ => True

def FeedStays (f : ℕ) (s t : Feeds) : Prop :=
  ∀ u, s.feeds[f]? = some u → ∃ u', t.feeds[f]? = some u' ∧ (u.done = true → u'.done = true)

def SupStays (k : ℕ) (s t : Feeds) : Prop :=
  ∀ u, s.sups[k]? = some u → ∃ u', t.sups[k]? = some u' ∧ u'.refused = u.refused ∧
    (u.cancelled = true → u'.cancelled = true)

def brokerFeedContract : Contract Feeds BrokerFeedEffect FeedTag where
  rely p s t := match p with
    | .api => True
    | .feed f => FeedStays f s t
    | .sup k => SupStays k s t
  guar p s e := (∀ q ∈ e.owner, q = p) ∧ FeedFacts s e
  idle _ _ := True

theorem FeedStays.refl (f : ℕ) (s : Feeds) : FeedStays f s s := fun u hu => ⟨u, hu, fun h => h⟩

theorem SupStays.refl (k : ℕ) (s : Feeds) : SupStays k s s :=
  fun u hu => ⟨u, hu, rfl, fun h => h⟩

theorem FeedStays.trans {f : ℕ} {r : Feeds} (h : FeedStays f r s) (h' : FeedStays f s t) :
    FeedStays f r t := by
  intro u hu
  obtain ⟨v, hv, hdone⟩ := h u hu
  obtain ⟨w, hw, hdone'⟩ := h' v hv
  exact ⟨w, hw, fun h => hdone' (hdone h)⟩

theorem SupStays.trans {r : Feeds} (h : SupStays k r s) (h' : SupStays k s t) : SupStays k r t := by
  intro u hu
  obtain ⟨v, hv, href, hcan⟩ := h u hu
  obtain ⟨w, hw, href', hcan'⟩ := h' v hv
  exact ⟨w, hw, href'.trans href, fun h => hcan' (hcan h)⟩

theorem onFeed_stays {f : ℕ} {g : FeedTask → FeedTask} (i : ℕ)
    (hg : ∀ u, u.done = true → (g u).done = true) : FeedStays f s (s.onFeed i g) := by
  intro u hu
  by_cases hi : i = f
  · exact ⟨g u, by simp [Feeds.onFeed, hi, hu], hg u⟩
  · exact ⟨u, by simp [Feeds.onFeed, hi, hu], fun h => h⟩

theorem cancelFeed_sups (o : Option ℕ) : (s.cancelFeed o).sups = s.sups := by
  cases o <;> rfl

theorem cancelFeed_stays {f : ℕ} (o : Option ℕ) : FeedStays f s (s.cancelFeed o) := by
  cases o with
  | none => exact .refl f s
  | some i => exact onFeed_stays i fun _ h => h

theorem cancelAll_sups (fs : List ℕ) :
    (fs.foldl (fun s f => Feeds.cancelFeed s (some f)) s).sups = s.sups := by
  induction fs generalizing s with
  | nil => rfl
  | cons f fs ih => exact ih.trans (cancelFeed_sups _)

theorem cancelAll_stays {f : ℕ} (fs : List ℕ) :
    FeedStays f s (fs.foldl (fun s f => Feeds.cancelFeed s (some f)) s) := by
  induction fs generalizing s with
  | nil => exact .refl f s
  | cons i fs ih => exact (cancelFeed_stays (some i)).trans ih

theorem apply_feedStays (f : ℕ) (e : BrokerFeedEffect) (s : Feeds) :
    FeedStays f s (Feeds.apply cfg e s) := by
  cases e with
  | registers b =>
    intro u hu
    have hlt := (List.getElem?_eq_some_iff.mp hu).1
    exact ⟨u, by simp [Feeds.apply, List.getElem?_append_left hlt, hu], fun h => h⟩
  | begins i | ends i => exact onFeed_stays i fun u h => by simp [h]
  | stops b => exact cancelFeed_stays _
  | stopsAll => exact cancelAll_stays _
  | unregisters i =>
    rw [Feeds.apply]
    split
    · exact .refl f s
    · exact .refl f s
  | makes _ | runs _ | supervises _ _ _ | tries _ | returns _ _ | cancels _ | popsActive _
  | setsBackoff _ _ | popsBackoff _ => exact .refl f s

theorem onSup_stays {g : Supervisor → Supervisor} (i : ℕ)
    (href : i = k → ∀ u, (g u).refused = u.refused)
    (hcan : ∀ u, u.cancelled = true → (g u).cancelled = true) : SupStays k s (s.onSup i g) := by
  intro u hu
  by_cases hi : i = k
  · exact ⟨g u, by simp [Feeds.onSup, hi, hu], href hi u, hcan u⟩
  · exact ⟨u, by simp [Feeds.onSup, hi, hu], rfl, fun h => h⟩

theorem SupStays.of_eq (h : t.sups = s.sups) : SupStays k s t := by
  intro u hu
  exact ⟨u, by rw [h, hu], rfl, fun h => h⟩

theorem apply_supStays (h : e ≠ .tries k) (s : Feeds) : SupStays k s (Feeds.apply cfg e s) := by
  cases e with
  | supervises b userId symbols =>
    intro u hu
    have hlt := (List.getElem?_eq_some_iff.mp hu).1
    exact ⟨u, by simp [Feeds.apply, List.getElem?_append_left hlt, hu], rfl, fun h => h⟩
  | tries i => exact onSup_stays i (fun hi => absurd (hi ▸ rfl) h) fun _ h => h
  | returns i ending => exact onSup_stays i (fun _ _ => rfl) fun _ h => h
  | cancels i => exact onSup_stays i (fun _ _ => rfl) fun _ _ => rfl
  | stops b => exact .of_eq (cancelFeed_sups _)
  | stopsAll => exact .of_eq (cancelAll_sups _)
  | unregisters i =>
    rw [Feeds.apply]
    split
    · exact .refl k s
    · exact .refl k s
  | makes _ | runs _ | registers _ | begins _ | ends _ | popsActive _ | setsBackoff _ _
  | popsBackoff _ => exact .refl k s

theorem brokerFeedContract_trans (p : FeedTag) {r : Feeds}
    (h : brokerFeedContract.rely p r s) (h' : brokerFeedContract.rely p s t) :
    brokerFeedContract.rely p r t := by
  cases p with
  | api => trivial
  | feed f => exact FeedStays.trans h h'
  | sup k => exact SupStays.trans h h'

section Text

open BrokerFeeds

variable {f : ℕ} {α : Type}

def FreeOf (cfg : FeedSettings) (p : FeedTag) (q : B α) : Prop :=
  brokerFeedContract.Stays (brokerFeedSystem cfg) p (fun _ => True) q

theorem freeOf_emit (p : FeedTag) (howner : e.owner = none) (hfacts : ∀ s, FeedFacts s e) :
    FreeOf cfg p (emit e) :=
  Contract.Stays.emit fun s _ => ⟨⟨by rw [howner]; simp, hfacts s⟩, trivial⟩

theorem freeOf_wait (p : FeedTag) (i : FeedPoint) : FreeOf cfg p (wait i) :=
  Contract.Stays.wait (fun _ _ _ _ => trivial) i

theorem freeOf_stopEach (p : FeedTag) (brokers : List String) : FreeOf cfg p (stopEach brokers) := by
  induction brokers with
  | nil => exact Contract.Stays.pure ()
  | cons b rest ih => exact Contract.Stays.bind (freeOf_emit p rfl fun _ => trivial) fun _ => ih

theorem freeOf_stopAllFeeds (p : FeedTag) : FreeOf cfg p stopAllFeeds :=
  Contract.Stays.bind Contract.Stays.look fun _ => freeOf_stopEach p _

theorem freeOf_stopFeed (p : FeedTag) (b : String) : FreeOf cfg p (stopFeed b) := by
  have hstop : FreeOf cfg p (do stopBrokerFeed b; emit (.popsBackoff b)) :=
    Contract.Stays.bind (freeOf_emit p rfl fun _ => trivial) fun _ => freeOf_emit p rfl fun _ => trivial
  refine Contract.Stays.bind Contract.Stays.look fun s => ?_
  cases s.activeFeeds.get b with
  | none => exact hstop
  | some k =>
    refine Contract.Stays.bind (freeOf_emit p rfl fun _ => trivial) fun _ => ?_
    refine Contract.Stays.bind (freeOf_emit p rfl fun _ => trivial) fun _ => ?_
    exact Contract.Stays.bind (freeOf_wait p _) fun _ => hstop

theorem freeOf_supervise (p : FeedTag) (userId b : String) (symbols : List String) :
    FreeOf cfg p (supervise userId b symbols) :=
  Contract.Stays.bind (freeOf_emit p rfl fun _ => trivial) fun _ => freeOf_emit p rfl fun _ => trivial

theorem freeOf_startFeed (p : FeedTag) (userId b : String) (symbols : List String) :
    FreeOf cfg p (startFeed userId b symbols) := by
  refine Contract.Stays.bind Contract.Stays.look fun s => ?_
  split
  · exact Contract.Stays.bind (freeOf_stopFeed p b) fun _ => freeOf_supervise p _ _ _
  · exact freeOf_supervise p _ _ _

theorem freeOf_stopEachFeed (p : FeedTag) (brokers : List String) :
    FreeOf cfg p (stopEachFeed brokers) := by
  induction brokers with
  | nil => exact Contract.Stays.pure ()
  | cons b rest ih => exact Contract.Stays.bind (freeOf_stopFeed p b) fun _ => ih

theorem freeOf_stopManager (p : FeedTag) : FreeOf cfg p stopManager := by
  refine Contract.Stays.bind (freeOf_emit p rfl fun _ => trivial) fun _ => ?_
  refine Contract.Stays.bind Contract.Stays.look fun s => ?_
  exact Contract.Stays.bind (freeOf_stopEachFeed p _) fun _ => freeOf_stopAllFeeds p

theorem freeOf_attempt (p : FeedTag) (who : Caller) (what : FeedIo) :
    FreeOf cfg p (attempt who what).run := by
  refine Contract.Stays.bind (freeOf_wait p _) fun r => ?_
  split <;> exact Contract.Stays.pure _

theorem freeOf_bind {α β : Type} {p : FeedTag} {q : RaisingB α} {r : α → RaisingB β}
    (hq : FreeOf cfg p q.run) (hr : ∀ a, FreeOf cfg p (r a).run) : FreeOf cfg p (q >>= r).run := by
  refine Contract.Stays.bind hq fun x => ?_
  cases x with
  | ok a => exact hr a
  | error x => exact Contract.Stays.pure _

theorem freeOf_startBrokerFeed (p : FeedTag) (userId b : String) (symbols : List String) :
    FreeOf cfg p (startBrokerFeed cfg .direct userId b symbols).run := by
  have hemit : ∀ e : BrokerFeedEffect, e.owner = none → (∀ s, FeedFacts s e) →
      FreeOf cfg p (liftM (emit e) : RaisingB Unit).run := fun e howner hfacts =>
    Contract.Stays.bind (freeOf_emit p howner hfacts) fun _ => Contract.Stays.pure _
  refine Contract.Stays.bind Contract.Stays.look fun s => ?_
  split
  · exact Contract.Stays.pure _
  · unfold launchFeed
    split
    · exact Contract.Stays.pure _
    · refine freeOf_bind (hemit _ rfl fun _ => trivial) fun _ => ?_
      refine freeOf_bind (freeOf_attempt p _ _) fun _ => ?_
      refine freeOf_bind (freeOf_attempt p _ _) fun _ => ?_
      exact freeOf_bind (hemit _ rfl fun _ => trivial) fun _ => freeOf_attempt p _ _

theorem does_feedRunner (f : ℕ) (s : Feeds) :
    brokerFeedContract.Does (brokerFeedSystem cfg) (.feed f) (fun _ _ => True) (feedRunner f) s := by
  refine Contract.Does.of_wait fun started t _ hready => ?_
  have hmine : ∃ u, t.feeds[f]? = some u := by
    have hready' := hready
    obtain ⟨u, hu, -⟩ := (Option.any_eq_true _ _).mp hready'
    exact ⟨u, hu⟩
  refine Contract.Does.of_emit ⟨by rintro q ⟨⟩; rfl, trivial⟩ ?_
  obtain ⟨u, hu⟩ := hmine
  have hstays : ∀ s t : Feeds, (∃ u, s.feeds[f]? = some u) → FeedStays f s t →
      ∃ u, t.feeds[f]? = some u := by
    rintro s t ⟨u, hu⟩ hst
    obtain ⟨v, hv, -⟩ := hst u hu
    exact ⟨v, hv⟩
  have hbegun : ∃ u, (Feeds.apply cfg (.begins f) t).feeds[f]? = some u :=
    hstays t _ ⟨u, hu⟩ (apply_feedStays f _ t)
  have hstream : brokerFeedContract.Stays (brokerFeedSystem cfg) (.feed f)
      (fun s => ∃ u, s.feeds[f]? = some u) (streamFeed f started) := by
    cases started with
    | false => exact Contract.Stays.pure ()
    | true => exact Contract.Stays.bind (Contract.Stays.wait hstays _) fun _ =>
        Contract.Stays.wait hstays _
  refine Contract.Does.bind (hstream _ hbegun) fun _ v hv => ?_
  refine Contract.Does.of_emit ⟨by rintro q ⟨⟩; rfl, trivial⟩ ?_
  obtain ⟨v', hv'⟩ := hv
  refine Contract.Does.of_wait fun _ w hw _ => ?_
  have hdone : (Feeds.apply cfg (.ends f) v).feeds[f]? = some { v' with done := true } := by
    simp [Feeds.apply, Feeds.onFeed, hv']
  obtain ⟨w', hw', hwdone⟩ := hw _ hdone
  exact Contract.Does.of_emit ⟨by rintro q ⟨⟩; rfl, w', hw', hwdone rfl⟩ trivial

def CallEnds (k : ℕ) (r : Except Thrown Unit) (s : Feeds) : Prop :=
  match r with
  | .ok () => True
  | .error .cancelled => ∃ sup, s.sups[k]? = some sup ∧ sup.cancelled = true
  | .error (.failed e) => e.saysRunning = true → ∃ sup, s.sups[k]? = some sup ∧ sup.refused = true

def Known (k : ℕ) (s : Feeds) : Prop := ∃ sup, s.sups[k]? = some sup

theorem Known.of_stays (h : Known k s) (hst : SupStays k s t) : Known k t := by
  obtain ⟨u, hu⟩ := h
  obtain ⟨v, hv, -⟩ := hst u hu
  exact ⟨v, hv⟩

/-- `p`, called by the supervisor `k`. -/
def Calls (cfg : FeedSettings) (k : ℕ) (p : RaisingB α) (s : Feeds) : Prop :=
  brokerFeedContract.Does (brokerFeedSystem cfg) (.sup k)
    (fun r t => Known k t ∧ CallEnds k (r.map fun _ => ()) t) p.run s

theorem Calls.bind {β : Type} {p : RaisingB α} {q : α → RaisingB β} (hp : Calls cfg k p s)
    (hq : ∀ a t, Known k t → Calls cfg k (q a) t) : Calls cfg k (p >>= q) s := by
  refine Contract.Does.bind hp fun r t hr => ?_
  cases r with
  | ok a => exact hq a t hr.1
  | error x => exact hr

theorem calls_emit (h : Known k s) (howner : e.owner = none) (hfacts : ∀ s, FeedFacts s e) :
    Calls cfg k (liftM (emit e) : RaisingB Unit) s := by
  refine Contract.Does.of_emit ⟨by rw [howner]; simp, hfacts s⟩ ⟨?_, trivial⟩
  refine h.of_stays (apply_supStays ?_ s)
  rintro rfl
  cases howner

theorem calls_attempt (h : Known k s) (what : FeedIo) :
    Calls cfg k (attempt (.sup k) what) s := by
  refine Contract.Does.of_wait fun (r : IoEnd) t ht hready => ?_
  have hknown : Known k t := h.of_stays ht
  cases r with
  | done => exact ⟨hknown, trivial⟩
  | raised => exact ⟨hknown, trivial⟩
  | cancelled =>
    have hcancelled : (t.sups[k]?.any fun sup => sup.cancelled) = true := by
      simpa [brokerFeedSystem, feedsReady] using hready
    exact ⟨hknown, (Option.any_eq_true _ _).mp hcancelled⟩

theorem calls_startBrokerFeed {sup : Supervisor} {b : String} (userId : String)
    (symbols : List String) (hsup : s.sups[k]? = some sup) (hrefused : sup.refused = s.refuses cfg b) :
    Calls cfg k (startBrokerFeed cfg (.sup k) userId b symbols) s := by
  refine Contract.Does.of_look ?_
  split
  next hmem =>
    refine ⟨⟨sup, hsup⟩, fun _ => ⟨sup, hsup, ?_⟩⟩
    rw [hrefused, Feeds.refuses, hmem, Bool.true_or]
  next hnone =>
    unfold launchFeed
    cases hcreate : cfg.createBroker b with
    | error x =>
      refine ⟨⟨sup, hsup⟩, fun hsays => ⟨sup, hsup, ?_⟩⟩
      have hx : x.saysRunning = true := hsays
      rw [hrefused, Feeds.refuses, hcreate, Bool.or_eq_true]
      exact .inr hx
    | ok u =>
      refine Calls.bind (calls_emit ⟨sup, hsup⟩ rfl fun _ => trivial) fun _ t ht => ?_
      refine Calls.bind (calls_attempt ht _) fun _ t ht => ?_
      refine Calls.bind (calls_attempt ht _) fun _ t ht => ?_
      exact Calls.bind (calls_emit ht rfl fun _ => trivial) fun _ t ht => calls_attempt ht _

theorem does_backOff (k : ℕ) (b : String) (s : Feeds) :
    brokerFeedContract.Does (brokerFeedSystem cfg) (.sup k) (fun _ _ => True) (backOff k b) s := by
  refine Contract.Does.of_look ?_
  split
  next hstopped => exact Contract.Does.of_emit ⟨by rintro q ⟨⟩; rfl, hstopped⟩ trivial
  next => exact Contract.Does.of_emit ⟨by rintro q ⟨⟩, trivial⟩ trivial

theorem does_afterCall {r : Except Thrown Unit} (h : CallEnds k r s) (b : String) :
    brokerFeedContract.Does (brokerFeedSystem cfg) (.sup k) (fun _ _ => True) (afterCall k b r) s := by
  match r with
  | .ok () => exact Contract.Does.of_emit ⟨by rintro q ⟨⟩, trivial⟩ (does_backOff k b _)
  | .error .cancelled => exact Contract.Does.of_emit ⟨by rintro q ⟨⟩; rfl, h⟩ trivial
  | .error (.failed x) =>
    unfold afterCall
    simp only
    split
    next hsays => exact Contract.Does.of_emit ⟨by rintro q ⟨⟩; rfl, h hsays⟩ trivial
    next =>
      split
      · refine Contract.Does.of_emit ⟨by rintro q ⟨⟩, trivial⟩ ?_
        exact Contract.Does.of_emit ⟨by rintro q ⟨⟩; rfl, trivial⟩ trivial
      · exact does_backOff k b s

theorem does_runFeedOnce {sup : Supervisor} (hsup : s.sups[k]? = some sup) :
    brokerFeedContract.Does (brokerFeedSystem cfg) (.sup k) (fun _ _ => True)
      (runFeedOnce cfg k sup) s := by
  unfold runFeedOnce
  split
  next hcan => exact Contract.Does.of_emit ⟨by rintro q ⟨⟩; rfl, sup, hsup, hcan⟩ trivial
  next =>
    refine Contract.Does.of_look ?_
    split
    next hstopped => exact Contract.Does.of_emit ⟨by rintro q ⟨⟩; rfl, hstopped⟩ trivial
    next =>
      refine Contract.Does.of_emit ⟨by rintro q ⟨⟩; rfl, trivial⟩ ?_
      have htried : (Feeds.apply cfg (.tries k) s).sups[k]? =
          some { sup with refused := s.refuses cfg sup.broker } := by
        simp [Feeds.apply, Feeds.onSup, hsup]
      refine Contract.Does.bind (calls_startBrokerFeed sup.userId sup.symbols htried rfl) fun r t hr => ?_
      refine does_afterCall ?_ sup.broker
      have hends := hr.2
      cases r <;> exact hends

theorem brokerFeedContract_sound (cfg : FeedSettings) :
    brokerFeedContract.Sound (brokerFeedSystem cfg) where
  trans p _ _ _ h h' := brokerFeedContract_trans p h h'
  refl p s := by
    cases p with
    | api => trivial
    | feed f => exact .refl f s
    | sup k => exact .refl k s
  idle _ _ _ _ _ := trivial
  others p q s e h hg := by
    cases p with
    | api => trivial
    | feed f => exact apply_feedStays f e s
    | sup k =>
      refine apply_supStays ?_ s
      rintro rfl
      have hpq : FeedTag.sup k = q := hg.1 _ rfl
      simpa [brokerFeedSystem] using h hpq
  env _ _ e h := by cases h
  code c s _ := by
    cases c with
    | startBrokerFeed userId b symbols =>
      exact Contract.Stays.bind (freeOf_startBrokerFeed .api userId b symbols)
        (fun _ => Contract.Stays.pure ()) s trivial
    | feedRunner f => exact does_feedRunner f s
    | stopBrokerFeed b => exact freeOf_emit (e := .stops b) .api rfl (fun _ => trivial) s trivial
    | stopAllFeeds => exact freeOf_stopAllFeeds _ s trivial
    | stopSocket => exact freeOf_emit (e := .stopsAll) .api rfl (fun _ => trivial) s trivial
    | startManager => exact freeOf_emit (e := .runs true) .api rfl (fun _ => trivial) s trivial
    | startFeed userId b symbols => exact freeOf_startFeed _ _ _ _ s trivial
    | runFeedOnce k =>
      refine Contract.Does.of_look ?_
      cases hsup : s.sups[k]? with
      | none => exact trivial
      | some sup =>
        simp only
        split
        · exact trivial
        · exact does_runFeedOnce hsup
    | stopFeed b => exact freeOf_stopFeed _ b s trivial
    | stopManager => exact freeOf_stopManager _ s trivial

end Text

def noFeeds : Pool Feeds BrokerFeedEffect BrokerFeedReply FeedTag := ⟨{}, []⟩

theorem feedFacts_of_run {P : Pool Feeds BrokerFeedEffect BrokerFeedReply FeedTag}
    (h : (brokerFeedSystem cfg).Run noFeeds es P) : Legal (Feeds.apply cfg) FeedFacts {} es := by
  have hholds : brokerFeedContract.Holds (brokerFeedSystem cfg) noFeeds := by
    refine ⟨?_, ?_, .nil, fun _ _ => trivial⟩
    · exact fun t ht => absurd ht List.not_mem_nil
    · exact fun t ht => absurd ht List.not_mem_nil
  refine (Contract.Run.legal (brokerFeedContract_sound cfg) hholds h).1.mono fun s e he => ?_
  rcases he with ⟨p, hp⟩ | henv
  · exact hp.2
  · cases henv

end Contract

section Step

theorem OneFeed.of_old (h : OneFeed s)
    (hold : ∀ (i : ℕ) (u : FeedTask), t.feeds[i]? = some u → u.done = false →
      ∃ v, s.feeds[i]? = some v ∧ v.done = false ∧ v.broker = u.broker)
    (hreg : ∀ (i : ℕ) (u : FeedTask), t.feeds[i]? = some u → u.done = false → u.cancelled = false →
      t.brokerFeeds.get u.broker = some i) : OneFeed t := by
  refine ⟨fun i j u v hu hv hud hvd hb => ?_, hreg⟩
  obtain ⟨u', hu', hud', hub⟩ := hold i u hu hud
  obtain ⟨v', hv', hvd', hvb⟩ := hold j v hv hvd
  exact h.alone i j u' v' hu' hv' hud' hvd' (hub.trans (hb.trans hvb.symm))

theorem onFeed_old {f i : ℕ} {g : FeedTask → FeedTask} {u : FeedTask}
    (hg : ∀ v, (g v).broker = v.broker ∧ (v.done = true → (g v).done = true) ∧
      (v.cancelled = true → (g v).cancelled = true))
    (hu : (s.onFeed f g).feeds[i]? = some u) :
    ∃ v, s.feeds[i]? = some v ∧ v.broker = u.broker ∧ (u.done = false → v.done = false) ∧
      (u.cancelled = false → v.cancelled = false) := by
  simp only [Feeds.onFeed, List.getElem?_modify] at hu
  cases hv : s.feeds[i]? with
  | none => simp [hv] at hu
  | some v =>
    refine ⟨v, rfl, ?_⟩
    by_cases hfi : f = i
    · obtain rfl : g v = u := by simpa [hv, hfi] using hu
      obtain ⟨hb, hd, hc⟩ := hg v
      exact ⟨hb.symm, fun h => by_contra fun hne => by simp [hd (by simpa using hne)] at h,
        fun h => by_contra fun hne => by simp [hc (by simpa using hne)] at h⟩
    · obtain rfl : v = u := by simpa [hv, hfi] using hu
      exact ⟨rfl, fun h => h, fun h => h⟩

theorem OneFeed.onFeed (h : OneFeed s) (f : ℕ) {g : FeedTask → FeedTask}
    (hg : ∀ v, (g v).broker = v.broker ∧ (v.done = true → (g v).done = true) ∧
      (v.cancelled = true → (g v).cancelled = true)) : OneFeed (s.onFeed f g) := by
  refine h.of_old (fun i u hu hud => ?_) fun i u hu hud huc => ?_
  · obtain ⟨v, hv, hb, hd, -⟩ := onFeed_old hg hu
    exact ⟨v, hv, hd hud, hb⟩
  · obtain ⟨v, hv, hb, hd, hc⟩ := onFeed_old hg hu
    rw [← hb]
    exact h.registered i v hv (hd hud) (hc huc)

theorem cancelAll_old {fs : List ℕ} {i : ℕ} {u : FeedTask}
    (hu : (fs.foldl (fun s f => Feeds.cancelFeed s (some f)) s).feeds[i]? = some u) :
    ∃ v, s.feeds[i]? = some v ∧ v.broker = u.broker ∧ (u.done = false → v.done = false) ∧
      (u.cancelled = false → v.cancelled = false ∧ i ∉ fs) := by
  induction fs generalizing s with
  | nil => exact ⟨u, hu, rfl, fun h => h, fun h => ⟨h, List.not_mem_nil⟩⟩
  | cons f fs ih =>
    obtain ⟨w, hw, hwb, hwd, hwc⟩ := ih hu
    obtain ⟨v, hv, hvb, hvd, hvc⟩ := onFeed_old (g := fun t => { t with cancelled := true })
      (fun v => ⟨rfl, fun h => h, fun _ => rfl⟩) hw
    refine ⟨v, hv, hvb.trans hwb, fun h => hvd (hwd h), fun h => ⟨hvc (hwc h).1, ?_⟩⟩
    rintro (_ | ⟨_, hmem⟩)
    · simp only [Feeds.cancelFeed, Feeds.onFeed, List.getElem?_modify, hv] at hw
      obtain rfl : { v with cancelled := true } = w := by simpa using hw
      exact absurd (hwc h).1 (by simp)
    · exact (hwc h).2 hmem

theorem OneFeed.stops (h : OneFeed s) (b : String) : OneFeed (Feeds.apply cfg (.stops b) s) := by
  have hold : ∀ i u, (Feeds.apply cfg (.stops b) s).feeds[i]? = some u →
      ∃ v, s.feeds[i]? = some v ∧ v.broker = u.broker ∧ (u.done = false → v.done = false) ∧
        (u.cancelled = false → v.cancelled = false ∧ s.brokerFeeds.get b ≠ some i) := by
    intro i u hu
    change (s.cancelFeed (s.brokerFeeds.get b)).feeds[i]? = some u at hu
    cases hf : s.brokerFeeds.get b with
    | none =>
      rw [hf] at hu
      exact ⟨u, hu, rfl, fun h => h, fun h => ⟨h, by simp⟩⟩
    | some f =>
      rw [hf] at hu
      have hone : ([f].foldl (fun s f => Feeds.cancelFeed s (some f)) s).feeds[i]? = some u := hu
      obtain ⟨v, hv, hb, hd, hc⟩ := cancelAll_old hone
      exact ⟨v, hv, hb, hd, fun h => ⟨(hc h).1, fun heq => (hc h).2 (by simp [Option.some.inj heq])⟩⟩
  refine h.of_old (fun i u hu hud => ?_) fun i u hu hud huc => ?_
  · obtain ⟨v, hv, hb, hd, -⟩ := hold i u hu
    exact ⟨v, hv, hd hud, hb⟩
  · obtain ⟨v, hv, hb, hd, hc⟩ := hold i u hu
    have hreg := h.registered i v hv (hd hud) (hc huc).1
    have hne : u.broker ≠ b := by
      rintro rfl
      exact (hc huc).2 (hb ▸ hreg)
    change (s.brokerFeeds.pop b).get u.broker = some i
    rw [Dict.get_pop, if_neg hne, ← hb]
    exact hreg

theorem OneFeed.stopsAll (h : OneFeed s) : OneFeed (Feeds.apply cfg .stopsAll s) := by
  refine h.of_old (fun i u hu hud => ?_) fun i u hu hud huc => ?_
  · obtain ⟨v, hv, hb, hd, -⟩ := cancelAll_old hu
    exact ⟨v, hv, hd hud, hb⟩
  · obtain ⟨v, hv, hb, hd, hc⟩ := cancelAll_old hu
    have hreg := h.registered i v hv (hd hud) (hc huc).1
    exact absurd (List.mem_map_of_mem (Dict.mem_of_get hreg)) (hc huc).2

theorem OneFeed.registers (h : OneFeed s) {b : String} (hcareful : Careful cfg s (.registers b)) :
    OneFeed (Feeds.apply cfg (.registers b) s) := by
  have hnew : ∀ (i : ℕ) (u : FeedTask), (s.feeds ++ [({ broker := b } : FeedTask)])[i]? = some u →
      s.feeds[i]? = some u ∨ i = s.feeds.length ∧ u = { broker := b } := by
    intro i u hu
    rcases Nat.lt_or_ge i s.feeds.length with hlt | hge
    · rw [List.getElem?_append_left hlt] at hu
      exact .inl hu
    · rw [List.getElem?_append_right hge] at hu
      have hi : i - s.feeds.length = 0 := by
        have hlt := (List.getElem?_eq_some_iff.mp hu).1
        simpa using hlt
      rw [hi] at hu
      exact .inr ⟨by omega, (Option.some.inj hu).symm⟩
  have hother : ∀ (i : ℕ) (u : FeedTask), s.feeds[i]? = some u → u.done = false → u.broker ≠ b := by
    rintro i u hu hud rfl
    rw [hcareful u (List.mem_of_getElem? hu) rfl] at hud
    cases hud
  constructor
  · intro i j u v hu hv hud hvd hb
    rcases hnew i u hu with hu | ⟨rfl, rfl⟩
    · rcases hnew j v hv with hv | ⟨rfl, rfl⟩
      · exact h.alone i j u v hu hv hud hvd hb
      · exact absurd hb (hother i u hu hud)
    · rcases hnew j v hv with hv | ⟨rfl, rfl⟩
      · exact absurd hb.symm (hother j v hv hvd)
      · rfl
  · intro i u hu hud huc
    change (s.brokerFeeds.set b s.feeds.length).get u.broker = some i
    rw [Dict.get_set]
    rcases hnew i u hu with hu | ⟨rfl, rfl⟩
    · rw [if_neg (hother i u hu hud)]
      exact h.registered i u hu hud huc
    · rw [if_pos rfl]

theorem OneFeed.unregisters (h : OneFeed s) {f : ℕ} (hfacts : FeedFacts s (.unregisters f))
    (hcareful : Careful cfg s (.unregisters f)) : OneFeed (Feeds.apply cfg (.unregisters f) s) := by
  obtain ⟨u, hu, -⟩ := hfacts
  simp only [Feeds.apply, hu]
  refine ⟨h.alone, fun i v hv hvd hvc => ?_⟩
  have hreg := h.registered i v hv hvd hvc
  have hne : v.broker ≠ u.broker := by
    intro hb
    rw [hb] at hreg
    rcases hcareful u hu i hreg v hv with hd | hc
    · rw [hvd] at hd
      cases hd
    · rw [hvc] at hc
      cases hc
  change (s.brokerFeeds.pop u.broker).get v.broker = some i
  rw [Dict.get_pop, if_neg hne]
  exact hreg

theorem OneFeed.step (h : OneFeed s) (hfacts : FeedFacts s e) (hcareful : Careful cfg s e) :
    OneFeed (Feeds.apply cfg e s) := by
  cases e with
  | registers b => exact h.registers hcareful
  | unregisters f => exact h.unregisters hfacts hcareful
  | stops b => exact h.stops b
  | stopsAll => exact h.stopsAll
  | begins f => exact h.onFeed f fun v => ⟨rfl, fun h => h, fun h => h⟩
  | ends f => exact h.onFeed f fun v => ⟨rfl, fun _ => rfl, fun h => h⟩
  | makes _ | runs _ | supervises _ _ _ | tries _ | returns _ _ | cancels _ | popsActive _
  | setsBackoff _ _ | popsBackoff _ => exact ⟨h.alone, h.registered⟩

def NoneRefused (s : Feeds) : Prop := ∀ sup ∈ s.sups, sup.refused = false

theorem NoneRefused.onSup (h : NoneRefused s) {i : ℕ} {g : Supervisor → Supervisor}
    (hg : ∀ u, s.sups[i]? = some u → (g u).refused = false) : NoneRefused (s.onSup i g) := by
  intro u hu
  obtain ⟨j, hj⟩ := List.mem_iff_getElem?.mp hu
  simp only [Feeds.onSup, List.getElem?_modify] at hj
  cases hv : s.sups[j]? with
  | none => simp [hv] at hj
  | some v =>
    by_cases hij : i = j
    · obtain rfl : g v = u := by simpa [hv, hij] using hj
      exact hg v (hij ▸ hv)
    · obtain rfl : v = u := by simpa [hv, hij] using hj
      exact h v (List.mem_of_getElem? hv)

theorem NoneRefused.step (h : NoneRefused s) (hcareful : Careful cfg s e) :
    NoneRefused (Feeds.apply cfg e s) := by
  have hmem : ∀ {i : ℕ} {u : Supervisor}, s.sups[i]? = some u → u.refused = false :=
    fun hu => h _ (List.mem_of_getElem? hu)
  cases e with
  | tries k => exact h.onSup fun u hu => hcareful u hu
  | returns k ending => exact h.onSup fun u hu => (hmem hu : u.refused = false)
  | cancels k => exact h.onSup fun u hu => (hmem hu : u.refused = false)
  | supervises b userId symbols =>
    intro u hu
    rcases List.mem_append.mp hu with hu | hu
    · exact h u hu
    · rw [List.mem_singleton.mp hu]
  | stops b =>
    intro u hu
    exact h u ((cancelFeed_sups (s.brokerFeeds.get b)) ▸ hu)
  | stopsAll =>
    intro u hu
    exact h u ((cancelAll_sups s.brokerFeeds.values) ▸ hu)
  | unregisters f =>
    intro u hu
    refine h u ?_
    rw [Feeds.apply] at hu
    split at hu <;> exact hu
  | makes _ | registers _ | runs _ | begins _ | ends _ | popsActive _ | setsBackoff _ _
  | popsBackoff _ => exact h

end Step

/-- While the manager is running a supervisor returns only on a permanent error or when
`stop_feed` has cancelled it. -/
def ReturnsAsTold (cfg : FeedSettings) (es : List BrokerFeedEffect) : Prop :=
  ∀ before k ending after, es = before ++ .returns k ending :: after →
    (replay (Feeds.apply cfg) {} before).running = true →
      ending = .permanent ∨ ending = .cancelled ∧
        ∃ sup, (replay (Feeds.apply cfg) {} before).sups[k]? = some sup ∧ sup.cancelled = true

/-- The next round of a supervisor that has not returned starts its feed when it is not
registered. -/
def StartsAgain (cfg : FeedSettings) (P : Pool Feeds BrokerFeedEffect BrokerFeedReply FeedTag) :
    Prop :=
  ∀ (k : ℕ) (sup : Supervisor), P.state.sups[k]? = some sup → sup.ended = none →
    sup.cancelled = false → P.state.running = true →
    P.state.brokerFeeds.get sup.broker = none → cfg.createBroker sup.broker = .ok () →
    (∀ t ∈ P.tasks, t.tag ≠ .sup k) →
      ∃ fs P', (brokerFeedSystem cfg).step P (.start (.runFeedOnce k)) = some (fs, P') ∧
        fs = [.tries k, .makes sup.broker] ∧ ∃ t ∈ P'.tasks, t.tag = .sup k

structure FeedLaw (cfg : FeedSettings) (es : List BrokerFeedEffect)
    (P : Pool Feeds BrokerFeedEffect BrokerFeedReply FeedTag) : Prop where
  oneFeed : Always (Feeds.apply cfg) OneFeed {} es
  returns : ReturnsAsTold cfg es
  startsAgain : StartsAgain cfg P

section Advance

open BrokerFeeds

theorem advance_startBrokerFeed {α : Type} {b : String} (who : Caller) (userId : String)
    (symbols : List String)
    (hget : s.brokerFeeds.get b = none) (hcreate : cfg.createBroker b = .ok ())
    (f : Except Thrown Unit → B α) :
    ∃ s' i q, ((startBrokerFeed cfg who userId b symbols).run >>= f).advance (Feeds.apply cfg) s =
      ([.makes b], s', .await i q) := by
  refine ⟨Feeds.apply cfg (.makes b) s, .io who (.credentials userId b), ?_⟩
  change ∃ q, Proc.advance _ (Proc.bind (if (s.brokerFeeds.get b).isSome then _
    else (launchFeed cfg who userId b symbols).run) f) s = _
  rw [hget, if_neg (by simp), launchFeed, hcreate]
  exact ⟨_, rfl⟩

theorem advance_round {sup : Supervisor} (hsup : s.sups[k]? = some sup) (hended : sup.ended = none)
    (hcan : sup.cancelled = false) (hrunning : s.running = true)
    (hget : s.brokerFeeds.get sup.broker = none) (hcreate : cfg.createBroker sup.broker = .ok ()) :
    ∃ s' i q, (FeedCall.code cfg (.runFeedOnce k)).advance (Feeds.apply cfg) s =
      ([.tries k, .makes sup.broker], s', .await i q) := by
  have hget' : (Feeds.apply cfg (.tries k) s).brokerFeeds.get sup.broker = none := hget
  obtain ⟨s', i, q, hadv⟩ := advance_startBrokerFeed (.sup k) sup.userId sup.symbols hget' hcreate
    (afterCall k sup.broker)
  refine ⟨s', i, q, ?_⟩
  have hcode : (FeedCall.code cfg (.runFeedOnce k)).advance (Feeds.apply cfg) s =
      (runFeedOnce cfg k sup).advance (Feeds.apply cfg) s := by
    simp only [FeedCall.code, look, Bind.bind, Proc.bind, Proc.look, Proc.advance, hsup, hended,
      Option.isSome_none, Bool.false_eq_true, if_false]
  rw [hcode]
  rw [runFeedOnce, hcan]
  change Proc.advance _ (if s.running = false then _ else _) s = _
  rw [hrunning]
  exact congrArg (fun x => (BrokerFeedEffect.tries k :: x.1, x.2)) hadv

end Advance

theorem startsAgain (P : Pool Feeds BrokerFeedEffect BrokerFeedReply FeedTag) :
    StartsAgain cfg P := by
  intro k sup hsup hended hcan hrunning hget hcreate htag
  have hadmits : (brokerFeedSystem cfg).admits (.runFeedOnce k) P.tasks = true := by
    simp only [System.admits, List.all_eq_true]
    intro t ht
    have hne : FeedTag.sup k ≠ t.tag := fun h => htag t ht h.symm
    simp [brokerFeedSystem, FeedCall.tag, hne]
  obtain ⟨s', i, q, hadv⟩ := advance_round hsup hended hcan hrunning hget hcreate
  have hrest : ((brokerFeedSystem cfg).code (.runFeedOnce k)).advance (brokerFeedSystem cfg).apply
      P.state = ([.tries k, .makes sup.broker], s', .await i q) := hadv
  refine ⟨_, _, if_pos hadmits, congrArg Prod.fst hadv, ⟨.sup k, .await i q⟩, ?_, rfl⟩
  simp only [hrest]
  exact List.mem_append_right _ List.mem_cons_self

/-- In a run whose steps are careful every state has one feed for each type, registered, and
a supervisor returns as told. -/
theorem feeds_law {P : Pool Feeds BrokerFeedEffect BrokerFeedReply FeedTag}
    (h : (brokerFeedSystem cfg).Run noFeeds es P)
    (hcareful : Legal (Feeds.apply cfg) (Careful cfg) {} es) : FeedLaw cfg es P := by
  have hlegal := (feedFacts_of_run h).and hcareful
  have hstart : OneFeed {} ∧ NoneRefused {} :=
    ⟨⟨fun i j u v hu => by simp at hu, fun i u hu => by simp at hu⟩, fun u hu => by simp at hu⟩
  have hstep : ∀ s e, OneFeed s ∧ NoneRefused s → FeedFacts s e ∧ Careful cfg s e →
      OneFeed (Feeds.apply cfg e s) ∧ NoneRefused (Feeds.apply cfg e s) :=
    fun s e hs he => ⟨hs.1.step he.1 he.2, hs.2.step he.2⟩
  refine ⟨(hlegal.always hstep hstart).mono fun s hs => hs.1, ?_, startsAgain P⟩
  rintro before k ending after rfl hrunning
  have hnone := ((hlegal.always hstep hstart) before (List.prefix_append _ _)).2
  have hfacts := hlegal.at.1
  cases ending with
  | permanent => exact .inl rfl
  | cancelled => exact .inr ⟨rfl, hfacts⟩
  | shutDown =>
    have hstopped : (replay (Feeds.apply cfg) {} before).running = false := hfacts
    rw [hrunning] at hstopped
    cases hstopped
  | alreadyRunning =>
    obtain ⟨sup, hsup, hrefused⟩ := hfacts
    rw [hnone sup (List.mem_of_getElem? hsup)] at hrefused
    cases hrefused

instance careful_decidable (cfg : FeedSettings) (s : Feeds) (e : BrokerFeedEffect) :
    Decidable (Careful cfg s e) := by
  apply BrokerFeedEffect.casesOn (motive := fun e => Decidable (Careful cfg s e)) e <;> intros <;>
    (dsimp only [Careful]; infer_instance)

def feedAnswer (r : IoEnd) : (i : FeedPoint) → BrokerFeedReply i
  | .io _ _ => r
  | .turn _ => true
  | .stream _ => r
  | .disconnect _ | .callback _ | .joined _ => ()

/-- A supervised feed whose stream ends between two rounds of its supervisor runs again. -/
theorem feeds_law_restarted :
    ∃ es P, (brokerFeedSystem ⟨fun _ => .ok ()⟩).Run noFeeds es P ∧
      (Legal (Feeds.apply ⟨fun _ => .ok ()⟩) (Careful ⟨fun _ => .ok ()⟩) {} es ∧
        P.state.brokerFeeds = [("fyers", 1)]) ∧ FeedLaw ⟨fun _ => .ok ()⟩ es P := by
  have hrun := System.exists_run (brokerFeedSystem ⟨fun _ => .ok ()⟩) noFeeds
    (p := fun es P => Legal (Feeds.apply ⟨fun _ => .ok ()⟩) (Careful ⟨fun _ => .ok ()⟩) {} es ∧
      P.state.brokerFeeds = [("fyers", 1)])
    [.start .startManager, .start (.startFeed "u1" "fyers" ["NIFTY"]), .start (.runFeedOnce 0),
      .resume 0 (feedAnswer .done), .resume 0 (feedAnswer .raised), .start (.feedRunner 0),
      .resume 0 (feedAnswer .done), .resume 0 (feedAnswer .done), .resume 0 (feedAnswer .done),
      .resume 0 (feedAnswer .done), .resume 0 (feedAnswer .done), .start (.runFeedOnce 0),
      .resume 0 (feedAnswer .done), .resume 0 (feedAnswer .done)]
    (by decide)
  obtain ⟨es, P, hrun, hp⟩ := hrun
  exact ⟨es, P, hrun, hp, feeds_law hrun hp.1⟩

/-- Two starts side by side run two feeds; the callback of a stopped feed takes out the one
started after it; and a supervisor whose feed still runs when it wakes returns. -/
theorem feeds_unlawful :
    (∃ es P, (brokerFeedSystem ⟨fun _ => .ok ()⟩).Run noFeeds es P ∧
      P.state.feeds = [⟨"fyers", true, false, false⟩, ⟨"fyers", true, false, false⟩] ∧
        ¬OneFeed P.state) ∧
    (∃ es P, (brokerFeedSystem ⟨fun _ => .ok ()⟩).Run noFeeds es P ∧
      (P.state.feeds = [⟨"fyers", true, true, true⟩, ⟨"fyers", true, false, false⟩] ∧
        P.state.brokerFeeds = []) ∧ ¬OneFeed P.state) ∧
    ∃ es P, (brokerFeedSystem ⟨fun _ => .ok ()⟩).Run noFeeds es P ∧
      ¬ReturnsAsTold ⟨fun _ => .ok ()⟩ es := by
  refine ⟨?_, ?_, ?_⟩
  · obtain ⟨es, P, hrun, hp⟩ := System.exists_run (brokerFeedSystem ⟨fun _ => .ok ()⟩) noFeeds
      (p := fun _ P => P.state.feeds =
        [⟨"fyers", true, false, false⟩, ⟨"fyers", true, false, false⟩])
      [.start (.startBrokerFeed "u1" "fyers" []), .start (.startBrokerFeed "u1" "fyers" []),
        .resume 0 (feedAnswer .done), .resume 0 (feedAnswer .done), .resume 1 (feedAnswer .done),
        .resume 1 (feedAnswer .done), .start (.feedRunner 0), .start (.feedRunner 1),
        .resume 2 (feedAnswer .done), .resume 3 (feedAnswer .done)]
      (by decide)
    refine ⟨es, P, hrun, hp, fun hone => ?_⟩
    have hsame := hone.alone 0 1 _ _ (by rw [hp]; rfl) (by rw [hp]; rfl) rfl rfl rfl
    cases hsame
  · obtain ⟨es, P, hrun, hp⟩ := System.exists_run (brokerFeedSystem ⟨fun _ => .ok ()⟩) noFeeds
      (p := fun _ P => P.state.feeds =
        [⟨"fyers", true, true, true⟩, ⟨"fyers", true, false, false⟩] ∧ P.state.brokerFeeds = [])
      [.start (.startBrokerFeed "u1" "fyers" []), .resume 0 (feedAnswer .done),
        .resume 0 (feedAnswer .done), .resume 0 (feedAnswer .done), .start (.feedRunner 0),
        .resume 0 (feedAnswer .done), .start (.stopBrokerFeed "fyers"),
        .start (.startBrokerFeed "u1" "fyers" []), .resume 1 (feedAnswer .done),
        .resume 1 (feedAnswer .done), .resume 1 (feedAnswer .done), .start (.feedRunner 1),
        .resume 1 (feedAnswer .done), .resume 0 (feedAnswer .cancelled),
        .resume 0 (feedAnswer .done), .resume 0 (feedAnswer .done)]
      (by decide)
    refine ⟨es, P, hrun, hp, fun hone => ?_⟩
    have hreg := hone.registered 1 _ (by rw [hp.1]; rfl) rfl rfl
    rw [hp.2] at hreg
    cases hreg
  · obtain ⟨es, P, hrun, hp⟩ := System.exists_run (brokerFeedSystem ⟨fun _ => .ok ()⟩) noFeeds
      (p := fun es _ => es = es.dropLast ++ [.returns 0 .alreadyRunning] ∧
        (replay (Feeds.apply ⟨fun _ => .ok ()⟩) {} es.dropLast).running = true)
      [.start .startManager, .start (.startFeed "u1" "fyers" []), .start (.runFeedOnce 0),
        .resume 0 (feedAnswer .done), .resume 0 (feedAnswer .done), .resume 0 (feedAnswer .done),
        .start (.runFeedOnce 0)]
      (by decide)
    refine ⟨es, P, hrun, fun htold => ?_⟩
    rcases htold _ 0 .alreadyRunning [] hp.1 hp.2 with hends | ⟨hends, -⟩
    · cases hends
    · cases hends

end Trademetrix.Market
