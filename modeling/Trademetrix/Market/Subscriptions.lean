import Trademetrix.Market.Feed
import Trademetrix.Market.FeedContract

/-!
# Subscription frames

The builders leave no subscription out and put none in: an instrument stands in
a frame of a request code exactly when a subscription has that code and that
identity. Put on a socket one after the other, the frames of a set make its
pairs live, and an unsubscription frame takes out the pairs it names.
-/

namespace Trademetrix.Market

theorem flatten_batches {α : Type} {n : ℕ} (hn : 0 < n) (fuel : ℕ) (xs : List α)
    (h : xs.length ≤ fuel) : (batches n fuel xs).flatten = xs := by
  induction fuel generalizing xs with
  | zero =>
    have hnil : xs = [] := List.length_eq_zero_iff.mp (Nat.le_zero.mp h)
    rw [hnil]
    rfl
  | succ fuel ih =>
    cases xs with
    | nil => rfl
    | cons x xs =>
      have hrest : ((x :: xs).drop n).length ≤ fuel := by
        rw [List.length_drop]
        simp only [List.length_cons] at h ⊢
        omega
      rw [batches, List.flatten_cons, ih _ hrest, List.take_append_drop]
      nofun

section Groups

variable (code : DhanSubscription → ℕ)

theorem get_byCode (subs : List DhanSubscription) (c : ℕ) :
    ((byCode code subs).get c).getD [] = subs.filter fun sub => code sub = c := by
  suffices hgen : ∀ d : Dict ℕ (List DhanSubscription),
      ((subs.foldl (fun d sub => d.set (code sub) ((d.get (code sub)).getD [] ++ [sub])) d).get c).getD
        [] = (d.get c).getD [] ++ subs.filter fun sub => code sub = c by
    exact hgen []
  induction subs with
  | nil => intro d; simp
  | cons sub subs ih =>
    intro d
    rw [List.foldl_cons, ih, Dict.get_set, List.filter_cons]
    by_cases hc : c = code sub
    · subst hc
      simp
    · simp [hc, Ne.symm hc]

theorem mem_keys_byCode {subs : List DhanSubscription} {sub : DhanSubscription} (h : sub ∈ subs) :
    code sub ∈ (byCode code subs).map Prod.fst := by
  by_contra hnot
  have hget := get_byCode code subs (code sub)
  rw [Dict.get_eq_none.mpr hnot, Option.getD_none] at hget
  have hmem : sub ∈ subs.filter fun s => code s = code sub := by simp [h]
  rw [← hget] at hmem
  cases hmem

theorem mem_buildFrames {subs : List DhanSubscription} {c : ℕ} {i : Identity} :
    (∃ frame ∈ buildFrames code subs, frame.requestCode = c ∧ i ∈ frame.instrumentList) ↔
      ∃ sub ∈ subs, code sub = c ∧ sub.identity = i := by
  have hbatch : ∀ c', (batches maxInstrumentsPerFrame
      (((byCode code subs).get c').getD []).length (((byCode code subs).get c').getD [])).flatten =
        subs.filter fun sub => code sub = c' := by
    intro c'
    rw [flatten_batches (by decide) _ _ le_rfl, get_byCode]
  constructor
  · rintro ⟨frame, hframe, rfl, hi⟩
    simp only [buildFrames, List.mem_flatMap, List.mem_map] at hframe
    obtain ⟨c', -, chunk, hchunk, rfl⟩ := hframe
    obtain ⟨sub, hsub, rfl⟩ := List.mem_map.mp hi
    have hmem : sub ∈ subs.filter fun sub => code sub = c' := by
      rw [← hbatch c']
      exact List.mem_flatten.mpr ⟨chunk, hchunk, hsub⟩
    simp only [List.mem_filter, decide_eq_true_eq] at hmem
    exact ⟨sub, hmem.1, hmem.2, rfl⟩
  · rintro ⟨sub, hsub, rfl, rfl⟩
    have hmem : sub ∈ subs.filter fun s => code s = code sub := by simp [hsub]
    rw [← hbatch (code sub)] at hmem
    obtain ⟨chunk, hchunk, hin⟩ := List.mem_flatten.mp hmem
    refine ⟨⟨code sub, chunk.map DhanSubscription.identity⟩, ?_, rfl, List.mem_map_of_mem hin⟩
    have hkey := (List.mem_insertionSort (· ≤ ·)).mpr (mem_keys_byCode code hsub)
    refine List.mem_flatMap.mpr ⟨code sub, hkey, ?_⟩
    exact List.mem_map.mpr ⟨chunk, hchunk, rfl⟩

theorem code_of_mem_keys {subs : List DhanSubscription} {c : ℕ}
    (h : c ∈ (byCode code subs).map Prod.fst) : ∃ sub ∈ subs, code sub = c := by
  suffices hgen : ∀ d : Dict ℕ (List DhanSubscription),
      c ∈ (subs.foldl (fun d sub => d.set (code sub) ((d.get (code sub)).getD [] ++ [sub])) d).map
        Prod.fst → c ∈ d.map Prod.fst ∨ ∃ sub ∈ subs, code sub = c by
    exact (hgen [] h).resolve_left (by simp)
  clear h
  induction subs with
  | nil => exact fun d hd => .inl hd
  | cons sub subs ih =>
    intro d hd
    rcases ih _ hd with hmem | ⟨s, hs, rfl⟩
    · rw [Dict.keys_set] at hmem
      split at hmem
      · exact .inl hmem
      · rcases List.mem_append.mp hmem with hold | hnew
        · exact .inl hold
        · exact .inr ⟨sub, List.mem_cons_self, (List.mem_singleton.mp hnew).symm⟩
    · exact .inr ⟨s, List.mem_cons_of_mem _ hs, rfl⟩

theorem requestCode_of_mem {subs : List DhanSubscription} {frame : InstrumentFrame}
    (h : frame ∈ buildFrames code subs) : ∃ sub ∈ subs, code sub = frame.requestCode := by
  obtain ⟨c, hc, hframe⟩ := List.mem_flatMap.mp h
  obtain ⟨chunk, -, rfl⟩ := List.mem_map.mp hframe
  exact code_of_mem_keys code ((List.mem_insertionSort (· ≤ ·)).mp hc)

end Groups

theorem feedModeToRequestCode_injective {m m' : FeedMode}
    (h : feedModeToRequestCode m = feedModeToRequestCode m') : m = m' := by
  cases m <;> cases m' <;> first | rfl | cases h

def InstrumentFrame.Adds (frame : InstrumentFrame) (p : Identity × FeedMode) : Prop :=
  frame.requestCode = feedModeToRequestCode p.2 ∧ p.1 ∈ frame.instrumentList

def InstrumentFrame.Drops (frame : InstrumentFrame) (p : Identity × FeedMode) : Prop :=
  frame.requestCode = feedModeToRequestCode p.2 + unsubscribeCodeOffset ∧
    p.1 ∈ frame.instrumentList

variable {frame : InstrumentFrame} {live : List (Identity × FeedMode)} {p : Identity × FeedMode}

theorem mem_obey_of_subscribe {m : FeedMode} (h : frame.requestCode = feedModeToRequestCode m) :
    p ∈ frame.obey live ↔ p ∈ live ∨ frame.Adds p := by
  obtain ⟨i, m'⟩ := p
  obtain ⟨c, is⟩ := frame
  cases h
  cases m <;> cases m' <;>
    simp [InstrumentFrame.obey, InstrumentFrame.Adds, feedModeToRequestCode]

theorem mem_obey_of_unsubscribe {m : FeedMode}
    (h : frame.requestCode = feedModeToRequestCode m + unsubscribeCodeOffset) :
    p ∈ frame.obey live ↔ p ∈ live ∧ ¬ frame.Drops p := by
  obtain ⟨i, m'⟩ := p
  obtain ⟨c, is⟩ := frame
  cases h
  cases m <;> cases m' <;>
    simp [InstrumentFrame.obey, InstrumentFrame.Drops, feedModeToRequestCode, unsubscribeCodeOffset]

theorem adds_buildSubscribeFrame {subs : List DhanSubscription} :
    (∃ frame ∈ buildSubscribeFrame subs, frame.Adds p) ↔ p ∈ subs.map DhanSubscription.key := by
  refine (mem_buildFrames DhanSubscription.requestCode).trans ?_
  rw [List.mem_map]
  refine exists_congr fun sub => and_congr_right fun _ => ?_
  constructor
  · rintro ⟨hcode, hidentity⟩
    exact Prod.ext hidentity (feedModeToRequestCode_injective hcode)
  · rintro rfl
    exact ⟨rfl, rfl⟩

theorem drops_buildUnsubscribeFrame {subs : List DhanSubscription} :
    (∃ frame ∈ buildUnsubscribeFrame subs, frame.Drops p) ↔
      p ∈ subs.map DhanSubscription.key := by
  refine (mem_buildFrames _).trans ?_
  rw [List.mem_map]
  refine exists_congr fun sub => and_congr_right fun _ => ?_
  constructor
  · rintro ⟨hcode, hidentity⟩
    exact Prod.ext hidentity (feedModeToRequestCode_injective (Nat.add_right_cancel hcode))
  · rintro rfl
    exact ⟨rfl, rfl⟩

theorem code_of_mem_subscribe {subs : List DhanSubscription}
    (h : frame ∈ buildSubscribeFrame subs) : ∃ m, frame.requestCode = feedModeToRequestCode m := by
  obtain ⟨sub, -, hcode⟩ := requestCode_of_mem _ h
  exact ⟨sub.mode, hcode.symm⟩

theorem code_of_mem_unsubscribe {subs : List DhanSubscription}
    (h : frame ∈ buildUnsubscribeFrame subs) :
    ∃ m, frame.requestCode = feedModeToRequestCode m + unsubscribeCodeOffset := by
  obtain ⟨sub, -, hcode⟩ := requestCode_of_mem _ h
  exact ⟨sub.mode, hcode.symm⟩

end Trademetrix.Market

/-!
# The desired set and the socket

While the frames of the desired set are being sent, what is live and what the
remaining frames add make up the desired set; so a READY feed has on its socket
what it wants. `subscribe`, `unsubscribe` and `clear_subscriptions` send nothing
themselves, and `unsubscribe_now` takes an identity out of `acknowledged` with any
of its modes: they keep the two together where `KeepsToSocket` says.
-/

namespace Trademetrix.Market

open Trademetrix.Async

variable {F : Type} {flt : SinglePrecision F} {s : Feed F} {e : Effect F}

def Feed.desired (s : Feed F) : List (Identity × FeedMode) := s.subscriptions.map Prod.fst

/-- In READY the socket carries the desired set and `acknowledged` its identities. -/
def OnSocket (s : Feed F) : Prop :=
  s.state = .ready → ∃ live, s.ws = some live ∧ (∀ p, p ∈ live ↔ p ∈ s.desired) ∧
    ∀ i, i ∈ s.acknowledged ↔ i ∈ s.identities

def DesiredOnly (s : Feed F) : Effect F → Prop
  | .event e => (e.exchangeSegment, e.securityId) ∈ s.identities
  | _ => True

def Feed.Bound (s : Feed F) : Prop := s.state = .ready ∨ ¬ s.Quiet

def quoteIdentity (flt : SinglePrecision F) (data : List UInt8) : Option Identity :=
  match parsePacket flt 0 data with
  | .ok (.event e) => some (e.exchangeSegment, e.securityId)
  | _ => none

/-- While the set is bound the methods that send nothing change nothing, and in READY
`unsubscribe_now` needs one frame only and takes out all modes of an identity; quotes come
for desired identities only. -/
def KeepsToSocket (flt : SinglePrecision F) (s : Feed F) : Effect F → Prop
  | .subscribed subs => s.Bound → ∀ sub ∈ subs, (s.subscriptions.get sub.key).isSome
  | .unsubscribed subs => s.Bound → s.removedBy subs = []
  | .cleared => s.Bound → s.subscriptions = []
  | .withdrawn subs =>
    (¬ s.Quiet → s.removedBy subs = []) ∧
      (s.state = .ready → (s.unsubscribeFrames subs).length ≤ 1 ∧
        ∀ sub ∈ s.removedBy subs, sub.identity ∉ (s.unsubscribe subs).identities)
  | .withdrawnMore _ => False
  | .received (.binary data) => ∀ i ∈ quoteIdentity flt data, i ∈ s.identities
  | _ => True

def Feed.Keyed (s : Feed F) : Prop := ∀ p ∈ s.subscriptions, p.2.key = p.1

structure SocketInvariant (flt : SinglePrecision F) (s : Feed F) : Prop where
  keyed : s.Keyed
  ready : OnSocket s
  sending : ∀ frames, s.phase = .sending frames → s.state ≠ .ready ∧ ∃ live, s.ws = some live ∧
    (∀ frame ∈ frames, ∃ m, frame.requestCode = feedModeToRequestCode m) ∧
    ∀ p, (p ∈ live ∨ ∃ frame ∈ frames, frame.Adds p) ↔ p ∈ s.desired
  handling : ∀ data stopped desired, s.phase = .handling (.binary data) stopped desired →
    ∀ i ∈ quoteIdentity flt data, i ∈ desired

theorem map_key_values (h : s.Keyed) : s.subscriptions.values.map DhanSubscription.key = s.desired := by
  rw [Dict.values, List.map_map, Feed.desired]
  exact List.map_congr_left fun p hp => h p hp

theorem mem_identities (h : s.Keyed) {i : Identity} :
    i ∈ s.identities ↔ ∃ m, (i, m) ∈ s.desired := by
  rw [← map_key_values h]
  simp only [Feed.identities, List.mem_map]
  constructor
  · rintro ⟨sub, hsub, rfl⟩
    exact ⟨sub.mode, sub, hsub, rfl⟩
  · rintro ⟨m, sub, hsub, hkey⟩
    exact ⟨sub, hsub, congrArg Prod.fst hkey⟩

theorem withdraw_of_nil {d : Dict (Identity × FeedMode) DhanSubscription}
    {subs : List DhanSubscription} (h : (Feed.withdraw d subs).1 = []) :
    (Feed.withdraw d subs).2 = d := by
  induction subs generalizing d with
  | nil => rfl
  | cons sub subs ih =>
    simp only [Feed.withdraw] at h ⊢
    split at h
    · cases h
    next habsent =>
    have hnone : d.get sub.key = none := by simpa using habsent
    have hpop : d.pop sub.key = d := by
      refine Dict.pop_of_forall_ne fun p hp heq => ?_
      exact Dict.get_eq_none.mp hnone (heq ▸ List.mem_map_of_mem hp)
    rw [hpop] at h ⊢
    rw [if_neg habsent]
    exact ih h

theorem withdraw_sublist (d : Dict (Identity × FeedMode) DhanSubscription)
    (subs : List DhanSubscription) : (Feed.withdraw d subs).2.Sublist d := by
  induction subs generalizing d with
  | nil => exact List.Sublist.refl d
  | cons sub subs ih =>
    have hrest := (ih (d.pop sub.key)).trans List.filter_sublist
    simp only [Feed.withdraw]
    split <;> exact hrest

theorem mem_withdraw (d : Dict (Identity × FeedMode) DhanSubscription)
    (subs : List DhanSubscription) (p : Identity × FeedMode) :
    (p ∈ (Feed.withdraw d subs).1.map DhanSubscription.key ↔
      p ∈ d.map Prod.fst ∧ p ∈ subs.map DhanSubscription.key) ∧
    (p ∈ (Feed.withdraw d subs).2.map Prod.fst ↔
      p ∈ d.map Prod.fst ∧ p ∉ subs.map DhanSubscription.key) := by
  induction subs generalizing d with
  | nil => simp [Feed.withdraw]
  | cons sub subs ih =>
    obtain ⟨hout, hleft⟩ := ih (d.pop sub.key)
    have hpop : p ∈ (d.pop sub.key).map Prod.fst ↔ p ∈ d.map Prod.fst ∧ p ≠ sub.key := by
      simp only [Dict.pop, List.mem_map, List.mem_filter, decide_eq_true_eq]
      grind
    have hpresent : (d.get sub.key).isSome = true ↔ sub.key ∈ d.map Prod.fst := by
      rw [Option.isSome_iff_ne_none, ne_eq, Dict.get_eq_none, not_not]
    simp only [Feed.withdraw]
    split
    · next hin =>
      have hkey := hpresent.mp hin
      simp only [List.map_cons, List.mem_cons, hout, hleft, hpop]
      by_cases hp : p = sub.key
      · subst hp
        simp [hkey]
      · simp [hp]
    · next hin =>
      have hkey : sub.key ∉ d.map Prod.fst := fun h => hin (hpresent.mpr h)
      simp only [List.map_cons, List.mem_cons, hout, hleft, hpop]
      by_cases hp : p = sub.key
      · subst hp
        simp [hkey]
      · simp [hp]

theorem subscribe_of_present {subs : List DhanSubscription}
    (h : ∀ sub ∈ subs, (s.subscriptions.get sub.key).isSome) :
    (s.subscribe subs).subscriptions = s.subscriptions := by
  suffices hgen : ∀ d : Dict (Identity × FeedMode) DhanSubscription,
      (∀ sub ∈ subs, (d.get sub.key).isSome) →
        subs.foldl (fun d sub => if (d.get sub.key).isSome then d else d.set sub.key sub) d = d by
    exact hgen _ h
  clear h
  induction subs with
  | nil => exact fun d _ => rfl
  | cons sub subs ih =>
    intro d hd
    rw [List.foldl_cons, if_pos (hd sub List.mem_cons_self)]
    exact ih d fun sub' hsub' => hd sub' (List.mem_cons_of_mem _ hsub')

theorem keyed_subscribe (h : s.Keyed) (subs : List DhanSubscription) : (s.subscribe subs).Keyed := by
  suffices hgen : ∀ d : Dict (Identity × FeedMode) DhanSubscription,
      (∀ p ∈ d, p.2.key = p.1) → ∀ p ∈ subs.foldl
        (fun d sub => if (d.get sub.key).isSome then d else d.set sub.key sub) d, p.2.key = p.1 by
    exact hgen _ h
  clear h
  induction subs with
  | nil => exact fun d hd => hd
  | cons sub subs ih =>
    intro d hd
    rw [List.foldl_cons]
    refine ih _ fun p hp => ?_
    split at hp
    · exact hd p hp
    · rcases Dict.mem_set hp with rfl | hp
      · rfl
      · exact hd p hp

theorem SocketInvariant.of_same {t : Feed F} (h : SocketInvariant flt s)
    (hsubs : t.subscriptions = s.subscriptions) (hws : t.ws = s.ws)
    (hack : t.acknowledged = s.acknowledged) (hready : t.state = .ready → s.state = .ready)
    (hphase : t.phase = s.phase ∨ t.phase = .off ∨ t.phase = .round ∨ t.phase = .pumping) :
    SocketInvariant flt t := by
  have hdesired : t.desired = s.desired := congrArg (List.map Prod.fst) hsubs
  have hidentities : t.identities = s.identities :=
    congrArg (fun d => List.map DhanSubscription.identity (Dict.values d)) hsubs
  refine ⟨?_, ?_, ?_, ?_⟩
  · intro p hp
    exact h.keyed p (hsubs ▸ hp)
  · intro ht
    obtain ⟨live, hlive, hsame, hacks⟩ := h.ready (hready ht)
    exact ⟨live, hws.trans hlive, hdesired ▸ hsame, by rwa [hack, hidentities]⟩
  · intro frames ht
    have hs : s.phase = .sending frames := by
      rcases hphase with hp | hp | hp | hp
      · rwa [hp] at ht
      all_goals rw [hp] at ht; cases ht
    obtain ⟨hnot, live, hlive, hcodes, hsame⟩ := h.sending frames hs
    exact ⟨fun ht => hnot (hready ht), live, hws.trans hlive, hcodes, hdesired ▸ hsame⟩
  · intro data stopped desired ht
    refine h.handling data stopped desired ?_
    rcases hphase with hp | hp | hp | hp
    · rwa [hp] at ht
    all_goals rw [hp] at ht; cases ht

theorem SocketInvariant.of_unbound {t : Feed F} (h : SocketInvariant flt s) (hkeyed : t.Keyed)
    (hready : t.state ≠ .ready) (hquiet : t.Quiet) (hphase : t.phase = s.phase) :
    SocketInvariant flt t where
  keyed := hkeyed
  ready ht := absurd ht hready
  sending frames ht := absurd ht (hquiet frames)
  handling data stopped desired ht := h.handling data stopped desired (hphase ▸ ht)

theorem invariant_sending (h : SocketInvariant flt s) {frames : List InstrumentFrame}
    (hws : s.ws = some []) (hready : s.state ≠ .ready)
    (hframes : frames = buildSubscribeFrame s.subscriptions.values) :
    SocketInvariant flt (s.apply (.sending frames)) where
  keyed := h.keyed
  ready ht := absurd ht hready
  sending frames' ht := by
    cases ht
    refine ⟨hready, [], hws, ?_, fun p => ?_⟩
    · subst hframes
      exact fun frame hframe => code_of_mem_subscribe hframe
    · subst hframes
      rw [adds_buildSubscribeFrame, map_key_values h.keyed]
      simp [Feed.apply, Feed.desired]
  handling _ _ _ ht := by cases ht

theorem invariant_sent (h : SocketInvariant flt s) {frame : InstrumentFrame}
    {frames : List InstrumentFrame} (hphase : s.phase = .sending (frame :: frames)) :
    SocketInvariant flt (s.apply (.sent frame)) := by
  obtain ⟨hnot, live, hws, hcodes, hsame⟩ := h.sending _ hphase
  obtain ⟨m, hm⟩ := hcodes frame List.mem_cons_self
  have happly : s.apply (.sent frame) = { s.send frame with phase := .sending frames } := by
    simp [Feed.apply, hphase]
  rw [happly]
  refine ⟨h.keyed, fun ht => absurd ht hnot, fun frames' ht => ?_, fun _ _ _ ht => by cases ht⟩
  cases ht
  refine ⟨hnot, frame.obey live, by simp [Feed.send, hws], fun f hf => hcodes f (List.mem_cons_of_mem _ hf), ?_⟩
  intro p
  rw [mem_obey_of_subscribe hm, or_assoc]
  refine Iff.trans ?_ (hsame p)
  simp only [List.mem_cons, exists_eq_or_imp]

theorem invariant_ready (h : SocketInvariant flt s) {reason : String}
    (hphase : s.phase = .sending []) : SocketInvariant flt (s.apply (.ready reason)) where
  keyed := h.keyed
  ready _ := by
    obtain ⟨-, live, hws, -, hsame⟩ := h.sending [] hphase
    refine ⟨live, hws, fun p => ?_, fun i => Iff.rfl⟩
    exact (by simpa using hsame p : p ∈ live ↔ p ∈ s.desired)
  sending _ ht := by cases ht
  handling _ _ _ ht := by cases ht

theorem invariant_received (h : SocketInvariant flt s) {raw : RawFrame}
    (hcareful : KeepsToSocket flt s (.received raw)) :
    SocketInvariant flt (s.apply (.received raw)) where
  keyed := h.keyed
  ready := h.ready
  sending _ ht := by cases ht
  handling data stopped desired ht := by
    cases ht
    exact hcareful

theorem keyed_withdraw (h : s.Keyed) (subs : List DhanSubscription) : (s.unsubscribe subs).Keyed :=
  fun p hp => h p ((withdraw_sublist s.subscriptions subs).subset hp)

theorem mem_desired_unsubscribe (s : Feed F) (subs : List DhanSubscription)
    (p : Identity × FeedMode) : p ∈ (s.unsubscribe subs).desired ↔
      p ∈ s.desired ∧ p ∉ (s.removedBy subs).map DhanSubscription.key := by
  obtain ⟨hout, hleft⟩ := mem_withdraw s.subscriptions subs p
  refine hleft.trans ?_
  rw [show s.removedBy subs = (Feed.withdraw s.subscriptions subs).1 from rfl, hout]
  simp only [Feed.desired]
  tauto

theorem unsubscribe_of_nil {subs : List DhanSubscription} (h : s.removedBy subs = []) :
    (s.unsubscribe subs).subscriptions = s.subscriptions := withdraw_of_nil h

theorem apply_withdrawn_of_nil {subs : List DhanSubscription} (h : s.removedBy subs = []) :
    s.apply (.withdrawn subs) = s := by
  have hframes : s.unsubscribeFrames subs = [] := by simp [Feed.unsubscribeFrames, h]
  have hsubs := unsubscribe_of_nil h
  simp only [Feed.unsubscribe] at hsubs
  simp [Feed.apply, h, hframes, Feed.unsubscribe, hsubs]

theorem invariant_withdrawn_ready (h : SocketInvariant flt s) {subs : List DhanSubscription}
    (hready : s.state = .ready) (hne : s.removedBy subs ≠ [])
    (hone : (s.unsubscribeFrames subs).length ≤ 1)
    (halone : ∀ sub ∈ s.removedBy subs, sub.identity ∉ (s.unsubscribe subs).identities) :
    SocketInvariant flt (s.apply (.withdrawn subs)) := by
  obtain ⟨live, hws, hlive, hack⟩ := h.ready hready
  have hframes : s.unsubscribeFrames subs = buildUnsubscribeFrame (s.removedBy subs) := by
    simp [Feed.unsubscribeFrames, hne, hws, hready]
  -- the frames name the removed pairs, so there is exactly one
  obtain ⟨sub, hsub⟩ := List.exists_mem_of_ne_nil _ hne
  obtain ⟨frame, hframe, -⟩ := drops_buildUnsubscribeFrame.mpr
    (List.mem_map_of_mem hsub : sub.key ∈ (s.removedBy subs).map DhanSubscription.key)
  have hsingle : buildUnsubscribeFrame (s.removedBy subs) = [frame] := by
    rw [hframes] at hone
    obtain ⟨only, honly⟩ := List.length_eq_one_iff.mp
      (le_antisymm hone (List.length_pos_of_mem hframe))
    rw [honly, List.mem_singleton] at hframe
    rw [honly, hframe]
  have hdrops : ∀ p, frame.Drops p ↔ p ∈ (s.removedBy subs).map DhanSubscription.key := by
    intro p
    rw [← drops_buildUnsubscribeFrame, hsingle]
    simp
  obtain ⟨m, hm⟩ := code_of_mem_unsubscribe hframe
  have happly : s.apply (.withdrawn subs) = Feed.send { s.unsubscribe subs with
      acknowledged := s.acknowledged.filter
        fun i => i ∉ (s.removedBy subs).map DhanSubscription.identity } frame := by
    simp [Feed.apply, hframes, hsingle]
  have hkeyed : (s.unsubscribe subs).Keyed := keyed_withdraw h.keyed subs
  have hquiet : ∀ frames, s.phase ≠ .sending frames := fun frames hp => (h.sending frames hp).1 hready
  rw [happly]
  refine ⟨hkeyed, fun _ => ?_, fun frames ht => absurd ht (hquiet frames), h.handling⟩
  refine ⟨frame.obey live, by simp [Feed.send, Feed.unsubscribe, hws], fun p => ?_, fun i => ?_⟩
  · rw [mem_obey_of_unsubscribe hm, hdrops, hlive]
    exact (mem_desired_unsubscribe s subs p).symm
  · have hids : i ∈ (s.unsubscribe subs).identities ↔
        i ∈ s.identities ∧ i ∉ (s.removedBy subs).map DhanSubscription.identity := by
      rw [mem_identities hkeyed, mem_identities h.keyed]
      constructor
      · rintro ⟨m, hin⟩
        refine ⟨⟨m, ((mem_desired_unsubscribe s subs _).mp hin).1⟩, fun hmem => ?_⟩
        obtain ⟨r, hr, rfl⟩ := List.mem_map.mp hmem
        exact halone r hr ((mem_identities hkeyed).mpr ⟨m, hin⟩)
      · rintro ⟨⟨m, hin⟩, hnot⟩
        refine ⟨m, (mem_desired_unsubscribe s subs _).mpr ⟨hin, fun hmem => ?_⟩⟩
        obtain ⟨r, hr, hkey⟩ := List.mem_map.mp hmem
        exact hnot (List.mem_map.mpr ⟨r, hr, congrArg Prod.fst hkey⟩)
    simp only [send_acknowledged, List.mem_filter, decide_eq_true_eq, hack]
    exact hids.symm

theorem invariant_withdrawn (h : SocketInvariant flt s) {subs : List DhanSubscription}
    (hcareful : KeepsToSocket flt s (.withdrawn subs)) :
    SocketInvariant flt (s.apply (.withdrawn subs)) := by
  obtain ⟨hsending, hready⟩ := hcareful
  by_cases hnil : s.removedBy subs = []
  · rwa [apply_withdrawn_of_nil hnil]
  by_cases hr : s.state = .ready
  · exact invariant_withdrawn_ready h hr hnil (hready hr).1 (hready hr).2
  have hquiet : s.Quiet := by
    by_contra hq
    exact hnil (hsending hq)
  have hframes : s.unsubscribeFrames subs = [] := by simp [Feed.unsubscribeFrames, hr]
  refine h.of_unbound ?_ ?_ ?_ ?_ <;> simp only [Feed.apply, hframes, List.head?_nil]
  · exact keyed_withdraw h.keyed subs
  · exact hr
  · exact hquiet
  · rfl

theorem invariant_changed (h : SocketInvariant flt s) {t : Feed F} (hkeyed : t.Keyed)
    (hws : t.ws = s.ws) (hack : t.acknowledged = s.acknowledged) (hstate : t.state = s.state)
    (hphase : t.phase = s.phase) (hbound : s.Bound → t.subscriptions = s.subscriptions) :
    SocketInvariant flt t := by
  by_cases hb : s.Bound
  · exact h.of_same (hbound hb) hws hack (fun ht => hstate ▸ ht) (.inl hphase)
  · have hnot : s.state ≠ .ready := fun hr => hb (.inl hr)
    have hquiet : s.Quiet := by
      by_contra hq
      exact hb (.inr hq)
    exact h.of_unbound hkeyed (hstate ▸ hnot) (hquiet.of_phase hphase) hphase

theorem invariant_cleared (h : SocketInvariant flt s) (hcareful : KeepsToSocket flt s .cleared) :
    SocketInvariant flt (s.apply .cleared) := by
  have hkeyed : (s.apply .cleared).Keyed := fun p hp => absurd hp List.not_mem_nil
  by_cases hr : s.state = .ready
  · -- the set is empty already, and so is what is acknowledged
    obtain ⟨live, hws, hlive, hack⟩ := h.ready hr
    have hempty : s.subscriptions = [] := hcareful (.inl hr)
    refine ⟨hkeyed, fun _ => ⟨live, hws, ?_, fun i => Iff.rfl⟩, ?_, h.handling⟩
    · simpa [Feed.desired, Feed.apply, hempty] using hlive
    · exact fun frames hp => absurd hr (h.sending frames hp).1
  by_cases hq : s.Quiet
  · exact h.of_unbound hkeyed hr hq rfl
  have hempty : s.subscriptions = [] := hcareful (.inr hq)
  refine ⟨hkeyed, fun ht => absurd ht hr, fun frames hp => ?_, h.handling⟩
  obtain ⟨hnot, live, hws, hcodes, hsame⟩ := h.sending frames hp
  exact ⟨hnot, live, hws, hcodes, by simpa [Feed.desired, Feed.apply, hempty] using hsame⟩

theorem socketInvariant_step (hs : SocketInvariant flt s) (hgranted : Granted flt s e)
    (hcareful : KeepsToSocket flt s e) : SocketInvariant flt (s.apply e) := by
  rcases hgranted with ⟨session, hg⟩ | henv
  · cases e with
    | setState state reason =>
      exact hs.of_same rfl rfl rfl (fun ht => absurd ht hg.2) (.inl rfl)
    | lastError | started | attempt | reconnecting | disconnected | event =>
      exact hs.of_same rfl rfl rfl id (.inl rfl)
    | tested =>
      refine hs.of_same rfl rfl rfl id ?_
      cases hstop : s.stop <;> simp [Feed.apply, hstop]
    | abandoned => exact hs.of_same rfl rfl rfl id (.inr (.inl rfl))
    | handled => exact hs.of_same rfl rfl rfl id (.inr (.inr (.inr rfl)))
    | opened | detached => exact hs.of_unbound hs.keyed hg.2.1 hg.2.2 rfl
    | sending frames => exact invariant_sending hs hg.2.1 hg.2.2.1 hg.2.2.2
    | sent frame =>
      obtain ⟨-, frames, hphase⟩ := hg
      exact invariant_sent hs hphase
    | ready reason => exact invariant_ready hs hg.2
    | received raw => exact invariant_received hs hcareful
    | withdrawn subs => exact invariant_withdrawn hs hcareful
    | withdrawnMore frame => exact hcareful.elim
    | subscribed | unsubscribed | cleared | stop => exact hg.elim
  · cases e with
    | subscribed subs =>
      exact invariant_changed hs (keyed_subscribe hs.keyed subs) rfl rfl rfl rfl
        fun hb => subscribe_of_present (hcareful hb)
    | unsubscribed subs =>
      exact invariant_changed hs (keyed_withdraw hs.keyed subs) rfl rfl rfl rfl
        fun hb => unsubscribe_of_nil (hcareful hb)
    | cleared => exact invariant_cleared hs hcareful
    | stop => exact hs.of_same rfl rfl rfl (by rintro ⟨⟩) (.inl rfl)
    | _ => cases henv

theorem desiredOnly (hs : SocketInvariant flt s) (hgranted : Granted flt s e) : DesiredOnly s e := by
  cases e with
  | event ev =>
    rcases hgranted with ⟨session, -, data, now, hphase, hparse⟩ | henv
    · obtain ⟨ev', hparse', hsegment, hid⟩ := identity_of_parsePacket flt now 0 hparse
      refine hs.handling data _ _ hphase _ ?_
      simp [quoteIdentity, hparse', hsegment, hid]
    · cases henv
  | _ => trivial

/-- Subscriptions, connects, reconnects and frames in any order: where the set keeps to the
socket, a READY feed has on its socket what it wants, and only quotes it wants are stored
and handed over. -/
theorem ready_onSocket {es : List (Effect F)} {P : Pool (Feed F) (Effect F) Reply Bool}
    (h : (feedSystem flt).Run ⟨Feed.new F, []⟩ es P)
    (hcareful : Legal Feed.apply (KeepsToSocket flt) (Feed.new F) es) :
    Always Feed.apply OnSocket (Feed.new F) es ∧ Legal Feed.apply DesiredOnly (Feed.new F) es := by
  have hnew : SocketInvariant flt (Feed.new F) :=
    ⟨fun _ hp => absurd hp List.not_mem_nil, nofun, nofun, nofun⟩
  have hboth := (feed_granted h).and hcareful
  have hstep : ∀ s e, SocketInvariant flt s → Granted flt s e ∧ KeepsToSocket flt s e →
      SocketInvariant flt (s.apply e) := fun s e hs he => socketInvariant_step hs he.1 he.2
  refine ⟨(hboth.always hstep hnew).mono fun _ hs => hs.ready, ?_⟩
  exact (hboth.with_invariant hstep hnew).mono fun s e he => desiredOnly he.1 he.2.1

instance (s : Feed F) : Decidable s.Quiet :=
  match h : s.phase with
  | .sending frames => isFalse fun hq => hq frames h
  | .off | .round | .pumping | .handling _ _ _ => isTrue fun frames => by rw [h]; nofun

instance (s : Feed F) : Decidable s.Bound := inferInstanceAs (Decidable (_ ∨ _))

instance : ∀ (s : Feed F) (e : Effect F), Decidable (KeepsToSocket flt s e)
  | s, .subscribed subs =>
    inferInstanceAs (Decidable (s.Bound → ∀ sub ∈ subs, (s.subscriptions.get sub.key).isSome))
  | s, .unsubscribed subs => inferInstanceAs (Decidable (s.Bound → s.removedBy subs = []))
  | s, .cleared => inferInstanceAs (Decidable (s.Bound → s.subscriptions = []))
  | s, .withdrawn subs =>
    inferInstanceAs (Decidable ((¬ s.Quiet → s.removedBy subs = []) ∧
      (s.state = .ready → (s.unsubscribeFrames subs).length ≤ 1 ∧
        ∀ sub ∈ s.removedBy subs, sub.identity ∉ (s.unsubscribe subs).identities)))
  | _, .withdrawnMore _ => isFalse id
  | s, .received (.binary data) =>
    inferInstanceAs (Decidable (∀ i ∈ quoteIdentity flt data, i ∈ s.identities))
  | _, .received (.text _) | _, .attempt _ | _, .setState _ _ | _, .lastError _ | _, .started
  | _, .tested | _, .opened | _, .sending _ | _, .sent _ | _, .abandoned | _, .ready _
  | _, .handled | _, .disconnected _ | _, .event _ | _, .reconnecting | _, .detached
  | _, .stop => isTrue trivial

def firstSubscription : DhanSubscription := ⟨"NSE_FNO", "1", .ticker, by decide, by decide⟩

def secondSubscription : DhanSubscription := ⟨"NSE_FNO", "2", .ticker, by decide, by decide⟩

/-- Two instruments are subscribed before the connect, a ticker of the first comes, and the
second is unsubscribed. -/
theorem ready_onSocket_two : ∃ es P, (feedSystem exampleBits).Run ⟨Feed.new UInt32, []⟩ es P ∧
    P.state.state = .ready ∧ P.state.quotes.length = 1 ∧ P.state.subscriptions.length = 1 ∧
    Always Feed.apply OnSocket (Feed.new UInt32) es ∧
    Legal Feed.apply DesiredOnly (Feed.new UInt32) es := by
  obtain ⟨es, P, hrun, ⟨hready, hquotes, hsubs⟩, hcareful⟩ := System.exists_run
    (feedSystem exampleBits) ⟨Feed.new UInt32, []⟩
    ([.env (.subscribed [firstSubscription, secondSubscription])] ++
      runWith (.binary [2, 16, 0, 2, 1, 0, 0, 0, 7, 0, 0, 0, 9, 0, 0, 0]) 3 ++
      [.start (.unsubscribeNow [secondSubscription])])
    (p := fun es P => (P.state.state = .ready ∧ P.state.quotes.length = 1 ∧
      P.state.subscriptions.length = 1) ∧
        Legal Feed.apply (KeepsToSocket exampleBits) (Feed.new UInt32) es)
    (by decide)
  exact ⟨es, P, hrun, hready, hquotes, hsubs, ready_onSocket hrun hcareful⟩

/-- What is subscribed in READY is not sent. -/
theorem subscribed_in_ready_not_sent :
    ¬ ∀ (es : List (Effect UInt32)) (P : Pool (Feed UInt32) (Effect UInt32) Reply Bool),
      (feedSystem exampleBits).Run ⟨Feed.new UInt32, []⟩ es P →
        Always Feed.apply OnSocket (Feed.new UInt32) es ∧
        Legal Feed.apply DesiredOnly (Feed.new UInt32) es := by
  intro hall
  obtain ⟨es, P, hrun, hready, hws, hdesired⟩ := System.exists_run (feedSystem exampleBits)
    ⟨Feed.new UInt32, []⟩
    [.start .connectOnce, .resume 0 (feedReply (.text .other)),
      .env (.subscribed [firstSubscription])]
    (p := fun _ P => P.state.state = .ready ∧ P.state.ws = some [] ∧
      P.state.desired = [(("NSE_FNO", "1"), .ticker)]) (by decide)
  have hend := (hall es P hrun).1 es List.prefix_rfl
  have hstate : P.state = replay Feed.apply (Feed.new UInt32) es := System.Run.state hrun
  rw [← hstate] at hend
  obtain ⟨live, hlive, hsame, -⟩ := hend hready
  rw [hws] at hlive
  cases hlive
  have hmem := (hsame (("NSE_FNO", "1"), .ticker)).mpr (by rw [hdesired]; simp)
  cases hmem

end Trademetrix.Market
