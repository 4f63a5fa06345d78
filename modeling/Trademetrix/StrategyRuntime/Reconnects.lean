import Trademetrix.Run
import Trademetrix.StrategyRuntime.Calls
import Trademetrix.StrategyRuntime.Halts

/-!
# Broker disconnects and reconnects

Which broker's disconnect each strategy is paused for, along calls made one after another.
A reconnect goes by the pause reason and the broker in the record, and it ends at the first
strategy whose state does not allow a resumption.
-/

namespace Trademetrix.StrategyRuntime

open Trademetrix.Async Proc

structure Attributed where
  runtime : Runtime
  cause : String → Option String

def Verb.disconnected : Verb → Option String
  | .brokerDisconnect broker => some broker
  | _ => none

def Effect.onCause (v : Verb) (e : Effect) (cause : String → Option String) :
    String → Option String :=
  match e with
  | .paused id _ => Function.update cause id v.disconnected
  | .prepared _ spec | .adopted spec _ => Function.update cause spec.strategyId none
  | .reset _ id | .starting id | .running _ id | .stopped id | .resumed id | .failed id =>
    Function.update cause id none
  | .crash => fun _ => none
  | _ => cause

namespace Attributed

def apply (v : Verb) (x : Attributed) (e : Effect) : Attributed :=
  ⟨x.runtime.apply e, e.onCause v x.cause⟩

def step (x : Attributed) (c : Verb × List Effect) : Attributed := c.2.foldl (apply c.1) x

def begun (s : Runtime) : Attributed := ⟨{ s with registry := [] }, fun _ => none⟩

def Calls (x : Attributed) (c : Verb × List Effect) : Prop :=
  ∃ t out, Goes Runtime.apply (c.1.run 0) x.runtime c.2 t (some out)

end Attributed

def RuntimeRecord.resumed (r : RuntimeRecord) : RuntimeRecord :=
  { r with state := .running, pausedReason := "" }

def RuntimeRecord.waitsFor (broker : String) (r : RuntimeRecord) : Prop :=
  r.spec.broker = broker ∧ r.pausedReason = "broker_disconnect"

instance (broker : String) (r : RuntimeRecord) : Decidable (r.waitsFor broker) :=
  inferInstanceAs (Decidable (_ ∧ _))

def RuntimeRecord.resumable (r : RuntimeRecord) : Bool := canTransition r.state .running

def waiting (broker : String) (d : Dict String RuntimeRecord) : Dict String RuntimeRecord :=
  d.filter fun p => p.2.waitsFor broker

def due (broker : String) (d : Dict String RuntimeRecord) : List String :=
  ((waiting broker d).takeWhile fun p => p.2.resumable).map Prod.fst

def heldUp (broker : String) (d : Dict String RuntimeRecord) : List String :=
  ((waiting broker d).dropWhile fun p => p.2.resumable).map Prod.fst

/-- A reconnect resumes the strategies that are paused for the broker's disconnect, and leaves
all others as they are. -/
def Attributed.ResumesExactly (x : Attributed) (c : Verb × List Effect) : Prop :=
  ∀ broker, c.1 = .brokerReconnect broker → ∀ id,
    (x.step c).runtime.registry.get id = (x.runtime.registry.get id).map fun r =>
      if r.state = .paused ∧ x.cause id = some broker then r.resumed else r

/-- Under it it does: of the strategies it comes to, those before the first that cannot be resumed
are paused for the broker's disconnect, and none from there on is. -/
def Attributed.InOrder (x : Attributed) (c : Verb × List Effect) : Prop :=
  ∀ broker, c.1 = .brokerReconnect broker →
    (∀ id ∈ due broker x.runtime.registry, x.cause id = some broker) ∧
      ∀ id ∈ heldUp broker x.runtime.registry, x.cause id ≠ some broker

section Soundness

variable {s : Runtime} {v : Verb} {e : Effect} {id broker : String}

def Runtime.Filed (s : Runtime) : Prop :=
  ∀ id r, s.registry.get id = some r → r.spec.strategyId = id

theorem Runtime.Filed.apply (h : s.Filed) (e : Effect) : (s.apply e).Filed := by
  intro id r hr
  rcases onRegistry_cases hr with hd | ⟨f, r', hc, hd, rfl⟩ | ⟨n, rfl, -⟩ | ⟨n, rfl⟩
  · exact h id r hd
  · rw [change_spec hc]
    exact h id r' hd
  · by_contra hne
    refine hne (h id r ?_)
    change ((Effect.prepared n r.spec).onRegistry s.registry).get id = some r at hr
    unfold Effect.onRegistry at hr
    dsimp only at hr
    split at hr <;> simpa [Dict.get_set, Ne.symm hne] using hr
  · by_contra hne
    refine hne (h id r ?_)
    change ((Effect.adopted r.spec n).onRegistry s.registry).get id = some r at hr
    simpa [Effect.onRegistry, Dict.get_set, Ne.symm hne] using hr

theorem nodup_keys_apply (h : (s.registry.map Prod.fst).Nodup) (e : Effect) :
    ((s.apply e).registry.map Prod.fst).Nodup := by
  have hchanged : ((e.changed s.registry).map Prod.fst).Nodup := by
    unfold Effect.changed
    split
    · exact h
    · exact Dict.nodup_keys_modify h _ _
  change ((e.onRegistry s.registry).map Prod.fst).Nodup
  cases e with
  | prepared n spec =>
    unfold Effect.onRegistry
    dsimp only
    split <;> exact Dict.nodup_keys_set h _ _
  | adopted spec n => exact Dict.nodup_keys_set h _ _
  | crash => exact List.nodup_nil
  | _ => exact hchanged

def Runtime.HeldFor (s : Runtime) (broker id : String) : Prop :=
  ∃ r, s.registry.get id = some r ∧ r.state = .paused ∧ r.spec.broker = broker ∧
    r.pausedReason = "broker_disconnect"

def Verb.Allows (v : Verb) (s : Runtime) (e : Effect) : Prop :=
  ∀ broker id reason, v.disconnected = some broker → e = .paused id reason →
    reason = "broker_disconnect" ∧ ∃ r, s.registry.get id = some r ∧ r.spec.broker = broker

structure Attributed.Sound (x : Attributed) : Prop where
  keys : (x.runtime.registry.map Prod.fst).Nodup
  filed : x.runtime.Filed
  held : ∀ id broker, x.cause id = some broker → x.runtime.HeldFor broker id

theorem Runtime.HeldFor.of_get {t : Runtime} (h : s.HeldFor broker id)
    (ht : t.registry.get id = s.registry.get id) : t.HeldFor broker id := by
  unfold Runtime.HeldFor at h ⊢
  rwa [ht]

theorem Runtime.HeldFor.of_change {q : String} {f : RuntimeRecord → RuntimeRecord}
    (h : s.HeldFor broker id) (hregistry : e.onRegistry s.registry = s.registry.modify q f)
    (hf : q ≠ id ∨ ∀ r, (f r).state = r.state ∧ (f r).spec = r.spec ∧
      (f r).pausedReason = r.pausedReason) : (s.apply e).HeldFor broker id := by
  obtain ⟨r, hr, hstate, hbroker, hreason⟩ := h
  have hget : (s.apply e).registry.get id = if id = q then (s.registry.get q).map f
      else s.registry.get id := by
    change (e.onRegistry s.registry).get id = _
    rw [hregistry, Dict.get_modify]
  by_cases hq : id = q
  · subst hq
    obtain ⟨hfstate, hfspec, hfreason⟩ := hf.resolve_left (fun hne => hne rfl) r
    refine ⟨f r, ?_, by rw [hfstate, hstate], by rw [hfspec, hbroker], by rw [hfreason, hreason]⟩
    rw [hget, if_pos rfl, hr]
    rfl
  · exact ⟨r, by rw [hget, if_neg hq, hr], hstate, hbroker, hreason⟩

theorem Attributed.Sound.apply {x : Attributed} (h : x.Sound) (hallows : v.Allows x.runtime e) :
    (x.apply v e).Sound := by
  refine ⟨nodup_keys_apply h.keys e, h.filed.apply e, fun id broker hcause => ?_⟩
  change (x.runtime.apply e).HeldFor broker id
  change e.onCause v x.cause id = some broker at hcause
  have hothers : ∀ {q : String} {o : Option String},
      Function.update x.cause q o id = some broker → q ≠ id → x.runtime.HeldFor broker id := by
    intro q o hupdate hne
    rw [Function.update_of_ne (Ne.symm hne)] at hupdate
    exact h.held id broker hupdate
  have hnone : ∀ {q : String}, Function.update x.cause q none id = some broker → q ≠ id := by
    rintro q hupdate rfl
    rw [Function.update_self] at hupdate
    cases hupdate
  cases e with
  | paused q reason =>
    by_cases hq : q = id
    · subst hq
      change Function.update x.cause q v.disconnected q = some broker at hcause
      rw [Function.update_self] at hcause
      obtain ⟨rfl, r, hr, hbroker⟩ := hallows broker q reason hcause rfl
      refine ⟨{ r with state := .paused, pausedReason := "broker_disconnect" }, ?_, rfl, hbroker, rfl⟩
      change ((Effect.paused q _).onRegistry x.runtime.registry).get q = _
      simp [Effect.onRegistry, Effect.changed, Effect.change, Dict.get_modify, hr]
    · exact (hothers hcause hq).of_change rfl (.inl hq)
  | prepared n spec =>
    have hne := hnone hcause
    refine (hothers hcause hne).of_get ?_
    change ((Effect.prepared n spec).onRegistry x.runtime.registry).get id = _
    unfold Effect.onRegistry
    dsimp only
    split <;> rw [Dict.get_set, if_neg (Ne.symm hne)]
  | adopted spec n =>
    have hne := hnone hcause
    refine (hothers hcause hne).of_get ?_
    change ((Effect.adopted spec n).onRegistry x.runtime.registry).get id = _
    exact (Dict.get_set _ _ _ _).trans (if_neg (Ne.symm hne))
  | reset | starting | running | stopped | resumed | failed =>
    exact (hothers hcause (hnone hcause)).of_change rfl (.inl (hnone hcause))
  | halted | restarted | recovered =>
    exact (h.held id broker hcause).of_change rfl (.inr fun _ => ⟨rfl, rfl, rfl⟩)
  | crash => cases hcause
  | _ => exact (h.held id broker hcause).of_get rfl

theorem Attributed.Sound.effects {x : Attributed} (h : x.Sound) {es : List Effect}
    (hlegal : Legal Runtime.apply v.Allows x.runtime es) : (x.step (v, es)).Sound := by
  induction es generalizing x with
  | nil => exact h
  | cons e es ih => exact ih (h.apply hlegal.1) hlegal.2

theorem Attributed.step_runtime (x : Attributed) (v : Verb) (es : List Effect) :
    (x.step (v, es)).runtime = replay Runtime.apply x.runtime es := by
  induction es generalizing x with
  | nil => rfl
  | cons e es ih => exact ih (x.apply v e)

end Soundness

section Disconnecting

variable {s : Runtime} {id broker : String}

theorem save_only (id : String) :
    (save id).Only (fun _ => True) (fun e : Effect => ∃ c, e = .saved c) := by
  refine Only.bind Only.look fun s => ?_
  cases s.registry.get id with
  | none => exact Only.pure ()
  | some r =>
    refine Only.bind (Only.wait trivial) fun ok => ?_
    split
    · exact Only.emit ⟨_, rfl⟩
    · exact Only.pure ()

theorem pauseStrategy_allows {v : Verb} {r : RuntimeRecord} (hs : s.Filed)
    (hr : s.registry.get id = some r) (hv : v.disconnected = some r.spec.broker) :
    (pauseStrategy id "" "broker_disconnect").Alone Runtime.apply v.Allows (fun _ t => t.Filed) s := by
  unfold pauseStrategy withRecord
  refine Alone.of_look ?_
  rw [hr]
  simp only [ne_eq, not_true_eq_false, false_and, if_false]
  split
  · have hallows : v.Allows s (.paused id "broker_disconnect") := by
      intro broker q reason hq he
      cases he
      exact ⟨rfl, r, hr, Option.some.inj (hv.symm.trans hq)⟩
    have hsave : (save id).Alone Runtime.apply v.Allows (fun _ t => t.Filed)
        (s.apply (.paused id "broker_disconnect")) := by
      refine ((save_only id).moves (R := fun s t => s.Filed → t.Filed) (fun _ h => h)
        (fun _ _ _ h h' hs => h' (h hs)) (fun t e he => ⟨?_, fun ht => ht.apply e⟩)
        (fun _ _ heq ht => heq ▸ ht) _).mono fun _ _ h => h (hs.apply _)
      obtain ⟨c, rfl⟩ := he
      exact nofun
    exact Alone.of_emit hallows (Alone.bind hsave fun _ t ht => Alone.of_wait fun _ => ht)
  · exact hs

theorem forEach_alone {I : Runtime → Prop} {guar : Runtime → Effect → Prop}
    {f : String → Call Outcome}
    (hf : ∀ id t, I t → (f id).Alone Runtime.apply guar (fun _ => I) t) (ids : List String)
    (hs : I s) : (forEach f ids).Alone Runtime.apply guar (fun _ => I) s := by
  induction ids generalizing s with
  | nil => exact hs
  | cons id ids ih =>
    refine Alone.bind (hf id s hs) fun out t ht => ?_
    split
    · exact ht
    · exact ih ht

theorem onBrokerDisconnect_allows {v : Verb} (hs : s.Filed) (hv : v.disconnected = some broker) :
    (onBrokerDisconnect broker).Alone Runtime.apply v.Allows (fun _ t => t.Filed) s := by
  refine Alone.of_emit nofun (Alone.of_look ?_)
  refine forEach_alone (fun id t ht => Alone.of_look ?_) _ (hs.apply _)
  cases hr : t.registry.get id with
  | none => exact ht
  | some r =>
    dsimp only
    split
    · next hdue =>
      rw [ht id r hr]
      exact pauseStrategy_allows ht hr (by rw [hv, hdue.1])
    · exact ht

theorem Attributed.Sound.calls {x : Attributed} {c : Verb × List Effect} (h : x.Sound)
    (hcall : x.Calls c) : (x.step c).Sound := by
  obtain ⟨v, es⟩ := c
  obtain ⟨t, out, hgoes⟩ := hcall
  refine h.effects ?_
  cases hv : v.disconnected with
  | none =>
    have hall : ∀ s e, v.Allows s e := by
      intro s e broker q reason hq
      rw [hv] at hq
      cases hq
    exact Legal.of_forall hall _ _
  | some broker =>
    cases v with
    | brokerDisconnect b => exact (Alone.goes (onBrokerDisconnect_allows h.filed rfl) hgoes).1
    | _ => cases hv

end Disconnecting

section Reconnecting

variable {s : Runtime} {id broker : String}

theorem due_cons (p : String × RuntimeRecord) (d : Dict String RuntimeRecord) :
    due broker (p :: d) =
      if p.2.waitsFor broker then (if p.2.resumable then p.1 :: due broker d else [])
      else due broker d := by
  unfold due waiting
  by_cases hp : p.2.waitsFor broker
  · rw [List.filter_cons_of_pos (by simpa using hp), List.takeWhile_cons, if_pos hp]
    split <;> rfl
  · rw [List.filter_cons_of_neg (by simpa using hp), if_neg hp]

theorem due_subset (broker : String) (d : Dict String RuntimeRecord) :
    due broker d ⊆ d.map Prod.fst := by
  intro id hid
  obtain ⟨p, hp, rfl⟩ := List.mem_map.mp hid
  exact List.mem_map_of_mem (List.mem_of_mem_filter (List.takeWhile_subset _ hp))

def reconnectOne (broker : String) (r : RuntimeRecord) : Call Outcome :=
  if r.spec.broker = broker ∧ r.pausedReason = "broker_disconnect" then
    resumeStrategy r.spec.strategyId ""
  else pure .done

theorem reconnectOne_ends {r : RuntimeRecord} (hr : s.registry.get id = some r)
    (hid : r.spec.strategyId = id) :
    Ends (fun out t =>
      if r.waitsFor broker then
        if r.resumable then out = .resumed ∧ t.registry = (Effect.resumed id).onRegistry s.registry
        else out = .raised ∧ t.registry = s.registry
      else out = .done ∧ t.registry = s.registry) (reconnectOne broker r) s := by
  by_cases hwaits : r.waitsFor broker
  · have hone : reconnectOne broker r = resumeStrategy id "" := by
      rw [← hid]
      exact if_pos hwaits
    rw [hone]
    refine (resumeStrategy_ends hr).mono fun out t h => ?_
    rwa [if_pos hwaits]
  · have hone : reconnectOne broker r = pure .done := if_neg hwaits
    rw [hone]
    refine Alone.pure ?_
    rw [if_neg hwaits]
    exact ⟨rfl, rfl⟩

theorem reconnectLoop_ends {d : Dict String RuntimeRecord} (hkeys : (d.map Prod.fst).Nodup)
    (hd : ∀ p ∈ d, s.registry.get p.1 = some p.2 ∧ p.2.spec.strategyId = p.1) :
    Ends (fun _ t => ∀ id, t.registry.get id =
        if id ∈ due broker d then (s.registry.get id).map RuntimeRecord.resumed
        else s.registry.get id)
      (forEach (fun id => do
        let s ← look
        match s.registry.get id with
        | none => pure .done
        | some r => reconnectOne broker r) (d.map Prod.fst)) s := by
  induction d generalizing s with
  | nil => exact fun id => (if_neg List.not_mem_nil).symm
  | cons p d ih =>
    obtain ⟨hp, hkeys⟩ := List.nodup_cons.mp hkeys
    obtain ⟨⟨hget, hid⟩, hd⟩ := List.forall_mem_cons.mp hd
    have hbody : Ends (fun out t =>
        if p.2.waitsFor broker then
          if p.2.resumable then
            out = .resumed ∧ t.registry = (Effect.resumed p.1).onRegistry s.registry
          else out = .raised ∧ t.registry = s.registry
        else out = .done ∧ t.registry = s.registry)
        (do
          let s ← look
          match s.registry.get p.1 with
          | none => pure .done
          | some r => reconnectOne broker r) s := by
      refine Alone.of_look ?_
      rw [hget]
      exact reconnectOne_ends hget hid
    rw [List.map_cons, forEach]
    refine Alone.bind hbody fun out t hone => ?_
    rw [due_cons]
    by_cases hwaits : p.2.waitsFor broker
    · rw [if_pos hwaits] at hone ⊢
      by_cases hcan : p.2.resumable = true
      · rw [if_pos hcan] at hone ⊢
        obtain ⟨rfl, hregistry⟩ := hone
        have hget' : ∀ q, t.registry.get q =
            if q = p.1 then (s.registry.get p.1).map RuntimeRecord.resumed
            else s.registry.get q := by
          intro q
          rw [hregistry]
          exact Dict.get_modify _ _ _ _
        have hrest : ∀ q ∈ d, t.registry.get q.1 = some q.2 ∧ q.2.spec.strategyId = q.1 := by
          intro q hq
          have hne : q.1 ≠ p.1 := fun heq => hp (heq ▸ List.mem_map_of_mem hq)
          rw [hget', if_neg hne]
          exact hd q hq
        refine (ih hkeys hrest).mono fun _ u hu q => ?_
        rw [hu, hget']
        by_cases hq : q = p.1
        · have hnot : p.1 ∉ due broker d := fun hmem => hp (due_subset broker d hmem)
          rw [hq, if_neg hnot, if_pos rfl, if_pos List.mem_cons_self]
        · rw [if_neg hq]
          simp only [List.mem_cons, hq, false_or]
      · rw [if_neg hcan] at hone ⊢
        obtain ⟨rfl, hregistry⟩ := hone
        refine Alone.pure fun q => ?_
        rw [hregistry, if_neg List.not_mem_nil]
    · rw [if_neg hwaits] at hone ⊢
      obtain ⟨rfl, hregistry⟩ := hone
      rw [← hregistry]
      exact ih hkeys (by rwa [hregistry])

theorem onBrokerReconnect_ends (hkeys : (s.registry.map Prod.fst).Nodup) (hs : s.Filed) :
    Ends (fun _ t => ∀ id, t.registry.get id =
        if id ∈ due broker s.registry then (s.registry.get id).map RuntimeRecord.resumed
        else s.registry.get id) (onBrokerReconnect broker) s := by
  refine Alone.of_emit trivial (Alone.of_look ?_)
  refine reconnectLoop_ends (s := s.apply (.broker broker "connected")) hkeys fun p hp => ?_
  have hget : s.registry.get p.1 = some p.2 := Dict.get_of_mem hkeys hp
  exact ⟨hget, hs p.1 p.2 hget⟩

theorem due_append_heldUp (broker : String) (d : Dict String RuntimeRecord) :
    due broker d ++ heldUp broker d = (waiting broker d).map Prod.fst := by
  unfold due heldUp
  rw [← List.map_append, List.takeWhile_append_dropWhile]

theorem mem_waiting {d : Dict String RuntimeRecord} (hd : (d.map Prod.fst).Nodup) :
    id ∈ (waiting broker d).map Prod.fst ↔ ∃ r, d.get id = some r ∧ r.waitsFor broker := by
  constructor
  · intro h
    obtain ⟨p, hp, rfl⟩ := List.mem_map.mp h
    obtain ⟨hmem, hwaits⟩ := List.mem_filter.mp hp
    exact ⟨p.2, Dict.get_of_mem hd hmem, by simpa using hwaits⟩
  · rintro ⟨r, hr, hwaits⟩
    refine List.mem_map.mpr ⟨(id, r), List.mem_filter.mpr ⟨Dict.mem_of_get hr, ?_⟩, rfl⟩
    simpa using hwaits

theorem resumed_ne (broker : String) {r : RuntimeRecord} (h : r.waitsFor broker ∨ r.state = .paused) :
    r.resumed ≠ r := by
  intro heq
  rcases h with hwaits | hpaused
  · have hreason : r.pausedReason = "" := (congrArg RuntimeRecord.pausedReason heq).symm
    rw [hwaits.2] at hreason
    exact absurd hreason (by decide)
  · have hstate : r.state = .running := (congrArg RuntimeRecord.state heq).symm
    rw [hpaused] at hstate
    cases hstate

variable {x : Attributed}

theorem Attributed.Sound.mem_waiting (h : x.Sound) (hcause : x.cause id = some broker) :
    id ∈ due broker x.runtime.registry ++ heldUp broker x.runtime.registry := by
  obtain ⟨r, hr, -, hbroker, hreason⟩ := h.held id broker hcause
  rw [due_append_heldUp, StrategyRuntime.mem_waiting h.keys]
  exact ⟨r, hr, hbroker, hreason⟩

theorem Attributed.Sound.due_iff (h : x.Sound) :
    (∀ id, id ∈ due broker x.runtime.registry ↔ x.cause id = some broker) ↔
      (∀ id ∈ due broker x.runtime.registry, x.cause id = some broker) ∧
        ∀ id ∈ heldUp broker x.runtime.registry, x.cause id ≠ some broker := by
  have hnodup : (due broker x.runtime.registry ++ heldUp broker x.runtime.registry).Nodup := by
    rw [due_append_heldUp]
    exact List.Nodup.sublist (List.filter_sublist.map _) h.keys
  constructor
  · refine fun hiff => ⟨fun id hid => (hiff id).mp hid, fun id hid hcause => ?_⟩
    exact List.disjoint_of_nodup_append hnodup ((hiff id).mpr hcause) hid
  · rintro ⟨hdue, hheld⟩ id
    refine ⟨hdue id, fun hcause => ?_⟩
    rcases List.mem_append.mp (h.mem_waiting hcause) with hmem | hmem
    · exact hmem
    · exact absurd hcause (hheld id hmem)

theorem Attributed.Sound.reconnected_iff (h : x.Sound) {t : Runtime}
    (ht : ∀ id, t.registry.get id =
      if id ∈ due broker x.runtime.registry then
        (x.runtime.registry.get id).map RuntimeRecord.resumed
      else x.runtime.registry.get id) :
    (∀ id, t.registry.get id = (x.runtime.registry.get id).map fun r =>
        if r.state = .paused ∧ x.cause id = some broker then r.resumed else r) ↔
      ∀ id, id ∈ due broker x.runtime.registry ↔ x.cause id = some broker := by
  refine forall_congr' fun id => ?_
  rw [ht id]
  cases hr : x.runtime.registry.get id with
  | none =>
    have hnot : id ∉ due broker x.runtime.registry := by
      intro hmem
      exact Dict.get_eq_none.mp hr (due_subset broker _ hmem)
    have hcause : x.cause id ≠ some broker := by
      intro hcause
      obtain ⟨r, hr', -⟩ := h.held id broker hcause
      rw [hr] at hr'
      cases hr'
    simp [hnot, hcause]
  | some r =>
    have hwaits : id ∈ due broker x.runtime.registry → r.waitsFor broker := by
      intro hmem
      have hmem' : id ∈ (waiting broker x.runtime.registry).map Prod.fst := by
        rw [← due_append_heldUp]
        exact List.mem_append_left _ hmem
      obtain ⟨r', hr', hw⟩ := (StrategyRuntime.mem_waiting h.keys).mp hmem'
      rw [hr] at hr'
      cases hr'
      exact hw
    have hpaused : x.cause id = some broker → r.state = .paused := by
      intro hcause
      obtain ⟨r', hr', hstate, -⟩ := h.held id broker hcause
      rw [hr] at hr'
      cases hr'
      exact hstate
    by_cases hdue : id ∈ due broker x.runtime.registry <;>
      by_cases hcause : x.cause id = some broker
    · simp [hdue, hcause, hpaused hcause]
    · simpa [hdue, hcause] using resumed_ne broker (.inl (hwaits hdue))
    · have hne := resumed_ne broker (.inr (hpaused hcause))
      simpa [hdue, hcause, hpaused hcause] using hne.symm
    · simp [hdue, hcause]

theorem Attributed.Sound.resumesExactly_iff (h : x.Sound) {c : Verb × List Effect}
    (hcall : x.Calls c) : x.ResumesExactly c ↔ x.InOrder c := by
  obtain ⟨v, es⟩ := c
  obtain ⟨t, out, hgoes⟩ := hcall
  refine forall_congr' fun broker => forall_congr' fun hv => ?_
  subst hv
  have hend := (Alone.goes (onBrokerReconnect_ends h.keys h.filed) hgoes).2 out rfl
  have hstep : (x.step (.brokerReconnect broker, es)).runtime = t := by
    rw [x.step_runtime, hgoes.state]
  rw [hstep, h.reconnected_iff hend, h.due_iff]

end Reconnecting

theorem begun_sound (s : Runtime) : (Attributed.begun s).Sound where
  keys := List.nodup_nil
  filed id r hr := by cases hr
  held id broker hcause := by cases hcause

/-- Along every sequence of calls from the beginning of a process, reconnects resume exactly the
strategies paused for their broker's disconnect where each finds them before the first that
cannot be resumed. -/
theorem reconnects_run_iff (s : Runtime) (cs : List (Verb × List Effect)) :
    Along Attributed.step (fun x c => x.Calls c ∧ x.ResumesExactly c) (.begun s) cs ↔
      Along Attributed.step (fun x c => x.Calls c ∧ x.InOrder c) (.begun s) cs := by
  refine Along.congr (I := Attributed.Sound) (fun x c hx h => hx.calls h.1) (fun x c hx => ?_)
    (begun_sound s)
  exact and_congr_right fun hcall => hx.resumesExactly_iff hcall

/-- Calls made one after another, each with its effects when every await goes through. -/
def Attributed.perform (x : Attributed) : List Verb → List (Verb × List Effect)
  | [] => []
  | v :: vs =>
    let c := (v, (v.run 0).performed Runtime.apply exampleReply x.runtime)
    c :: (x.step c).perform vs

theorem calls_perform (x : Attributed) (vs : List Verb) :
    Along Attributed.step Attributed.Calls x (x.perform vs) := by
  induction vs generalizing x with
  | nil => trivial
  | cons v vs ih => exact ⟨⟨_, _, goes_performed exampleReply (v.run 0) x.runtime⟩, ih _⟩

def fyersSpec (id : String) : StrategySpec := { exampleSpec with strategyId := id, broker := "fyers" }

/-- Two strategies are paused by a disconnect and the first is then stopped: the reconnect raises
on it, and the second stays paused. -/
theorem not_reconnects : ¬∀ (s : Runtime) (cs : List (Verb × List Effect)),
    Along Attributed.step Attributed.Calls (.begun s) cs →
      Along Attributed.step Attributed.ResumesExactly (.begun s) cs := by
  intro h
  obtain ⟨-, -, -, -, hlast, -⟩ := h exampleRuntime _ (calls_perform (.begun exampleRuntime)
    [.start (fyersSpec "s1"), .start (fyersSpec "s2"), .brokerDisconnect "fyers",
      .stop "s1" "u1", .brokerReconnect "fyers"])
  have hget := hlast "fyers" rfl "s2"
  revert hget
  decide +kernel

end Trademetrix.StrategyRuntime
