import Trademetrix.Application.WebhookCalls

/-!
# Orders of mirrored signals

A strategy hands its signals to the webhook, each any number of times. The id of
an order is the digest of its user, strategy, symbol and side, and says nothing of
the signal: the orders of two signals are told apart only by symbol or side.
-/

namespace Trademetrix.Application

open Engine (NormalizedOrder OrderSide OrderType ProductType Exchange GateSettings)

structure MirrorStrategy where
  id : String
  signals : ℕ → WebhookData
  named : id ≠ ""
  mirrors : ∀ i, (signals i).strategyId = id

structure SignalDelivery where
  signal : ℕ
  env : WebhookEnv

structure MirrorRun where
  rows : OrderRows := []
  calls : List (ℕ × GateCall) := []

def MirrorRun.deliver (cfg : GateSettings) (m : MirrorStrategy) (s : MirrorRun) (d : SignalDelivery) :
    MirrorRun :=
  let out := TradingView.handleData cfg s.rows (.object (m.signals d.signal)) d.env
  { rows := out.1, calls := s.calls ++ out.2.1.map fun c => (d.signal, c) }

def mirrored (cfg : GateSettings) (m : MirrorStrategy) (ds : List SignalDelivery) : MirrorRun :=
  ds.foldl (MirrorRun.deliver cfg m) {}

/-- Orders of a user have one id exactly when they stem from one signal, and a call that reads the
orders table answers a duplicate exactly when an order of its signal is there. -/
structure Idempotent (calls : List (ℕ × GateCall)) : Prop where
  ids : ∀ x ∈ calls, ∀ y ∈ calls, x.2.userId = y.2.userId →
    (x.2.clientOrderId = y.2.clientOrderId ↔ x.1 = y.1)
  answers : ∀ before x after, calls = before ++ x :: after → x.2.looked = true →
    (x.2.duplicate = true ↔
      ∃ y ∈ before, y.2.recorded = true ∧ y.2.userId = x.2.userId ∧ y.1 = x.1)

def ToldApart (cfg : GateSettings) (a b : WebhookData) (userId : String) : Prop :=
  (Text.upper a.symbol ≠ Text.upper b.symbol ∨ a.side ≠ b.side) ∧
    ¬(mirrorText a userId ≠ mirrorText b userId ∧
      digest cfg (mirrorText a userId) = digest cfg (mirrorText b userId))

def SignalsToldApart (cfg : GateSettings) (m : MirrorStrategy) (ds : List SignalDelivery) : Prop :=
  ∀ d ∈ ds, ∀ e ∈ ds, d.signal ≠ e.signal → ∀ userId,
    Reaches (m.signals d.signal) d.env userId → Reaches (m.signals e.signal) e.env userId →
      ToldApart cfg (m.signals d.signal) (m.signals e.signal) userId

def Follows : OrderRows → List GateCall → OrderRows → Prop
  | rows, [], rows' => rows' = rows
  | rows, c :: cs, rows' =>
    (c.looked = true → (c.duplicate = true ↔ c.key ∈ rows)) ∧
      ∃ mid : OrderRows, (∀ k, k ∈ mid ↔ k ∈ rows ∨ c.recorded = true ∧ c.key = k) ∧
        Follows mid cs rows'

namespace Follows

variable {rows mid rows' : OrderRows} {cs ds before after : List GateCall} {c : GateCall}

theorem append (h₁ : Follows rows cs mid) (h₂ : Follows mid ds rows') :
    Follows rows (cs ++ ds) rows' := by
  induction cs generalizing rows with
  | nil =>
    cases h₁
    exact h₂
  | cons c cs ih =>
    obtain ⟨hread, next, hnext, hrest⟩ := h₁
    exact ⟨hread, next, hnext, ih hrest⟩

theorem duplicate_iff (h : Follows rows (before ++ c :: after) rows') (hlooked : c.looked = true) :
    c.duplicate = true ↔ c.key ∈ rows ∨ ∃ d ∈ before, d.recorded = true ∧ d.key = c.key := by
  induction before generalizing rows with
  | nil =>
    rw [h.1 hlooked]
    simp
  | cons d before ih =>
    obtain ⟨-, next, hnext, hrest⟩ := h
    rw [ih hrest, hnext, or_assoc]
    simp only [List.mem_cons, exists_eq_or_imp]

end Follows

namespace TradingView

variable {cfg : GateSettings} {rows : OrderRows} {data : WebhookData} {price : ℚ} {userId : String}
  {c : GateCall}

theorem askGate_follows (call : Engine.Order) (answer : GateAnswer) :
    Follows rows [(askGate cfg rows call answer).2.2] (askGate cfg rows call answer).1 := by
  rw [askGate]
  split
  next hfound => exact ⟨fun _ => iff_of_true rfl hfound.2, rows, by simp, rfl⟩
  next hfound =>
    refine ⟨fun hlooked => iff_of_false (by simp) fun hmem => hfound ⟨hlooked, hmem⟩, _, ?_, rfl⟩
    intro k
    by_cases hrec : answer.recorded = true <;> simp [hrec, GateCall.key, eq_comm]

theorem executeForUser_follows (env : RecipientEnv) :
    Follows rows (executeForUser cfg rows data price data.source userId env).2.2
      (executeForUser cfg rows data price data.source userId env).1 := by
  rcases executeForUser_cases cfg rows data price userId env with
    ⟨-, hrows, hcalls⟩ | ⟨-, -, call, -, -, hrows, hcalls⟩
  · rw [hrows, hcalls]
    exact rfl
  · rw [hrows, hcalls]
    exact askGate_follows call env.answer

theorem visit_follows {rs : List (String × RecipientEnv)} :
    Follows rows (visit cfg data price rows rs).2 (visit cfg data price rows rs).1 := by
  induction rs generalizing rows with
  | nil => exact rfl
  | cons r rs ih => exact (executeForUser_follows r.2).append ih

section HandleData

variable {env : WebhookEnv}

theorem handleData_follows :
    Follows rows (handleData cfg rows (.object data) env).2.1
      (handleData cfg rows (.object data) env).1 := by
  rcases handleData_visit cfg rows data env with
    ⟨price, -, -, -, -, -, -, hrows, hcalls⟩ | ⟨-, hrows, hcalls⟩
  · rw [hrows, hcalls]
    exact visit_follows
  · rw [hrows, hcalls]
    exact rfl

theorem mem_handleData (hm : data.strategyId ≠ "")
    (hc : c ∈ (handleData cfg rows (.object data) env).2.1) :
    c.clientOrderId = mirrorId cfg data c.userId ∧ Reaches data env c.userId := by
  rcases handleData_visit cfg rows data env with
    ⟨price, hmal, hq, hp, hsym, hact, hto, -, hcalls⟩ | ⟨-, -, hcalls⟩
  · rw [hcalls] at hc
    obtain ⟨hid, horder, hr⟩ := mem_visit hc
    exact ⟨hid hm, ⟨hmal, hq, by rw [hp]; rfl, hsym, hact, hto, horder⟩, hr⟩
  · rw [hcalls] at hc
    cases hc

theorem exists_handleData (cfg : GateSettings) (rows : OrderRows) (hr : Reaches data env userId) :
    ∃ c ∈ (handleData cfg rows (.object data) env).2.1, c.userId = userId := by
  obtain ⟨hdata, r, hmem, rfl, hscaled⟩ := hr
  rcases handleData_visit cfg rows data env with
    ⟨price, -, -, -, -, -, -, -, hcalls⟩ | ⟨hnot, -, -⟩
  · rw [hcalls]
    exact exists_visit hdata.2.2.2.2.2.2 hmem hscaled
  · exact absurd hdata hnot

end HandleData

end TradingView

theorem mirrorText_inj {a b : WebhookData} (hid : a.strategyId = b.strategyId) (userId : String) :
    mirrorText a userId = mirrorText b userId ↔
      Text.upper a.symbol = Text.upper b.symbol ∧ a.side = b.side := by
  constructor
  · intro h
    have hlist := congrArg String.toList h
    simp only [mirrorText, hid, String.toList_append, List.append_assoc, List.append_cancel_left_eq]
      at hlist
    cases ha : a.side <;> cases hb : b.side <;> rw [ha, hb] at hlist
    · exact ⟨String.toList_inj.mp (List.append_cancel_right hlist), rfl⟩
    · have hlast := congrArg List.getLast? hlist
      simp [OrderSide.value] at hlast
    · have hlast := congrArg List.getLast? hlist
      simp [OrderSide.value] at hlast
    · exact ⟨String.toList_inj.mp (List.append_cancel_right hlist), rfl⟩
  · rintro ⟨hsym, hside⟩
    rw [mirrorText, mirrorText, hid, hsym, hside]

section Runs

variable {cfg : GateSettings} {m : MirrorStrategy} {ds : List SignalDelivery} {x : ℕ × GateCall}

theorem ToldApart.mirrorId_ne {i j : ℕ} {userId : String} :
    ToldApart cfg (m.signals i) (m.signals j) userId ↔
      mirrorId cfg (m.signals i) userId ≠ mirrorId cfg (m.signals j) userId := by
  have htext := mirrorText_inj ((m.mirrors i).trans (m.mirrors j).symm) userId
  have hdiffer : (Text.upper (m.signals i).symbol ≠ Text.upper (m.signals j).symbol ∨
      (m.signals i).side ≠ (m.signals j).side) ↔
        mirrorText (m.signals i) userId ≠ mirrorText (m.signals j) userId := by
    rw [ne_eq, ne_eq, ne_eq, htext, not_and_or]
  rw [ToldApart, hdiffer, mirrorId, mirrorId]
  constructor
  · rintro ⟨hne, hcollide⟩ heq
    exact hcollide ⟨hne, heq⟩
  · intro hne
    exact ⟨fun heq => hne (by rw [heq]), fun h => hne h.2⟩

theorem mirrored_concat (d : SignalDelivery) :
    mirrored cfg m (ds ++ [d]) = (mirrored cfg m ds).deliver cfg m d := by
  rw [mirrored, List.foldl_append]
  rfl

theorem mirrored_follows (cfg : GateSettings) (m : MirrorStrategy) (ds : List SignalDelivery) :
    Follows [] ((mirrored cfg m ds).calls.map Prod.snd) (mirrored cfg m ds).rows := by
  induction ds using List.reverseRecOn with
  | nil => exact rfl
  | append_singleton ds d ih =>
    rw [mirrored_concat, MirrorRun.deliver]
    simp only [List.map_append, List.map_map, Function.comp_def, List.map_id']
    exact ih.append TradingView.handleData_follows

theorem mem_mirrored (hx : x ∈ (mirrored cfg m ds).calls) :
    x.2.clientOrderId = mirrorId cfg (m.signals x.1) x.2.userId ∧
      ∃ d ∈ ds, d.signal = x.1 ∧ Reaches (m.signals d.signal) d.env x.2.userId := by
  induction ds using List.reverseRecOn with
  | nil => cases hx
  | append_singleton ds d ih =>
    rw [mirrored_concat, MirrorRun.deliver] at hx
    rcases List.mem_append.mp hx with hx | hx
    · obtain ⟨hid, e, he, hrest⟩ := ih hx
      exact ⟨hid, e, List.mem_append_left _ he, hrest⟩
    · obtain ⟨c, hc, rfl⟩ := List.mem_map.mp hx
      obtain ⟨hid, hreach⟩ := TradingView.mem_handleData (by rw [m.mirrors]; exact m.named) hc
      exact ⟨hid, d, by simp, rfl, hreach⟩

theorem exists_mirrored (cfg : GateSettings) {d : SignalDelivery} (hd : d ∈ ds) {userId : String}
    (hreach : Reaches (m.signals d.signal) d.env userId) :
    ∃ x ∈ (mirrored cfg m ds).calls, x.1 = d.signal ∧ x.2.userId = userId := by
  induction ds using List.reverseRecOn with
  | nil => cases hd
  | append_singleton ds e ih =>
    rw [mirrored_concat, MirrorRun.deliver]
    rcases List.mem_append.mp hd with hd | hd
    · obtain ⟨x, hx, hrest⟩ := ih hd
      exact ⟨x, List.mem_append_left _ hx, hrest⟩
    · obtain rfl := List.mem_singleton.mp hd
      obtain ⟨c, hc, huser⟩ := TradingView.exists_handleData cfg (mirrored cfg m ds).rows hreach
      exact ⟨(d.signal, c), List.mem_append_right _ (List.mem_map_of_mem hc), rfl, huser⟩

/-- Mirroring is idempotent in exactly the runs whose signals are told apart by symbol or side. -/
theorem idempotent_iff (cfg : GateSettings) (m : MirrorStrategy) (ds : List SignalDelivery) :
    Idempotent (mirrored cfg m ds).calls ↔ SignalsToldApart cfg m ds := by
  constructor
  · intro h d hd e he hne userId hdu heu
    obtain ⟨x, hx, hxd, rfl⟩ := exists_mirrored cfg hd hdu
    obtain ⟨y, hy, hye, hyu⟩ := exists_mirrored cfg he heu
    rw [ToldApart.mirrorId_ne, ← hxd, ← hye, ← (mem_mirrored hx).1]
    rw [← hxd, ← hye] at hne
    rw [← hyu, ← (mem_mirrored hy).1]
    exact fun hid => hne ((h.ids x hx y hy hyu.symm).mp hid)
  · intro h
    have hids : ∀ x ∈ (mirrored cfg m ds).calls, ∀ y ∈ (mirrored cfg m ds).calls,
        x.2.userId = y.2.userId → (x.2.clientOrderId = y.2.clientOrderId ↔ x.1 = y.1) := by
      intro x hx y hy huser
      obtain ⟨hidx, d, hd, hdx, hdu⟩ := mem_mirrored hx
      obtain ⟨hidy, e, he, hey, heu⟩ := mem_mirrored hy
      rw [hidx, hidy, ← huser]
      constructor
      · intro hid
        by_contra hne
        have happart := h d hd e he (by rwa [hdx, hey]) x.2.userId hdu (huser ▸ heu)
        rw [hdx, hey, ToldApart.mirrorId_ne] at happart
        exact happart hid
      · exact fun hsignal => by rw [hsignal]
    refine ⟨hids, fun before x after hsplit hlooked => ?_⟩
    have hfollows := mirrored_follows cfg m ds
    rw [hsplit, List.map_append, List.map_cons] at hfollows
    rw [hfollows.duplicate_iff hlooked]
    have hx : x ∈ (mirrored cfg m ds).calls := by rw [hsplit]; simp
    have hmem : ∀ y ∈ before, y ∈ (mirrored cfg m ds).calls := fun y hy => by
      rw [hsplit]
      exact List.mem_append_left _ hy
    simp only [List.not_mem_nil, false_or, List.mem_map, exists_exists_and_eq_and]
    refine exists_congr fun y => and_congr_right fun hy => and_congr_right fun _ => ?_
    rw [GateCall.key, GateCall.key, Prod.mk.injEq]
    exact and_congr_right fun huser => hids y (hmem y hy) x hx huser

/-- A second entry on a symbol has the id of the first and is answered as its duplicate. -/
theorem second_entry_not_idempotent :
    let m : MirrorStrategy :=
      ⟨"momentum", fun _ =>
        { symbol := "NIFTY", action := "BUY", quantity := some 65, strategyId := "momentum" },
        by decide, fun _ => rfl⟩
    let env : WebhookEnv :=
      ⟨.ok ["u1"], fun _ =>
        ⟨.ok 65, 0, { result := .ok { success := true }, sent := true, recorded := true }⟩,
        fun users h => by cases h; decide⟩
    let cfg : GateSettings := ⟨id, fun _ _ _ => none⟩
    ¬Idempotent (mirrored cfg m [⟨0, env⟩, ⟨1, env⟩]).calls := by
  intro m env cfg h
  have hcalls : (mirrored cfg m [⟨0, env⟩, ⟨1, env⟩]).calls =
      [(0, ⟨"u1", "u1:momentum:NIFTY:BUY", true, false, true, true⟩),
        (1, ⟨"u1", "u1:momentum:NIFTY:BUY", true, true, false, false⟩)] := by
    decide
  rw [hcalls] at h
  exact absurd ((h.ids _ List.mem_cons_self _ (List.mem_cons_of_mem _ List.mem_cons_self) rfl).mp rfl)
    (by decide)

end Runs

end Trademetrix.Application
