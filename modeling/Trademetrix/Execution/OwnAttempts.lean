import Trademetrix.Execution.PlacingContract

/-!
# An order and its own earlier attempts

The checks that look at earlier orders also see what earlier attempts at the same order
left. A check refuses an order on its own account when it would let it pass without that.
-/

namespace Trademetrix.Execution.Placing

open Async
open Engine (NormalizedOrder)
open Oms (Time seconds)
open RiskRules (Memory RiskConfig Stamp Texts cooldownKey dedupKey inWindow lastMinute recognised
  todayStart)

variable {texts : Texts} {s s₀ : Desk} {c : Call} {o : ℕ} {req : ExecutionRequest} {es : List DeskEffect}
  {config : RiskConfig}

def Blamed (texts : Texts) (s : Desk) : DeskEffect → Prop
  | .judges c req check =>
    s.rejects texts c.order req check = true ∧
      (s.without c.order).rejects texts c.order req check = false
  | _ => False

/-- What keeps a check from refusing an order on its own account: the table has no row of an
earlier attempt; the cooldown after an earlier attempt is over or does not apply; the limits
are not reached, or are reached without the earlier attempts; the intent is recognised, or
the entry of the window is another order's. -/
def SparedBy (texts : Texts) (s : Desk) (o : ℕ) (req : ExecutionRequest) : Check → Prop
  | .duplicate =>
    req.executionRequestId = "" ∨
      ∀ r ∈ s.orders, r.isOf o = true → ¬ r.HasKey req.userId req.executionRequestId
  | .tradeCooldown config =>
    config.tradeCooldownSeconds ≤ 0 ∨ req.isPaper = true ∨
      (s.now : ℤ) < config.tradeCooldownSeconds * 1000000 ∨
        ∀ t, s.memory.lastTradeTime (cooldownKey req) = some t → t.order = o →
          config.tradeCooldownSeconds * 1000000 ≤ (s.now : ℤ) - t.time
  | .maxTradesPerDay config =>
    config.maxTradesPerDay ≤ 0 ∨ (s.today req.userId).length < config.maxTradesPerDay ∨
      config.maxTradesPerDay ≤ ((s.today req.userId).filter fun r => !r.isOf o).length
  | .maxOrdersPerMinute config =>
    let stamps := s.memory.orderTimestamps req.userId
    config.maxOrdersPerMinute ≤ 0 ∨
      (lastMinute stamps s.now).length < config.maxOrdersPerMinute ∨
        config.maxOrdersPerMinute ≤ (lastMinute (stamps.filter fun t => t.order ≠ o) s.now).length
  | .duplicateOrder =>
    let window := inWindow (s.memory.recentOrders req.userId) s.now
    req.isPaper = true ∨ recognised texts s.memory req = true ∨
      ((∃ p ∈ window, p.1 = dedupKey texts req) →
        ∃ p ∈ window, p.1 = dedupKey texts req ∧ p.2.order ≠ o)

def Spared (texts : Texts) (s : Desk) : DeskEffect → Prop
  | .judges c req check => SparedBy texts s c.order req check
  | _ => True

section Checks

theorem indexed_without (hs : s.orders.Indexed) (o : ℕ) : (s.without o).orders.Indexed :=
  List.Pairwise.filter _ hs

theorem rejects_duplicate (hs : s.orders.Indexed) : s.rejects texts o req .duplicate = true ↔
    req.executionRequestId ≠ "" ∧ ∃ r ∈ s.orders, r.HasKey req.userId req.executionRequestId := by
  simp only [Desk.rejects, Desk.judge]
  split
  · next hempty => simp [hempty]
  · next hne =>
    cases hfound : OrdersTable.maybeSingle (s.orders.withKey req.userId req.executionRequestId) with
    | some r =>
      have hmem : r ∈ s.orders.withKey req.userId req.executionRequestId := by
        rw [OrdersTable.maybeSingle_eq_some.mp hfound]
        exact List.mem_singleton.mpr rfl
      have hrow := List.mem_filter.mp hmem
      have hexists : ∃ r ∈ s.orders, r.HasKey req.userId req.executionRequestId :=
        ⟨r, hrow.1, by simpa using hrow.2⟩
      simp [hne, hexists]
    | none =>
      have hno : ¬ ∃ r ∈ s.orders, r.HasKey req.userId req.executionRequestId := by
        rintro ⟨r, hr, hkey⟩
        rw [OrdersTable.maybeSingle_eq_some.mpr (hs.withKey_eq hne hr hkey)] at hfound
        cases hfound
      simp [hno]

theorem rejects_tradeCooldown : s.rejects texts o req (.tradeCooldown config) = true ↔
    ¬ (config.tradeCooldownSeconds ≤ 0 ∨ req.isPaper = true) ∧
      (s.now : ℤ) - RiskRules.lastTrade s.memory req < config.tradeCooldownSeconds * 1000000 := by
  simp only [Desk.rejects, Desk.judge, RiskRules.tradeCooldown, decide_eq_true_eq]
  split
  · next h => simp [h]
  · next h =>
    split <;> simp_all

theorem rejects_maxTradesPerDay : s.rejects texts o req (.maxTradesPerDay config) = true ↔
    ¬ config.maxTradesPerDay ≤ 0 ∧ config.maxTradesPerDay ≤ (s.today req.userId).length := by
  simp only [Desk.rejects, Desk.judge, RiskRules.maxTradesPerDay]
  split
  · next h => simp [h]
  · next h =>
    split <;> simp_all

theorem rejects_maxOrdersPerMinute : s.rejects texts o req (.maxOrdersPerMinute config) = true ↔
    ¬ config.maxOrdersPerMinute ≤ 0 ∧ config.maxOrdersPerMinute ≤
      (lastMinute (s.memory.orderTimestamps req.userId) s.now).length := by
  simp only [Desk.rejects, Desk.judge, RiskRules.maxOrdersPerMinute, decide_eq_true_eq]
  split
  · next h => simp [h]
  · next h =>
    split <;> simp_all

theorem rejects_duplicateOrder : s.rejects texts o req .duplicateOrder = true ↔
    ¬ req.isPaper = true ∧ ¬ recognised texts s.memory req = true ∧
      ∃ p ∈ inWindow (s.memory.recentOrders req.userId) s.now, p.1 = dedupKey texts req := by
  simp only [Desk.rejects, Desk.judge, RiskRules.duplicateOrder, decide_eq_true_eq]
  split
  · next h => simp [h]
  · next h =>
    split
    · next hr => simp [hr]
    · next hr =>
      split <;> simp_all

variable (s o req)

theorem today_without : (s.without o).today req.userId = (s.today req.userId).filter fun r =>
    !r.isOf o := by
  simp only [Desk.today, Desk.without, List.filter_filter]
  exact List.filter_congr fun r _ => Bool.and_comm _ _

theorem inWindow_without : inWindow ((s.without o).memory.recentOrders req.userId) s.now =
    (inWindow (s.memory.recentOrders req.userId) s.now).filter fun p => p.2.order ≠ o := by
  simp only [inWindow, Desk.without, Memory.without, List.filter_filter]
  exact List.filter_congr fun p _ => Bool.and_comm _ _

theorem spared_iff (texts : Texts) (hs : s.orders.Indexed) (check : Check) :
    (s.rejects texts o req check = true → (s.without o).rejects texts o req check = true) ↔
      SparedBy texts s o req check := by
  cases check with
  | duplicate =>
    rw [rejects_duplicate hs, rejects_duplicate (indexed_without hs o)]
    constructor
    · intro himp
      by_cases hne : req.executionRequestId = ""
      · exact .inl hne
      · refine .inr fun r hr hown hkey => ?_
        obtain ⟨-, r', hr', hkey'⟩ := himp ⟨hne, r, hr, hkey⟩
        obtain ⟨hmem, hother⟩ := List.mem_filter.mp hr'
        rw [← hs.unique hne hr hmem hkey hkey', hown] at hother
        cases hother
    · rintro (hempty | hnone) ⟨hne, r, hr, hkey⟩
      · exact absurd hempty hne
      · have hother : r.isOf o = false := Bool.eq_false_iff.mpr fun hown => hnone r hr hown hkey
        exact ⟨hne, r, List.mem_filter.mpr ⟨hr, by simp [hother]⟩, hkey⟩
  | tradeCooldown config =>
    rw [rejects_tradeCooldown, rejects_tradeCooldown]
    simp only [SparedBy, RiskRules.lastTrade, Desk.without, Memory.without]
    by_cases hoff : config.tradeCooldownSeconds ≤ 0 ∨ req.isPaper = true
    · simp only [hoff, not_true_eq_false, false_and, false_implies, true_iff]
      exact hoff.elim .inl fun h => .inr (.inl h)
    · obtain ⟨hpos, hpaper⟩ := not_or.mp hoff
      simp only [hpos, hpaper, false_or]
      cases hlast : s.memory.lastTradeTime (cooldownKey req) with
      | none => simp
      | some t =>
        by_cases hown : t.order = o
        · have hnone : (some t).filter (fun t => decide (t.order ≠ o)) = none := by
            simp [Option.filter_some, hown]
          rw [hnone]
          simp only [Option.elim_some, Option.elim_none, Option.some.injEq, forall_eq', hown,
            true_implies, Bool.false_eq_true, not_false_eq_true, true_and, false_or]
          omega
        · simp [Option.filter_some, hown]
  | maxTradesPerDay config =>
    rw [rejects_maxTradesPerDay, rejects_maxTradesPerDay, today_without]
    simp only [SparedBy]
    omega
  | maxOrdersPerMinute config =>
    rw [rejects_maxOrdersPerMinute, rejects_maxOrdersPerMinute]
    simp only [SparedBy, Desk.without, Memory.without]
    omega
  | duplicateOrder =>
    rw [rejects_duplicateOrder, rejects_duplicateOrder]
    change _ → _ ∧ _ ∧ (∃ p ∈ inWindow ((s.without o).memory.recentOrders req.userId) s.now, _) ↔ _
    rw [inWindow_without]
    constructor
    · intro himp
      by_cases hpaper : req.isPaper = true
      · exact .inl hpaper
      by_cases hknown : recognised texts s.memory req = true
      · exact .inr (.inl hknown)
      refine .inr (.inr fun hentry => ?_)
      obtain ⟨-, -, p, hp, hkey⟩ := himp ⟨hpaper, hknown, hentry⟩
      obtain ⟨hmem, hother⟩ := List.mem_filter.mp hp
      exact ⟨p, hmem, hkey, by simpa using hother⟩
    · rintro (h | h | h) ⟨hpaper, hknown, hentry⟩
      · exact absurd h hpaper
      · exact absurd h hknown
      · obtain ⟨p, hp, hkey, hother⟩ := h hentry
        exact ⟨hpaper, hknown, p, List.mem_filter.mpr ⟨hp, by simpa using hother⟩, hkey⟩

end Checks

instance (texts : Texts) (s : Desk) : ∀ e, Decidable (Blamed texts s e)
  | .judges _ _ _ => inferInstanceAs (Decidable (_ ∧ _))
  | .starts _ | .inserts _ _ _ | .loses _ _ _ | .sends _ _ | .posts _ _ _ | .updates _ _ _ _
  | .returns _ _ | .clock _ | .adds _ | .marks _ _ _ => isFalse False.elim

theorem not_blamed_iff {e : DeskEffect} (hs : s.orders.Indexed) :
    ¬ Blamed texts s e ↔ Spared texts s e := by
  cases e with
  | judges c req check =>
    refine Iff.trans ?_ (spared_iff s c.order req texts hs check)
    simp only [Blamed, not_and, Bool.not_eq_false]
  | _ => simp [Blamed, Spared]

theorem blamed_of_stored {order : NormalizedOrder} {d : Call} (hs : s.orders.Indexed)
    (hstored : Stored d order s) (hd : d.order = c.order) (hne : req.executionRequestId ≠ "")
    (huser : order.userId = req.userId) (hid : order.clientOrderId = req.executionRequestId) :
    Blamed texts s (.judges c req .duplicate) := by
  obtain ⟨r, hr, hby, hkey⟩ := hstored
  rw [huser, hid] at hkey
  have hown : r.isOf c.order = true := by simp [OrderRow.isOf, hby, hd]
  by_contra hno
  rcases (not_blamed_iff hs).mp hno with hempty | hnone
  · exact hne hempty
  · exact hnone r hr hown hkey

def Rowless (o : ℕ) (s : Desk) : Prop := ∀ r ∈ s.orders, r.isOf o = false

theorem rowless_update (h : Rowless o s) (p : OrderRow → Bool) (brokerOrderId status : String) :
    Rowless o (s.updateRows p brokerOrderId status) := by
  intro r hr
  obtain ⟨r', hr', rfl⟩ := List.mem_map.mp hr
  have hr' := h r' hr'
  split
  · exact hr'
  · exact hr'

theorem rowless_addRow {row : OrderRow} (h : Rowless o s) (hrow : row.isOf o = false) :
    Rowless o (s.addRow row) := by
  intro r hr
  simp only [Desk.addRow, OrdersTable.insert] at hr
  split at hr
  · exact h r hr
  · rcases List.mem_append.mp hr with hr | hr
    · exact h r hr
    · rw [List.mem_singleton.mp hr]
      exact hrow

theorem rowless_step {e : DeskEffect} (h : Rowless o s)
    (he : ∀ c order createdAt, e = .inserts c order createdAt → c.order ≠ o) :
    Rowless o (Desk.apply texts e s) := by
  cases e with
  | inserts c order createdAt =>
    exact rowless_addRow h (by simpa [Desk.rowOf, OrderRow.isOf] using he c order createdAt rfl)
  | adds row => exact rowless_addRow h rfl
  | updates c order brokerOrderId status => exact rowless_update h _ _ _
  | marks id brokerOrderId status => exact rowless_update h _ _ _
  | starts | judges | loses | sends | posts | returns | clock => exact h

structure OwnAttemptsLaw (texts : Texts) (s₀ : Desk) (es : List DeskEffect) : Prop where
  /-- No check refuses an order on its own account, exactly when every check is spared. -/
  exact : Legal (Desk.apply texts) (fun s e => ¬ Blamed texts s e) s₀ es ↔
    Legal (Desk.apply texts) (Spared texts) s₀ es
  /-- After an attempt that went on to the broker the duplicate check refuses the order on
  its own account. -/
  sent : ∀ before c req after d order, es = before ++ .judges c req .duplicate :: after →
    .sends d order ∈ before → d.order = c.order → req.executionRequestId ≠ "" →
      order.userId = req.userId → order.clientOrderId = req.executionRequestId →
        Blamed texts (replay (Desk.apply texts) s₀ before) (.judges c req .duplicate)
  /-- While no attempt has got to its insert the duplicate check does not. -/
  unsent : ∀ before c req after, es = before ++ .judges c req .duplicate :: after →
    Rowless c.order s₀ → (∀ d order createdAt, .inserts d order createdAt ∈ before →
      d.order ≠ c.order) →
        ¬ Blamed texts (replay (Desk.apply texts) s₀ before) (.judges c req .duplicate)

theorem rowless_of_uninserted {es : List DeskEffect} (hs : Rowless o s)
    (hes : ∀ d order createdAt, .inserts d order createdAt ∈ es → d.order ≠ o) :
    Rowless o (replay (Desk.apply texts) s es) := by
  induction es generalizing s with
  | nil => exact hs
  | cons e es ih =>
    refine ih (rowless_step hs fun d order createdAt he => ?_) fun d order createdAt hd => ?_
    · exact hes d order createdAt (he ▸ List.mem_cons_self)
    · exact hes d order createdAt (List.mem_cons_of_mem _ hd)

theorem ownAttempts_law {P : Pool Desk DeskEffect DeskReply ℕ} (hs : Fresh s₀)
    (h : (system texts).Run ⟨s₀, []⟩ es P) : OwnAttemptsLaw texts s₀ es := by
  have hfacts := placingFacts_of_run hs h
  refine ⟨hfacts.congr fun _ _ he => not_blamed_iff he.1, ?_, ?_⟩
  · rintro before c req after d order rfl hsent hd hne huser hid
    have hindexed : (replay (Desk.apply texts) s₀ before).orders.Indexed := hfacts.at.1
    have hbefore := hfacts.of_isPrefix (List.prefix_append _ _)
    exact blamed_of_stored hindexed (stored_of_mem hbefore hsent fun t ht => ht.1) hd hne huser hid
  · rintro before c req after rfl hrowless huninserted
    have hindexed : (replay (Desk.apply texts) s₀ before).orders.Indexed := hfacts.at.1
    have hnone : Rowless c.order (replay (Desk.apply texts) s₀ before) :=
      rowless_of_uninserted hrowless huninserted
    refine (not_blamed_iff hindexed).mpr (.inr fun r hr hown => ?_)
    rw [hnone r hr] at hown
    cases hown

def limited : Sending where
  broker := "dhan"
  post _ := .ok { success := false, errorCode := "RATE_LIMITED" }
  limiter _ := none
  connect _ := true

def queued : Oms.OmniOrder where
  omsOrderId := 0
  executionRequestId := "r1"
  userId := "u1"
  broker := "dhan"
  symbol := "RELIANCE"
  side := "BUY"
  quantity := 10

def outage : (i : DeskPoint) → DeskReply i
  | .adapter _ _ => (.ok false : Except Raised Bool)
  | i => allClear limited i

/-- The first attempt finds no broker; the second is made six seconds later. -/
def retriedAfterOutage : List (Action DeskEffect DeskReply Work) :=
  .start (.process 0 queued) :: List.replicate 23 (.resume 0 outage) ++
    .env (.clock (seconds 7206)) :: List.replicate 26 (.resume 0 (allClear limited))

def retriedAfterRefusal : List (Action DeskEffect DeskReply Work) :=
  .start (.process 0 queued) :: List.replicate 25 (.resume 0 (allClear limited)) ++
    .env (.clock (seconds 7206)) :: List.replicate 3 (.resume 0 (allClear limited))

/-- After an outage no check holds the first attempt against the second, which goes on to
the broker. -/
theorem ownAttempts_law_after_outage : ∃ es P,
    (system someTexts).Run ⟨{ now := seconds 7200 }, []⟩ es P ∧ P.state.sent = [⟨0, 1⟩] ∧
      Legal (Desk.apply someTexts) (fun s e => ¬ Blamed someTexts s e) { now := seconds 7200 } es ∧
        OwnAttemptsLaw someTexts { now := seconds 7200 } es := by
  obtain ⟨es, P, hrun, hsent, hlegal⟩ := System.exists_run (system someTexts)
    ⟨{ now := seconds 7200 }, []⟩ retriedAfterOutage (p := fun es P => P.state.sent = [⟨0, 1⟩] ∧
      Legal (Desk.apply someTexts) (fun s e => ¬ Blamed someTexts s e) { now := seconds 7200 } es)
    (by decide +kernel)
  exact ⟨es, P, hrun, hsent, hlegal, ownAttempts_law ⟨.nil, rfl, rfl⟩ hrun⟩

/-- After a transient refusal the duplicate check refuses the retry for the row of the
attempt that was refused. -/
theorem ownAttempts_refused : ∃ es P,
    (system someTexts).Run ⟨{ now := seconds 7200 }, []⟩ es P ∧
      ¬ Legal (Desk.apply someTexts) (fun s e => ¬ Blamed someTexts s e) { now := seconds 7200 } es :=
  System.exists_run (system someTexts) ⟨{ now := seconds 7200 }, []⟩ retriedAfterRefusal
    (by decide +kernel)

end Trademetrix.Execution.Placing
