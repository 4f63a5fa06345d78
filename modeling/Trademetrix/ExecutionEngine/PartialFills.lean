import Trademetrix.ExecutionEngine.Netting

/-!
# The fills of one order

Every fill of an order reaches the ledger and the position as a report, among the reports
of any other orders. The totals are read off the steps of a run: what the ledger recorded
when a report was taken off the bus, and by how much the position moved when its trade was.
-/

namespace Trademetrix.ExecutionEngine

section Runs

def dispatched : EngineState → List Action → List (EngineState × ExecutionEngineEvent)
  | _, [] => []
  | s, .dispatch :: actions =>
    (s.queue.head?.map fun event => (s, event)).toList ++ dispatched (s.step .dispatch) actions
  | s, action :: actions => dispatched (s.step action) actions

def dispatchedEvents (s : EngineState) (actions : List Action) : List ExecutionEngineEvent :=
  (dispatched s actions).map Prod.snd

variable {s : EngineState}

theorem dispatched_of_ne {action : Action} (h : action ≠ .dispatch) (actions : List Action) :
    dispatched s (action :: actions) = dispatched (s.step action) actions := by
  cases action with
  | dispatch => exact absurd rfl h
  | _ => rfl

theorem dispatched_sound {actions : List Action} (h : s.Sound) :
    ∀ p ∈ dispatched s actions, p.1.Sound ∧ p.1.queue.head? = some p.2 ∧
      (p.2.domain = .trade → p.2.IsTrade) := by
  induction actions generalizing s with
  | nil => exact fun p hp => absurd hp List.not_mem_nil
  | cons action actions ih =>
    intro p hp
    by_cases ha : action = .dispatch
    · subst ha
      rcases List.mem_append.mp hp with hp | hp
      · obtain ⟨event, hhead, rfl⟩ := Option.map_eq_some_iff.mp (Option.mem_toList.mp hp)
        refine ⟨h, hhead, fun hd => h.waiting event ?_⟩
        exact List.mem_filter.mpr ⟨List.mem_of_mem_head? hhead, by simpa using hd⟩
      · exact ih (sound_step h _) p hp
    · rw [dispatched_of_ne ha] at hp
      exact ih (sound_step h _) p hp

theorem flow (actions : List Action) (h : s.Sound) :
    fills s.queue ++ fills (actions.flatMap Action.published) =
      fills (dispatchedEvents s actions) ++ fills (s.run actions).queue ∧
    trades s.queue ++ (fills (dispatchedEvents s actions)).map TradeRecord.event =
      trades (dispatchedEvents s actions) ++ trades (s.run actions).queue := by
  induction actions generalizing s with
  | nil => simp [dispatchedEvents, dispatched, EngineState.run, fills, trades]
  | cons action actions ih =>
    obtain ⟨hfills, htrades⟩ := ih (sound_step h action)
    have hrun : s.run (action :: actions) = (s.step action).run actions := rfl
    rw [hrun, List.flatMap_cons, fills_append]
    by_cases ha : action = .dispatch
    · subst ha
      have hquiet : fills (Action.published .dispatch) = [] := rfl
      cases hq : s.queue with
      | nil =>
        have htaken : dispatchedEvents s (.dispatch :: actions) =
            dispatchedEvents (s.step .dispatch) actions := by
          simp [dispatchedEvents, dispatched, hq]
        rw [dispatch_idle hq, hq] at hfills htrades
        rw [htaken, dispatch_idle hq, hquiet]
        exact ⟨hfills, htrades⟩
      | cons event queue =>
        have htaken : dispatchedEvents s (.dispatch :: actions) =
            [event] ++ dispatchedEvents (s.step .dispatch) actions := by
          simp [dispatchedEvents, dispatched, hq]
        obtain ⟨events, hqueue, hnone, hpublished, -⟩ := dispatch_spec h hq
        rw [hqueue, fills_append, hnone, List.append_nil] at hfills
        rw [hqueue, trades_append, hpublished, List.append_assoc] at htrades
        have hsplit : event :: queue = [event] ++ queue := rfl
        rw [htaken, hquiet, hsplit, List.nil_append]
        simp only [fills_append, trades_append, List.map_append, List.append_assoc]
        rw [hfills, htrades]
        exact ⟨rfl, rfl⟩
    · have htaken : dispatchedEvents s (action :: actions) =
          dispatchedEvents (s.step action) actions := by
        rw [dispatchedEvents, dispatched_of_ne ha]
        rfl
      obtain ⟨events, hqueue, hnone, hpublished, -⟩ := step_spec h ha
      rw [hqueue, fills_append, hnone, List.append_assoc] at hfills
      rw [hqueue, trades_append, hpublished, List.append_nil] at htrades
      rw [htaken]
      exact ⟨hfills, htrades⟩

end Runs

section Orders

structure FilledOrder where
  userId : String
  broker : String
  brokerOrderId : String
  symbol : String
  side : Engine.OrderSide
  deriving DecidableEq

def FilledOrder.Owns (order : FilledOrder) (trade : TradeRecord) : Prop :=
  trade.userId = order.userId ∧ trade.broker = order.broker ∧
    trade.brokerOrderId = order.brokerOrderId ∧ trade.symbol = order.symbol ∧
    trade.side = order.side.value

instance (order : FilledOrder) (trade : TradeRecord) : Decidable (order.Owns trade) :=
  inferInstanceAs (Decidable (_ ∧ _))

def FilledOrder.OwnsEvent (order : FilledOrder) (event : ExecutionEngineEvent) : Prop :=
  event.userId = order.userId ∧ event.broker = order.broker ∧
    event.brokerOrderId = order.brokerOrderId ∧ event.symbol = order.symbol ∧
    event.side = order.side.value

instance (order : FilledOrder) (event : ExecutionEngineEvent) :
    Decidable (order.OwnsEvent event) :=
  inferInstanceAs (Decidable (_ ∧ _))

def total (trades : List TradeRecord) : ℤ := (trades.map TradeRecord.quantity).sum

def reported (order : FilledOrder) (actions : List Action) : ℤ :=
  total ((fills (actions.flatMap Action.published)).filter order.Owns)

def recorded (order : FilledOrder) (s : EngineState) (actions : List Action) : ℤ :=
  ((dispatched s actions).map fun p =>
    total ((fills [p.2]).filter fun trade => order.Owns trade ∧ ¬ p.1.ledger.repeats trade)).sum

def moved (order : FilledOrder) (s : EngineState) (actions : List Action) : ℤ :=
  ((dispatched s actions).map fun p =>
    if p.2.domain = .trade ∧ order.OwnsEvent p.2 then
      (p.1.step .dispatch).book.quantity p.2.key - p.1.book.quantity p.2.key
    else 0).sum

def Unrepeated (order : FilledOrder) (s : EngineState) (actions : List Action) : Prop :=
  ∀ p ∈ dispatched s actions, ∀ trade ∈ fills [p.2],
    order.Owns trade → ¬ p.1.ledger.repeats trade

variable {order : FilledOrder} {s : EngineState} {actions : List Action}

def FilledOrder.signed (order : FilledOrder) (quantity : ℤ) : ℤ :=
  ExecutionEngine.signed order.side.value quantity

theorem FilledOrder.signed_eq (order : FilledOrder) (quantity : ℤ) :
    order.signed quantity = if order.side = .buy then quantity else -quantity := by
  unfold signed ExecutionEngine.signed
  cases order.side <;> rfl

theorem upper_side (side : Engine.OrderSide) : Text.upper side.value = side.value := by
  cases side <;> decide

theorem moved_step {p : EngineState × ExecutionEngineEvent} (hs : p.1.Sound)
    (hhead : p.1.queue.head? = some p.2) (hd : p.2.domain = .trade) (hown : order.OwnsEvent p.2) :
    (p.1.step .dispatch).book.quantity p.2.key - p.1.book.quantity p.2.key =
      order.signed p.2.quantity := by
  obtain ⟨queue, hq⟩ := List.head?_eq_some_iff.mp hhead
  obtain ⟨-, -, -, -, -, hbook⟩ := dispatch_spec hs hq
  have htrade : p.2.IsTrade :=
    hs.waiting p.2 (List.mem_filter.mpr ⟨List.mem_of_mem_head? hhead, by simpa using hd⟩)
  rw [hbook, if_pos hd, quantity_onTradeEvent hs.book htrade, if_pos rfl,
    ExecutionEngineEvent.signed, hown.2.2.2.2, upper_side]
  simp [FilledOrder.signed]

theorem signed_sum (order : FilledOrder) (trades : List TradeRecord) :
    (trades.map fun trade => order.signed trade.quantity).sum = order.signed (total trades) := by
  induction trades with
  | nil => simp [total, FilledOrder.signed_eq]
  | cons trade trades ih =>
    simp only [total, List.map_cons, List.sum_cons, FilledOrder.signed_eq] at ih ⊢
    split at ih
    · simp_all
    · simp_all
      omega

theorem moved_eq (h : s.Sound) : moved order s actions =
    (((trades (dispatchedEvents s actions)).filter order.OwnsEvent).map fun event =>
      order.signed event.quantity).sum := by
  have hstep : ∀ p ∈ dispatched s actions,
      (if p.2.domain = .trade ∧ order.OwnsEvent p.2 then
        (p.1.step .dispatch).book.quantity p.2.key - p.1.book.quantity p.2.key
      else 0) =
      if p.2.domain = .trade ∧ order.OwnsEvent p.2 then order.signed p.2.quantity else 0 := by
    intro p hp
    split
    · next hcond =>
      obtain ⟨hs, hhead, -⟩ := dispatched_sound h p hp
      exact moved_step hs hhead hcond.1 hcond.2
    · rfl
  rw [moved, List.map_congr_left hstep, dispatchedEvents]
  induction dispatched s actions with
  | nil => rfl
  | cons p ps ih =>
    rw [List.map_cons, List.sum_cons, List.map_cons, ih]
    by_cases hd : p.2.domain = .trade <;> by_cases hown : order.OwnsEvent p.2 <;>
      simp [trades, hd, hown]

theorem sum_le_iff {α : Type} {f g : α → ℤ} (h : ∀ a, f a ≤ g a) (as : List α) :
    (as.map f).sum ≤ (as.map g).sum ∧ ((as.map f).sum = (as.map g).sum ↔ ∀ a ∈ as, f a = g a) := by
  induction as with
  | nil => simp
  | cons a as ih =>
    have ha := h a
    simp only [List.map_cons, List.sum_cons, List.forall_mem_cons, ← ih.2]
    omega

theorem total_filter_iff (ts : List TradeRecord) (hpos : ∀ t ∈ ts, 0 < t.quantity)
    (P R : TradeRecord → Prop) [DecidablePred P] [DecidablePred R] :
    total (ts.filter fun t => P t ∧ ¬ R t) ≤ total (ts.filter P) ∧
    (total (ts.filter fun t => P t ∧ ¬ R t) = total (ts.filter P) ↔ ∀ t ∈ ts, P t → ¬ R t) := by
  induction ts with
  | nil => simp [total]
  | cons t ts ih =>
    obtain ⟨hle, hiff⟩ := ih fun t' ht' => hpos t' (List.mem_cons_of_mem _ ht')
    have ht : 0 < t.quantity := hpos t List.mem_cons_self
    rw [List.forall_mem_cons, ← hiff]
    unfold total at hle ⊢
    by_cases hP : P t
    · by_cases hR : R t
      · rw [List.filter_cons_of_neg (by simp [hR]), List.filter_cons_of_pos (by simpa using hP),
          List.map_cons, List.sum_cons]
        refine ⟨by omega, fun h => by omega, fun h => absurd hR (h.1 hP)⟩
      · rw [List.filter_cons_of_pos (by simp [hP, hR]),
          List.filter_cons_of_pos (by simpa using hP), List.map_cons, List.map_cons,
          List.sum_cons, List.sum_cons]
        refine ⟨by omega, fun h => ⟨fun _ => hR, by omega⟩, fun h => by omega⟩
    · rw [List.filter_cons_of_neg (by simp [hP]), List.filter_cons_of_neg (by simpa using hP)]
      exact ⟨hle, fun h => ⟨fun h' => absurd h' hP, h⟩, fun h => h.2⟩

theorem fills_flatMap (events : List ExecutionEngineEvent) :
    fills events = events.flatMap fun event => fills [event] := by
  induction events with
  | nil => rfl
  | cons event events ih =>
    rw [List.flatMap_cons, ← ih, ← fills_append]
    rfl

theorem recorded_iff (order : FilledOrder) (s : EngineState) (actions : List Action) :
    recorded order s actions ≤ total ((fills (dispatchedEvents s actions)).filter order.Owns) ∧
    (recorded order s actions = total ((fills (dispatchedEvents s actions)).filter order.Owns) ↔
      Unrepeated order s actions) := by
  have hall : total ((fills (dispatchedEvents s actions)).filter order.Owns) =
      ((dispatched s actions).map fun p => total ((fills [p.2]).filter order.Owns)).sum := by
    rw [dispatchedEvents, fills_flatMap]
    induction dispatched s actions with
    | nil => rfl
    | cons p ps ih =>
      rw [List.map_cons, List.flatMap_cons, List.filter_append, List.map_cons, List.sum_cons, ← ih]
      simp [total]
  have hone : ∀ p : EngineState × ExecutionEngineEvent, _ := fun p =>
    total_filter_iff (fills [p.2]) (fun trade ht => by
      obtain ⟨event, -, hevent⟩ := List.mem_filterMap.mp ht
      exact (tradeOf_positive hevent).1) order.Owns p.1.ledger.repeats
  obtain ⟨hle, hiff⟩ := sum_le_iff (fun p => (hone p).1) (dispatched s actions)
  rw [hall]
  exact ⟨hle, hiff.trans (forall₂_congr fun p _ => (hone p).2)⟩

/-- Once no fill and no trade waits on the bus, the ledger and the position have each moved
by the order's filled quantity if and only if the reports add up to it and none repeats one. -/
theorem filled_once_iff (order : FilledOrder) (quantity : ℤ) (today : String)
    (actions : List Action)
    (hfills : fills (({ today := today } : EngineState).run actions).queue = [])
    (htrades : trades (({ today := today } : EngineState).run actions).queue = []) :
    (recorded order { today := today } actions = quantity ∧
      moved order { today := today } actions = order.signed quantity) ↔
    (reported order actions = quantity ∧ Unrepeated order { today := today } actions) := by
  have hinit := sound_initial today
  obtain ⟨hflow, hflow'⟩ := flow actions hinit
  rw [hfills, List.append_nil] at hflow
  rw [htrades, List.append_nil] at hflow'
  have hreported : total ((fills (dispatchedEvents { today := today } actions)).filter order.Owns) =
      reported order actions := by
    rw [← hflow]
    rfl
  have hmoved : moved order { today := today } actions = order.signed (reported order actions) := by
    rw [moved_eq hinit, ← hflow', ← hreported, ← signed_sum]
    have hnil : trades ({ today := today } : EngineState).queue = [] := rfl
    rw [hnil, List.nil_append, List.filter_map, List.map_map]
    rfl
  obtain ⟨hle, hiff⟩ := recorded_iff order { today := today } actions
  rw [hreported] at hle hiff
  rw [← hiff, hmoved]
  have hinj : order.signed (reported order actions) = order.signed quantity ↔
      reported order actions = quantity := by
    rw [FilledOrder.signed_eq, FilledOrder.signed_eq]
    split <;> omega
  rw [hinj]
  omega

def partialReport (order : FilledOrder) (fill : ℤ × ℚ) : Action :=
  .order
    { type := .orderPartiallyFilled, userId := order.userId, broker := order.broker
      brokerOrderId := order.brokerOrderId, symbol := order.symbol, side := order.side.value
      filledQuantity := fill.1, avgPrice := fill.2 } rfl

def completionReport (order : FilledOrder) (quantity : ℤ) (averagePrice : ℚ) : Action :=
  .legacy
    { eventType := "OrderCompleted", userId := order.userId, broker := order.broker
      symbol := order.symbol, side := order.side.value
      payload :=
        { brokerOrderId := order.brokerOrderId, filledQuantity := quantity
          averagePrice := averagePrice } }

/-- All that waits for the ledger or the positions is taken within `n` steps. -/
def Counted (order : FilledOrder) (reports : List Action) (n : ℕ) (quantity : ℤ) : Prop :=
  fills (({} : EngineState).run (reports ++ List.replicate n .dispatch)).queue = [] →
  trades (({} : EngineState).run (reports ++ List.replicate n .dispatch)).queue = [] →
  recorded order {} (reports ++ List.replicate n .dispatch) = quantity ∧
    moved order {} (reports ++ List.replicate n .dispatch) = order.signed quantity

/-- Of two equal fills the ledger drops one, and a completion that follows partial fills
counts them again. -/
theorem partial_fills_miscounted :
    (¬ ∀ (order : FilledOrder) (fs : List (ℤ × ℚ)) (n : ℕ),
      Counted order (fs.map (partialReport order)) n (fs.map Prod.fst).sum) ∧
    ¬ ∀ (order : FilledOrder) (fs : List (ℤ × ℚ)) (averagePrice : ℚ) (n : ℕ),
      Counted order (fs.map (partialReport order) ++
        [completionReport order (fs.map Prod.fst).sum averagePrice]) n (fs.map Prod.fst).sum := by
  constructor
  · intro h
    have hcounted := h ⟨"u", "fyers", "B-1", "NIFTY", .buy⟩ [(5, 100), (5, 100)] 6
      (by decide) (by decide)
    exact absurd hcounted.1 (by decide)
  · intro h
    have hcounted := h ⟨"u", "fyers", "B-1", "NIFTY", .buy⟩ [(4, 100), (6, 101)] (503 / 5) 9
      (by decide +kernel) (by decide +kernel)
    exact absurd hcounted.1 (by decide +kernel)

/-- Two different partial fills that add up to the order are counted once each. -/
theorem two_partial_fills_counted :
    recorded ⟨"u", "fyers", "B-1", "NIFTY", .sell⟩ { today := "" }
      [partialReport ⟨"u", "fyers", "B-1", "NIFTY", .sell⟩ (4, 100),
        partialReport ⟨"u", "fyers", "B-1", "NIFTY", .sell⟩ (6, 100),
        .dispatch, .dispatch, .dispatch, .dispatch] = 10 ∧
    moved ⟨"u", "fyers", "B-1", "NIFTY", .sell⟩ { today := "" }
      [partialReport ⟨"u", "fyers", "B-1", "NIFTY", .sell⟩ (4, 100),
        partialReport ⟨"u", "fyers", "B-1", "NIFTY", .sell⟩ (6, 100),
        .dispatch, .dispatch, .dispatch, .dispatch] = -10 :=
  (filled_once_iff ⟨"u", "fyers", "B-1", "NIFTY", .sell⟩ 10 "" _ (by decide)
    (by decide)).mpr ⟨by decide, by
      unfold Unrepeated
      decide⟩

end Orders

end Trademetrix.ExecutionEngine
