import Trademetrix.ExecutionEngine.Positions

/-!
# Positions against the trade ledger

What the ledger holds of a user's symbol and what the positions hold of it, over runs of
the engine. A trade that the ledger has recorded waits on the bus until the position
manager takes it.
-/

namespace Trademetrix.ExecutionEngine

section Book

def PositionBook.quantity (book : PositionBook) (key : String) : ℤ :=
  ((book.positions.get key).map EnginePosition.quantity).getD 0

structure PositionBook.Held (book : PositionBook) : Prop where
  keys : (book.positions.map Prod.fst).Nodup
  lots : ∀ {key fifo}, book.fifos.get key = some fifo → fifo.Positive
  net : ∀ key, book.quantity key = ((book.fifos.get key).getD {}).netQuantity

def ExecutionEngineEvent.key (event : ExecutionEngineEvent) : String :=
  positionKey event.userId event.broker event.symbol

structure ExecutionEngineEvent.IsTrade (event : ExecutionEngineEvent) : Prop where
  type : event.type = .tradeExecuted
  quantity : 0 < event.quantity
  price : 0 < event.avgPrice

theorem tradeOf_event {event : ExecutionEngineEvent} {trade : TradeRecord}
    (h : tradeOf event = some trade) : trade.event.IsTrade :=
  ⟨rfl, (tradeOf_positive h).1, (tradeOf_positive h).2⟩

def ExecutionEngineEvent.signed (event : ExecutionEngineEvent) : ℤ :=
  ExecutionEngine.signed (Text.upper event.side) event.quantity

theorem onTradeEvent_cases {book : PositionBook} (hbook : book.Held)
    {event : ExecutionEngineEvent} (h : event.IsTrade) :
    (onTradeEvent event book = (book, []) ∧ event.signed = 0) ∨
    ∃ position fifo etype, domainFor etype = .position ∧
      onTradeEvent event book =
        ({ positions := book.positions.set event.key position
           fifos := book.fifos.set event.key fifo }, [positionEvent etype position]) ∧
      fifo.Positive ∧ position.quantity = fifo.netQuantity ∧
      fifo.netQuantity = book.quantity event.key + event.signed ∧
      position.userId = (basePosition event (book.positions.get event.key)).userId ∧
      position.symbol = (basePosition event (book.positions.get event.key)).symbol := by
  by_cases hside : Text.upper event.side = "BUY" ∨ Text.upper event.side = "SELL"
  · right
    have hlots : ((book.fifos.get event.key).getD {}).Positive := by
      cases hget : book.fifos.get event.key with
      | none => exact ⟨fun _ hm => absurd hm List.not_mem_nil, fun _ hm => absurd hm List.not_mem_nil⟩
      | some fifo => exact hbook.lots hget
    have hprice : orNumber event.avgPrice event.price = event.avgPrice := by
      simp [orNumber, h.price.ne']
    obtain ⟨realized, fifo, happly, hpos, hnet⟩ :=
      apply_net hlots hside h.quantity event.avgPrice
    have hknown : ¬ (Text.upper event.side ≠ "BUY" ∧ Text.upper event.side ≠ "SELL") := by
      rintro ⟨hbuy, hsell⟩
      exact hside.elim hbuy hsell
    have hvalid : ¬ (event.quantity ≤ 0 ∨ event.avgPrice ≤ 0) :=
      not_or.mpr ⟨not_le.mpr h.quantity, not_le.mpr h.price⟩
    refine ⟨syncPosition event (book.positions.get event.key) fifo realized, fifo,
      openedOrClosed (((book.positions.get event.key).map EnginePosition.isOpen).getD false)
        (syncPosition event (book.positions.get event.key) fifo realized).isOpen,
      ?_, ?_, hpos, rfl, ?_, rfl, rfl⟩
    · unfold openedOrClosed
      split
      · rfl
      · split <;> rfl
    · simp only [onTradeEvent, h.type, hprice, if_neg hknown, if_neg hvalid, ne_eq,
        not_true_eq_false, if_false]
      rw [ExecutionEngineEvent.key] at happly
      rw [happly]
      rfl
    · rw [hnet, hbook.net]
      rfl
  · left
    obtain ⟨hbuy, hsell⟩ := not_or.mp hside
    constructor
    · simp [onTradeEvent, h.type, hbuy, hsell]
    · simp [ExecutionEngineEvent.signed, signed, hbuy, hsell]

theorem PositionBook.quantity_set (book : PositionBook) (fifos : Dict String FifoLots)
    (key key' : String) (position : EnginePosition) :
    PositionBook.quantity { positions := book.positions.set key position, fifos := fifos } key' =
      if key' = key then position.quantity else book.quantity key' := by
  unfold quantity
  rw [Dict.get_set]
  split <;> rfl

theorem held_onTradeEvent {book : PositionBook} (hbook : book.Held)
    {event : ExecutionEngineEvent} (h : event.IsTrade) : (onTradeEvent event book).1.Held := by
  rcases onTradeEvent_cases hbook h with ⟨heq, -⟩ | ⟨position, fifo, _, -, heq, hpos, hqty, -⟩
  · rw [heq]
    exact hbook
  · rw [heq]
    refine ⟨Dict.nodup_keys_set hbook.keys _ _, fun {key fifo'} hget => ?_, fun key => ?_⟩
    · simp only [Dict.get_set] at hget
      split at hget
      · cases hget
        exact hpos
      · exact hbook.lots hget
    · rw [PositionBook.quantity_set, Dict.get_set]
      split
      · exact hqty
      · exact hbook.net key

theorem quantity_onTradeEvent {book : PositionBook} (hbook : book.Held)
    {event : ExecutionEngineEvent} (h : event.IsTrade) (key : String) :
    (onTradeEvent event book).1.quantity key =
      book.quantity key + (if key = event.key then event.signed else 0) := by
  rcases onTradeEvent_cases hbook h with ⟨heq, hzero⟩ | ⟨position, _, _, -, heq, -, hqty, hnet, -⟩
  · rw [heq, hzero]
    simp
  · rw [heq, PositionBook.quantity_set]
    split
    · next hkey => rw [hqty, hnet, hkey]
    · simp

theorem markedPosition_fields (userId broker : String) (prices : Dict String ℚ)
    (fifos : Dict String FifoLots) (key : String) (position : EnginePosition) :
    (markedPosition userId broker prices fifos key position).quantity = position.quantity ∧
    (markedPosition userId broker prices fifos key position).userId = position.userId ∧
    (markedPosition userId broker prices fifos key position).broker = position.broker ∧
    (markedPosition userId broker prices fifos key position).symbol = position.symbol := by
  unfold markedPosition
  split
  · exact ⟨rfl, rfl, rfl, rfl⟩
  · unfold markPosition
    split <;> exact ⟨rfl, rfl, rfl, rfl⟩

theorem held_markToMarket {book : PositionBook} (hbook : book.Held) (userId broker : String)
    (prices : Dict String ℚ) : (markToMarket userId broker prices book).1.Held := by
  have hquantity : ∀ key, (markToMarket userId broker prices book).1.quantity key =
      book.quantity key := by
    intro key
    unfold PositionBook.quantity markToMarket
    rw [Dict.get_map]
    cases book.positions.get key with
    | none => rfl
    | some position => exact (markedPosition_fields userId broker prices book.fifos key position).1
  refine ⟨?_, hbook.lots, fun key => (hquantity key).trans (hbook.net key)⟩
  have hkeys : (markToMarket userId broker prices book).1.positions.map Prod.fst =
      book.positions.map Prod.fst := by
    simp [markToMarket, Function.comp_def]
  rw [hkeys]
  exact hbook.keys

end Book

section Steps

def fills (events : List ExecutionEngineEvent) : List TradeRecord := events.filterMap tradeOf

def trades (events : List ExecutionEngineEvent) : List ExecutionEngineEvent :=
  events.filter fun event => event.domain = .trade

@[simp] theorem fills_append (es es' : List ExecutionEngineEvent) :
    fills (es ++ es') = fills es ++ fills es' := by
  simp [fills]

@[simp] theorem trades_append (es es' : List ExecutionEngineEvent) :
    trades (es ++ es') = trades es ++ trades es' := by
  simp [trades]

theorem tradeOf_eq_none {event : ExecutionEngineEvent} (h : event.domain ≠ .order) :
    tradeOf event = none := by
  unfold tradeOf
  rw [if_neg]
  intro hfill
  have horder : ∀ etype ∈ fillEvents, domainFor etype = .order := by decide
  exact h (horder _ hfill)

theorem fills_of_domain {events : List ExecutionEngineEvent} {d : ExecutionDomain}
    (h : ∀ event ∈ events, event.domain = d) (hd : d ≠ .order) : fills events = [] := by
  refine List.filterMap_eq_nil_iff.mpr fun event he => tradeOf_eq_none ?_
  rw [h event he]
  exact hd

theorem trades_of_domain {events : List ExecutionEngineEvent} {d : ExecutionDomain}
    (h : ∀ event ∈ events, event.domain = d) (hd : d ≠ .trade) : trades events = [] := by
  refine List.filter_eq_nil_iff.mpr fun event he => ?_
  rw [h event he]
  simpa using hd

theorem typeMap_domain {name : String} {etype : ExecutionEventType} (h : typeMap name = some etype) :
    domainFor etype = .order ∨ domainFor etype = .risk := by
  unfold typeMap at h
  split at h <;> cases h <;> decide

theorem publishOutcome_domain {result : Execution.OrderResult} {order : Engine.NormalizedOrder}
    {event : ExecutionEngineEvent} (h : event ∈ publishOutcome result order) :
    event.domain = .order ∨ event.domain = .execution := by
  simp only [publishOutcome] at h
  split_ifs at h <;> simp only [List.mem_cons, List.not_mem_nil, or_false] at h <;>
    rcases h with rfl | rfl <;> simp [ExecutionEngineEvent.domain, domainFor]

theorem published_domain {action : Action} {event : ExecutionEngineEvent}
    (h : event ∈ action.published) : event.domain ≠ .trade := by
  cases action with
  | legacy legacy =>
    obtain ⟨etype, hmap, rfl⟩ := Option.map_eq_some_iff.mp (Option.mem_toList.mp h)
    have hdomain := typeMap_domain hmap
    dsimp only
    split <;> rcases hdomain with hdomain | hdomain <;>
      simp [ExecutionEngineEvent.domain, hdomain]
  | outcome result placed =>
    rcases publishOutcome_domain h with hdomain | hdomain <;> rw [hdomain] <;> decide
  | order event hdomain =>
    rw [List.mem_singleton.mp h, hdomain]
    decide
  | dispatch | mark | account | day => cases h

theorem trades_published (action : Action) : trades action.published = [] := by
  refine List.filter_eq_nil_iff.mpr fun event he => ?_
  simpa using published_domain he

structure EngineState.Sound (s : EngineState) : Prop where
  book : s.book.Held
  waiting : ∀ event ∈ trades s.queue, event.IsTrade

variable {s : EngineState} {event : ExecutionEngineEvent}

theorem isTrade_fills {events : List ExecutionEngineEvent} :
    ∀ event ∈ (fills events).map TradeRecord.event, event.IsTrade := by
  intro event he
  obtain ⟨trade, htrade, rfl⟩ := List.mem_map.mp he
  obtain ⟨source, -, hsource⟩ := List.mem_filterMap.mp htrade
  exact tradeOf_event hsource

theorem handle_queue_other (hbook : s.book.Held) (he : event.domain = .trade → event.IsTrade)
    (hne : event.domain ≠ .order) :
    ∃ d events, (s.handle event).queue = s.queue ++ events ∧
      (∀ e ∈ events, e.domain = d) ∧ d ≠ .order ∧ d ≠ .trade := by
  have hnil : ∀ e ∈ ([] : List ExecutionEngineEvent), e.domain = .risk :=
    fun e hm => absurd hm List.not_mem_nil
  cases hd : event.domain with
  | order => exact absurd hd hne
  | trade =>
    rcases onTradeEvent_cases hbook (he hd) with ⟨heq, -⟩ | ⟨position, _, etype, htype, heq, -⟩
    · refine ⟨.risk, [], ?_, hnil, by decide, by decide⟩
      simp [EngineState.handle, hd, EngineState.onTradeEvent, heq, EngineState.publish]
    · refine ⟨.position, [positionEvent etype position], ?_, ?_, by decide, by decide⟩
      · simp [EngineState.handle, hd, EngineState.onTradeEvent, heq, EngineState.publish]
      · intro e hm
        rw [List.mem_singleton.mp hm]
        exact htype
  | position =>
    refine ⟨.portfolio,
      [{ type := .portfolioRevalued, userId := event.userId, broker := event.broker }],
      ?_, ?_, by decide, by decide⟩
    · simp only [EngineState.handle, hd, EngineState.recompute, EngineState.publish]
    · intro e hm
      rw [List.mem_singleton.mp hm]
      rfl
  | portfolio =>
    by_cases hskip : event.type = .portfolioSnapshot ∨ event.userId = ""
    · refine ⟨.risk, [], ?_, hnil, by decide, by decide⟩
      simp [EngineState.handle, hd, EngineState.onPortfolioEvent, hskip]
    · refine ⟨.portfolio, [{ type := .portfolioSnapshot, userId := event.userId }],
        ?_, ?_, by decide, by decide⟩
      · simp only [EngineState.handle, hd, EngineState.onPortfolioEvent, if_neg hskip,
          EngineState.publish]
      · intro e hm
        rw [List.mem_singleton.mp hm]
        rfl
  | execution | risk =>
    refine ⟨.risk, [], ?_, hnil, by decide, by decide⟩
    simp [EngineState.handle, hd]

theorem handle_queue (hbook : s.book.Held) (he : event.domain = .trade → event.IsTrade) :
    ∃ events, (s.handle event).queue = s.queue ++ events ∧ fills events = [] ∧
      trades events = (fills [event]).map TradeRecord.event := by
  by_cases hne : event.domain = .order
  · cases ht : tradeOf event with
    | none =>
      have hnone : fills [event] = [] := by simp [fills, ht]
      refine ⟨[], ?_, rfl, by rw [hnone]; rfl⟩
      simp [EngineState.handle, hne, EngineState.onOrderEvent, ht]
    | some trade =>
      have hsome : fills [event] = [trade] := by simp [fills, ht]
      refine ⟨[trade.event], ?_, rfl, by rw [hsome]; rfl⟩
      simp [EngineState.handle, hne, EngineState.onOrderEvent, ht, EngineState.publish]
  · obtain ⟨d, events, hqueue, hd, horder, htrade⟩ := handle_queue_other hbook he hne
    have hnone : fills [event] = [] :=
      fills_of_domain (fun e hm => by rw [List.mem_singleton.mp hm]) hne
    exact ⟨events, hqueue, fills_of_domain hd horder, by
      rw [trades_of_domain hd htrade, hnone]
      rfl⟩

theorem handle_ledger : (s.handle event).ledger = s.ledger.addAll (fills [event]) := by
  by_cases hd : event.domain = .order
  · cases ht : tradeOf event with
    | none => simp [EngineState.handle, hd, EngineState.onOrderEvent, ht, fills]
    | some trade =>
      simp [EngineState.handle, hd, EngineState.onOrderEvent, ht, fills, EngineState.publish]
  · have hnone : tradeOf event = none := tradeOf_eq_none hd
    cases hd' : event.domain <;>
      simp_all [EngineState.handle, fills, EngineState.onTradeEvent, EngineState.recompute,
        EngineState.onPortfolioEvent, EngineState.publish]
    split <;> rfl

theorem handle_book : (s.handle event).book =
    if event.domain = .trade then (onTradeEvent event s.book).1 else s.book := by
  cases hd : event.domain with
  | order =>
    cases ht : tradeOf event <;>
      simp [EngineState.handle, hd, EngineState.onOrderEvent, ht, EngineState.publish]
  | portfolio =>
    simp only [EngineState.handle, hd, EngineState.onPortfolioEvent]
    split <;> simp [EngineState.publish]
  | trade => simp [EngineState.handle, hd, EngineState.onTradeEvent, EngineState.publish]
  | position => simp [EngineState.handle, hd, EngineState.recompute, EngineState.publish]
  | execution | risk => simp [EngineState.handle, hd]

theorem dispatch_spec {queue : List ExecutionEngineEvent} (h : s.Sound)
    (hq : s.queue = event :: queue) :
    ∃ events, (s.step .dispatch).queue = queue ++ events ∧ fills events = [] ∧
      trades events = (fills [event]).map TradeRecord.event ∧
      (s.step .dispatch).ledger = s.ledger.addAll (fills [event]) ∧
      (s.step .dispatch).book =
        if event.domain = .trade then (onTradeEvent event s.book).1 else s.book := by
  have hstep : s.step .dispatch = { s with queue := queue }.handle event := by
    simp only [EngineState.step, EngineState.dispatch, hq]
  have he : event.domain = .trade → event.IsTrade := fun hd =>
    h.waiting event (List.mem_filter.mpr ⟨by rw [hq]; exact List.mem_cons_self, by simpa using hd⟩)
  obtain ⟨events, hqueue, hfills, htrades⟩ :=
    handle_queue (s := { s with queue := queue }) h.book he
  exact ⟨events, by rw [hstep]; exact hqueue, hfills, htrades, by rw [hstep]; exact handle_ledger,
    by rw [hstep]; exact handle_book⟩

theorem markToMarket_events (userId broker : String) (prices : Dict String ℚ)
    (book : PositionBook) :
    ∀ event ∈ (markToMarket userId broker prices book).2, event.domain = .position := by
  intro event he
  obtain ⟨p, -, rfl⟩ := List.mem_map.mp he
  rfl

theorem step_spec {action : Action} (h : s.Sound) (ha : action ≠ .dispatch) :
    ∃ events, (s.step action).queue = s.queue ++ events ∧ fills events = fills action.published ∧
      trades events = [] ∧ (s.step action).ledger = s.ledger ∧ (s.step action).book.Held ∧
      (s.step action).book.fifos = s.book.fifos ∧
      ∃ f : String → EnginePosition → EnginePosition,
        (s.step action).book.positions = s.book.positions.map (fun p => (p.1, f p.1 p.2)) ∧
        ∀ key position, (f key position).quantity = position.quantity ∧
          (f key position).userId = position.userId ∧ (f key position).symbol = position.symbol := by
  have hsame : ∃ f : String → EnginePosition → EnginePosition,
      s.book.positions = s.book.positions.map (fun p => (p.1, f p.1 p.2)) ∧
      ∀ key position, (f key position).quantity = position.quantity ∧
        (f key position).userId = position.userId ∧ (f key position).symbol = position.symbol :=
    ⟨fun _ position => position, by simp, fun _ _ => ⟨rfl, rfl, rfl⟩⟩
  cases action with
  | dispatch => exact absurd rfl ha
  | legacy legacy => exact ⟨_, rfl, rfl, trades_published _, rfl, h.book, rfl, hsame⟩
  | outcome result placed => exact ⟨_, rfl, rfl, trades_published _, rfl, h.book, rfl, hsame⟩
  | order event hd => exact ⟨_, rfl, rfl, trades_published _, rfl, h.book, rfl, hsame⟩
  | mark userId broker prices =>
    have hdomain := markToMarket_events userId broker prices s.book
    exact ⟨_, rfl, fills_of_domain hdomain (by decide), trades_of_domain hdomain (by decide), rfl,
      held_markToMarket h.book userId broker prices, rfl,
      markedPosition userId broker prices s.book.fifos, rfl, fun key position =>
        have hf := markedPosition_fields userId broker prices s.book.fifos key position
        ⟨hf.1, hf.2.1, hf.2.2.2⟩⟩
  | account userId broker =>
    exact ⟨[], (List.append_nil _).symm, rfl, rfl, rfl, h.book, rfl, hsame⟩
  | day today => exact ⟨[], (List.append_nil _).symm, rfl, rfl, rfl, h.book, rfl, hsame⟩

theorem dispatch_idle (hq : s.queue = []) : s.step .dispatch = s := by
  simp only [EngineState.step, EngineState.dispatch, hq]

theorem sound_step (h : s.Sound) (action : Action) : (s.step action).Sound := by
  by_cases ha : action = .dispatch
  · subst ha
    cases hq : s.queue with
    | nil =>
      rw [dispatch_idle hq]
      exact h
    | cons event queue =>
      obtain ⟨events, hqueue, -, htrades, -, hbook⟩ := dispatch_spec h hq
      have hwaiting : ∀ e ∈ trades (event :: queue), e.IsTrade := by
        rw [← hq]
        exact h.waiting
      refine ⟨?_, fun e he => ?_⟩
      · rw [hbook]
        split
        · next hd =>
          exact held_onTradeEvent h.book
            (hwaiting event (List.mem_filter.mpr ⟨List.mem_cons_self, by simpa using hd⟩))
        · exact h.book
      · rw [hqueue, trades_append, htrades] at he
        rcases List.mem_append.mp he with he | he
        · have hmem := List.mem_filter.mp he
          exact hwaiting e (List.mem_filter.mpr ⟨List.mem_cons_of_mem _ hmem.1, hmem.2⟩)
        · exact isTrade_fills e he
  · obtain ⟨events, hqueue, -, htrades, -, hbook, -⟩ := step_spec h ha
    refine ⟨hbook, fun e he => h.waiting e ?_⟩
    rwa [hqueue, trades_append, htrades, List.append_nil] at he

theorem sound_initial (today : String) : ({ today := today } : EngineState).Sound where
  book :=
    { keys := List.nodup_nil
      lots := fun h => absurd h (by simp [Dict.get])
      net := fun _ => rfl }
  waiting := fun _ h => absurd h List.not_mem_nil

end Steps

section Nets

def TradeRecord.net (userId symbol : String) (trade : TradeRecord) : ℤ :=
  if trade.userId = userId ∧ trade.symbol = symbol then
    signed (Text.upper trade.side) trade.quantity
  else 0

def bucketNet (userId symbol : String) (bucket : List TradeRecord) : ℤ :=
  (bucket.map (TradeRecord.net userId symbol)).sum

def TradeLedger.net (userId symbol : String) (ledger : TradeLedger) : ℤ :=
  (ledger.values.map (bucketNet userId symbol)).sum

def EnginePosition.net (userId symbol : String) (position : EnginePosition) : ℤ :=
  if position.userId = userId ∧ position.symbol = symbol then position.quantity else 0

def PositionBook.net (userId symbol : String) (book : PositionBook) : ℤ :=
  (book.positions.values.map (EnginePosition.net userId symbol)).sum

def ExecutionEngineEvent.net (userId symbol : String) (event : ExecutionEngineEvent) : ℤ :=
  if event.userId = userId ∧ event.symbol = symbol then event.signed else 0

def waitingNet (userId symbol : String) (queue : List ExecutionEngineEvent) : ℤ :=
  ((trades queue).map (ExecutionEngineEvent.net userId symbol)).sum

def TradeLedger.Fresh (ledger : TradeLedger) (trade : TradeRecord) : Prop :=
  ¬ ledger.repeats trade ∧ (ledger.bucket trade.accountKey).length < maxPerAccount

def PositionBook.Own (book : PositionBook) (event : ExecutionEngineEvent) : Prop :=
  ∀ position ∈ book.positions.get event.key,
    position.userId = event.userId ∧ position.symbol = event.symbol

def EngineState.Regular (s : EngineState) : Action → Prop
  | .dispatch =>
    ∀ event ∈ s.queue.head?, (∀ trade ∈ fills [event], s.ledger.Fresh trade) ∧
      (event.domain = .trade → s.book.Own event)
  | _ => True

instance (s : EngineState) (action : Action) : Decidable (s.Regular action) :=
  match action with
  | .dispatch =>
    inferInstanceAs (Decidable (∀ event ∈ s.queue.head?,
      (∀ trade ∈ fills [event], ¬ s.ledger.repeats trade ∧ _ < maxPerAccount) ∧
        (event.domain = .trade → ∀ position ∈ s.book.positions.get event.key, _ ∧ _)))
  | .legacy .. | .outcome .. | .order .. | .mark .. | .account .. | .day .. => .isTrue trivial

theorem add_fresh {ledger : TradeLedger} {trade : TradeRecord} (h : ledger.Fresh trade) :
    ledger.add trade = ledger.set trade.accountKey (ledger.bucket trade.accountKey ++ [trade]) := by
  obtain ⟨hnew, hroom⟩ := h
  have hlen : (ledger.bucket trade.accountKey ++ [trade]).length - maxPerAccount = 0 := by
    rw [List.length_append, List.length_singleton]
    omega
  simp only [TradeLedger.add, if_neg hnew, hlen, List.drop_zero]

theorem net_add {ledger : TradeLedger} (hkeys : (ledger.map Prod.fst).Nodup) {trade : TradeRecord}
    (h : ledger.Fresh trade) (userId symbol : String) :
    (ledger.add trade).net userId symbol =
      ledger.net userId symbol + trade.net userId symbol := by
  rw [add_fresh h, TradeLedger.net, Dict.sum_set hkeys]
  simp only [TradeLedger.net, TradeLedger.bucket, bucketNet, List.map_append, List.sum_append,
    List.map_cons, List.map_nil, List.sum_cons, List.sum_nil]
  cases Dict.get ledger trade.accountKey with
  | none => simp
  | some bucket =>
    simp only [Option.getD_some, Option.map_some, bucketNet]
    omega

theorem net_onTradeEvent {book : PositionBook} (hbook : book.Held) {event : ExecutionEngineEvent}
    (h : event.IsTrade) (hown : book.Own event) (userId symbol : String) :
    (onTradeEvent event book).1.net userId symbol =
      book.net userId symbol + event.net userId symbol := by
  rcases onTradeEvent_cases hbook h with
    ⟨heq, hzero⟩ | ⟨position, fifo, _, -, heq, -, hqty, hnet, huser, hsymbol⟩
  · rw [heq]
    simp [ExecutionEngineEvent.net, hzero]
  · rw [heq, PositionBook.net, Dict.sum_set hbook.keys]
    have hbase : (basePosition event (book.positions.get event.key)).userId = event.userId ∧
        (basePosition event (book.positions.get event.key)).symbol = event.symbol := by
      cases hget : book.positions.get event.key with
      | none => exact ⟨rfl, rfl⟩
      | some position => exact hown position hget
    have hposition : position.net userId symbol =
        if event.userId = userId ∧ event.symbol = symbol then
          book.quantity event.key + event.signed else 0 := by
      rw [EnginePosition.net, huser, hsymbol, hbase.1, hbase.2, hqty, hnet]
    have hold : ((book.positions.get event.key).map (EnginePosition.net userId symbol)).getD 0 =
        if event.userId = userId ∧ event.symbol = symbol then book.quantity event.key else 0 := by
      cases hget : book.positions.get event.key with
      | none => simp [PositionBook.quantity, hget]
      | some position =>
        obtain ⟨hu, hs⟩ := hown position hget
        simp [PositionBook.quantity, hget, EnginePosition.net, hu, hs]
    rw [hposition, hold, ExecutionEngineEvent.net, PositionBook.net]
    split <;> omega

theorem net_of_map {positions : Dict String EnginePosition}
    {f : String → EnginePosition → EnginePosition}
    (hf : ∀ key position, (f key position).quantity = position.quantity ∧
      (f key position).userId = position.userId ∧ (f key position).symbol = position.symbol)
    (userId symbol : String) :
    ((Dict.values (positions.map fun p => (p.1, f p.1 p.2))).map
      (EnginePosition.net userId symbol)).sum =
    (positions.values.map (EnginePosition.net userId symbol)).sum := by
  unfold Dict.values
  rw [List.map_map, List.map_map, List.map_map]
  refine congrArg List.sum (List.map_congr_left fun p _ => ?_)
  obtain ⟨hqty, huser, hsymbol⟩ := hf p.1 p.2
  simp only [Function.comp_apply, EnginePosition.net, hqty, huser, hsymbol]

structure EngineState.Tallied (s : EngineState) : Prop extends s.Sound where
  buckets : (s.ledger.map Prod.fst).Nodup
  net : ∀ userId symbol,
    s.book.net userId symbol + waitingNet userId symbol s.queue = s.ledger.net userId symbol

variable {s : EngineState}

theorem waitingNet_append (userId symbol : String) (es es' : List ExecutionEngineEvent) :
    waitingNet userId symbol (es ++ es') =
      waitingNet userId symbol es + waitingNet userId symbol es' := by
  simp [waitingNet]

theorem tallied_step (h : s.Tallied) {action : Action}
    (hregular : s.Regular action) : (s.step action).Tallied := by
  have hsound := sound_step h.toSound action
  by_cases ha : action = .dispatch
  · subst ha
    cases hq : s.queue with
    | nil =>
      rw [dispatch_idle hq]
      exact h
    | cons event queue =>
      obtain ⟨hfresh, hown⟩ := hregular event (by rw [hq]; rfl)
      obtain ⟨events, hqueue, -, htrades, hledger, hbook⟩ := dispatch_spec h.toSound hq
      by_cases hd : event.domain = .trade
      · -- the position manager takes a trade off the bus
        have hnone : tradeOf event = none := tradeOf_eq_none (by rw [hd]; decide)
        have hfills : fills [event] = [] := by simp [fills, hnone]
        have htrade : event.IsTrade := h.waiting event
          (List.mem_filter.mpr ⟨by rw [hq]; exact List.mem_cons_self, by simpa using hd⟩)
        rw [hfills] at hledger htrades
        rw [if_pos hd] at hbook
        refine ⟨hsound, hledger ▸ h.buckets, fun userId symbol => ?_⟩
        have hold := h.net userId symbol
        have hhead : trades (event :: queue) = event :: trades queue := by simp [trades, hd]
        rw [hq, waitingNet, hhead] at hold
        simp only [List.map_cons, List.sum_cons] at hold
        rw [hbook, net_onTradeEvent h.book htrade (hown hd), hqueue, hledger, waitingNet_append]
        simp only [waitingNet, htrades, List.map_nil, List.sum_nil, TradeLedger.addAll_nil]
        omega
      · rw [if_neg hd] at hbook
        have hhead : trades (event :: queue) = trades queue := by simp [trades, hd]
        cases ht : tradeOf event with
        | none =>
          have hfills : fills [event] = [] := by simp [fills, ht]
          rw [hfills] at hledger htrades
          refine ⟨hsound, hledger ▸ h.buckets, fun userId symbol => ?_⟩
          have hold := h.net userId symbol
          rw [hq, waitingNet, hhead] at hold
          rw [hbook, hqueue, hledger, waitingNet_append]
          simp only [waitingNet, htrades, List.map_nil, List.sum_nil, TradeLedger.addAll_nil]
          omega
        | some trade =>
          -- the trade manager records a fill and publishes its trade
          have hfills : fills [event] = [trade] := by simp [fills, ht]
          have hf : s.ledger.Fresh trade := hfresh trade (by simp [hfills])
          rw [hfills] at hledger htrades
          refine ⟨hsound, ?_, fun userId symbol => ?_⟩
          · rw [hledger, TradeLedger.addAll_singleton, add_fresh hf]
            exact Dict.nodup_keys_set h.buckets _ _
          · have hold := h.net userId symbol
            rw [hq, waitingNet, hhead] at hold
            rw [hbook, hqueue, hledger, waitingNet_append]
            simp only [waitingNet, htrades, TradeLedger.addAll_singleton,
              net_add h.buckets hf, List.map_cons, List.map_nil, List.sum_cons, List.sum_nil]
            have hnet : trade.event.net userId symbol = trade.net userId symbol := rfl
            omega
  · obtain ⟨events, hqueue, -, htrades, hledger, -, -, f, hpositions, hf⟩ :=
      step_spec h.toSound ha
    refine ⟨hsound, hledger ▸ h.buckets, fun userId symbol => ?_⟩
    have hold := h.net userId symbol
    rw [hqueue, hledger, PositionBook.net, hpositions, net_of_map hf, waitingNet_append]
    simp only [PositionBook.net] at hold
    simp only [waitingNet, htrades, List.map_nil, List.sum_nil] at hold ⊢
    omega

theorem tallied_run {actions : List Action} (h : s.Tallied) (hr : Along EngineState.Regular s actions) :
    (s.run actions).Tallied := by
  induction actions generalizing s with
  | nil => exact h
  | cons action actions ih => exact ih (tallied_step h hr.1) hr.2

theorem positions_follow_ledger (today : String) (actions : List Action)
    (hr : Along EngineState.Regular { today := today } actions)
    (hidle : trades (({ today := today } : EngineState).run actions).queue = [])
    (userId symbol : String) :
    (({ today := today } : EngineState).run actions).book.net userId symbol =
      (({ today := today } : EngineState).run actions).ledger.net userId symbol := by
  have hinit : ({ today := today } : EngineState).Tallied :=
    ⟨sound_initial today, List.nodup_nil, fun _ _ => rfl⟩
  have hnet := (tallied_run hinit hr).net userId symbol
  simpa [waitingNet, hidle] using hnet

def paperFillTwice : List Action :=
  [.legacy
      { eventType := "PaperOrderFilled", executionRequestId := "paper-1", userId := "u"
        broker := "paper", symbol := "NIFTY", side := "BUY"
        payload :=
          { orderId := "paper-1", quantity := 10, price := 100
            fill := { filledQuantity := 10, filledPrice := 100 } } },
    .outcome
      { success := true, brokerOrderId := "paper-1", status := "filled", filledQty := 10
        avgPrice := 100 }
      { symbol := "NIFTY", exchange := .nse, side := .buy, orderType := .market
        product := .intraday, quantity := 10, userId := "u", broker := "paper"
        clientOrderId := "c-1" },
    .dispatch, .dispatch, .dispatch, .dispatch, .dispatch]

/-- The ledger passes over the second report, and the position counts it. -/
theorem one_fill_counted_twice :
    ¬ ∀ (today : String) (actions : List Action),
      trades (({ today := today } : EngineState).run actions).queue = [] →
      ∀ userId symbol, (({ today := today } : EngineState).run actions).book.net userId symbol =
        (({ today := today } : EngineState).run actions).ledger.net userId symbol := by
  intro h
  have hnet := h "" paperFillTwice (by decide) "u" "NIFTY"
  exact absurd hnet (by decide)

/-- A fill that the order manager reports, and one on another account. -/
theorem two_fills_followed :
    (({ today := "" } : EngineState).run
      [.legacy
        { eventType := "OrderCompleted", userId := "u", broker := "fyers", symbol := "NIFTY"
          side := "BUY"
          payload := { brokerOrderId := "B-1", filledQuantity := 10, averagePrice := 287 / 4 } },
      .dispatch,
      .legacy
        { eventType := "OrderCompleted", userId := "u", broker := "dhan", symbol := "NIFTY"
          side := "SELL"
          payload := { brokerOrderId := "B-2", filledQuantity := 4, averagePrice := 72 } },
      .dispatch, .dispatch, .dispatch, .dispatch, .dispatch]).book.net "u" "NIFTY" = 6 := by
  rw [positions_follow_ledger "" _ (by decide +kernel) (by decide +kernel) "u" "NIFTY"]
  decide +kernel

end Nets

end Trademetrix.ExecutionEngine
