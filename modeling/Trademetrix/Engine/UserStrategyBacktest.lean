import Trademetrix.Cron
import Trademetrix.Engine.SymbolReadback
import Trademetrix.Engine.UserStrategyRunner
import Trademetrix.Results

/-!
# The backtest of user strategies

`run_user_strategy_backtest` compiles a strategy and prices its legs on every trading day,
by the candles of the legs' options where they are there and else by an estimate. What
the premiums of a trade were taken from is kept beside it. Win rates and monthly
returns are left out; the estimate and the days to an expiry are parameters.
-/

namespace Trademetrix.Engine

open Text (round2)

/-- A candle of `get_historical`, whose timestamp is the ISO text of a moment. -/
structure BacktestCandle where
  moment : Cron.Moment
  openPrice : ℚ
  high : ℚ
  low : ℚ
  close : ℚ
  deriving DecidableEq

inductive DataSource
  | real | simulated
  deriving DecidableEq

inductive BacktestError
  | valueError (text : String)
  | typeError (text : String)
  | indexError
  | compile (error : CompileError)
  deriving DecidableEq

section Candles

def hasRealData (candles : List BacktestCandle) : Bool :=
  10 ≤ candles.length && (candles.take 5).any fun c =>
    ¬ (|c.openPrice - c.close| < 1 / 1000 ∧ 0 < |c.high| ∧ 0 < |c.low|) ∧ c.openPrice ≠ c.close

/-- `_estimate_spot_from_candles`. -/
def estimateSpot (candles : List BacktestCandle) : ℚ :=
  let prices := candles.reverse.map fun c => if c.close ≠ 0 then c.close else c.openPrice
  (prices.find? fun price => price ≠ 0).getD 24000

/-- Minutes of the day of a text `HH:MM`; `none` is a `ValueError`. -/
def minutesOf (text : String) : Option ℤ :=
  match text.splitOn ":" with
  | [h, m] => do return (← Text.parseInt h) * 60 + (← Text.parseInt m)
  | _ => none

def offBy (target : ℤ) (c : BacktestCandle) : ℤ := |(c.moment.timeOfDay : ℤ) - target|

def findAtTime (candles : List BacktestCandle) (target : ℤ) : Option BacktestCandle :=
  (candles.foldl
    (fun best c => if offBy target c < best.2 then (some c, offBy target c) else best)
    ((none : Option BacktestCandle), (9999 : ℤ))).1

/-- The time in a text `dateTHH:MM`, of which five characters are read. -/
def optionTime (time : String) : String :=
  String.ofList ((time.toList.takeWhile (· ≠ 'T')).take 5)

end Candles

section Records

structure Pricing where
  date : Day
  entry : BacktestCandle
  exit_ : BacktestCandle
  quotes : Option (BacktestCandle × BacktestCandle)
  deriving DecidableEq

structure LegEntry where
  symbol : String
  position : LegPosition
  optionType : OptionType
  strike : ℚ
  lots : ℤ
  premium : ℚ
  entryTime : String
  pricing : Pricing
  deriving DecidableEq

structure UserTrade where
  legOrder : ℤ
  symbol : String
  position : LegPosition
  optionType : OptionType
  strike : ℚ
  lots : ℤ
  entryPremium : ℚ
  exitPremium : ℚ
  pnl : ℚ
  entryTime : String
  exitTime : String
  pricing : Pricing
  deriving DecidableEq

structure TradeRecord where
  legEntries : Dict ℤ LegEntry := []
  trades : List UserTrade := []
  dailyPnl : Dict String ℚ := []
  equity : List (ℚ × String) := []
  capital : ℚ := 100000
  peak : ℚ := 100000
  maxDrawdown : ℚ := 0

namespace TradeRecord

variable (tr : TradeRecord)

def addEntry (legOrder : ℤ) (entry : LegEntry) : TradeRecord :=
  { tr with legEntries := tr.legEntries.set legOrder entry }

def addExit (legOrder : ℤ) (exitPremium : ℚ) (exitTime dateKey : String) : TradeRecord :=
  match tr.legEntries.get legOrder with
  | none => tr
  | some entry =>
    let pnl := if entry.position = .buy then exitPremium - entry.premium else entry.premium - exitPremium
    { tr with
      legEntries := tr.legEntries.pop legOrder
      capital := tr.capital + pnl
      trades := tr.trades ++ [{
        legOrder := legOrder
        symbol := entry.symbol
        position := entry.position
        optionType := entry.optionType
        strike := entry.strike
        lots := entry.lots
        entryPremium := entry.premium
        exitPremium := exitPremium
        pnl := round2 pnl
        entryTime := entry.entryTime
        exitTime := exitTime
        pricing := entry.pricing }]
      dailyPnl := tr.dailyPnl.set dateKey ((tr.dailyPnl.get dateKey).getD 0 + pnl) }

def snapshotEquity (timestamp : String) : TradeRecord :=
  let peak := max tr.peak tr.capital
  { tr with
    equity := tr.equity ++ [(round2 tr.capital, timestamp)]
    peak := peak
    maxDrawdown := max tr.maxDrawdown (peak - tr.capital) }

theorem trades_addExit_addEntry (legOrder : ℤ) (entry : LegEntry) (exitPremium : ℚ)
    (exitTime dateKey : String) :
    ∃ trade, ((tr.addEntry legOrder entry).addExit legOrder exitPremium exitTime dateKey).trades =
      tr.trades ++ [trade] ∧ trade.symbol = entry.symbol ∧ trade.pricing = entry.pricing := by
  unfold addExit addEntry
  dsimp only
  rw [Dict.get_set, if_pos rfl]
  exact ⟨_, rfl, rfl, rfl⟩

end TradeRecord

end Records

/-- What a backtest asks others for: `strptime` of a date, the candles of a symbol, the day and the
lot size, the days to the expiry of a symbol, and the estimate of a premium. -/
structure BacktestWorld where
  dayOf : String → Option Day
  history : String → List BacktestCandle
  today : Day
  lotSize : Option ℤ
  daysToExpiry : String → ℤ
  estimate : ℚ → ℚ → OptionType → ℤ → ℤ → List ℚ → ℚ

structure BacktestCall where
  strategy : UserStrategy
  fromDate : String
  toDate : String
  userId : Option String := none

structure BacktestOutput where
  error : Option String := none
  dataSource : DataSource
  trades : List UserTrade := []
  equityCurve : List (ℚ × String) := []
  totalDays : ℕ := 0

section Loop

variable (w : BacktestWorld) (strategy : UserStrategy) (orders : List NormalizedOrder)
  (cache : Dict String (List BacktestCandle)) (closes : List ℚ)

/-- `plan.orders[leg_order - 1]`, which counts from the end below 1. -/
def orderAt (legOrder : ℤ) : Except BacktestError (Option NormalizedOrder) :=
  let i := legOrder - 1
  if (orders.length : ℤ) < legOrder then .ok none
  else if 0 ≤ i then .ok orders[i.toNat]?
  else if -(orders.length : ℤ) ≤ i then .ok orders[(orders.length + i).toNat]?
  else .error .indexError

def optionSymbol (symbol : String) : String :=
  if Text.contains symbol ":" then symbol else "NSE:" ++ Text.replace symbol "/" ""

def cacheLeg (cache : Dict String (List BacktestCandle)) (leg : UserStrategyLeg) :
    Except BacktestError (Dict String (List BacktestCandle)) := do
  match ← orderAt orders leg.legOrder with
  | none => return cache
  | some order =>
    let candles := w.history (optionSymbol order.symbol)
    return if 5 < candles.length then cache.set order.symbol candles else cache

/-- `option_candles_cache`: the candles are asked for with a user and real data. -/
def optionCandles (userId : Option String) (dataSource : DataSource) :
    Except BacktestError (Dict String (List BacktestCandle)) :=
  if userId.any (· ≠ "") ∧ dataSource = .real then strategy.legs.foldlM (cacheLeg w orders) []
  else .ok []

/-- The candles that the premiums of a leg are read off; `none` where they are estimated. -/
def optionQuotes (series : Option (List BacktestCandle)) :
    Except BacktestError (Option (BacktestCandle × BacktestCandle)) :=
  match series with
  | none => .ok none
  | some candles =>
    match minutesOf (optionTime strategy.entryTime), minutesOf (optionTime strategy.exitTime) with
    | some entry, some exit_ =>
      .ok do return (← findAtTime candles entry, ← findAtTime candles exit_)
    | _, _ => .error (.valueError "not enough values to unpack")

def tradeLeg (date : Day) (entry exit_ : BacktestCandle) (s : TradeRecord × DataSource)
    (leg : UserStrategyLeg) : Except BacktestError (TradeRecord × DataSource) := do
  match ← orderAt orders leg.legOrder with
  | none => return s
  | some order =>
    match parseStrikeFromSymbol order.symbol with
    | none => return s
    | some (strike, optType) =>
      let totalDte := w.daysToExpiry order.symbol
      let quotes ← optionQuotes strategy (cache.get order.symbol)
      let (entryPremium, exitPremium, dataSource) :=
        match quotes with
        | some (a, b) => (a.close, b.close, DataSource.real)
        | none =>
          (w.estimate entry.close strike optType totalDte totalDte closes,
            w.estimate exit_.close strike optType 0 totalDte closes, s.2)
      match w.lotSize with
      | none => .error (.typeError "unsupported operand type(s) for *: 'float' and 'NoneType'")
      | some lotSize =>
        let added := s.1.addEntry leg.legOrder {
          symbol := order.symbol
          position := leg.position
          optionType := optType
          strike := strike
          lots := leg.lots
          premium := entryPremium * leg.lots * lotSize
          entryTime := date.isoText ++ "T" ++ strategy.entryTime
          pricing := ⟨date, entry, exit_, quotes⟩ }
        return (added.addExit leg.legOrder (exitPremium * leg.lots * lotSize)
          (date.isoText ++ "T" ++ strategy.exitTime) date.isoText, dataSource)

structure BacktestState where
  record : TradeRecord := {}
  dataSource : DataSource
  dayCount : ℕ := 0

/-- `strategy.days_of_week or [1, 2, 3, 4, 5]`. -/
def tradingDays : List ℤ :=
  if strategy.daysOfWeek = [] then [1, 2, 3, 4, 5] else strategy.daysOfWeek

def tradeDay (candles : List BacktestCandle) (s : BacktestState) (date : Day) :
    Except BacktestError BacktestState :=
  let dayCandles := candles.filter fun c => c.moment.day = date
  if isoweekday date ∈ tradingDays strategy ∧ dayCandles ≠ [] then
    match minutesOf strategy.entryTime, minutesOf strategy.exitTime with
    | some entryTarget, some exitTarget =>
      match findAtTime dayCandles entryTarget, findAtTime dayCandles exitTarget with
      | some entry, some exit_ => do
        let (record, dataSource) ← strategy.legs.foldlM
          (tradeLeg w strategy orders cache closes date entry exit_) (s.record, s.dataSource)
        return {
          record := record.snapshotEquity (date.isoText ++ "T" ++ strategy.exitTime)
          dataSource := dataSource
          dayCount := s.dayCount + 1 }
      | _, _ => return s
    | _, _ => .error (.valueError "not enough values to unpack")
  else return s

def backtestPlan (userId : Option String) (candles : List BacktestCandle) (plan : ExecutionPlan)
    (fromDay toDay : Day) : Except BacktestError BacktestOutput := do
  let dataSource := if hasRealData candles then DataSource.real else .simulated
  let closes := (candles.map BacktestCandle.close).filter fun close => close ≠ 0
  let cache ← optionCandles w strategy plan.orders userId dataSource
  let days := (List.range (toDay.index + 1 - fromDay.index)).map fun i => (⟨fromDay.index + i⟩ : Day)
  let s ← days.foldlM (tradeDay w strategy plan.orders cache closes candles) { dataSource := dataSource }
  if s.dayCount = 0 then
    return { error := some "no trading days in range", dataSource := s.dataSource }
  return {
    dataSource := s.dataSource
    trades := s.record.trades
    equityCurve := s.record.equity
    totalDays := s.dayCount }

/-- The parameters of `compile_user_strategy`. -/
def compileParameters : List String := ["strategy", "spot_price", "option_chain"]

def callCompile (names : List String) (compiled : Except CompileError ExecutionPlan) :
    Except BacktestError ExecutionPlan :=
  match names.find? fun name => name ∉ compileParameters with
  | some name =>
    .error (.typeError
      ("compile_user_strategy() got an unexpected keyword argument '" ++ name ++ "'"))
  | none =>
    match compiled with
    | .ok plan => .ok plan
    | .error e => .error (.compile e)

def backtestMaxDays : ℤ := 365

def runUserStrategyBacktest (floatRepr : ℚ → String) (call : BacktestCall) :
    Except BacktestError BacktestOutput :=
  match w.dayOf call.toDate, w.dayOf call.fromDate with
  | some toDay, some fromDay => do
    let days : ℤ := toDay.index - fromDay.index
    if days < 1 then
      return { error := some "to_date must be after from_date", dataSource := .simulated }
    if backtestMaxDays < days then
      return {
        error := some ("max backtest range is " ++ toString backtestMaxDays ++ " days")
        dataSource := .simulated }
    let candles := w.history call.strategy.indexSymbol
    if candles = [] then
      return { error := some "no historical data available", dataSource := .simulated }
    let market : MarketData :=
      { today := w.today, spot := estimateSpot candles, chain := none, lotSize := w.lotSize }
    let plan ← callCompile ["strategy", "spot_price", "is_simulated"]
      (compileUserStrategy floatRepr call.strategy market)
    backtestPlan w call.strategy call.userId candles plan fromDay toDay
  | _, _ => .error (.valueError "time data does not match format '%Y-%m-%d'")

end Loop

end Trademetrix.Engine

/-!
# The days that prices are taken from

A trade of a day should be priced by candles of that day. The underlying's candles are
those of the day, the options' are searched over all days by the time of day alone. No
run gets so far: the call that compiles the strategy raises.
-/

namespace Trademetrix.Engine

section Search

variable {candles : List BacktestCandle} {target : ℤ} {c : BacktestCandle}

theorem foldl_nearest (candles : List BacktestCandle) (target : ℤ)
    (best : Option BacktestCandle × ℤ) :
    let found := candles.foldl
      (fun best c => if offBy target c < best.2 then (some c, offBy target c) else best) best
    (found = best ∨ ∃ c ∈ candles, found = (some c, offBy target c)) ∧ found.2 ≤ best.2 ∧
      ∀ d ∈ candles, found.2 ≤ offBy target d := by
  induction candles generalizing best with
  | nil => exact ⟨.inl rfl, le_rfl, by simp⟩
  | cons d candles ih =>
    dsimp only
    rw [List.foldl_cons]
    by_cases hnear : offBy target d < best.2
    · rw [if_pos hnear]
      obtain ⟨hfound, hle, hall⟩ := ih (some d, offBy target d)
      refine ⟨.inr ?_, hle.trans hnear.le, List.forall_mem_cons.mpr ⟨hle, hall⟩⟩
      rcases hfound with hsame | ⟨c, hc, hfound⟩
      · exact ⟨d, List.mem_cons_self, hsame⟩
      · exact ⟨c, List.mem_cons_of_mem d hc, hfound⟩
    · rw [if_neg hnear]
      obtain ⟨hfound, hle, hall⟩ := ih best
      refine ⟨?_, hle, List.forall_mem_cons.mpr ⟨hle.trans (not_lt.mp hnear), hall⟩⟩
      rcases hfound with hsame | ⟨c, hc, hfound⟩
      · exact .inl hsame
      · exact .inr ⟨c, List.mem_cons_of_mem d hc, hfound⟩

theorem findAtTime_nearest (h : findAtTime candles target = some c) :
    c ∈ candles ∧ ∀ d ∈ candles, offBy target c ≤ offBy target d := by
  obtain ⟨hfound, -, hall⟩ := foldl_nearest candles target (none, 9999)
  unfold findAtTime at h
  rcases hfound with hnone | ⟨d, hd, hsome⟩
  · rw [hnone] at h
    cases h
  · rw [hsome] at h hall
    obtain rfl : d = c := Option.some.inj h
    exact ⟨hd, hall⟩

structure NearestOn (candles : List BacktestCandle) (date : Day) (target : ℤ)
    (c : BacktestCandle) : Prop where
  mem : c ∈ candles
  on : c.moment.day = date
  nearest : ∀ d ∈ candles, d.moment.day = date → offBy target c ≤ offBy target d

theorem nearestOn_of_filter {date : Day}
    (h : findAtTime (candles.filter fun c => c.moment.day = date) target = some c) :
    NearestOn candles date target c := by
  obtain ⟨hmem, hnear⟩ := findAtTime_nearest h
  obtain ⟨hc, hday⟩ := List.mem_filter.mp hmem
  refine ⟨hc, by simpa using hday, fun d hd hdate => hnear d ?_⟩
  exact List.mem_filter.mpr ⟨hd, by simpa using hdate⟩

theorem nearestOn_iff (h : findAtTime candles target = some c) (date : Day) :
    NearestOn candles date target c ↔ c.moment.day = date := by
  obtain ⟨hmem, hnear⟩ := findAtTime_nearest h
  exact ⟨NearestOn.on, fun hdate => ⟨hmem, hdate, fun d hd _ => hnear d hd⟩⟩

end Search

section Properties

variable (w : BacktestWorld) (strategy : UserStrategy)

def SameDay (t : UserTrade) : Prop :=
  ∃ entry exit_, minutesOf strategy.entryTime = some entry ∧ minutesOf strategy.exitTime = some exit_ ∧
    NearestOn (w.history strategy.indexSymbol) t.pricing.date entry t.pricing.entry ∧
    NearestOn (w.history strategy.indexSymbol) t.pricing.date exit_ t.pricing.exit_ ∧
    ∀ quotes ∈ t.pricing.quotes,
      NearestOn (w.history (optionSymbol t.symbol)) t.pricing.date entry quotes.1 ∧
        NearestOn (w.history (optionSymbol t.symbol)) t.pricing.date exit_ quotes.2

structure Faithful (out : BacktestOutput) : Prop where
  sameDay : ∀ t ∈ out.trades, SameDay w strategy t
  real : out.dataSource = .real → ∀ t ∈ out.trades, t.pricing.quotes.isSome

end Properties

section Loop

variable {w : BacktestWorld} {strategy : UserStrategy} {orders : List NormalizedOrder}
  {cache : Dict String (List BacktestCandle)} {closes : List ℚ}

def Cached (w : BacktestWorld) (cache : Dict String (List BacktestCandle)) : Prop :=
  ∀ symbol series, cache.get symbol = some series → series = w.history (optionSymbol symbol)

theorem cached_optionCandles {userId : Option String} {dataSource : DataSource}
    (h : optionCandles w strategy orders userId dataSource = .ok cache) : Cached w cache := by
  have hnil : Cached w [] := by
    intro symbol series hget
    cases hget
  unfold optionCandles at h
  split at h
  · refine foldlM_keeps (P := Cached w) (fun leg _ cache cache' hcached hstep => ?_) hnil h
    obtain ⟨order, -, hset⟩ := bind_eq_ok.mp hstep
    cases order with
    | none =>
      obtain rfl : cache = cache' := Except.ok.inj hset
      exact hcached
    | some order =>
      obtain rfl := Except.ok.inj hset
      intro symbol series hget
      split at hget
      · rw [Dict.get_set] at hget
        split at hget
        · next heq =>
          rw [heq]
          exact (Option.some.inj hget).symm
        · exact hcached symbol series hget
      · exact hcached symbol series hget
  · obtain rfl := Except.ok.inj h
    exact hnil

structure Priced (candles : List BacktestCandle) (strategy : UserStrategy)
    (cache : Dict String (List BacktestCandle)) (t : UserTrade) : Prop where
  entry : ∃ target, minutesOf strategy.entryTime = some target ∧
    findAtTime (candles.filter fun c => c.moment.day = t.pricing.date) target = some t.pricing.entry
  exit_ : ∃ target, minutesOf strategy.exitTime = some target ∧
    findAtTime (candles.filter fun c => c.moment.day = t.pricing.date) target = some t.pricing.exit_
  quotes : optionQuotes strategy (cache.get t.symbol) = .ok t.pricing.quotes

structure Recorded (candles : List BacktestCandle) (strategy : UserStrategy)
    (cache : Dict String (List BacktestCandle)) (first : DataSource) (trades : List UserTrade)
    (dataSource : DataSource) : Prop where
  priced : ∀ t ∈ trades, Priced candles strategy cache t
  label : dataSource = .real ↔ first = .real ∨ ∃ t ∈ trades, t.pricing.quotes.isSome

theorem tradeLeg_cases {date : Day} {entry exit_ : BacktestCandle} {s s' : TradeRecord × DataSource}
    {leg : UserStrategyLeg}
    (h : tradeLeg w strategy orders cache closes date entry exit_ s leg = .ok s') :
    s' = s ∨ ∃ t quotes, s'.1.trades = s.1.trades ++ [t] ∧ t.pricing = ⟨date, entry, exit_, quotes⟩ ∧
      optionQuotes strategy (cache.get t.symbol) = .ok quotes ∧
      s'.2 = if quotes.isSome then .real else s.2 := by
  obtain ⟨order, -, hrest⟩ := bind_eq_ok.mp h
  cases order with
  | none => exact .inl (Except.ok.inj hrest).symm
  | some order =>
    dsimp only at hrest
    cases hstrike : parseStrikeFromSymbol order.symbol with
    | none =>
      rw [hstrike] at hrest
      exact .inl (Except.ok.inj hrest).symm
    | some p =>
      rw [hstrike] at hrest
      obtain ⟨quotes, hquotes, hlot⟩ := bind_eq_ok.mp hrest
      cases hsize : w.lotSize with
      | none =>
        simp only [hsize] at hlot
        cases hlot
      | some lotSize =>
        simp only [hsize] at hlot
        obtain rfl := Except.ok.inj hlot
        dsimp only
        obtain ⟨t, htrades, hsymbol, hpricing⟩ := TradeRecord.trades_addExit_addEntry s.1 leg.legOrder
          _ _ (date.isoText ++ "T" ++ strategy.exitTime) date.isoText
        refine .inr ⟨t, quotes, htrades, hpricing, ?_, ?_⟩
        · rw [hsymbol]
          exact hquotes
        · cases quotes <;> rfl

variable {candles : List BacktestCandle} {first : DataSource}

theorem recorded_tradeLeg {date : Day} {entry exit_ : BacktestCandle} {entryTarget exitTarget : ℤ}
    (hentry : minutesOf strategy.entryTime = some entryTarget)
    (hexit : minutesOf strategy.exitTime = some exitTarget)
    (hfound : findAtTime (candles.filter fun c => c.moment.day = date) entryTarget = some entry)
    (hfound' : findAtTime (candles.filter fun c => c.moment.day = date) exitTarget = some exit_)
    {s s' : TradeRecord × DataSource} {leg : UserStrategyLeg}
    (hs : Recorded candles strategy cache first s.1.trades s.2)
    (h : tradeLeg w strategy orders cache closes date entry exit_ s leg = .ok s') :
    Recorded candles strategy cache first s'.1.trades s'.2 := by
  rcases tradeLeg_cases h with rfl | ⟨t, quotes, htrades, hpricing, hquotes, hlabel⟩
  · exact hs
  · rw [htrades]
    constructor
    · intro t' ht'
      rcases List.mem_append.mp ht' with hold | hnew
      · exact hs.priced t' hold
      · obtain rfl := List.mem_singleton.mp hnew
        refine ⟨⟨entryTarget, hentry, ?_⟩, ⟨exitTarget, hexit, ?_⟩, ?_⟩
        · rw [hpricing]
          exact hfound
        · rw [hpricing]
          exact hfound'
        · rw [hpricing]
          exact hquotes
    · have hnew : (∃ t' ∈ s.1.trades ++ [t], t'.pricing.quotes.isSome) ↔
          (∃ t' ∈ s.1.trades, t'.pricing.quotes.isSome) ∨ quotes.isSome := by
        simp only [List.mem_append, List.mem_singleton, or_and_right, exists_or, exists_eq_left,
          hpricing]
      rw [hnew, ← or_assoc, ← hs.label, hlabel]
      cases quotes <;> simp

theorem recorded_tradeDay {s s' : BacktestState} {date : Day}
    (hs : Recorded candles strategy cache first s.record.trades s.dataSource)
    (h : tradeDay w strategy orders cache closes candles s date = .ok s') :
    Recorded candles strategy cache first s'.record.trades s'.dataSource := by
  unfold tradeDay at h
  dsimp only at h
  split at h
  · split at h
    · next entryTarget exitTarget hentry hexit =>
      split at h
      · next entry exit_ hfound hfound' =>
        obtain ⟨p, hlegs, hrest⟩ := bind_eq_ok.mp h
        obtain rfl := Except.ok.inj hrest
        have hkept := foldlM_keeps
          (P := fun p : TradeRecord × DataSource =>
            Recorded candles strategy cache first p.1.trades p.2)
          (fun leg _ p p' hp hstep => recorded_tradeLeg hentry hexit hfound hfound' hp hstep) hs hlegs
        exact hkept
      · obtain rfl := Except.ok.inj h
        exact hs
    · exact absurd h (error_ne_ok _ _)
  · obtain rfl := Except.ok.inj h
    exact hs

theorem recorded_backtestPlan {userId : Option String} {plan : ExecutionPlan} {fromDay toDay : Day}
    {out : BacktestOutput}
    (h : backtestPlan w strategy userId candles plan fromDay toDay = .ok out) :
    ∃ cache, Cached w cache ∧ (hasRealData candles = false → cache = []) ∧
      (out.trades = [] ∨ Recorded candles strategy cache
        (if hasRealData candles then .real else .simulated) out.trades out.dataSource) := by
  obtain ⟨cache, hcache, hrest⟩ := bind_eq_ok.mp h
  obtain ⟨s, hdays, hout⟩ := bind_eq_ok.mp hrest
  refine ⟨cache, cached_optionCandles hcache, fun hsimulated => ?_, ?_⟩
  · rw [hsimulated] at hcache
    unfold optionCandles at hcache
    rw [if_neg (by simp)] at hcache
    exact (Except.ok.inj hcache).symm
  split at hout
  · obtain rfl := Except.ok.inj hout
    exact .inl rfl
  · obtain rfl := Except.ok.inj hout
    refine .inr (foldlM_keeps
      (P := fun s : BacktestState => Recorded candles strategy cache
        (if hasRealData candles then .real else .simulated) s.record.trades s.dataSource)
      (fun date _ s s' hs hstep => recorded_tradeDay hs hstep) ⟨by simp, by simp⟩ hdays)

theorem quotes_found {cache : Dict String (List BacktestCandle)} {symbol : String}
    {quotes : BacktestCandle × BacktestCandle} (hcached : Cached w cache)
    (htimes : optionTime strategy.entryTime = strategy.entryTime ∧
      optionTime strategy.exitTime = strategy.exitTime)
    (h : optionQuotes strategy (cache.get symbol) = .ok (some quotes)) :
    ∃ entry exit_, minutesOf strategy.entryTime = some entry ∧
      minutesOf strategy.exitTime = some exit_ ∧
      findAtTime (w.history (optionSymbol symbol)) entry = some quotes.1 ∧
      findAtTime (w.history (optionSymbol symbol)) exit_ = some quotes.2 := by
  unfold optionQuotes at h
  cases hget : cache.get symbol with
  | none =>
    rw [hget] at h
    cases h
  | some series =>
    rw [hget, hcached symbol series hget, htimes.1, htimes.2] at h
    dsimp only at h
    split at h
    · next entry exit_ hentry hexit =>
      obtain ⟨a, ha, hrest⟩ := Option.bind_eq_some_iff.mp (Except.ok.inj h)
      obtain ⟨b, hb, heq⟩ := Option.bind_eq_some_iff.mp hrest
      obtain rfl : (a, b) = quotes := Option.some.inj heq
      exact ⟨entry, exit_, hentry, hexit, ha, hb⟩
    · cases h

theorem Recorded.hasRealData {cache : Dict String (List BacktestCandle)} {trades : List UserTrade}
    (hs : Recorded candles strategy cache
      (if Engine.hasRealData candles then .real else .simulated) trades .real)
    (hempty : Engine.hasRealData candles = false → cache = []) : Engine.hasRealData candles = true := by
  by_contra hsimulated
  rw [Bool.not_eq_true] at hsimulated
  rcases hs.label.mp rfl with hfirst | ⟨t, ht, hsome⟩
  · rw [hsimulated] at hfirst
    cases hfirst
  · have hread := (hs.priced t ht).quotes
    rw [hempty hsimulated] at hread
    obtain hnone : none = t.pricing.quotes := Except.ok.inj hread
    rw [← hnone] at hsome
    cases hsome

/-- A result of the loop is faithful exactly when the candles that were found over the options'
series are of the days of their trades and, with real data, none of them was missing. -/
theorem backtestPlan_faithful_iff {userId : Option String} {plan : ExecutionPlan}
    {fromDay toDay : Day} {out : BacktestOutput}
    (htimes : optionTime strategy.entryTime = strategy.entryTime ∧
      optionTime strategy.exitTime = strategy.exitTime)
    (h : backtestPlan w strategy userId (w.history strategy.indexSymbol) plan fromDay toDay = .ok out) :
    Faithful w strategy out ↔
      (∀ t ∈ out.trades, ∀ quotes ∈ t.pricing.quotes,
        quotes.1.moment.day = t.pricing.date ∧ quotes.2.moment.day = t.pricing.date) ∧
      (hasRealData (w.history strategy.indexSymbol) = true →
        ∀ t ∈ out.trades, t.pricing.quotes.isSome) := by
  obtain ⟨cache, hcached, hempty, hrecorded⟩ := recorded_backtestPlan h
  rcases hrecorded with hnone | hrecorded
  · constructor
    · intro _
      simp [hnone]
    · intro _
      constructor <;> simp [hnone]
  · constructor
    · intro hfaithful
      refine ⟨fun t ht quotes hquotes => ?_, fun hreal t ht => ?_⟩
      · obtain ⟨entry, exit_, -, -, -, -, hoptions⟩ := hfaithful.sameDay t ht
        exact ⟨(hoptions quotes hquotes).1.on, (hoptions quotes hquotes).2.on⟩
      · exact hfaithful.real (hrecorded.label.mpr (.inl (if_pos hreal))) t ht
    · rintro ⟨hdays, hall⟩
      refine ⟨fun t ht => ?_, fun hlabel t ht => ?_⟩
      · obtain ⟨entry, hentry, hunder⟩ := (hrecorded.priced t ht).entry
        obtain ⟨exit_, hexit, hunder'⟩ := (hrecorded.priced t ht).exit_
        refine ⟨entry, exit_, hentry, hexit, nearestOn_of_filter hunder, nearestOn_of_filter hunder',
          fun quotes hquotes => ?_⟩
        have hread := (hrecorded.priced t ht).quotes
        rw [hquotes] at hread
        obtain ⟨entry', exit', hentry', hexit', ha, hb⟩ := quotes_found hcached htimes hread
        obtain rfl : entry = entry' := Option.some.inj (hentry.symm.trans hentry')
        obtain rfl : exit_ = exit' := Option.some.inj (hexit.symm.trans hexit')
        obtain ⟨hday, hday'⟩ := hdays t ht quotes hquotes
        exact ⟨(nearestOn_iff ha _).mpr hday, (nearestOn_iff hb _).mpr hday'⟩
      · rw [hlabel] at hrecorded
        exact hall (hrecorded.hasRealData hempty) t ht

end Loop

section Run

variable {w : BacktestWorld} {floatRepr : ℚ → String} {call : BacktestCall} {out : BacktestOutput}

theorem callCompile_isSimulated (compiled : Except CompileError ExecutionPlan) :
    callCompile ["strategy", "spot_price", "is_simulated"] compiled =
      .error (.typeError
        "compile_user_strategy() got an unexpected keyword argument 'is_simulated'") := by
  have hname : ["strategy", "spot_price", "is_simulated"].find? (fun name => name ∉ compileParameters) =
      some "is_simulated" := by decide
  have htext : "compile_user_strategy() got an unexpected keyword argument '" ++ "is_simulated" ++ "'" =
      "compile_user_strategy() got an unexpected keyword argument 'is_simulated'" := by decide
  unfold callCompile
  rw [hname]
  dsimp only
  rw [htext]

theorem run_refused (h : runUserStrategyBacktest w floatRepr call = .ok out) :
    out.trades = [] ∧ out.dataSource = .simulated := by
  unfold runUserStrategyBacktest at h
  split at h
  · dsimp only at h
    split at h
    · obtain rfl := Except.ok.inj h
      exact ⟨rfl, rfl⟩
    · split at h
      · obtain rfl := Except.ok.inj h
        exact ⟨rfl, rfl⟩
      · split at h
        · obtain rfl := Except.ok.inj h
          exact ⟨rfl, rfl⟩
        · rw [callCompile_isSimulated] at h
          exact absurd h (error_ne_ok _ _)
  · exact absurd h (error_ne_ok _ _)

theorem run_raises {fromDay toDay : Day} (hfrom : w.dayOf call.fromDate = some fromDay)
    (hto : w.dayOf call.toDate = some toDay) (hdays : fromDay.index + 1 ≤ toDay.index)
    (hmax : toDay.index ≤ fromDay.index + 365) (hcandles : w.history call.strategy.indexSymbol ≠ []) :
    runUserStrategyBacktest w floatRepr call = .error (.typeError
      "compile_user_strategy() got an unexpected keyword argument 'is_simulated'") := by
  unfold runUserStrategyBacktest backtestMaxDays
  rw [hto, hfrom]
  dsimp only
  rw [if_neg (by omega), if_neg (by omega), if_neg hcandles, callCompile_isSimulated]
  rfl

end Run

end Trademetrix.Engine
