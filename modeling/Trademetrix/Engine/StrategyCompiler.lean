import Mathlib.Data.List.MinMax
import Mathlib.Data.List.Sort
import Trademetrix.Calendar
import Trademetrix.Dict
import Trademetrix.Engine.Models

/-!
# User strategies and their compilation

A user strategy lists its legs; `compile_user_strategy` resolves a strike and an
expiry for each and makes an order of it. The strikes are kept by `leg_order`,
so legs of one `leg_order` share the strike of the last of them.
-/

namespace Trademetrix.Engine

inductive LegSegment
  | options | futures
  deriving DecidableEq

inductive LegPosition
  | buy | sell
  deriving DecidableEq

inductive LegExpiry
  | weekly | nextWeekly | monthly
  deriving DecidableEq

inductive StrikeCriteria
  | atmOffset | premiumClosest | premiumRange | delta
  deriving DecidableEq

structure UserStrategyLeg where
  legOrder : ℤ
  segment : LegSegment
  position : LegPosition
  optionType : Option OptionType := none
  lots : ℤ := 1
  expiry : LegExpiry
  strikeCriteria : StrikeCriteria
  strikeValue : ℚ
  deriving DecidableEq

structure UserStrategy where
  id : String
  name : String
  indexSymbol : String
  entryTime : String
  exitTime : String
  daysOfWeek : List ℤ := [1, 2, 3, 4, 5]
  legs : List UserStrategyLeg
  deriving DecidableEq

section Validation

def maxLots : ℤ := 10

def marketOpen : ℕ := 33300

def marketClose : ℕ := 55800

structure ValidationError where
  message : String
  field : String
  deriving DecidableEq

def legError (leg : UserStrategyLeg) (text field : String) : ValidationError :=
  ⟨"Leg " ++ toString leg.legOrder ++ ": " ++ text, "legs." ++ toString leg.legOrder ++ "." ++ field⟩

def validateStrikeCriteria (leg : UserStrategyLeg) : Except ValidationError Unit :=
  if leg.segment = .futures then pure ()
  else
    let refuse (text : String) := Except.error (legError leg text "strike_value")
    match leg.strikeCriteria with
    | .atmOffset =>
      if leg.strikeValue < -20 ∨ 20 < leg.strikeValue then
        refuse "atm_offset must be between -20 and +20"
      else pure ()
    | .premiumClosest =>
      if leg.strikeValue < 5 / 100 then refuse "premium_closest value must be >= 0.05" else pure ()
    | .premiumRange => if leg.strikeValue < 0 then refuse "premium_range min must be >= 0" else pure ()
    | .delta =>
      if leg.strikeValue < 0 ∨ 1 < leg.strikeValue then refuse "delta must be between 0 and 1"
      else pure ()

def validateLeg (leg : UserStrategyLeg) : Except ValidationError Unit :=
  if leg.lots < 1 then .error (legError leg "lots must be >= 1" "lots")
  else if maxLots < leg.lots then
    .error (legError leg ("lots cannot exceed " ++ toString maxLots) "lots")
  else if leg.segment = .options ∧ leg.optionType = none then
    .error (legError leg "option_type is required for options segment" "option_type")
  else if leg.segment = .futures ∧ leg.optionType ≠ none then
    .error (legError leg "option_type must be null for futures segment" "option_type")
  else validateStrikeCriteria leg

/-- `timeOf` is `time.fromisoformat`, in seconds of the day. -/
def validateUserStrategy (timeOf : String → Option ℕ) (strategy : UserStrategy) :
    Except ValidationError Unit := do
  if Text.strip strategy.name = "" then .error ⟨"Strategy name is required", "name"⟩
  if strategy.legs = [] then .error ⟨"At least one leg is required", "legs"⟩
  if 6 < strategy.legs.length then .error ⟨"Maximum 6 legs allowed", "legs"⟩
  strategy.legs.forM validateLeg
  match timeOf strategy.entryTime with
  | none => .error ⟨"entry_time must be in HH:MM format (24h)", "entry_time"⟩
  | some entry =>
    match timeOf strategy.exitTime with
    | none => .error ⟨"exit_time must be in HH:MM format (24h)", "exit_time"⟩
    | some exit_ =>
      if exit_ ≤ entry then .error ⟨"entry_time must be before exit_time", "exit_time"⟩
      if entry < marketOpen ∨ marketClose < entry then
        .error ⟨"entry_time must be between 09:15 and 15:30 IST", "entry_time"⟩
      if exit_ < marketOpen ∨ marketClose < exit_ then
        .error ⟨"exit_time must be between 09:15 and 15:30 IST", "exit_time"⟩
      if strategy.daysOfWeek = [] then
        .error ⟨"At least one trading day must be selected", "days_of_week"⟩
      if strategy.daysOfWeek.any fun d => decide (d < 0 ∨ 6 < d) then
        .error ⟨"days_of_week values must be 0 (Mon) to 6 (Sun)", "days_of_week"⟩

end Validation

section Strikes

def strikeIntervals : Dict String ℕ :=
  [("NIFTY", 50), ("BANKNIFTY", 100), ("FINNIFTY", 50), ("SENSEX", 100), ("MIDCPNIFTY", 25)]

def strikeInterval (symbol : String) : ℕ := (strikeIntervals.get symbol).getD 50

structure OptionQuote where
  ltp : Option ℚ := none
  premium : Option ℚ := none
  delta : Option ℚ := none

structure ChainStrike where
  strike : ℤ
  ce : OptionQuote := {}
  pe : OptionQuote := {}

inductive Strike
  | whole (n : ℤ)
  | spot (price : ℚ)
  deriving DecidableEq

def Strike.value : Strike → ℚ
  | whole n => n
  | spot price => price

/-- `floatRepr` is `repr` of a float. -/
def Strike.text (floatRepr : ℚ → String) : Strike → String
  | whole n => toString n
  | spot price => floatRepr price

def OptionQuote.price (q : OptionQuote) : ℚ :=
  if q.ltp.getD 0 ≠ 0 then q.ltp.getD 0 else q.premium.getD 0

def ChainStrike.side (s : ChainStrike) (optionType : Option OptionType) : OptionQuote :=
  if optionType = some .ce then s.ce else s.pe

def premia (chain : List ChainStrike) (optionType : Option OptionType) : Dict ℤ ℚ :=
  Dict.update [] (chain.map fun s => (s.strike, (s.side optionType).price))

def deltas (chain : List ChainStrike) (optionType : Option OptionType) : Dict ℤ ℚ :=
  Dict.update [] (chain.map fun s => (s.strike, (s.side optionType).delta.getD 0))

def closest (values : Dict ℤ ℚ) (target : ℚ) : Option ℤ :=
  (List.argmin (fun p => |p.2 - target|) values).map Prod.fst

/-- `int` of a float. -/
def truncate (x : ℚ) : ℤ := x.num.tdiv x.den

def roundToStrike (price : ℚ) (interval : ℕ) : ℤ := Text.roundHalfEven (price / interval) * interval

def resolveStrike (symbol : String) (spot : ℚ) (chain : List ChainStrike) (leg : UserStrategyLeg) :
    Strike :=
  let interval := strikeInterval symbol
  let atm := roundToStrike spot interval
  -- an empty chain is simulated, that many intervals from the money
  let simulated (steps : ℤ) := atm + (if leg.optionType = some .ce then steps else -steps) * interval
  if leg.segment = .futures then .spot spot
  else
    .whole <|
      match leg.strikeCriteria with
      | .atmOffset => atm + truncate leg.strikeValue * interval
      | .premiumClosest =>
        (closest (premia chain leg.optionType) leg.strikeValue).getD (simulated 1)
      | .premiumRange =>
        let sorted := (premia chain leg.optionType).insertionSort fun p q => p.1 ≤ q.1
        match sorted.find? fun p => leg.strikeValue ≤ p.2 with
        | some p => p.1
        | none => (sorted.getLast?.map Prod.fst).getD (simulated 1)
      | .delta => (closest (deltas chain leg.optionType) leg.strikeValue).getD (simulated 2)

def resolveStrikes (legs : List UserStrategyLeg) (symbol : String) (spot : ℚ)
    (chain : List ChainStrike) : Dict ℤ Strike :=
  Dict.update [] (legs.map fun leg => (leg.legOrder, resolveStrike symbol spot chain leg))

end Strikes

section Expiry

def weekdayExpiry : Dict String ℕ :=
  [("NIFTY", 1), ("BANKNIFTY", 3), ("FINNIFTY", 2), ("SENSEX", 3), ("MIDCPNIFTY", 3)]

def monthCodes : List String :=
  ["JAN", "FEB", "MAR", "APR", "MAY", "JUN", "JUL", "AUG", "SEP", "OCT", "NOV", "DEC"]

/-- `strftime("%d%b%Y").upper()`. -/
def expiryText (dayOfMonth month year : ℕ) : String :=
  (if dayOfMonth < 10 then "0" else "") ++ toString dayOfMonth ++ monthCodes.getD (month - 1) "" ++
    toString year

def dayText (d : Day) : String := expiryText d.dayOfMonth d.month d.year

def resolveExpiry (today : Day) (leg : UserStrategyLeg) (symbol : String) : String :=
  let target := (weekdayExpiry.get symbol).getD 1
  -- `date.weekday()` counts from Monday
  let daysAhead := (target + 7 - (today.weekday + 6) % 7) % 7
  match leg.expiry with
  | .weekly => dayText ⟨today.index + if daysAhead = 0 then 7 else daysAhead⟩
  | .nextWeekly => dayText ⟨today.index + (daysAhead + 7)⟩
  | .monthly =>
    if today.dayOfMonth < 20 then expiryText 20 today.month today.year
    else if today.month < 12 then expiryText 20 (today.month + 1) today.year
    else expiryText 20 1 (today.year + 1)

end Expiry

/-- What a strategy is compiled against: the day, the spot price, the chain and the lot size. A
chain may list no strikes. -/
structure MarketData where
  today : Day
  spot : ℚ
  chain : Option (List ChainStrike)
  lotSize : Option ℤ

structure ExecutionPlan where
  orders : List NormalizedOrder
  legs : List UserStrategyLeg
  strategyId : String
  totalLots : ℤ

inductive CompileError
  | noLotSize (symbol : String)
  | noOptionChain (symbol : String)
  deriving DecidableEq

theorem validateUserStrategy_legs {timeOf : String → Option ℕ} {strategy : UserStrategy} {u : Unit}
    (h : validateUserStrategy timeOf strategy = .ok u) : strategy.legs ≠ [] := by
  intro hlegs
  rw [validateUserStrategy] at h
  by_cases hname : Text.strip strategy.name = ""
  · rw [if_pos hname] at h
    cases h
  · rw [if_neg hname, if_pos hlegs] at h
    cases h

section Compile

variable (floatRepr : ℚ → String) (strategy : UserStrategy) (market : MarketData) (lotSize : ℤ)

def legOrder (strike : Strike) (leg : UserStrategyLeg) : NormalizedOrder :=
  let symbol := strategy.indexSymbol
  let expiry := resolveExpiry market.today leg symbol
  let isCe := leg.optionType = some .ce
  { symbol :=
      match leg.segment with
      | .options => symbol ++ expiry ++ strike.text floatRepr ++ if isCe then "CE" else "PE"
      | .futures => symbol ++ expiry ++ "FUT"
    exchange := if leg.segment = .options then .nfo else .nse
    side := if leg.position = .buy then .buy else .sell
    orderType := .market
    product := .intraday
    quantity := leg.lots * lotSize
    price := 0
    strategyId := some strategy.id
    source := "user_strategy"
    instrumentType := if leg.segment = .options then .opt else .fut
    strikePrice := if leg.segment = .options then some strike.value else none
    expiryDate := if leg.segment = .options then some expiry else none
    optionType := leg.optionType }

def compileUserStrategy : Except CompileError ExecutionPlan :=
  match market.lotSize with
  | none => .error (.noLotSize strategy.indexSymbol)
  | some lotSize =>
    if lotSize = 0 then .error (.noLotSize strategy.indexSymbol)
    else
      match market.chain with
      | none => .error (.noOptionChain strategy.indexSymbol)
      | some chain =>
        let resolved := resolveStrikes strategy.legs strategy.indexSymbol market.spot chain
        .ok {
          orders := strategy.legs.map fun leg =>
            legOrder floatRepr strategy market lotSize
              ((resolved.get leg.legOrder).getD (.spot market.spot)) leg
          legs := strategy.legs
          strategyId := strategy.id
          totalLots := (strategy.legs.map UserStrategyLeg.lots).sum }

variable {floatRepr strategy market} {plan : ExecutionPlan}

theorem compileUserStrategy_spec (h : compileUserStrategy floatRepr strategy market = .ok plan) :
    plan.legs = strategy.legs ∧ plan.orders = strategy.legs.map fun leg =>
      legOrder floatRepr strategy market (market.lotSize.getD 0)
        (((resolveStrikes strategy.legs strategy.indexSymbol market.spot
          (market.chain.getD [])).get leg.legOrder).getD (.spot market.spot)) leg := by
  rw [compileUserStrategy] at h
  cases hlot : market.lotSize with
  | none =>
    rw [hlot] at h
    cases h
  | some lotSize =>
    rw [hlot] at h
    dsimp only at h
    split at h
    · cases h
    · cases hchain : market.chain with
      | none =>
        rw [hchain] at h
        cases h
      | some chain =>
        rw [hchain] at h
        cases h
        exact ⟨rfl, rfl⟩

end Compile

end Trademetrix.Engine
