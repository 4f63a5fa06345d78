import Trademetrix.Engine.StrategyCompiler
import Trademetrix.Results
import Trademetrix.Run

/-!
# Deploying strategies of several legs

`StrategyService.deploy_strategy` sends the orders of a compiled user strategy
one after another and stores the status `active` if all of them succeeded.
`MultiLegService` stores the legs of a request row by row and sends them in a
later call, which an exception leaves; its store failures are swallowed.
-/

namespace Trademetrix.Application

open Engine
open Execution (OrderResult)

inductive StrategyStatus
  | draft | active | paused
  deriving DecidableEq

structure Sent where
  leg : ℕ
  order : NormalizedOrder
  reply : Except String OrderResult

def Sent.accepted (s : Sent) : Bool :=
  match s.reply with
  | .ok result => result.success
  | .error _ => false

def acceptedLegs (sent : List Sent) : List ℕ := (sent.filter Sent.accepted).map Sent.leg

section UserStrategies

structure UserStrategyRow where
  strategy : UserStrategy
  status : StrategyStatus := .draft
  live : List ℕ := []

/-- A call of `deploy_strategy` and what it finds: the other strategies of the user, whether the
row is read, the live mode of the risk guard, the market, the replies and the store. -/
structure DeployCall where
  mode : String
  superAdmin : Bool
  maxActiveStrategies : ℕ
  existing : ℕ
  reads : Bool
  liveStatus : Bool
  lastClose : Option ℚ
  today : Day
  lotSize : Option ℤ
  replies : ℕ → Except String OrderResult
  updates : Bool

inductive DeployError
  | invalidMode
  | planLimit (maximum : ℕ)
  | notFound
  | validation (error : ValidationError)
  | liveNotEnabled
  | compilation (error : CompileError)
  | store

structure LegResult where
  legOrder : ℤ
  symbol : String
  side : OrderSide
  quantity : ℤ
  success : Bool
  status : String
  message : String
  brokerOrderId : String := ""

/-- `_resolve_market_data`: the chain is made up around the spot price. -/
def resolveMarketData (indexSymbol : String) (call : DeployCall) : MarketData :=
  let close := call.lastClose.getD 0
  let spot := if close ≤ 0 then 24000 else close
  let interval := strikeInterval indexSymbol
  let atm := roundToStrike spot interval
  { today := call.today
    spot
    chain := some <| (List.range 21).map fun (k : ℕ) =>
      { strike := atm + ((k : ℤ) - 10) * interval
        ce := { ltp := some 1, premium := some 1, delta := some (1 / 2) }
        pe := { ltp := some 1, premium := some 1, delta := some (-1 / 2) } }
    lotSize := call.lotSize }

/-- `_row_to_strategy`: the legs in the order of their `leg_order`. -/
def rowToStrategy (strategy : UserStrategy) : UserStrategy :=
  { strategy with legs := strategy.legs.insertionSort fun a b => a.legOrder ≤ b.legOrder }

variable (timeOf : String → Option ℕ) (floatRepr : ℚ → String)

namespace UserStrategyRow

variable (w : UserStrategyRow) (call : DeployCall)

def plan : Except DeployError ExecutionPlan :=
  let mode := Text.upper call.mode
  if mode ≠ "PAPER" ∧ mode ≠ "LIVE" then .error .invalidMode
  else if call.superAdmin = false ∧ 0 < call.existing ∧ call.maxActiveStrategies ≤ call.existing then
    .error (.planLimit call.maxActiveStrategies)
  else if call.reads = false then .error .notFound
  else
    let strategy := rowToStrategy w.strategy
    match validateUserStrategy timeOf strategy with
    | .error e => .error (.validation e)
    | .ok _ =>
      if mode = "LIVE" ∧ call.liveStatus = false then .error .liveNotEnabled
      else
        match compileUserStrategy floatRepr strategy (resolveMarketData strategy.indexSymbol call) with
        | .error e => .error (.compilation e)
        | .ok plan => .ok plan

def send (plan : ExecutionPlan) : List Sent :=
  plan.orders.mapIdx fun i order => ⟨i, order, call.replies i⟩

def results (plan : ExecutionPlan) (sent : List Sent) : List LegResult :=
  sent.map fun s =>
    let legOrder := ((plan.legs[s.leg]?).map UserStrategyLeg.legOrder).getD (s.leg + 1)
    match s.reply with
    | .ok r =>
      ⟨legOrder, s.order.symbol, s.order.side, s.order.quantity, r.success, r.status, r.message,
        r.brokerOrderId⟩
    | .error e => ⟨legOrder, s.order.symbol, s.order.side, s.order.quantity, false, "error", e, ""⟩

def deployStrategy : UserStrategyRow × List Sent × Except DeployError (List LegResult) :=
  match w.plan timeOf floatRepr call with
  | .error e => (w, [], .error e)
  | .ok plan =>
    let sent := send call plan
    let w := { w with live := w.live ++ acceptedLegs sent }
    if (results plan sent).all LegResult.success then
      if call.updates then ({ w with status := .active }, sent, .ok (results plan sent))
      else (w, sent, .error .store)
    else (w, sent, .ok (results plan sent))

end UserStrategyRow

end UserStrategies

section MultiLeg

structure LegDefinition where
  action : OrderSide
  symbol : String
  quantity : ℤ
  exchange : String := "NFO"
  orderType : String := "MARKET"
  product : String := "INTRADAY"
  price : ℚ := 0
  triggerPrice : Option ℚ := none
  instrumentType : String := "OPT"
  strikePrice : Option ℚ := none
  expiryDate : Option String := none
  optionType : Option String := none

/-- `Enum(value)`; `none` is a `ValueError`. -/
def ofValue {ε : Type} (value : ε → String) (members : List ε) (text : String) : Option ε :=
  members.find? fun e => decide (value e = text)

/-- `float(x) if x else None`. -/
def nonzero (x : Option ℚ) : Option ℚ := x.filter fun x => decide (x ≠ 0)

/-- The order of a stored leg; `none` is a `ValueError`. -/
def LegDefinition.toOrder (strategyId : String) (leg : LegDefinition) : Option NormalizedOrder := do
  let exchange ← ofValue Exchange.value [.nse, .bse, .nfo, .cds, .mcx] leg.exchange
  let orderType ← ofValue OrderType.value [.market, .limit, .sl, .slm] leg.orderType
  let product ← ofValue ProductType.value [.delivery, .intraday, .mis, .nrml] leg.product
  let instrumentType ← ofValue InstrumentType.value [.eq, .fut, .opt] leg.instrumentType
  let optionType ←
    match leg.optionType with
    | none | some "" => some none
    | some text => (ofValue OptionType.value [.ce, .pe] text).map some
  return {
    symbol := leg.symbol
    exchange
    side := leg.action
    orderType
    product
    quantity := leg.quantity
    price := leg.price
    triggerPrice := nonzero leg.triggerPrice
    instrumentType
    strikePrice := nonzero leg.strikePrice
    expiryDate := leg.expiryDate
    optionType
    strategyId := some strategyId
    source := "multi_leg" }

/-- The row of a multi-leg strategy, if there is one, the rows of its legs by `leg_index`, and the
legs whose orders were accepted. -/
structure MultiLegRows where
  status : Option StrategyStatus
  legs : List (ℕ × LegDefinition)
  live : List ℕ := []

/-- Which inserts of `create_strategy` the store takes. -/
structure CreateIo where
  strategy : Bool := true
  leg : ℕ → Bool := fun _ => true

def enumerate {α : Type} (xs : List α) : List (ℕ × α) := xs.mapIdx fun i x => (i, x)

def createStrategy (legs : List LegDefinition) (io : CreateIo) : MultiLegRows where
  status := if io.strategy then some .draft else none
  legs := (enumerate legs).filter fun p => io.leg p.1

/-- What a call of `place_strategy` finds: the two reads, the replies and the update. -/
structure PlaceCall where
  readsStrategy : Bool := true
  readsLegs : Bool := true
  replies : ℕ → Except String OrderResult
  updates : Bool := true

inductive PlaceError
  | notFound | noLegs | invalidLeg | order (message : String)

namespace MultiLegRows

variable (strategyId : String)

def sendLegs (replies : ℕ → Except String OrderResult) :
    List (ℕ × LegDefinition) → List Sent × Option PlaceError
  | [] => ([], none)
  | (i, leg) :: legs =>
    match leg.toOrder strategyId with
    | none => ([], some .invalidLeg)
    | some order =>
      match replies i with
      | .error e => ([⟨i, order, .error e⟩], some (.order e))
      | .ok result =>
        let (sent, error) := sendLegs replies legs
        (⟨i, order, .ok result⟩ :: sent, error)

def placeStrategy (w : MultiLegRows) (call : PlaceCall) :
    MultiLegRows × List Sent × Except PlaceError (List Sent) :=
  if w.status = none ∨ call.readsStrategy = false then (w, [], .error .notFound)
  else if w.legs = [] ∨ call.readsLegs = false then (w, [], .error .noLegs)
  else
    let (sent, error) := sendLegs strategyId call.replies w.legs
    let w := { w with live := w.live ++ acceptedLegs sent }
    match error with
    | some e => (w, sent, .error e)
    | none =>
      -- an update that fails is not noticed
      ({ w with status := if call.updates then some .active else w.status }, sent, .ok sent)

end MultiLegRows

end MultiLeg

end Trademetrix.Application

namespace Trademetrix.Application

open Engine
open Execution (OrderResult)

/-- What is asked of an attempt; `own` are the orders of the legs as the user defined them. -/
structure SoundAttempt (own : Option (List NormalizedOrder)) (liveBefore : List ℕ) (sent : List Sent)
    (active : Prop) (live : List ℕ) : Prop where
  whole : sent = [] ∨ own = some (sent.map Sent.order)
  covered : active ↔ live ≠ []
  notAgain : ∀ s ∈ sent, s.leg ∉ liveBefore

def Accepts (reply : Except String OrderResult) : Prop := ∃ result, reply = .ok result ∧ result.success

def Answers (reply : Except String OrderResult) : Prop := ∃ result, reply = .ok result

theorem Sent.accepted_iff {s : Sent} : s.accepted ↔ Accepts s.reply := by
  rw [Sent.accepted, Accepts]
  cases s.reply with
  | error e => simp
  | ok result => simp

theorem acceptedLegs_eq_nil {sent : List Sent} :
    acceptedLegs sent = [] ↔ ∀ s ∈ sent, ¬ Accepts s.reply := by
  simp [acceptedLegs, List.filter_eq_nil_iff, Sent.accepted_iff]

theorem mem_acceptedLegs {sent : List Sent} {i : ℕ} (h : i ∈ acceptedLegs sent) :
    ∃ s ∈ sent, s.leg = i := by
  obtain ⟨s, hs, rfl⟩ := List.mem_map.mp h
  exact ⟨s, List.mem_of_mem_filter hs, rfl⟩

namespace UserStrategyRow

variable {timeOf : String → Option ℕ} {floatRepr : ℚ → String} {w : UserStrategyRow} {call : DeployCall}
  {plan : ExecutionPlan}

def SameStrike (floatRepr : ℚ → String) (a b : Strike) : Prop :=
  a.value = b.value ∧ a.text floatRepr = b.text floatRepr

def market (w : UserStrategyRow) (call : DeployCall) : MarketData :=
  resolveMarketData w.strategy.indexSymbol call

def ownStrike (w : UserStrategyRow) (call : DeployCall) (leg : UserStrategyLeg) : Strike :=
  resolveStrike w.strategy.indexSymbol (w.market call).spot ((w.market call).chain.getD []) leg

/-- The strike under the `leg_order` of a leg. -/
def sharedStrike (w : UserStrategyRow) (call : DeployCall) (leg : UserStrategyLeg) : Strike :=
  ((resolveStrikes (rowToStrategy w.strategy).legs w.strategy.indexSymbol (w.market call).spot
    ((w.market call).chain.getD [])).get leg.legOrder).getD (.spot (w.market call).spot)

def orderAt (floatRepr : ℚ → String) (w : UserStrategyRow) (call : DeployCall) (strike : Strike)
    (leg : UserStrategyLeg) : NormalizedOrder :=
  legOrder floatRepr (rowToStrategy w.strategy) (w.market call) (call.lotSize.getD 0) strike leg

def ownOrders (floatRepr : ℚ → String) (w : UserStrategyRow) (call : DeployCall) :
    List NormalizedOrder :=
  (rowToStrategy w.strategy).legs.map fun leg => orderAt floatRepr w call (w.ownStrike call leg) leg

def Sound (timeOf : String → Option ℕ) (floatRepr : ℚ → String) (w : UserStrategyRow)
    (call : DeployCall) : Prop :=
  SoundAttempt (some (ownOrders floatRepr w call)) w.live (w.deployStrategy timeOf floatRepr call).2.1
    ((w.deployStrategy timeOf floatRepr call).1.status = .active)
    (w.deployStrategy timeOf floatRepr call).1.live

/-- A call that comes to the orders finds no leg live; no options leg shares its `leg_order` with a
later one at another strike; and either no order is accepted, or all are and the update is made. -/
def Clean (timeOf : String → Option ℕ) (floatRepr : ℚ → String) (w : UserStrategyRow)
    (call : DeployCall) : Prop :=
  (∃ plan, w.plan timeOf floatRepr call = .ok plan) →
    w.live = [] ∧
    (∀ leg ∈ (rowToStrategy w.strategy).legs, leg.segment = .options →
      SameStrike floatRepr (w.sharedStrike call leg) (w.ownStrike call leg)) ∧
    ((∀ i < w.strategy.legs.length, ¬ Accepts (call.replies i)) ∨
      (∀ i < w.strategy.legs.length, Accepts (call.replies i)) ∧ call.updates)

structure Tracked (w : UserStrategyRow) : Prop where
  covered : w.status = .active ↔ w.live ≠ []
  legs : ∀ i ∈ w.live, i < w.strategy.legs.length

theorem legOrder_eq_iff {strategy : UserStrategy} {market : MarketData} {lotSize : ℤ}
    {leg : UserStrategyLeg} {a b : Strike} :
    legOrder floatRepr strategy market lotSize a leg = legOrder floatRepr strategy market lotSize b leg ↔
      (leg.segment = .options → SameStrike floatRepr a b) := by
  cases hsegment : leg.segment with
  | futures => simp [legOrder, hsegment]
  | options => simp [legOrder, hsegment, SameStrike, and_comm]

theorem plan_spec (h : w.plan timeOf floatRepr call = .ok plan) :
    (rowToStrategy w.strategy).legs ≠ [] ∧ plan.legs = (rowToStrategy w.strategy).legs ∧
      plan.orders = (rowToStrategy w.strategy).legs.map fun leg =>
        orderAt floatRepr w call (w.sharedStrike call leg) leg := by
  rw [UserStrategyRow.plan] at h
  dsimp only at h
  split at h
  · cases h
  · split at h
    · cases h
    · split at h
      · cases h
      · split at h
        · cases h
        · next hvalid =>
          split at h
          · cases h
          · split at h
            · cases h
            · next hcompile =>
              cases h
              obtain ⟨hlegs, horders⟩ := compileUserStrategy_spec hcompile
              exact ⟨validateUserStrategy_legs hvalid, hlegs, horders⟩

theorem length_orders (h : w.plan timeOf floatRepr call = .ok plan) :
    plan.orders.length = w.strategy.legs.length ∧ 0 < w.strategy.legs.length := by
  obtain ⟨hne, -, horders⟩ := plan_spec h
  have hlength : (rowToStrategy w.strategy).legs.length = w.strategy.legs.length :=
    List.length_insertionSort _ _
  rw [horders, List.length_map, ← hlength]
  exact ⟨rfl, List.length_pos_iff.mpr hne⟩

theorem forall_send (call : DeployCall) (plan : ExecutionPlan)
    {P : ℕ → Except String OrderResult → Prop} :
    (∀ s ∈ send call plan, P s.leg s.reply) ↔ ∀ i < plan.orders.length, P i (call.replies i) := by
  constructor
  · intro h i hi
    exact h ⟨i, plan.orders[i], call.replies i⟩ (List.mem_mapIdx.mpr ⟨i, hi, rfl⟩)
  · intro h s hs
    obtain ⟨i, hi, rfl⟩ := List.mem_mapIdx.mp hs
    exact h i hi

theorem map_order_send : (send call plan).map Sent.order = plan.orders := by
  refine List.ext_getElem (by simp [send]) fun i _ _ => ?_
  simp [send]

theorem results_success {sent : List Sent} :
    (results plan sent).all LegResult.success = true ↔ ∀ s ∈ sent, Accepts s.reply := by
  have heach : ∀ s : Sent, LegResult.success ((results plan [s]).headD ⟨0, "", .buy, 0, false, "", "", ""⟩) =
      s.accepted := by
    intro s
    cases s with
    | mk leg order reply => cases reply <;> rfl
  rw [results, List.all_map, List.all_eq_true]
  exact forall₂_congr fun s _ => by rw [← Sent.accepted_iff, ← heach s]; rfl

theorem deployStrategy_spec (h : w.plan timeOf floatRepr call = .ok plan) :
    (w.deployStrategy timeOf floatRepr call).2.1 = send call plan ∧
      (w.deployStrategy timeOf floatRepr call).1.live = w.live ++ acceptedLegs (send call plan) ∧
      (w.deployStrategy timeOf floatRepr call).1.strategy = w.strategy ∧
      ((w.deployStrategy timeOf floatRepr call).1.status = .active ↔ w.status = .active ∨
        (∀ i < w.strategy.legs.length, Accepts (call.replies i)) ∧ call.updates) := by
  have hall : (results plan (send call plan)).all LegResult.success = true ↔
      ∀ i < w.strategy.legs.length, Accepts (call.replies i) := by
    rw [results_success, forall_send call plan (P := fun _ reply => Accepts reply), (length_orders h).1]
  rw [deployStrategy, h]
  dsimp only
  by_cases hsuccess : (results plan (send call plan)).all LegResult.success = true
  · rw [if_pos hsuccess]
    cases hupdates : call.updates with
    | true => exact ⟨rfl, rfl, rfl, iff_of_true rfl (.inr ⟨hall.mp hsuccess, rfl⟩)⟩
    | false => exact ⟨rfl, rfl, rfl, by simp⟩
  · rw [if_neg hsuccess]
    refine ⟨rfl, rfl, rfl, ?_⟩
    rw [hall] at hsuccess
    exact ⟨.inl, fun h => h.resolve_right fun h => hsuccess h.1⟩

theorem deployStrategy_of_error {e : DeployError} (h : w.plan timeOf floatRepr call = .error e) :
    w.deployStrategy timeOf floatRepr call = (w, [], .error e) := by
  rw [deployStrategy, h]

theorem orderAt_eq_iff {a b : Strike} {leg : UserStrategyLeg} :
    orderAt floatRepr w call a leg = orderAt floatRepr w call b leg ↔
      (leg.segment = .options → SameStrike floatRepr a b) := by
  rw [orderAt, orderAt, legOrder_eq_iff]

theorem whole_iff (h : w.plan timeOf floatRepr call = .ok plan) :
    (send call plan = [] ∨
        some (ownOrders floatRepr w call) = some ((send call plan).map Sent.order)) ↔
      ∀ leg ∈ (rowToStrategy w.strategy).legs, leg.segment = .options →
        SameStrike floatRepr (w.sharedStrike call leg) (w.ownStrike call leg) := by
  have hne : send call plan ≠ [] := by
    obtain ⟨hlength, hpos⟩ := length_orders h
    intro hnil
    rw [← List.length_eq_zero_iff, send, List.length_mapIdx, hlength] at hnil
    omega
  rw [or_iff_right hne, map_order_send, Option.some_inj, (plan_spec h).2.2, ownOrders, eq_comm,
    List.map_inj_left]
  exact forall₂_congr fun leg _ => orderAt_eq_iff

theorem again_iff (hw : Tracked w) (h : w.plan timeOf floatRepr call = .ok plan) :
    (∀ s ∈ send call plan, s.leg ∉ w.live) ↔ w.live = [] := by
  rw [forall_send call plan (P := fun i _ => i ∉ w.live), (length_orders h).1]
  constructor
  · intro h
    exact List.eq_nil_iff_forall_not_mem.mpr fun i hi => h i (hw.legs i hi) hi
  · intro h
    simp [h]

theorem covered_iff (hw : Tracked w) (h : w.plan timeOf floatRepr call = .ok plan)
    (hnil : w.live = []) :
    ((w.deployStrategy timeOf floatRepr call).1.status = .active ↔
        (w.deployStrategy timeOf floatRepr call).1.live ≠ []) ↔
      ((∀ i < w.strategy.legs.length, ¬ Accepts (call.replies i)) ∨
        (∀ i < w.strategy.legs.length, Accepts (call.replies i)) ∧ call.updates) := by
  obtain ⟨-, hlive, -, hstatus⟩ := deployStrategy_spec h
  obtain ⟨hlength, hpos⟩ := length_orders h
  have hnone : acceptedLegs (send call plan) = [] ↔
      ∀ i < w.strategy.legs.length, ¬ Accepts (call.replies i) := by
    rw [acceptedLegs_eq_nil, forall_send call plan (P := fun _ reply => ¬ Accepts reply), hlength]
  have hdraft : w.status ≠ .active := fun h => hw.covered.mp h hnil
  rw [hstatus, hlive, hnil, List.nil_append, or_iff_right hdraft, ne_eq, hnone]
  constructor
  · intro h
    by_cases hrejected : ∀ i < w.strategy.legs.length, ¬ Accepts (call.replies i)
    · exact .inl hrejected
    · exact .inr (h.mpr hrejected)
  · rintro (h | h)
    · exact iff_of_false (fun hall => h 0 hpos (hall.1 0 hpos)) (not_not_intro h)
    · exact iff_of_true h fun hrejected => hrejected 0 hpos (h.1 0 hpos)

theorem sound_iff (hw : Tracked w) : Sound timeOf floatRepr w call ↔ Clean timeOf floatRepr w call := by
  cases hplan : w.plan timeOf floatRepr call with
  | error e =>
    refine iff_of_true ?_ ?_
    · rw [Sound, deployStrategy_of_error hplan]
      exact ⟨.inl rfl, hw.covered, fun _ hs => absurd hs List.not_mem_nil⟩
    · rintro ⟨plan, h⟩
      rw [hplan] at h
      cases h
  | ok plan =>
    have hsent := (deployStrategy_spec hplan).1
    have hwhole := whole_iff hplan
    have hagain := again_iff hw hplan
    constructor
    · intro h _
      rw [Sound, hsent] at h
      have hnil := hagain.mp h.notAgain
      exact ⟨hnil, hwhole.mp h.whole, (covered_iff hw hplan hnil).mp h.covered⟩
    · intro h
      obtain ⟨hnil, hstrikes, hreplies⟩ := h ⟨plan, hplan⟩
      rw [Sound, hsent]
      exact ⟨hwhole.mpr hstrikes, (covered_iff hw hplan hnil).mpr hreplies, hagain.mpr hnil⟩

theorem tracked_step (hw : Tracked w) (h : Clean timeOf floatRepr w call) :
    Tracked (w.deployStrategy timeOf floatRepr call).1 := by
  refine ⟨((sound_iff hw).mpr h).covered, ?_⟩
  cases hplan : w.plan timeOf floatRepr call with
  | error e =>
    rw [deployStrategy_of_error hplan]
    exact hw.legs
  | ok plan =>
    obtain ⟨-, hlive, hstrategy, -⟩ := deployStrategy_spec hplan
    rw [hlive, hstrategy]
    intro i hi
    rcases List.mem_append.mp hi with hi | hi
    · exact hw.legs i hi
    · obtain ⟨s, hs, rfl⟩ := mem_acceptedLegs hi
      have hall := (forall_send call plan (P := fun i _ => i < plan.orders.length)).mpr fun i hi => hi
      rw [← (length_orders hplan).1]
      exact hall s hs

end UserStrategyRow

namespace MultiLegRows

variable {strategyId : String} {req : List LegDefinition} {w : MultiLegRows} {call : PlaceCall}
  {replies : ℕ → Except String OrderResult} {legs : List (ℕ × LegDefinition)}

def Sound (strategyId : String) (req : List LegDefinition) (w : MultiLegRows) (call : PlaceCall) :
    Prop :=
  SoundAttempt (req.mapM fun leg => leg.toOrder strategyId) w.live
    (w.placeStrategy strategyId call).2.1
    ((w.placeStrategy strategyId call).1.status = some .active)
    (w.placeStrategy strategyId call).1.live

def Sends (strategyId : String) (w : MultiLegRows) (call : PlaceCall) : Prop :=
  w.status ≠ none ∧ call.readsStrategy ∧ call.readsLegs ∧
    ∃ p ∈ w.legs.head?, (p.2.toOrder strategyId).isSome

/-- A call that sends finds no leg live and all legs of the request stored, each of them an order;
no order but the last raises; and the loop ends and the update is made just if one is accepted. -/
def Clean (strategyId : String) (req : List LegDefinition) (w : MultiLegRows) (call : PlaceCall) :
    Prop :=
  Sends strategyId w call →
    w.live = [] ∧ w.legs.length = req.length ∧ (∀ leg ∈ req, (leg.toOrder strategyId).isSome) ∧
    (∀ i, i + 1 < req.length → Answers (call.replies i)) ∧
    ((Answers (call.replies (req.length - 1)) ∧ call.updates) ↔
      ∃ i < req.length, Accepts (call.replies i))

structure Tracked (req : List LegDefinition) (w : MultiLegRows) : Prop where
  covered : w.status = some .active ↔ w.live ≠ []
  stored : w.legs.Sublist (enumerate req)
  legs : ∀ i ∈ w.live, i < req.length

theorem tracked_createStrategy (io : CreateIo) : Tracked req (createStrategy req io) := by
  refine ⟨?_, List.filter_sublist, fun i hi => absurd hi List.not_mem_nil⟩
  rw [createStrategy]
  cases io.strategy <;> simp

theorem sendLegs_spec (strategyId : String) (replies : ℕ → Except String OrderResult)
    (legs : List (ℕ × LegDefinition)) :
    ∃ rest, legs.map Prod.fst = (sendLegs strategyId replies legs).1.map Sent.leg ++ rest ∧
      (∀ s ∈ (sendLegs strategyId replies legs).1, s.reply = replies s.leg) := by
  induction legs with
  | nil => exact ⟨[], rfl, fun _ hs => absurd hs List.not_mem_nil⟩
  | cons p legs ih =>
    obtain ⟨i, leg⟩ := p
    rw [sendLegs]
    cases leg.toOrder strategyId with
    | none => exact ⟨i :: legs.map Prod.fst, rfl, fun _ hs => absurd hs List.not_mem_nil⟩
    | some order =>
      cases hreply : replies i with
      | error e => exact ⟨legs.map Prod.fst, rfl, by simp [hreply]⟩
      | ok result =>
        obtain ⟨rest, hfst, hreplies⟩ := ih
        refine ⟨rest, by simp [hfst], fun s hs => ?_⟩
        rcases List.mem_cons.mp hs with rfl | hs
        · exact hreply.symm
        · exact hreplies s hs

theorem length_sendLegs (strategyId : String) (replies : ℕ → Except String OrderResult)
    (legs : List (ℕ × LegDefinition)) :
    (sendLegs strategyId replies legs).1.length = legs.length ↔
      (∀ p ∈ legs, (p.2.toOrder strategyId).isSome) ∧ ∀ p ∈ legs.dropLast, Answers (replies p.1) := by
  induction legs with
  | nil => simp [sendLegs]
  | cons p legs ih =>
    obtain ⟨i, leg⟩ := p
    rw [sendLegs]
    cases horder : leg.toOrder strategyId with
    | none => simp [horder]
    | some order =>
      cases hreply : replies i with
      | error e =>
        cases legs with
        | nil => simp [horder]
        | cons q legs => simp [Answers, hreply]
      | ok result =>
        have hanswers : Answers (replies i) := ⟨result, hreply⟩
        cases legs with
        | nil => simp [sendLegs, horder]
        | cons q legs =>
          simp only [List.length_cons, Nat.add_right_cancel_iff] at ih ⊢
          rw [ih]
          simp [horder, hanswers]

theorem sendLegs_eq_none (strategyId : String) (replies : ℕ → Except String OrderResult)
    (legs : List (ℕ × LegDefinition)) :
    (sendLegs strategyId replies legs).2 = none ↔
      ∀ p ∈ legs, (p.2.toOrder strategyId).isSome ∧ Answers (replies p.1) := by
  induction legs with
  | nil => simp [sendLegs]
  | cons p legs ih =>
    obtain ⟨i, leg⟩ := p
    rw [sendLegs]
    cases horder : leg.toOrder strategyId with
    | none => simp [horder]
    | some order =>
      cases hreply : replies i with
      | error e => simp [Answers, hreply]
      | ok result => simp [ih, horder, Answers, hreply]

theorem mapM_toOrder (strategyId : String) (replies : ℕ → Except String OrderResult)
    (legs : List (ℕ × LegDefinition))
    (h : (sendLegs strategyId replies legs).1.length = legs.length) :
    (legs.map Prod.snd).mapM (fun leg => leg.toOrder strategyId) =
      some ((sendLegs strategyId replies legs).1.map Sent.order) := by
  induction legs with
  | nil => rfl
  | cons p legs ih =>
    obtain ⟨i, leg⟩ := p
    rw [sendLegs] at h ⊢
    cases horder : leg.toOrder strategyId with
    | none => simp [horder] at h
    | some order =>
      rw [horder] at h
      cases hreply : replies i with
      | error e =>
        rw [hreply] at h
        obtain rfl : legs = [] := by simpa using h.symm
        simp [horder]
      | ok result =>
        rw [hreply] at h
        have hrest := ih (by simpa using h)
        simp [horder, hrest]

theorem enumerate_snd {α : Type} (xs : List α) : (enumerate xs).map Prod.snd = xs := by
  refine List.ext_getElem (by simp [enumerate]) fun i _ _ => ?_
  simp [enumerate]

theorem length_enumerate {α : Type} (xs : List α) : (enumerate xs).length = xs.length :=
  List.length_mapIdx

theorem forall_dropLast_enumerate {P : ℕ → Prop} :
    (∀ p ∈ (enumerate req).dropLast, P p.1) ↔ ∀ i, i + 1 < req.length → P i := by
  rw [List.forall_mem_iff_forall_getElem]
  simp only [List.length_dropLast, List.getElem_dropLast, enumerate, List.getElem_mapIdx,
    List.length_mapIdx]
  exact forall_congr' fun i => ⟨fun h hi => h (by omega), fun h hi => h (by omega)⟩

theorem forall_enumerate {P : LegDefinition → Prop} :
    (∀ p ∈ enumerate req, P p.2) ↔ ∀ leg ∈ req, P leg := by
  conv_rhs => rw [← enumerate_snd req]
  rw [List.forall_mem_map]

theorem forall_fst_enumerate {P : ℕ → Prop} :
    (∀ p ∈ enumerate req, P p.1) ↔ ∀ i < req.length, P i := by
  rw [List.forall_mem_iff_forall_getElem]
  simp only [enumerate, List.getElem_mapIdx, List.length_mapIdx]

theorem placeStrategy_of_not_sends (h : ¬ Sends strategyId w call) :
    (w.placeStrategy strategyId call).1 = w ∧ (w.placeStrategy strategyId call).2.1 = [] := by
  rw [placeStrategy]
  split
  · exact ⟨rfl, rfl⟩
  · next hrow =>
    split
    · exact ⟨rfl, rfl⟩
    · next hlegs =>
      rw [not_or, Bool.not_eq_false] at hrow hlegs
      cases hw : w.legs with
      | nil => exact absurd hw hlegs.1
      | cons p legs =>
        obtain ⟨i, leg⟩ := p
        cases horder : leg.toOrder strategyId with
        | none => simp [sendLegs, horder, acceptedLegs, ← hw]
        | some order =>
          exact absurd ⟨hrow.1, hrow.2, hlegs.2, (i, leg), by rw [hw]; rfl, by rw [horder]; rfl⟩ h

theorem sendLegs_ne_nil {p : ℕ × LegDefinition} (hp : p ∈ legs.head?)
    (horder : (p.2.toOrder strategyId).isSome) : (sendLegs strategyId replies legs).1 ≠ [] := by
  obtain ⟨rest, rfl⟩ : ∃ rest, legs = p :: rest := List.head?_eq_some_iff.mp hp
  obtain ⟨i, leg⟩ := p
  obtain ⟨order, horder⟩ := Option.isSome_iff_exists.mp horder
  dsimp only at horder
  rw [sendLegs, horder]
  cases replies i with
  | error e => simp
  | ok result => simp

theorem placeStrategy_of_sends (h : Sends strategyId w call) :
    (w.placeStrategy strategyId call).2.1 = (sendLegs strategyId call.replies w.legs).1 ∧
      (sendLegs strategyId call.replies w.legs).1 ≠ [] ∧
      (w.placeStrategy strategyId call).1.legs = w.legs ∧
      (w.placeStrategy strategyId call).1.live =
        w.live ++ acceptedLegs (sendLegs strategyId call.replies w.legs).1 ∧
      ((w.placeStrategy strategyId call).1.status = some .active ↔ w.status = some .active ∨
        (sendLegs strategyId call.replies w.legs).2 = none ∧ call.updates) := by
  obtain ⟨hrow, hreads, hlegs, p, hp, horder⟩ := h
  have hne : w.legs ≠ [] := by
    intro hnil
    simp [hnil] at hp
  rw [placeStrategy, if_neg (by simp [hrow, hreads]), if_neg (by simp [hne, hlegs])]
  have hsent : (sendLegs strategyId call.replies w.legs).1 ≠ [] := sendLegs_ne_nil hp horder
  generalize sendLegs strategyId call.replies w.legs = out at hsent ⊢
  obtain ⟨sent, error⟩ := out
  cases error with
  | some e => exact ⟨rfl, hsent, rfl, rfl, by simp⟩
  | none =>
    refine ⟨rfl, hsent, rfl, rfl, ?_⟩
    cases call.updates <;> simp

theorem whole_iff (strategyId : String) (replies : ℕ → Except String OrderResult)
    (hw : Tracked req w) (hsent : (sendLegs strategyId replies w.legs).1 ≠ []) :
    ((sendLegs strategyId replies w.legs).1 = [] ∨
        req.mapM (fun leg => leg.toOrder strategyId) =
          some ((sendLegs strategyId replies w.legs).1.map Sent.order)) ↔
      w.legs.length = req.length ∧ (∀ leg ∈ req, (leg.toOrder strategyId).isSome) ∧
        ∀ i, i + 1 < req.length → Answers (replies i) := by
  have hstored := hw.stored.length_le
  rw [length_enumerate] at hstored
  have hall : w.legs.length = req.length → w.legs = enumerate req := fun h =>
    hw.stored.eq_of_length (h.trans (length_enumerate req).symm)
  rw [or_iff_right hsent]
  constructor
  · intro h
    have hlength := length_mapM h
    rw [List.length_map] at hlength
    obtain ⟨rest, hfst, -⟩ := sendLegs_spec strategyId replies w.legs
    have hsum := congrArg List.length hfst
    rw [List.length_append, List.length_map, List.length_map] at hsum
    have heq : w.legs.length = req.length := by omega
    have hcomplete := (length_sendLegs strategyId replies w.legs).mp (by omega)
    rw [hall heq] at hcomplete
    exact ⟨heq, forall_enumerate.mp hcomplete.1, forall_dropLast_enumerate.mp hcomplete.2⟩
  · rintro ⟨heq, horders, hreplies⟩
    have hlegs := hall heq
    have hcomplete := (length_sendLegs strategyId replies w.legs).mpr (by
      rw [hlegs]
      exact ⟨forall_enumerate.mpr horders, forall_dropLast_enumerate.mpr hreplies⟩)
    have hmap := mapM_toOrder strategyId replies w.legs hcomplete
    rwa [hlegs, enumerate_snd, ← hlegs] at hmap

theorem forall_sent {P : ℕ → Except String OrderResult → Prop}
    (h : (sendLegs strategyId replies (enumerate req)).1.length = (enumerate req).length) :
    (∀ s ∈ (sendLegs strategyId replies (enumerate req)).1, P s.leg s.reply) ↔
      ∀ i < req.length, P i (replies i) := by
  obtain ⟨rest, hfst, hreplies⟩ := sendLegs_spec strategyId replies (enumerate req)
  have hlength := congrArg List.length hfst
  rw [List.length_append, List.length_map, List.length_map, h] at hlength
  obtain rfl : rest = [] := List.length_eq_zero_iff.mp (by omega)
  rw [List.append_nil] at hfst
  have hlegs : (∀ s ∈ (sendLegs strategyId replies (enumerate req)).1, P s.leg (replies s.leg)) ↔
      ∀ i < req.length, P i (replies i) := by
    rw [← forall_fst_enumerate (P := fun i => P i (replies i)),
      ← List.forall_mem_map (f := Prod.fst) (P := fun i => P i (replies i)), hfst,
      List.forall_mem_map]
  rw [← hlegs]
  exact forall₂_congr fun s hs => by rw [hreplies s hs]

theorem sendLegs_end (replies : ℕ → Except String OrderResult) (hpos : 0 < req.length)
    (horders : ∀ leg ∈ req, (leg.toOrder strategyId).isSome)
    (hreplies : ∀ i, i + 1 < req.length → Answers (replies i)) :
    (sendLegs strategyId replies (enumerate req)).2 = none ↔ Answers (replies (req.length - 1)) := by
  rw [sendLegs_eq_none]
  constructor
  · intro h
    exact (forall_fst_enumerate (P := fun i => Answers (replies i))).mp
      (fun p hp => (h p hp).2) _ (by omega)
  · intro h p hp
    refine ⟨forall_enumerate.mpr horders p hp,
      (forall_fst_enumerate (P := fun i => Answers (replies i))).mpr (fun i hi => ?_) p hp⟩
    rcases Nat.lt_or_ge (i + 1) req.length with hlt | hge
    · exact hreplies i hlt
    · obtain rfl : i = req.length - 1 := by omega
      exact h

theorem again_iff (hw : Tracked req w)
    (h : (sendLegs strategyId call.replies (enumerate req)).1.length = (enumerate req).length) :
    (∀ s ∈ (sendLegs strategyId call.replies (enumerate req)).1, s.leg ∉ w.live) ↔ w.live = [] := by
  rw [forall_sent (P := fun i _ => i ∉ w.live) h]
  constructor
  · intro h
    exact List.eq_nil_iff_forall_not_mem.mpr fun i hi => h i (hw.legs i hi) hi
  · intro h
    simp [h]

theorem covered_iff (hw : Tracked req w) (hsends : Sends strategyId w call)
    (hlegs : w.legs = enumerate req) (horders : ∀ leg ∈ req, (leg.toOrder strategyId).isSome)
    (hreplies : ∀ i, i + 1 < req.length → Answers (call.replies i)) (hnil : w.live = []) :
    ((w.placeStrategy strategyId call).1.status = some .active ↔
        (w.placeStrategy strategyId call).1.live ≠ []) ↔
      ((Answers (call.replies (req.length - 1)) ∧ call.updates) ↔
        ∃ i < req.length, Accepts (call.replies i)) := by
  obtain ⟨-, hne, -, hlive, hstatus⟩ := placeStrategy_of_sends hsends
  rw [hlegs] at hne hlive hstatus
  have hpos : 0 < req.length := by
    rw [List.length_pos_iff]
    rintro rfl
    exact hne rfl
  have hcomplete := (length_sendLegs strategyId call.replies (enumerate req)).mpr
    ⟨forall_enumerate.mpr horders, forall_dropLast_enumerate.mpr hreplies⟩
  have haccepted : acceptedLegs (sendLegs strategyId call.replies (enumerate req)).1 ≠ [] ↔
      ∃ i < req.length, Accepts (call.replies i) := by
    rw [ne_eq, acceptedLegs_eq_nil, forall_sent (P := fun _ reply => ¬ Accepts reply) hcomplete]
    simp
  have hdraft : w.status ≠ some .active := fun h => hw.covered.mp h hnil
  rw [hstatus, hlive, hnil, List.nil_append, or_iff_right hdraft,
    sendLegs_end call.replies hpos horders hreplies, haccepted]

theorem sound_iff (hw : Tracked req w) :
    Sound strategyId req w call ↔ Clean strategyId req w call := by
  by_cases hsends : Sends strategyId w call
  · obtain ⟨hsent, hne, -⟩ := placeStrategy_of_sends hsends
    have hwhole := whole_iff strategyId call.replies hw hne
    have hall : w.legs.length = req.length → w.legs = enumerate req := fun h =>
      hw.stored.eq_of_length (h.trans (length_enumerate req).symm)
    have hagain : w.legs.length = req.length → (∀ leg ∈ req, (leg.toOrder strategyId).isSome) →
        (∀ i, i + 1 < req.length → Answers (call.replies i)) →
        ((∀ s ∈ (sendLegs strategyId call.replies w.legs).1, s.leg ∉ w.live) ↔ w.live = []) := by
      intro hlength horders hreplies
      rw [hall hlength]
      exact again_iff hw ((length_sendLegs strategyId call.replies (enumerate req)).mpr
        ⟨forall_enumerate.mpr horders, forall_dropLast_enumerate.mpr hreplies⟩)
    constructor
    · intro h _
      rw [Sound, hsent] at h
      obtain ⟨hlength, horders, hreplies⟩ := hwhole.mp h.whole
      have hnil := (hagain hlength horders hreplies).mp h.notAgain
      exact ⟨hnil, hlength, horders, hreplies,
        (covered_iff hw hsends (hall hlength) horders hreplies hnil).mp h.covered⟩
    · intro h
      obtain ⟨hnil, hlength, horders, hreplies, hend⟩ := h hsends
      rw [Sound, hsent]
      exact ⟨hwhole.mpr ⟨hlength, horders, hreplies⟩,
        (covered_iff hw hsends (hall hlength) horders hreplies hnil).mpr hend,
        (hagain hlength horders hreplies).mpr hnil⟩
  · obtain ⟨hsame, hsent⟩ := placeStrategy_of_not_sends hsends
    refine iff_of_true ?_ fun h => absurd h hsends
    rw [Sound, hsame, hsent]
    exact ⟨.inl rfl, hw.covered, fun _ hs => absurd hs List.not_mem_nil⟩

theorem tracked_step (hw : Tracked req w) (h : Clean strategyId req w call) :
    Tracked req (w.placeStrategy strategyId call).1 := by
  have hsound := (sound_iff hw).mpr h
  by_cases hsends : Sends strategyId w call
  · obtain ⟨-, -, hlegs, hlive, -⟩ := placeStrategy_of_sends hsends
    refine ⟨hsound.covered, hlegs ▸ hw.stored, ?_⟩
    rw [hlive]
    intro i hi
    rcases List.mem_append.mp hi with hi | hi
    · exact hw.legs i hi
    · obtain ⟨s, hs, rfl⟩ := mem_acceptedLegs hi
      obtain ⟨rest, hfst, -⟩ := sendLegs_spec strategyId call.replies w.legs
      have hmem : s.leg ∈ w.legs.map Prod.fst := by
        rw [hfst]
        exact List.mem_append_left _ (List.mem_map_of_mem hs)
      obtain ⟨p, hp, heq⟩ := List.mem_map.mp hmem
      rw [← heq]
      exact forall_fst_enumerate.mpr (fun i hi => hi) p (hw.stored.subset hp)
  · rw [(placeStrategy_of_not_sends hsends).1]
    exact hw

end MultiLegRows

section Straddle

def straddle : UserStrategy where
  id := "s1"
  name := "Straddle"
  indexSymbol := "NIFTY"
  entryTime := "09:20"
  exitTime := "15:15"
  legs := [
    { legOrder := 1, segment := .options, position := .sell, optionType := some .ce, expiry := .weekly
      strikeCriteria := .atmOffset, strikeValue := 0 },
    { legOrder := 2, segment := .options, position := .sell, optionType := some .pe, expiry := .weekly
      strikeCriteria := .atmOffset, strikeValue := 0 }]

def clock (text : String) : Option ℕ := some (if text = "09:20" then 33600 else 54900)

def firstLegOnly : DeployCall where
  mode := "paper"
  superAdmin := false
  maxActiveStrategies := 3
  existing := 0
  reads := true
  liveStatus := false
  lastClose := some 24010
  today := ⟨730425⟩
  lotSize := some 75
  replies i := .ok { success := i = 0 }
  updates := true

def straddleLegs : List LegDefinition := [
  { action := .sell, symbol := "NIFTY04JAN200024000CE", quantity := 75 },
  { action := .sell, symbol := "NIFTY04JAN200024000PE", quantity := 75 }]

/-- One leg of two is live and the strategy is a draft, which a second call deploys again; a
multi-leg strategy is active although no leg is; and one whose second leg was not stored is placed
with the first alone. -/
theorem halfDeployed_unsound :
    ¬ UserStrategyRow.Sound clock (fun _ => "") { strategy := straddle } firstLegOnly ∧
      ((UserStrategyRow.deployStrategy clock (fun _ => "") { strategy := straddle, live := [0] }
        firstLegOnly).2.1.map Sent.leg = [0, 1]) ∧
      ¬ MultiLegRows.Sound "m1" straddleLegs (createStrategy straddleLegs {})
        { replies := fun _ => .ok { success := false } } ∧
      ¬ MultiLegRows.Sound "m1" straddleLegs
        (createStrategy straddleLegs { leg := fun i => decide (i = 0) })
        { replies := fun _ => .ok { success := true } } := by
  refine ⟨fun h => ?_, by decide, fun h => ?_, fun h => ?_⟩
  · have hcovered := h.covered
    revert hcovered
    decide
  · have hcovered := h.covered
    revert hcovered
    decide
  · rcases h.whole with hnone | hall
    · have hlength := congrArg List.length hnone
      revert hlength
      decide
    · have hlength := congrArg (Option.map List.length) hall
      revert hlength
      decide

end Straddle

/-- The attempts of every run are sound exactly when its calls are clean: those that deploy a new
user strategy, and those that place a multi-leg strategy after it was created. -/
theorem deployments_sound_iff (timeOf : String → Option ℕ) (floatRepr : ℚ → String) :
    (∀ (strategy : UserStrategy) (calls : List DeployCall),
      Along (fun w call => (UserStrategyRow.deployStrategy timeOf floatRepr w call).1)
          (UserStrategyRow.Sound timeOf floatRepr) { strategy } calls ↔
        Along (fun w call => (UserStrategyRow.deployStrategy timeOf floatRepr w call).1)
          (UserStrategyRow.Clean timeOf floatRepr) { strategy } calls) ∧
    ∀ (strategyId : String) (req : List LegDefinition) (io : CreateIo) (calls : List PlaceCall),
      Along (fun w call => (MultiLegRows.placeStrategy strategyId w call).1)
          (MultiLegRows.Sound strategyId req) (createStrategy req io) calls ↔
        Along (fun w call => (MultiLegRows.placeStrategy strategyId w call).1)
          (MultiLegRows.Clean strategyId req) (createStrategy req io) calls := by
  refine ⟨fun strategy calls => ?_, fun strategyId req io calls => ?_⟩
  · have hnew : UserStrategyRow.Tracked { strategy } :=
      ⟨by simp, fun i hi => absurd hi List.not_mem_nil⟩
    exact Along.congr (fun w call hw h => UserStrategyRow.tracked_step hw h)
      (fun w call hw => UserStrategyRow.sound_iff hw) hnew
  · exact Along.congr (fun w call hw h => MultiLegRows.tracked_step hw h)
      (fun w call hw => MultiLegRows.sound_iff hw) (MultiLegRows.tracked_createStrategy io)

end Trademetrix.Application
