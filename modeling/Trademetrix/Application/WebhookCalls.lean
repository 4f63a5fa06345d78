import Trademetrix.Application.Deployments
import Trademetrix.Engine.Gate

/-!
# The calls a webhook makes of the gate

A body that passes the checks is put to its recipients one after another, each
of whom makes at most one call. What a call finds in the orders table are the
rows that were there and those of the calls before it.
-/

/-!
## TradingView webhooks

`TradingViewService.handle_webhook` checks the signature of a body, reads an
order from it and hands it to the gate for the user it names or for every
recipient of the strategy it mirrors. An exception of one recipient becomes his
result. Of the gate this keeps the identity of an order and the duplicate check.
-/

namespace Trademetrix.Application

open Engine (NormalizedOrder OrderSide OrderType ProductType Exchange GateSettings)
open Execution (OrderResult)

/-- The fields of a decoded body. `malformed` says that one of them is of a type whose conversion
raises another error than a `ValueError`. -/
structure WebhookData where
  symbol : String := ""
  action : String := ""
  quantity : Option ℤ := some 0
  price : Option ℚ := some 0
  exchange : String := "NSE"
  orderType : String := "MARKET"
  product : String := "INTRADAY"
  strategyId : String := ""
  userId : String := ""
  reason : String := ""
  malformed : Bool := false
  deriving DecidableEq

/-- What `json.loads` makes of a body. -/
inductive Body
  | invalid
  | notObject
  | object (data : WebhookData)

/-- A `ValueError`, or an error of another class. -/
inductive WebhookFailure
  | value (message : String)
  | other (message : String)
  deriving DecidableEq

structure UserResult where
  userId : String
  success : Bool
  brokerOrderId : Option String := none
  message : String
  status : String
  deriving DecidableEq

inductive WebhookResult
  | noRecipients
  | many (results : List UserResult)
  | one (result : UserResult)
  deriving DecidableEq

section ResultText

def boolText (b : Bool) : String := if b then "True" else "False"

/-- `str` of the entry of a recipient. -/
def UserResult.text (r : UserResult) : String :=
  "\x7b'user_id': " ++ Text.reprText r.userId ++ ", 'success': " ++ boolText r.success ++
    (match r.brokerOrderId with
      | some id => ", 'broker_order_id': " ++ Text.reprText id
      | none => "") ++
    ", 'message': " ++ Text.reprText r.message ++ ", 'status': " ++ Text.reprText r.status ++ "\x7d"

/-- `str` of a result. -/
def WebhookResult.text : WebhookResult → String
  | noRecipients => "\x7b'results': [], 'message': 'No recipients found for this strategy'\x7d"
  | many results =>
    "\x7b'results': [" ++ ", ".intercalate (results.map UserResult.text) ++ "], 'count': " ++
      toString results.length ++ "\x7d"
  | one result => result.text

end ResultText

/-- What the gate finds for an order: whether the orders table is read, the broker's id in the row
of an earlier order, and for an order that is no duplicate what comes back, whether it is sent to
the broker and whether its row is stored. -/
structure GateAnswer where
  looks : Bool := true
  existing : String := ""
  result : Except String OrderResult
  sent : Bool
  recorded : Bool

structure RecipientEnv where
  scaled : Except String ℤ
  timeNs : ℕ := 0
  answer : GateAnswer

/-- What a webhook finds: the recipients of the strategy, and for each in turn. The table of the
assignments holds a user and strategy once. -/
structure WebhookEnv where
  recipients : Except String (List String)
  users : ℕ → RecipientEnv
  distinct : ∀ users, recipients = .ok users → users.Nodup

/-- A call of `execute_order`: whether it read the orders table, what it answered, and whether the
order was sent and its row stored. -/
structure GateCall where
  userId : String
  clientOrderId : String
  looked : Bool
  duplicate : Bool
  sent : Bool
  recorded : Bool
  deriving DecidableEq

def GateCall.key (c : GateCall) : String × String := (c.userId, c.clientOrderId)

abbrev OrderRows := List (String × String)

/-- The secret of the webhook; `hmac` is the hex digest under it, `loads` the JSON decoder. -/
structure WebhookSettings extends GateSettings where
  secret : String
  hmac : (key body : String) → String
  loads : String → Body

namespace TradingView

def sideOf (action : String) : OrderSide :=
  if action = "BUY" ∨ action = "LONG" then .buy else .sell

/-- The order of `execute_for_user`; `none` is a `ValueError` of an enumeration. -/
def orderOf (data : WebhookData) (price : ℚ) (scaled : ℤ) : Option NormalizedOrder := do
  let exchange ← ofValue Exchange.value [.nse, .bse, .nfo, .cds, .mcx] (Text.upper data.exchange)
  let orderType ← ofValue OrderType.value [.market, .limit, .sl, .slm] (Text.upper data.orderType)
  let product ← ofValue ProductType.value [.delivery, .intraday, .mis, .nrml] (Text.upper data.product)
  return {
    symbol := Text.upper data.symbol
    exchange
    side := sideOf (Text.upper data.action)
    orderType
    product
    quantity := scaled
    price
    strategyId := if data.strategyId = "" then none else some data.strategyId
    isPaper := false }

/-- `execute_order` up to its duplicate check. -/
def askGate (cfg : GateSettings) (rows : OrderRows) (call : Engine.Order) (answer : GateAnswer) :
    OrderRows × Except String OrderResult × GateCall :=
  let order := call.identified cfg
  let key := (call.userId, order.clientOrderId)
  if answer.looks ∧ key ∈ rows then
    (rows,
      .ok { success := true, brokerOrderId := answer.existing, message := "DUPLICATE_ORDER"
            status := "duplicate" },
      ⟨call.userId, order.clientOrderId, true, true, false, false⟩)
  else
    (if answer.recorded then rows ++ [key] else rows, answer.result,
      ⟨call.userId, order.clientOrderId, answer.looks, false, answer.sent, answer.recorded⟩)

def executeForUser (cfg : GateSettings) (rows : OrderRows) (data : WebhookData) (price : ℚ)
    (source userId : String) (env : RecipientEnv) : OrderRows × UserResult × List GateCall :=
  let failed (message : String) : UserResult := ⟨userId, false, none, message, "error"⟩
  match env.scaled with
  | .error e => (rows, failed e, [])
  | .ok scaled =>
    match orderOf data price scaled with
    | none => (rows, failed "invalid enumeration value", [])
    | some order =>
      let (rows, result, call) :=
        askGate cfg rows { userId, order, source, timeNs := env.timeNs } env.answer
      match result with
      | .error e => (rows, failed e, [call])
      | .ok r =>
        (rows, ⟨userId, r.success, some r.brokerOrderId, r.message, r.status⟩, [call])

/-- The loop over the recipients, from the `i`th on. -/
def executeForAll (cfg : GateSettings) (data : WebhookData) (price : ℚ) (users : ℕ → RecipientEnv) :
    OrderRows → ℕ → List String → OrderRows × List UserResult × List GateCall
  | rows, _, [] => (rows, [], [])
  | rows, i, userId :: rest =>
    let (rows, result, calls) := executeForUser cfg rows data price "mirror" userId (users i)
    let (rows, results, later) := executeForAll cfg data price users rows (i + 1) rest
    (rows, result :: results, calls ++ later)

/-- `handle_webhook` after the signature check: the rows, the calls of the gate, and the result. -/
def handleData (cfg : GateSettings) (rows : OrderRows) (body : Body) (env : WebhookEnv) :
    OrderRows × List GateCall × Except WebhookFailure WebhookResult :=
  match body with
  | .invalid => (rows, [], .error (.value "Invalid JSON body"))
  | .notObject => (rows, [], .error (.other "object has no attribute 'get'"))
  | .object data =>
    if data.malformed then (rows, [], .error (.other "wrong type"))
    else
      match data.quantity, data.price with
      | none, _ | _, none => (rows, [], .error (.value "could not convert"))
      | some quantity, some price =>
        if Text.upper data.symbol = "" ∨ Text.upper data.action = "" ∨ quantity ≤ 0 then
          (rows, [], .error (.value "symbol, action, and quantity are required"))
        else if data.strategyId ≠ "" ∧ data.userId = "" then
          match env.recipients with
          | .error e => (rows, [], .error (.other e))
          | .ok [] => (rows, [], .ok .noRecipients)
          | .ok recipients =>
            let (rows, results, calls) := executeForAll cfg data price env.users rows 0 recipients
            (rows, calls, .ok (.many results))
        else if data.userId = "" then
          (rows, [], .error (.value "user_id is required in webhook payload"))
        else
          let source := if data.strategyId ≠ "" then "mirror" else "manual"
          let (rows, result, calls) :=
            executeForUser cfg rows data price source data.userId (env.users 0)
          (rows, calls, .ok (.one result))

/-- `compare_digest` takes no text outside ASCII. -/
def verifySignature (cfg : WebhookSettings) (body signature : String) :
    Except WebhookFailure Bool :=
  if cfg.secret = "" then .ok true
  else if signature = "" then .ok false
  else if signature.toList.all (fun c => c.toNat < 128) then
    .ok (cfg.hmac cfg.secret body = signature)
  else .error (.other "comparing strings with non-ASCII characters is not supported")

def handleWebhook (cfg : WebhookSettings) (rows : OrderRows) (body signature : String)
    (env : WebhookEnv) : OrderRows × List GateCall × Except WebhookFailure WebhookResult :=
  match verifySignature cfg body signature with
  | .error e => (rows, [], .error e)
  | .ok false => (rows, [], .error (.value "Invalid signature"))
  | .ok true => handleData cfg.toGateSettings rows (cfg.loads body) env

end TradingView

end Trademetrix.Application

namespace Trademetrix.Application

open Engine (NormalizedOrder OrderSide OrderType ProductType Exchange GateSettings)

namespace WebhookData

def side (data : WebhookData) : OrderSide := TradingView.sideOf (Text.upper data.action)

def source (data : WebhookData) : String := if data.strategyId ≠ "" then "mirror" else "manual"

/-- The body passes the checks of `handle_webhook` and makes an order. -/
def Orders (data : WebhookData) : Prop :=
  data.malformed = false ∧ (∃ q ∈ data.quantity, 0 < q) ∧ data.price.isSome = true ∧
    Text.upper data.symbol ≠ "" ∧ Text.upper data.action ≠ "" ∧
    (data.strategyId ≠ "" ∨ data.userId ≠ "") ∧ (TradingView.orderOf data 0 0).isSome = true

end WebhookData

def WebhookEnv.recipientsOf (env : WebhookEnv) (data : WebhookData) : List (String × RecipientEnv) :=
  if data.userId ≠ "" then [(data.userId, env.users 0)]
  else match env.recipients with
    | .ok users => users.zipIdx.map fun u => (u.1, env.users u.2)
    | .error _ => []

def Reaches (data : WebhookData) (env : WebhookEnv) (userId : String) : Prop :=
  data.Orders ∧ ∃ r ∈ env.recipientsOf data, r.1 = userId ∧ r.2.scaled.isOk = true

def mirrorText (data : WebhookData) (userId : String) : String :=
  userId ++ ":" ++ data.strategyId ++ ":" ++ Text.upper data.symbol ++ ":" ++ data.side.value

def digest (cfg : GateSettings) (text : String) : String :=
  String.ofList ((cfg.sha256 text).toList.take 32)

def mirrorId (cfg : GateSettings) (data : WebhookData) (userId : String) : String :=
  digest cfg (mirrorText data userId)

theorem WebhookEnv.nodup_recipientsOf (env : WebhookEnv) (data : WebhookData) :
    ((env.recipientsOf data).map Prod.fst).Nodup := by
  rw [recipientsOf]
  split
  · exact List.nodup_singleton _
  · cases hr : env.recipients with
    | error e => exact List.nodup_nil
    | ok users =>
      simp only [List.map_map, Function.comp_def]
      rw [List.zipIdx_map_fst]
      exact env.distinct users hr

namespace TradingView

variable {cfg : GateSettings} {rows : OrderRows} {data : WebhookData} {price : ℚ} {scaled : ℤ}
  {userId : String} {c : GateCall}

theorem isSome_orderOf (price : ℚ) (scaled : ℤ) :
    (orderOf data price scaled).isSome = (orderOf data 0 0).isSome := by
  simp only [orderOf]
  cases ofValue Exchange.value [.nse, .bse, .nfo, .cds, .mcx] (Text.upper data.exchange) with
  | none => rfl
  | some exchange =>
    cases ofValue OrderType.value [.market, .limit, .sl, .slm] (Text.upper data.orderType) with
    | none => rfl
    | some orderType =>
      cases ofValue ProductType.value [.delivery, .intraday, .mis, .nrml] (Text.upper data.product)
        <;> rfl

theorem identified_orderOf (hm : data.strategyId ≠ "") {order : NormalizedOrder} {timeNs : ℕ}
    (h : orderOf data price scaled = some order) :
    (Engine.Order.identified cfg { userId, order, source := data.source, timeNs }).clientOrderId =
      mirrorId cfg data userId := by
  simp only [orderOf, Option.bind_eq_bind, Option.bind_eq_some_iff, pure, Option.some.injEq] at h
  obtain ⟨exchange, -, orderType, -, product, -, rfl⟩ := h
  simp [Engine.Order.identified, Engine.generateClientOrderId, mirrorId, digest, mirrorText, hm,
    WebhookData.side, WebhookData.source]

theorem askGate_call (cfg : GateSettings) (rows : OrderRows) (call : Engine.Order)
    (answer : GateAnswer) :
    (askGate cfg rows call answer).2.2.userId = call.userId ∧
      (askGate cfg rows call answer).2.2.clientOrderId = (call.identified cfg).clientOrderId := by
  rw [askGate]
  split <;> exact ⟨rfl, rfl⟩

theorem askGate_sent {call : Engine.Order} {answer : GateAnswer}
    (h : (askGate cfg rows call answer).2.2.sent = true) :
    answer.sent = true ∧
      (answer.looks = true → (call.userId, (call.identified cfg).clientOrderId) ∉ rows) := by
  rw [askGate] at h
  split at h
  next hfound => cases h
  next hfound => exact ⟨h, fun hlooks hmem => hfound ⟨hlooks, hmem⟩⟩

theorem rows_askGate (cfg : GateSettings) (rows : OrderRows) (call : Engine.Order)
    (answer : GateAnswer) : rows ⊆ (askGate cfg rows call answer).1 := by
  rw [askGate]
  split
  · exact List.Subset.refl rows
  · dsimp only
    split
    · exact List.subset_append_left rows _
    · exact List.Subset.refl rows

theorem executeForUser_cases (cfg : GateSettings) (rows : OrderRows) (data : WebhookData) (price : ℚ)
    (userId : String) (env : RecipientEnv) :
    (¬(env.scaled.isOk = true ∧ (orderOf data 0 0).isSome = true) ∧
        (executeForUser cfg rows data price data.source userId env).1 = rows ∧
        (executeForUser cfg rows data price data.source userId env).2.2 = []) ∨
      (env.scaled.isOk = true ∧ (orderOf data 0 0).isSome = true ∧
        ∃ call : Engine.Order, call.userId = userId ∧
          (data.strategyId ≠ "" → (call.identified cfg).clientOrderId = mirrorId cfg data userId) ∧
          (executeForUser cfg rows data price data.source userId env).1 =
            (askGate cfg rows call env.answer).1 ∧
          (executeForUser cfg rows data price data.source userId env).2.2 =
            [(askGate cfg rows call env.answer).2.2]) := by
  rw [executeForUser]
  cases env.scaled with
  | error e => exact .inl ⟨fun h => Bool.noConfusion h.1, rfl, rfl⟩
  | ok scaled =>
    rw [← isSome_orderOf price scaled]
    dsimp only
    cases horder : orderOf data price scaled with
    | none => exact .inl ⟨fun h => Bool.noConfusion h.2, rfl, rfl⟩
    | some order =>
      refine .inr ⟨rfl, rfl, { userId, order, source := data.source, timeNs := env.timeNs }, rfl,
        fun hm => identified_orderOf hm horder, ?_⟩
      dsimp only
      split <;> exact ⟨rfl, rfl⟩

def visit (cfg : GateSettings) (data : WebhookData) (price : ℚ) :
    OrderRows → List (String × RecipientEnv) → OrderRows × List GateCall
  | rows, [] => (rows, [])
  | rows, r :: rs =>
    let out := executeForUser cfg rows data price data.source r.1 r.2
    let later := visit cfg data price out.1 rs
    (later.1, out.2.2 ++ later.2)

theorem executeForAll_visit (hm : data.strategyId ≠ "") (rows : OrderRows)
    (users : ℕ → RecipientEnv) (i : ℕ) (recipients : List String) :
    (executeForAll cfg data price users rows i recipients).1 =
        (visit cfg data price rows ((recipients.zipIdx i).map fun u => (u.1, users u.2))).1 ∧
      (executeForAll cfg data price users rows i recipients).2.2 =
        (visit cfg data price rows ((recipients.zipIdx i).map fun u => (u.1, users u.2))).2 := by
  have hsource : data.source = "mirror" := if_pos hm
  induction recipients generalizing rows i with
  | nil => exact ⟨rfl, rfl⟩
  | cons u rest ih =>
    have hrest := ih (executeForUser cfg rows data price "mirror" u (users i)).1 (i + 1)
    simp only [executeForAll, List.zipIdx_cons, List.map_cons, visit, hsource]
    exact ⟨hrest.1, congrArg _ hrest.2⟩

theorem handleData_checked (cfg : GateSettings) (rows : OrderRows) {data : WebhookData}
    (env : WebhookEnv) {quantity : ℤ} {price : ℚ} (hmal : data.malformed = false)
    (hq : data.quantity = some quantity) (hp : data.price = some price)
    (hchecked : ¬(Text.upper data.symbol = "" ∨ Text.upper data.action = "" ∨ quantity ≤ 0))
    (hto : data.strategyId ≠ "" ∨ data.userId ≠ "") :
    (handleData cfg rows (.object data) env).1 =
        (visit cfg data price rows (env.recipientsOf data)).1 ∧
      (handleData cfg rows (.object data) env).2.1 =
        (visit cfg data price rows (env.recipientsOf data)).2 := by
  simp only [handleData, hmal, Bool.false_eq_true, if_false, hq, hp]
  rw [if_neg hchecked]
  by_cases hu : data.userId = ""
  · have hm : data.strategyId ≠ "" := hto.resolve_right (not_not_intro hu)
    simp only [hm, hu, ne_eq, not_false_iff, and_self, if_true, not_true_eq_false, if_false,
      WebhookEnv.recipientsOf]
    cases env.recipients with
    | error e => exact ⟨rfl, rfl⟩
    | ok recipients =>
      cases recipients with
      | nil => exact ⟨rfl, rfl⟩
      | cons u rest => exact executeForAll_visit hm rows env.users 0 (u :: rest)
  · simp only [hu, ne_eq, not_false_iff, and_false, if_true, if_false,
      WebhookEnv.recipientsOf, visit, List.append_nil]
    exact ⟨rfl, rfl⟩

theorem handleData_visit (cfg : GateSettings) (rows : OrderRows) (data : WebhookData)
    (env : WebhookEnv) :
    (∃ price, data.malformed = false ∧ (∃ q ∈ data.quantity, 0 < q) ∧ data.price = some price ∧
        Text.upper data.symbol ≠ "" ∧ Text.upper data.action ≠ "" ∧
        (data.strategyId ≠ "" ∨ data.userId ≠ "") ∧
        (handleData cfg rows (.object data) env).1 =
          (visit cfg data price rows (env.recipientsOf data)).1 ∧
        (handleData cfg rows (.object data) env).2.1 =
          (visit cfg data price rows (env.recipientsOf data)).2) ∨
      ¬data.Orders ∧ (handleData cfg rows (.object data) env).1 = rows ∧
        (handleData cfg rows (.object data) env).2.1 = [] := by
  cases hmal : data.malformed with
  | true =>
    refine .inr ⟨fun h => absurd (h.1.symm.trans hmal) (by decide), ?_⟩
    simp [handleData, hmal]
  | false =>
    cases hq : data.quantity with
    | none =>
      refine .inr ⟨fun h => by simp [WebhookData.Orders, hq] at h, ?_⟩
      simp [handleData, hmal, hq]
    | some quantity =>
      cases hp : data.price with
      | none =>
        refine .inr ⟨fun h => by simp [WebhookData.Orders, hp] at h, ?_⟩
        simp [handleData, hmal, hq, hp]
      | some price =>
        by_cases hchecked : Text.upper data.symbol = "" ∨ Text.upper data.action = "" ∨ quantity ≤ 0
        · refine .inr ⟨?_, by simp [handleData, hmal, hq, hp, hchecked]⟩
          rintro ⟨-, ⟨q, hq', hpos⟩, -, hsym, hact, -⟩
          rw [hq] at hq'
          cases hq'
          rcases hchecked with hbad | hbad | hbad
          · exact hsym hbad
          · exact hact hbad
          · omega
        · by_cases hto : data.strategyId ≠ "" ∨ data.userId ≠ ""
          · have hgood := hchecked
            rw [not_or, not_or, not_le] at hgood
            exact .inl ⟨price, rfl, ⟨quantity, rfl, hgood.2.2⟩, rfl, hgood.1, hgood.2.1, hto,
              handleData_checked cfg rows env hmal hq hp hchecked hto⟩
          · refine .inr ⟨fun h => hto h.2.2.2.2.2.1, ?_⟩
            rw [not_or, not_not, not_not] at hto
            simp only [handleData, hmal, Bool.false_eq_true, if_false, hq, hp, if_neg hchecked,
              hto.1, hto.2, ne_eq, not_true_eq_false, false_and, if_true]
            exact ⟨trivial, trivial⟩

section Visit

variable {rs : List (String × RecipientEnv)}

theorem mem_visit (hc : c ∈ (visit cfg data price rows rs).2) :
    (data.strategyId ≠ "" → c.clientOrderId = mirrorId cfg data c.userId) ∧
      (orderOf data 0 0).isSome = true ∧ ∃ r ∈ rs, r.1 = c.userId ∧ r.2.scaled.isOk = true := by
  induction rs generalizing rows with
  | nil => cases hc
  | cons r rs ih =>
    rcases List.mem_append.mp hc with hc | hc
    · rcases executeForUser_cases cfg rows data price r.1 r.2 with
        ⟨-, -, hnone⟩ | ⟨hscaled, horder, call, huser, hid, -, hone⟩
      · rw [hnone] at hc
        cases hc
      · rw [hone] at hc
        obtain rfl := List.mem_singleton.mp hc
        obtain ⟨hcall, hcallId⟩ := askGate_call cfg rows call r.2.answer
        rw [hcall, hcallId, huser]
        exact ⟨hid, horder, r, List.mem_cons_self, rfl, hscaled⟩
    · obtain ⟨hid, horder, r', hr', hrest⟩ := ih hc
      exact ⟨hid, horder, r', List.mem_cons_of_mem _ hr', hrest⟩

theorem exists_visit (horder : (orderOf data 0 0).isSome = true) {r : String × RecipientEnv}
    (hr : r ∈ rs) (hscaled : r.2.scaled.isOk = true) :
    ∃ c ∈ (visit cfg data price rows rs).2, c.userId = r.1 := by
  induction rs generalizing rows with
  | nil => cases hr
  | cons r' rs ih =>
    rcases List.mem_cons.mp hr with rfl | hr
    · rcases executeForUser_cases cfg rows data price r.1 r.2 with
        ⟨hnot, -, -⟩ | ⟨-, -, call, huser, -, -, hone⟩
      · exact absurd ⟨hscaled, horder⟩ hnot
      · refine ⟨(askGate cfg rows call r.2.answer).2.2, List.mem_append_left _ ?_,
          (askGate_call cfg rows call _).1.trans huser⟩
        rw [hone]
        exact List.mem_singleton_self _
    · obtain ⟨c, hc, huser⟩ := ih hr
      exact ⟨c, List.mem_append_right _ hc, huser⟩

theorem sublist_visit :
    ((visit cfg data price rows rs).2.map GateCall.userId).Sublist (rs.map Prod.fst) := by
  induction rs generalizing rows with
  | nil => exact List.Sublist.slnil
  | cons r rs ih =>
    rw [visit, List.map_append, List.map_cons]
    rcases executeForUser_cases cfg rows data price r.1 r.2 with
      ⟨-, -, hnone⟩ | ⟨-, -, call, huser, -, -, hone⟩
    · rw [hnone]
      exact ih.cons r.1
    · rw [hone, List.map_singleton, (askGate_call cfg rows call _).1, huser]
      exact ih.cons_cons r.1

theorem sent_visit (hc : c ∈ (visit cfg data price rows rs).2) (hsent : c.sent = true) :
    ∃ r ∈ rs, r.1 = c.userId ∧ r.2.scaled.isOk = true ∧ r.2.answer.sent = true ∧
      (data.strategyId ≠ "" → r.2.answer.looks = true → (r.1, mirrorId cfg data r.1) ∉ rows) := by
  induction rs generalizing rows with
  | nil => cases hc
  | cons r rs ih =>
    rw [visit] at hc
    rcases executeForUser_cases cfg rows data price r.1 r.2 with
      ⟨-, hrows, hnone⟩ | ⟨hscaled, -, call, huser, hid, hrows, hone⟩
    · rw [hrows, hnone, List.nil_append] at hc
      obtain ⟨r', hr', hrest⟩ := ih hc
      exact ⟨r', List.mem_cons_of_mem _ hr', hrest⟩
    · rw [hrows, hone] at hc
      rcases List.mem_cons.mp hc with rfl | hc
      · obtain ⟨hgate, hfind⟩ := askGate_sent hsent
        refine ⟨r, List.mem_cons_self, ?_, hscaled, hgate, fun hm hlooks => ?_⟩
        · rw [(askGate_call cfg rows call _).1, huser]
        · rw [← hid hm, ← huser]
          exact hfind hlooks
      · obtain ⟨r', hr', hname, hok, hgate, hfind⟩ := ih hc
        refine ⟨r', List.mem_cons_of_mem _ hr', hname, hok, hgate, fun hm hlooks hmem => ?_⟩
        exact hfind hm hlooks (rows_askGate cfg rows call _ hmem)

end Visit

section HandleWebhook

variable {ws : WebhookSettings} {body signature : String} {env : WebhookEnv}

theorem handleWebhook_cases (ws : WebhookSettings) (rows : OrderRows) (body signature : String)
    (env : WebhookEnv) :
    (handleWebhook ws rows body signature env).2.1 = [] ∨
      ∃ data price, ws.loads body = .object data ∧
        (handleWebhook ws rows body signature env).2.1 =
          (visit ws.toGateSettings data price rows (env.recipientsOf data)).2 := by
  rw [handleWebhook]
  split
  · exact .inl rfl
  · exact .inl rfl
  · cases hbody : ws.loads body with
    | invalid => exact .inl rfl
    | notObject => exact .inl rfl
    | object data =>
      rcases handleData_visit ws.toGateSettings rows data env with
        ⟨price, -, -, -, -, -, -, -, hcalls⟩ | ⟨-, -, hcalls⟩
      · exact .inr ⟨data, price, rfl, hcalls⟩
      · exact .inl hcalls

theorem nodup_handleWebhook (ws : WebhookSettings) (rows : OrderRows) (body signature : String)
    (env : WebhookEnv) :
    ((handleWebhook ws rows body signature env).2.1.map GateCall.userId).Nodup := by
  rcases handleWebhook_cases ws rows body signature env with hcalls | ⟨data, price, -, hcalls⟩
  · rw [hcalls]
    exact List.nodup_nil
  · rw [hcalls]
    exact (env.nodup_recipientsOf data).sublist sublist_visit

theorem sent_handleWebhook (hc : c ∈ (handleWebhook ws rows body signature env).2.1)
    (hsent : c.sent = true) :
    ∃ data, ws.loads body = .object data ∧ ∃ r ∈ env.recipientsOf data, r.1 = c.userId ∧
      r.2.scaled.isOk = true ∧ r.2.answer.sent = true ∧
      (data.strategyId ≠ "" → r.2.answer.looks = true →
        (r.1, mirrorId ws.toGateSettings data r.1) ∉ rows) := by
  rcases handleWebhook_cases ws rows body signature env with hcalls | ⟨data, price, hbody, hcalls⟩
  · rw [hcalls] at hc
    cases hc
  · rw [hcalls] at hc
    exact ⟨data, hbody, sent_visit hc hsent⟩

end HandleWebhook

end TradingView

end Trademetrix.Application
