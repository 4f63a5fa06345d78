import Trademetrix.Oms.Models

/-!
# Deciding what an unanswered order's state is

The two lookups of the reconciler, from what the broker answered to the
candidates they report, and the decision over both. A lookup that failed is told
apart from one that found nothing by the words of its reason.
-/

namespace Trademetrix.Oms

inductive ReconcileVerdict
  | accepted | rejected | notFound | ambiguous | unknown
  deriving DecidableEq, Repr

inductive Scalar
  | none
  | bool (b : Bool)
  | int (n : ℤ)
  | float (q : ℚ)
  | str (s : String)
  deriving DecidableEq

namespace Scalar

def truthy : Scalar → Bool
  | .none => false
  | .bool b => b
  | .int n => n ≠ 0
  | .float q => q ≠ 0
  | .str s => s ≠ ""

/-- `str(value)`; a float prints as `%g` prints it. -/
def text : Scalar → String
  | .none => "None"
  | .bool b => if b then "True" else "False"
  | .int n => toString n
  | .float q => Text.formatG q
  | .str s => s

def norm : Scalar → String
  | .none => ""
  | .bool b => if b then "true" else "false"
  | .int n => toString n
  | .float q => Text.formatG q
  | .str s => Text.strip s

end Scalar

abbrev Fields := List (String × Scalar)

namespace Fields

def get? (d : Fields) (k : String) : Option Scalar := (d.find? fun p => p.1 = k).map Prod.snd

def get (d : Fields) (k : String) : Scalar := (d.get? k).getD .none

end Fields

/-- A JSON body: `null`, an object, a list of which only the objects matter, or
any other value, empty or not. -/
inductive Body
  | null
  | object (d : Fields)
  | list (items : List (Option Fields))
  | scalar (v : Scalar)

inductive HttpReply
  | failed (text : String)
  | notFound
  | body (b : Body)

structure BrokerOrderMatch where
  brokerOrderId : String
  correlationId : String := ""
  status : String := ""
  matchedBy : String := ""
  attributes : Fields := []

def terminalStatuses : List String := ["REJECTED", "CANCELLED", "EXPIRED"]

def BrokerOrderMatch.isTerminal (m : BrokerOrderMatch) : Bool :=
  Text.upper m.status ∈ terminalStatuses

structure ReconcileOutcome where
  verdict : ReconcileVerdict
  reason : String
  found : Option BrokerOrderMatch := none
  candidates : List BrokerOrderMatch := []
  retryEligible : Bool := false

def identityAttributes : List String :=
  ["securityId", "exchangeSegment", "transactionType", "quantity", "orderType", "productType",
    "drvExpiryDate", "drvStrikePrice", "drvOptionType"]

def attributesMatch (brokerOrder expected : Fields) : Bool :=
  identityAttributes.all fun key =>
    match expected.get? key with
    | none | some .none | some (.str "") => true
    | some v => (brokerOrder.get key).norm = v.norm

/-- `_within_window`: a candidate without a readable time is kept. `fromisoformat`
reads a text as microseconds since the epoch. -/
def withinWindow (fromisoformat : String → Option ℤ) (item : Fields) (since : Time) : Bool :=
  let first := item.get "exchangeTime"
  let second := item.get "createTime"
  let raw := if first.truthy then first else if second.truthy then second else item.get "orderTime"
  let epoch (q : ℚ) : Option ℤ :=
    if -62135596800 ≤ q ∧ q < 253402300800 then some (Text.roundHalfEven (q * 1000000)) else none
  let stamp : Option ℤ := match raw with
    | .none => none
    | .bool b => if b then epoch 1 else none
    | .int n => epoch n
    | .float q => epoch q
    | .str s => fromisoformat s
  if raw.truthy then
    match stamp with
    | none => true
    | some t => (since : ℤ) - seconds 5 ≤ t
  else true

/-- `lookup_by_correlation` of `_build_reconciler`: 404 reads as an empty list. -/
def lookupByCorrelation : HttpReply → Except String Body
  | .failed text => .error text
  | .notFound => .ok (.list [])
  | .body b => .ok b

/-- `list_orders` of `_build_reconciler`: anything but a list reads as empty. -/
def listOrders : HttpReply → Except String Body
  | .failed text => .error text
  | .notFound => .error "HTTPStatusError: 404"
  | .body (.list items) => .ok (.list items)
  | .body _ => .ok (.list [])

def asMatch (matchedBy correlationId : String) (item : Fields) : BrokerOrderMatch where
  brokerOrderId := (item.get "orderId").text
  correlationId :=
    let c := item.get "correlationId"
    if c.truthy then c.text else correlationId
  status := match item.get? "orderStatus" with
    | none => ""
    | some v => v.text
  matchedBy := matchedBy
  attributes := item

/-- `_by_correlation`, given what the lookup answered. -/
def byCorrelation (correlationId : String) (reply : Except String Body) :
    List BrokerOrderMatch × String :=
  if correlationId = "" then ([], "correlation lookup unavailable")
  else match reply with
    | .error text => ([], "correlation lookup failed: " ++ text)
    | .ok .null | .ok (.object []) | .ok (.list []) | .ok (.scalar (.str "")) =>
      ([], "correlation id not found")
    | .ok (.object d) =>
      (if (d.get "orderId").truthy then [asMatch "correlation_id" correlationId d] else [], "")
    | .ok (.list items) =>
      (items.filterMap fun item => match item with
        | some d =>
          if (d.get "orderId").truthy then some (asMatch "correlation_id" correlationId d) else none
        | none => none, "")
    | .ok (.scalar _) => ([], "")

/-- `_by_attributes`, given what the listing answered. -/
def byAttributes (fromisoformat : String → Option ℤ) (expected : Fields) (since : Option Time)
    (reply : Except String Body) : List BrokerOrderMatch × String :=
  match reply with
  | .error text => ([], "order list failed: " ++ text)
  | .ok (.list items) =>
    (items.filterMap fun item => match item with
      | some d =>
        if (d.get "orderId").truthy && (since.all fun t => withinWindow fromisoformat d t) &&
            attributesMatch d expected then
          some (asMatch "attributes" "" d)
        else none
      | none => none, "")
  | .ok _ => ([], "order list returned an unexpected shape")

/-- Whether a reason says that a lookup failed rather than found nothing. -/
def isFailure (why : String) : Bool :=
  let lowered := Text.lower why
  Text.contains lowered "unavailable" || Text.contains lowered "failed" ||
    Text.contains lowered "unexpected shape"

/-- What `reconcile` is called with. -/
structure ReconcileArgs where
  correlationId : String
  expectedAttributes : Fields
  sentAt : Option Time
  brokerOrderId : String := ""
  notFoundObservations : ℕ := 0

/-- `OrderReconciler.not_found_observations` and `grace`. -/
structure Observation where
  needed : ℕ := 3
  grace : Time := seconds 45

def alreadyAnswered (args : ReconcileArgs) : ReconcileOutcome where
  verdict := .accepted
  reason := "the broker already returned an order id"
  found := some { brokerOrderId := args.brokerOrderId, correlationId := args.correlationId }

/-- The decision after the correlation lookup; `none` goes on to the listing. -/
def afterCorrelation (found : List BrokerOrderMatch) (why : String) : Option ReconcileOutcome :=
  if isFailure why then some { verdict := .unknown, reason := why }
  else match found with
    | [] => none
    | [m] => some
      { verdict := if m.isTerminal then .rejected else .accepted
        found := some m
        candidates := [m]
        reason := "correlation id matched a broker order with status " ++ Text.reprText m.status }
    | ms => some
      { verdict := .ambiguous
        candidates := ms
        reason := s!"correlation id matched {ms.length} broker orders" }

/-- Whether the grace window after the send is still open; without a send time it
always is. -/
def graceLeft (obs : Observation) (sentAt : Option Time) (now : Time) : Bool :=
  match sentAt with
  | none => true
  | some t => (now : ℤ) - t < obs.grace

def afterListing (obs : Observation) (args : ReconcileArgs) (now : Time) (why : String)
    (found : List BrokerOrderMatch) (attrWhy : String) : ReconcileOutcome :=
  if isFailure attrWhy then { verdict := .unknown, reason := attrWhy }
  else match found with
    | [m] =>
      { verdict := if m.isTerminal then .rejected else .accepted
        found := some m
        candidates := [m]
        reason := "matched exactly one broker order on contract identity (status " ++
          Text.reprText m.status ++ ")" }
    | m :: m' :: ms =>
      { verdict := .ambiguous
        candidates := m :: m' :: ms
        reason := toString (m :: m' :: ms).length ++
          " broker orders match this contract identity; refusing to choose one" }
    | [] =>
      let observed := args.notFoundObservations + 1
      if max 1 obs.needed ≤ observed ∧ graceLeft obs args.sentAt now = false then
        { verdict := .notFound
          reason := s!"the broker reported no matching order after {observed} observation(s) " ++
            s!"and the {obs.grace / 1000000}s grace window"
          retryEligible := true }
      else
        { verdict := .unknown
          reason := "no broker order found yet (observation " ++ toString observed ++ ", grace " ++
            (if graceLeft obs args.sentAt now then "active" else "elapsed") ++ "): " ++
            (if why ≠ "" then why else attrWhy) }

structure Lookups where
  correlation : Option HttpReply := none
  listing : Option HttpReply := none

/-- `reconcile` on the replies it got: the listing is asked for only when the
correlation lookup decides nothing. -/
def reconcile (fromisoformat : String → Option ℤ) (obs : Observation) (args : ReconcileArgs)
    (lookups : Lookups) (now : Time) : ReconcileOutcome :=
  if args.brokerOrderId ≠ "" then alreadyAnswered args
  else
    let reply := (lookups.correlation.map lookupByCorrelation).getD (.error "")
    let byId := byCorrelation args.correlationId reply
    match afterCorrelation byId.1 byId.2 with
    | some outcome => outcome
    | none =>
      let listing := (lookups.listing.map listOrders).getD (.error "")
      let found := byAttributes fromisoformat args.expectedAttributes args.sentAt listing
      afterListing obs args now byId.2 found.1 found.2

def foundOrders (fromisoformat : String → Option ℤ) (args : ReconcileArgs) (lookups : Lookups) :
    List BrokerOrderMatch :=
  let byId := byCorrelation args.correlationId
    ((lookups.correlation.map lookupByCorrelation).getD (.error ""))
  if isFailure byId.2 then []
  else match byId.1 with
    | [] => (byAttributes fromisoformat args.expectedAttributes args.sentAt
        ((lookups.listing.map listOrders).getD (.error ""))).1
    | ms => ms

section Failure

theorem isFailure_append {why : String} (h : isFailure why = true) (rest : String) :
    isFailure (why ++ rest) = true := by
  simp only [isFailure, Bool.or_eq_true, Text.lower_append] at h ⊢
  rcases h with (h | h) | h
  · exact .inl (.inl (Text.contains_append_left h))
  · exact .inl (.inr (Text.contains_append_left h))
  · exact .inr (Text.contains_append_left h)

theorem isFailure_correlation (text : String) :
    isFailure ("correlation lookup failed: " ++ text) = true :=
  isFailure_append (by decide) text

theorem isFailure_listing (text : String) : isFailure ("order list failed: " ++ text) = true :=
  isFailure_append (by decide) text

theorem isFailure_empty : isFailure "" = false := by decide

theorem isFailure_byCorrelation (cid : String) (reply : Except String Body) :
    isFailure (byCorrelation cid reply).2 = true ↔ cid = "" ∨ ∃ text, reply = .error text := by
  have hnone : isFailure "correlation id not found" = false := by decide
  unfold byCorrelation
  split
  · next h => simpa [h] using (by decide : isFailure "correlation lookup unavailable" = true)
  · next h =>
    split <;> simp_all [isFailure_correlation, isFailure_empty]

theorem isFailure_byAttributes (iso : String → Option ℤ) (expected : Fields)
    (since : Option Time) (reply : Except String Body) :
    isFailure (byAttributes iso expected since reply).2 = true ↔
      ∀ items, reply ≠ .ok (.list items) := by
  have hshape : isFailure "order list returned an unexpected shape" = true := by decide
  unfold byAttributes
  split <;> simp_all [isFailure_listing, isFailure_empty]

theorem byAttributes_failure (iso : String → Option ℤ) (expected : Fields)
    (since : Option Time) (reply : Except String Body)
    (h : isFailure (byAttributes iso expected since reply).2 = true) :
    (byAttributes iso expected since reply).1 = [] := by
  have hno := (isFailure_byAttributes iso expected since reply).1 h
  unfold byAttributes
  split
  · rfl
  · next items => exact absurd rfl (hno items)
  · rfl

end Failure

section Verdict

variable {iso : String → Option ℤ} {obs : Observation} {args : ReconcileArgs} {lookups : Lookups}
  {now : Time}

theorem reconcile_induction {P : ReconcileOutcome → Prop} (hknown : P (alreadyAnswered args))
    (hid : ∀ found why out, afterCorrelation found why = some out → P out)
    (hlist : ∀ why found attrWhy, P (afterListing obs args now why found attrWhy)) :
    P (reconcile iso obs args lookups now) := by
  unfold reconcile
  split
  · exact hknown
  · simp only
    split
    · next out hout => exact hid _ _ out hout
    · exact hlist _ _ _

theorem reconcile_accepted (h : (reconcile iso obs args lookups now).verdict = .accepted) :
    (reconcile iso obs args lookups now).found.isSome = true := by
  revert h
  refine reconcile_induction (P := fun out => out.verdict = .accepted → out.found.isSome = true)
    (fun _ => rfl) (fun found why out hout => ?_) fun why found attrWhy => ?_
  · unfold afterCorrelation at hout
    split at hout
    · cases hout
      nofun
    · split at hout <;> cases hout
      · exact fun _ => rfl
      · nofun
  · unfold afterListing
    split
    · nofun
    · split
      · exact fun _ => rfl
      · nofun
      · simp only
        split <;> nofun

theorem reconcile_notFound (h : (reconcile iso obs args lookups now).verdict = .notFound) :
    max 1 obs.needed ≤ args.notFoundObservations + 1 ∧
      ∃ t, args.sentAt = some t ∧ t + obs.grace ≤ now := by
  revert h
  refine reconcile_induction (P := fun out => out.verdict = .notFound →
    max 1 obs.needed ≤ args.notFoundObservations + 1 ∧
      ∃ t, args.sentAt = some t ∧ t + obs.grace ≤ now)
    nofun (fun found why out hout => ?_) fun why found attrWhy => ?_
  · unfold afterCorrelation at hout
    split at hout
    · cases hout
      nofun
    · split at hout <;> cases hout
      · simp only
        split <;> nofun
      · nofun
  · unfold afterListing
    split
    · nofun
    · split
      · simp only
        split <;> nofun
      · nofun
      · simp only
        split
        · next hdone =>
          obtain ⟨hobs, hgrace⟩ := hdone
          intro _
          cases hsent : args.sentAt with
          | none => simp [hsent, graceLeft] at hgrace
          | some t =>
            simp only [hsent, graceLeft, decide_eq_false_iff_not] at hgrace
            have hle : (t : ℤ) + obs.grace ≤ now := by omega
            exact ⟨hobs, t, rfl, by exact_mod_cast hle⟩
        · nofun

def verdictsOf : List BrokerOrderMatch → List ReconcileVerdict
  | [] => [.unknown, .notFound]
  | [_] => [.accepted, .rejected]
  | _ => [.ambiguous]

theorem afterListing_verdict {why attrWhy : String} {found : List BrokerOrderMatch}
    (h : isFailure attrWhy = true → found = []) :
    (afterListing obs args now why found attrWhy).verdict ∈ verdictsOf found := by
  unfold afterListing
  split
  · next hf => simp [h hf, verdictsOf]
  · split
    · simp only [verdictsOf]
      split <;> simp
    · simp [verdictsOf]
    · simp only [verdictsOf]
      split <;> simp

theorem afterCorrelation_verdict {found : List BrokerOrderMatch} {why : String}
    {out : ReconcileOutcome} (h : afterCorrelation found why = some out) :
    out.verdict ∈ verdictsOf (if isFailure why then [] else found) := by
  unfold afterCorrelation at h
  split at h
  · next hf =>
    cases h
    simp [hf, verdictsOf]
  · next hf =>
    rw [if_neg hf]
    split at h <;> cases h
    · simp only [verdictsOf]
      split <;> simp
    · next hnil hone =>
      match found with
      | [] => exact absurd rfl hnil
      | [m] => exact absurd rfl (hone m)
      | _ :: _ :: _ => simp [verdictsOf]

theorem afterCorrelation_none {found : List BrokerOrderMatch} {why : String}
    (h : afterCorrelation found why = none) : isFailure why = false ∧ found = [] := by
  unfold afterCorrelation at h
  split at h
  · cases h
  · next hf =>
    split at h
    · exact ⟨by simpa using hf, rfl⟩
    · cases h
    · cases h

theorem reconcile_verdict (iso : String → Option ℤ) (obs : Observation) (lookups : Lookups)
    (now : Time) (hid : args.brokerOrderId = "") :
    (reconcile iso obs args lookups now).verdict ∈ verdictsOf (foundOrders iso args lookups) := by
  unfold reconcile foundOrders
  rw [if_neg (not_not_intro hid)]
  dsimp only
  have hfail := byAttributes_failure iso args.expectedAttributes args.sentAt
    ((lookups.listing.map listOrders).getD (.error ""))
  generalize byAttributes iso args.expectedAttributes args.sentAt _ = attrs at hfail ⊢
  generalize byCorrelation args.correlationId _ = byId
  obtain ⟨found, why⟩ := byId
  simp only
  cases hafter : afterCorrelation found why with
  | some out =>
    have hv := afterCorrelation_verdict hafter
    by_cases hf : isFailure why = true
    · simpa only [if_pos hf] using hv
    · simp only [if_neg hf] at hv ⊢
      cases found with
      | nil =>
        unfold afterCorrelation at hafter
        rw [if_neg hf] at hafter
        cases hafter
      | cons m ms => exact hv
  | none =>
    obtain ⟨hf, rfl⟩ := afterCorrelation_none hafter
    simp only [hf]
    exact afterListing_verdict hfail

theorem reconcile_open
    (h : (reconcile iso obs args lookups now).verdict = .unknown ∨
      (reconcile iso obs args lookups now).verdict = .notFound) :
    args.brokerOrderId = "" ∧ foundOrders iso args lookups = [] := by
  by_cases hid : args.brokerOrderId = ""
  · have hv := reconcile_verdict iso obs lookups now hid
    refine ⟨hid, ?_⟩
    match hf : foundOrders iso args lookups with
    | [] => rfl
    | [_] => rcases h with h | h <;> simp [hf, h, verdictsOf] at hv
    | _ :: _ :: _ => rcases h with h | h <;> simp [hf, h, verdictsOf] at hv
  · simp [reconcile, hid, alreadyAnswered] at h

theorem reconcile_ambiguous (h : (reconcile iso obs args lookups now).verdict = .ambiguous) :
    1 < (foundOrders iso args lookups).length := by
  by_cases hid : args.brokerOrderId = ""
  · have hv := reconcile_verdict iso obs lookups now hid
    match hf : foundOrders iso args lookups with
    | [] => simp [hf, h, verdictsOf] at hv
    | [_] => simp [hf, h, verdictsOf] at hv
    | _ :: _ :: rest => simp
  · simp [reconcile, hid, alreadyAnswered] at h

end Verdict

end Trademetrix.Oms
