import Trademetrix.Oms.Reconciliation

/-!
# The reconciler's decision table

What each answer of the two lookups decides, for whatever lookups the reconciler was
given: none, one that raises, or one that answers with any body.
-/

namespace Trademetrix.Oms

abbrev Answer := Option (Except String Body)

namespace OrderReconciler

def byCorrelation (correlationId : String) : Answer → List BrokerOrderMatch × String
  | none => ([], "correlation lookup unavailable")
  | some reply => Oms.byCorrelation correlationId reply

def byAttributes (fromisoformat : String → Option ℤ) (expected : Fields) (since : Option Time) :
    Answer → List BrokerOrderMatch × String
  | none => ([], "order list unavailable")
  | some reply => Oms.byAttributes fromisoformat expected since reply

def reconcile (fromisoformat : String → Option ℤ) (obs : Observation) (args : ReconcileArgs)
    (lookup list : Answer) (now : Time) : ReconcileOutcome :=
  if args.brokerOrderId ≠ "" then alreadyAnswered args
  else
    let byId := byCorrelation args.correlationId lookup
    match afterCorrelation byId.1 byId.2 with
    | some outcome => outcome
    | none =>
      let found := byAttributes fromisoformat args.expectedAttributes args.sentAt list
      afterListing obs args now byId.2 found.1 found.2

end OrderReconciler

def Body.objects : Body → List Fields
  | .object d => [d]
  | .list items => items.filterMap id
  | _ => []

def Body.orders (b : Body) : List Fields := b.objects.filter fun d => (d.get "orderId").truthy

section Spec

variable (iso : String → Option ℤ) (args : ReconcileArgs) (lookup list : Answer)

/-- The listed order may be the one that was sent: its time, if it can be read, is in the
window, and it has every attribute that is known. -/
def Admissible (d : Fields) : Prop :=
  (args.sentAt.all fun t => withinWindow iso d t) = true ∧
    attributesMatch d args.expectedAttributes = true

instance : DecidablePred (Admissible iso args) := fun _ => inferInstanceAs (Decidable (_ ∧ _))

def LookupFailed : Prop :=
  args.correlationId = "" ∨ lookup = none ∨ ∃ text, lookup = some (.error text)

def ListFailed : Prop := ∀ items, list ≠ some (.ok (.list items))

def namedOrders : List Fields :=
  match lookup with
  | some (.ok body) => body.orders
  | _ => []

def likelyOrders : List Fields :=
  match list with
  | some (.ok (.list items)) => (Body.list items).orders.filter fun d => Admissible iso args d
  | _ => []

def Settles (m : BrokerOrderMatch) (out : ReconcileOutcome) : Prop :=
  out.found = some m ∧ out.candidates = [m] ∧
    out.verdict = if m.isTerminal then .rejected else .accepted

/-- One broker order decides: the one whose id is known, the one the lookup by correlation
id names, or the one listed order that may be ours when it names none. -/
inductive SettledBy (out : ReconcileOutcome) : Prop
  | known (hid : args.brokerOrderId ≠ "") (hout : out = alreadyAnswered args)
  | named (d : Fields) (hd : namedOrders lookup = [d])
      (hout : Settles (asMatch "correlation_id" args.correlationId d) out)
  | listed (d : Fields) (hnone : namedOrders lookup = []) (hd : likelyOrders iso args list = [d])
      (hout : Settles (asMatch "attributes" "" d) out)

/-- The table: what may settle an order, what is left to a human, what makes a retry
eligible and what a failed lookup leaves. -/
structure Decides (out : ReconcileOutcome) : Prop where
  settled : out.verdict = .accepted ∨ out.verdict = .rejected → SettledBy iso args lookup list out
  several : 1 < out.candidates.length → out.verdict = .ambiguous ∧ out.found = none
  ambiguous : args.brokerOrderId = "" → ¬ LookupFailed args lookup →
    1 < (namedOrders lookup).length ∨
      namedOrders lookup = [] ∧ 1 < (likelyOrders iso args list).length →
        out.verdict = .ambiguous ∧ out.found = none
  eligible : out.retryEligible = true → out.verdict = .notFound
  failed : args.brokerOrderId = "" →
    LookupFailed args lookup ∨ namedOrders lookup = [] ∧ ListFailed list →
      out.verdict = .unknown ∧ out.found = none

end Spec

section Table

variable {iso : String → Option ℤ} {obs : Observation} {args : ReconcileArgs}
  {lookup list : Answer} {now : Time}

theorem filterMap_matches (p : Fields → Bool) (f : Fields → BrokerOrderMatch)
    (items : List (Option Fields)) :
    (items.filterMap fun item => match item with
      | some d => if p d then some (f d) else none
      | none => none) = ((items.filterMap id).filter p).map f := by
  induction items with
  | nil => rfl
  | cons item items ih =>
    cases item with
    | none => simpa using ih
    | some d => cases hd : p d <;> simp [hd, ih]

variable (args lookup) in
theorem byCorrelation_spec :
    (LookupFailed args lookup →
      isFailure (OrderReconciler.byCorrelation args.correlationId lookup).2 = true) ∧
    (¬ LookupFailed args lookup →
      isFailure (OrderReconciler.byCorrelation args.correlationId lookup).2 = false ∧
        (OrderReconciler.byCorrelation args.correlationId lookup).1 =
          (namedOrders lookup).map (asMatch "correlation_id" args.correlationId)) := by
  unfold LookupFailed
  cases lookup with
  | none =>
    refine ⟨fun _ => ?_, fun h => absurd (.inr (.inl rfl)) h⟩
    exact (by decide : isFailure "correlation lookup unavailable" = true)
  | some reply =>
    have hiff := isFailure_byCorrelation args.correlationId reply
    refine ⟨fun h => hiff.mpr ?_, fun h => ⟨?_, ?_⟩⟩
    · simpa using h
    · exact Bool.eq_false_iff.mpr fun hf => h (by simpa using hiff.mp hf)
    · have hcid : args.correlationId ≠ "" := fun hc => h (.inl hc)
      unfold OrderReconciler.byCorrelation Oms.byCorrelation namedOrders Body.orders
      simp only [if_neg hcid]
      cases reply with
      | error text => exact absurd (.inr (.inr ⟨text, rfl⟩)) h
      | ok body =>
        cases body with
        | null => rfl
        | object d =>
          cases d with
          | nil => rfl
          | cons p d =>
            cases hd : (Fields.get (p :: d) "orderId").truthy <;>
              simp [Body.objects, hd]
        | list items =>
          cases items with
          | nil => rfl
          | cons item items => exact filterMap_matches _ _ _
        | scalar v =>
          split <;> simp_all [Body.objects]

theorem decide_admissible (d : Fields) : decide (Admissible iso args d) =
    ((args.sentAt.all fun t => withinWindow iso d t) &&
      attributesMatch d args.expectedAttributes) := by
  rw [Bool.eq_iff_iff, decide_eq_true_iff, Bool.and_eq_true]
  rfl

variable (iso args list) in
theorem byAttributes_spec :
    (ListFailed list → isFailure (OrderReconciler.byAttributes iso args.expectedAttributes
      args.sentAt list).2 = true) ∧
    (¬ ListFailed list →
      isFailure (OrderReconciler.byAttributes iso args.expectedAttributes args.sentAt list).2 =
        false ∧
        (OrderReconciler.byAttributes iso args.expectedAttributes args.sentAt list).1 =
          (likelyOrders iso args list).map (asMatch "attributes" "")) := by
  unfold ListFailed
  cases list with
  | none =>
    refine ⟨fun _ => ?_, fun h => absurd (fun _ => by simp) h⟩
    exact (by decide : isFailure "order list unavailable" = true)
  | some reply =>
    have hiff := isFailure_byAttributes iso args.expectedAttributes args.sentAt reply
    refine ⟨fun h => hiff.mpr fun items he => h items (congrArg some he), fun h => ?_⟩
    obtain ⟨items, he⟩ := not_forall.1 h
    have hreply : reply = .ok (.list items) := by simpa using he
    subst hreply
    refine ⟨Bool.eq_false_iff.mpr fun hf => hiff.mp hf items rfl, ?_⟩
    refine (filterMap_matches _ _ _).trans (congrArg _ ?_)
    simp only [likelyOrders, Body.orders, List.filter_filter]
    refine List.filter_congr fun d _ => ?_
    rw [decide_admissible, Bool.and_assoc, Bool.and_comm]

theorem decides_named {out : ReconcileOutcome} {why : String}
    (hok : ¬ LookupFailed args lookup) (hwhy : isFailure why = false)
    (h : afterCorrelation ((namedOrders lookup).map (asMatch "correlation_id" args.correlationId))
      why = some out) : Decides iso args lookup list out := by
  unfold afterCorrelation at h
  rw [if_neg (by simp [hwhy])] at h
  rcases hn : namedOrders lookup with _ | ⟨d, _ | ⟨d', rest⟩⟩
  · simp [hn] at h
  · rw [hn] at h
    cases h
    exact {
      settled := fun _ => .named d hn ⟨rfl, rfl, rfl⟩
      several := fun hc => by simp at hc
      ambiguous := fun _ _ hmany => by simp [hn] at hmany
      eligible := fun he => by simp at he
      failed := fun _ hf => by simp [hok, hn] at hf }
  · rw [hn] at h
    cases h
    exact {
      settled := fun hv => by simp at hv
      several := fun _ => ⟨rfl, rfl⟩
      ambiguous := fun _ _ _ => ⟨rfl, rfl⟩
      eligible := fun he => by simp at he
      failed := fun _ hf => by simp [hok, hn] at hf }

theorem decides_listed {why attrWhy : String} (hnone : namedOrders lookup = [])
    (hlist : ¬ ListFailed list) (hwhy : isFailure attrWhy = false)
    (hok : ¬ LookupFailed args lookup) :
    Decides iso args lookup list (afterListing obs args now why
      ((likelyOrders iso args list).map (asMatch "attributes" "")) attrWhy) := by
  unfold afterListing
  rw [if_neg (by simp [hwhy])]
  rcases hl : likelyOrders iso args list with _ | ⟨d, _ | ⟨d', rest⟩⟩
  · simp only [List.map]
    split
    · exact {
        settled := fun hv => by simp at hv
        several := fun hc => by simp at hc
        ambiguous := fun _ _ hmany => by simp [hnone, hl] at hmany
        eligible := fun _ => rfl
        failed := fun _ hf => by simp [hok, hlist] at hf }
    · exact {
        settled := fun hv => by simp at hv
        several := fun hc => by simp at hc
        ambiguous := fun _ _ hmany => by simp [hnone, hl] at hmany
        eligible := fun he => by simp at he
        failed := fun _ hf => by simp [hok, hlist] at hf }
  · exact {
      settled := fun _ => .listed d hnone hl ⟨rfl, rfl, rfl⟩
      several := fun hc => by simp at hc
      ambiguous := fun _ _ hmany => by simp [hnone, hl] at hmany
      eligible := fun he => by simp at he
      failed := fun _ hf => by simp [hok, hlist] at hf }
  · exact {
      settled := fun hv => by simp at hv
      several := fun _ => ⟨rfl, rfl⟩
      ambiguous := fun _ _ _ => ⟨rfl, rfl⟩
      eligible := fun he => by simp at he
      failed := fun _ hf => by simp [hok, hlist] at hf }

theorem decides_unknown {why : String}
    (hfailed : LookupFailed args lookup ∨ namedOrders lookup = [] ∧ ListFailed list) :
    Decides iso args lookup list { verdict := .unknown, reason := why } where
  settled hv := by simp at hv
  several hc := by simp at hc
  ambiguous _ hok hmany := by
    obtain ⟨hnone, hlist⟩ := hfailed.resolve_left hok
    have hempty : likelyOrders iso args list = [] := by
      unfold likelyOrders
      split
      · next items => exact absurd rfl (hlist items)
      · rfl
    simp [hnone, hempty] at hmany
  eligible he := by simp at he
  failed _ _ := ⟨rfl, rfl⟩

end Table

end Trademetrix.Oms
