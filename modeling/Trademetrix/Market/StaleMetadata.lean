import Trademetrix.Async.Serial
import Trademetrix.Engine.Exclusion
import Trademetrix.Engine.Gate
import Trademetrix.Market.DhanProvider
import Trademetrix.Results

/-!
# Live orders on stale metadata

A derivative order for live trading, the contract check of the gate and the age
of the master the contract comes from.
-/

/-!
## The shared instrument resolver

`InstrumentResolver` asks its authoritative providers in turn for a contract;
one that raises counts as one without an answer. Only the Dhan provider is ever
registered.
-/

namespace Trademetrix.Market

open Engine (ContractLot GateSettings NormalizedOrder)

/-- A registered provider, by what its `resolve` makes of the arguments it is called with. -/
structure InstrumentProvider where
  name : String
  resolve : (symbol broker instrumentType : String) → Except QueryError (Option Instrument)
  authoritative : Bool

abbrev InstrumentResolver := List InstrumentProvider

namespace InstrumentResolver

def authoritativeProviders (r : InstrumentResolver) : List InstrumentProvider :=
  r.filter fun p => p.authoritative

def resolve (r : InstrumentResolver) (symbol broker instrumentType : String) : Option Instrument :=
  r.authoritativeProviders.findSome? fun p =>
    match p.resolve symbol broker instrumentType with
    | .ok found => found
    | .error _ => none

end InstrumentResolver

/-- The provider as `_provider_lookup` calls it: with a broker and an instrument type, and
`for_live` left at its default. -/
def DhanProvider.registered (p : DhanProvider) (now : ℚ) : InstrumentProvider where
  name := "dhan-instrument-master"
  resolve symbol _ _ := p.resolve now symbol
  authoritative := true

def DhanProvider.resolver (p : DhanProvider) (now : ℚ) : InstrumentResolver := [p.registered now]

def resolveForOrder (r : InstrumentResolver) (order : NormalizedOrder) (broker : String) :
    Option Instrument :=
  r.resolve order.symbol broker order.instrumentType.value

def Instrument.lot (i : Instrument) : ContractLot where
  brokerSymbol := i.brokerSymbol
  lotSize := i.lotSize

def InstrumentResolver.gate (r : InstrumentResolver) (sha256 : String → String) : GateSettings where
  sha256 := sha256
  resolve symbol broker instrumentType := (r.resolve symbol broker instrumentType).map Instrument.lot

end Trademetrix.Market

namespace Trademetrix.Market

open Async Proc
open Engine (Gate NormalizedOrder checkRisk executeOrder refuse)
open Execution (OrderResult)

variable {p : DhanProvider} {now : ℚ} {order : NormalizedOrder} {sha256 : String → String}

def DhanProvider.Outdated (p : DhanProvider) (now : ℚ) : Prop :=
  ∀ stamp, p.health.lastSuccessfulRefresh = some stamp → liveMaxMetadataAge < now - stamp

/-- A contract is listed under the text, under what follows its last colon or, if it is made of
digits, under that id. A lookup that raises ends the search. -/
def Dataset.Lists (d : Dataset) (text : String) : Prop :=
  text ≠ "" ∧
    ((∃ c, d.contractForSymbol text = .ok (some c)) ∨
      d.contractForSymbol text = .ok none ∧
        ((∃ c, d.contractForSymbol (DhanProvider.afterColon text) = .ok (some c)) ∨
          d.contractForSymbol (DhanProvider.afterColon text) = .ok none ∧ Text.isDigit text = true ∧
            ∃ c cs, d.contractsForSecurityId text = .ok (c :: cs)))

def LiveDerivative (order : NormalizedOrder) : Prop :=
  order.isPaper = false ∧ order.instrumentType ≠ .eq

/-- Every run of the call's checks that comes to a result comes to a refusal, and nothing is
handed to the order manager. -/
def Rejected (cfg : Engine.GateSettings) (n : ℕ) (c : Engine.Order) (order : NormalizedOrder) : Prop :=
  ∀ g es g' o, Goes Gate.apply (checkRisk cfg n c order) g es g' o →
    es = [] ∧ ∀ result, o = some (some result) → result.success = false ∧ result.status = "rejected"

def BlocksOutdated (sha256 : String → String) (p : DhanProvider) (now : ℚ) (n : ℕ) (c : Engine.Order)
    (order : NormalizedOrder) : Prop :=
  LiveDerivative order → p.Outdated now →
    resolveForOrder (p.resolver now) order order.broker = none ∧
      Rejected ((p.resolver now).gate sha256) n c order

theorem lift_eq_ok {α : Type} {x : Except StoreError α} {a : α} :
    QueryError.lift x = .ok a ↔ x = .ok a := by
  cases x <;> simp [QueryError.lift]

theorem resolver_resolve (p : DhanProvider) (now : ℚ) (symbol broker instrumentType : String)
    (i : Instrument) :
    (p.resolver now).resolve symbol broker instrumentType = some i ↔
      p.resolve now symbol = .ok (some i) := by
  simp only [DhanProvider.resolver, InstrumentResolver.resolve,
    InstrumentResolver.authoritativeProviders, DhanProvider.registered, List.filter_cons,
    List.filter_nil, ↓reduceIte, List.findSome?_cons, List.findSome?_nil]
  cases p.resolve now symbol with
  | error e => simp
  | ok found => cases found <;> simp

theorem requireDataset_eq (p : DhanProvider) (now : ℚ) :
    p.requireDataset now false = match p.dataset with
      | none => .error .unavailable
      | some d => .ok d := by
  unfold DhanProvider.requireDataset
  cases p.dataset <;> simp

theorem exists_resolve_iff (p : DhanProvider) (now : ℚ) (symbol : String) :
    (∃ i, p.resolve now symbol = .ok (some i)) ↔
      ∃ d, p.dataset = some d ∧ d.Lists (Text.strip symbol) := by
  unfold DhanProvider.resolve
  rw [requireDataset_eq]
  cases p.dataset with
  | none => simp
  | some d =>
    simp only [lift_eq_ok, Option.some.injEq, exists_eq_left']
    unfold Dataset.Lists
    by_cases htext : Text.strip symbol = ""
    · simp [htext]
    simp only [htext, if_false, ne_eq, not_false_iff, true_and]
    cases h₁ : d.contractForSymbol (Text.strip symbol) with
    | error e => simp
    | ok found =>
      cases found with
      | some c => simp
      | none =>
        cases h₂ : d.contractForSymbol (DhanProvider.afterColon (Text.strip symbol)) with
        | error e => simp
        | ok found =>
          cases found with
          | some c => simp
          | none =>
            by_cases hdigit : Text.isDigit (Text.strip symbol) = true
            · cases h₃ : d.contractsForSecurityId (Text.strip symbol) with
              | error e => simp [hdigit]
              | ok cs =>
                cases cs <;> simp [hdigit]
            · simp [hdigit]

theorem refuse_rejects (c : Engine.Order) (order : NormalizedOrder) (code reason message : String)
    (g : Gate) :
    (refuse c order code reason message).Alone Gate.apply (fun _ _ => False)
      (fun o _ => ∀ result, o = some result → result.success = false ∧ result.status = "rejected")
      g := by
  refine Alone.of_wait fun noted => Alone.pure fun result h => ?_
  obtain ⟨-, -, rfl⟩ := Option.map_eq_some_iff.mp h
  exact ⟨rfl, rfl⟩

theorem rejected_of_unresolved {cfg : Engine.GateSettings} {n : ℕ} {c : Engine.Order}
    (htype : order.instrumentType ≠ .eq)
    (h : cfg.resolve order.symbol order.broker order.instrumentType.value = none) :
    Rejected cfg n c order := by
  have hreason : Engine.validateQuantityForInstrument cfg.resolve order order.broker ≠ "" := by
    intro hok
    obtain ⟨-, hcash | ⟨i, hi, -⟩⟩ := Engine.validateQuantity_accepts hok
    · exact htype hcash
    · exact absurd (h.symm.trans hi) nofun
  intro g es g' o hgo
  simp only [checkRisk, if_pos hreason] at hgo
  obtain ⟨hlegal, hpost⟩ := (refuse_rejects c order _ _ _ g).goes hgo
  refine ⟨?_, fun result hresult => hpost _ hresult result rfl⟩
  cases es with
  | nil => rfl
  | cons e es => exact hlegal.1.elim

/-- A live derivative order is stopped at outdated metadata exactly when there is nothing to
stop: the master that is loaded, if any, does not list its symbol. The age is never looked
at. -/
theorem blocksOutdated_iff (sha256 : String → String) (p : DhanProvider) (now : ℚ) (n : ℕ)
    (c : Engine.Order) (order : NormalizedOrder) :
    BlocksOutdated sha256 p now n c order ↔
      order.isPaper = true ∨ order.instrumentType = .eq ∨ ¬p.Outdated now ∨
        ∀ d, p.dataset = some d → ¬d.Lists (Text.strip order.symbol) := by
  have hresolved : (∃ i, resolveForOrder (p.resolver now) order order.broker = some i) ↔
      ∃ d, p.dataset = some d ∧ d.Lists (Text.strip order.symbol) := by
    rw [← exists_resolve_iff p now]
    exact exists_congr fun i => resolver_resolve p now _ _ _ i
  constructor
  · intro h
    by_contra hnot
    push Not at hnot
    obtain ⟨hpaper, htype, hold, hlisted⟩ := hnot
    obtain ⟨i, hi⟩ := hresolved.mpr hlisted
    have hnone := (h ⟨Bool.eq_false_of_not_eq_true hpaper, htype⟩ hold).1
    exact absurd (hnone.symm.trans hi) nofun
  · rintro h ⟨hpaper, htype⟩ hold
    have hlisted : ∀ d, p.dataset = some d → ¬d.Lists (Text.strip order.symbol) := by
      rcases h with h | h | h | h
      · simp [hpaper] at h
      · exact absurd h htype
      · exact absurd hold h
      · exact h
    have hnone : resolveForOrder (p.resolver now) order order.broker = none := by
      refine Option.eq_none_iff_forall_ne_some.mpr fun i hi => ?_
      obtain ⟨d, hd, hl⟩ := hresolved.mp ⟨i, hi⟩
      exact hlisted d hd hl
    exact ⟨hnone, rejected_of_unresolved htype (congrArg (Option.map Instrument.lot) hnone)⟩

/-- A master of one contract that was refreshed two days before `now`. -/
def twoDaysOld (now : ℚ) : DhanProvider where
  dataset := some { backend := .object (Contracts.add {} niftyCall), installedAt := now - 172800 }
  health := { lastSuccessfulRefresh := some (now - 172800), validationStatus := "ok" }

def sellNiftyCall : NormalizedOrder where
  symbol := "NIFTY-22400-CE"
  exchange := .nfo
  side := .sell
  orderType := .market
  product := .intraday
  quantity := 65
  instrumentType := .opt
  broker := "dhan"

/-- The contract is resolved from metadata two days old and the order is placed. -/
theorem twoDaysOld_passes :
    (twoDaysOld 172800).Outdated 172800 ∧ LiveDerivative sellNiftyCall ∧
      ((executeOrder (((twoDaysOld 172800).resolver 172800).gate id) 0
          { userId := "u1", order := sellNiftyCall }).finish Gate.apply
        ({} : Engine.GateOutside).reply {}).1.map OrderResult.success = some true ∧
      ∀ n c, ¬BlocksOutdated id (twoDaysOld 172800) 172800 n c sellNiftyCall := by
  have hold : (twoDaysOld 172800).Outdated 172800 := by
    intro stamp h
    cases h
    decide +kernel
  refine ⟨hold, ⟨rfl, nofun⟩, by decide, fun n c h => ?_⟩
  have hnone := (h ⟨rfl, nofun⟩ hold).1
  exact absurd hnone (by decide)

end Trademetrix.Market
