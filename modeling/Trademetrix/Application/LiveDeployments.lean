import Trademetrix.Application.Deployments
import Trademetrix.Engine.PlanLegs

/-!
# What a live deployment is priced by

The spot price of a deployment is the last close of the fetched candles, or
24000 when there is none above zero. The option chain is made up around it, with
one premium and one delta for all strikes, so only the strikes that are an offset
from the spot price can be told by the market.
-/

namespace Trademetrix.Application

open Engine

abbrev FetchedCloses := Except String (List (Option ℚ))

def lastCloseOf : FetchedCloses → Option ℚ
  | .error _ => none
  | .ok closes => (closes.filterMap fun close => close.filter fun x => decide (x ≠ 0)).getLast?

def DeployCall.fetching (call : DeployCall) (fetched : FetchedCloses) : DeployCall :=
  { call with lastClose := lastCloseOf fetched }

def fetchedChain : List ChainStrike := []

def ReadsSpot (leg : UserStrategyLeg) : Prop :=
  leg.segment = .futures ∨ leg.strikeCriteria = .atmOffset

instance (leg : UserStrategyLeg) : Decidable (ReadsSpot leg) := inferInstanceAs (Decidable (_ ∨ _))

/-- What tells the strike of a leg came from the market: the spot price is the last close that was
fetched, or the quotes are those of a chain that was fetched. -/
structure FromMarket (fetched : FetchedCloses) (market : MarketData) (leg : UserStrategyLeg) : Prop where
  spot : ReadsSpot leg → lastCloseOf fetched = some market.spot
  quotes : ¬ReadsSpot leg → ∀ row ∈ market.chain.getD [], row ∈ fetchedChain

namespace UserStrategyRow

variable (timeOf : String → Option ℕ) (floatRepr : ℚ → String) (w : UserStrategyRow) (call : DeployCall)
  (fetched : FetchedCloses)

/-- The strike of a leg's order came from the market. A future has none; the legs of a `leg_order`
get the strike of the last of them. -/
def StrikeFromMarket (leg : UserStrategyLeg) : Prop :=
  leg.segment = .options →
    ∀ last ∈ lastOf (rowToStrategy w.strategy).legs leg.legOrder,
      FromMarket fetched (w.market (call.fetching fetched)) last

/-- A live deployment sends orders with strikes from the market, and where it would have to send
another it raises and sends none. -/
structure QuotedLive : Prop where
  sent : Text.upper call.mode = "LIVE" →
    ∀ s ∈ (w.deployStrategy timeOf floatRepr (call.fetching fetched)).2.1,
      ∃ leg, (rowToStrategy w.strategy).legs[s.leg]? = some leg ∧ w.StrikeFromMarket call fetched leg
  refused : Text.upper call.mode = "LIVE" →
    (∃ leg ∈ (rowToStrategy w.strategy).legs, ¬w.StrikeFromMarket call fetched leg) →
      (w.deployStrategy timeOf floatRepr (call.fetching fetched)).2.1 = [] ∧
        ∃ e, (w.deployStrategy timeOf floatRepr (call.fetching fetched)).2.2 = .error e

def RefusedLive : Prop :=
  (call.superAdmin = false ∧ 0 < call.existing ∧ call.maxActiveStrategies ≤ call.existing) ∨
    call.reads = false ∨ (∀ u, validateUserStrategy timeOf (rowToStrategy w.strategy) ≠ .ok u) ∨
    call.liveStatus = false ∨ call.lotSize.getD 0 = 0

/-- Every option leg has its strike from a leg whose strike is an offset from the spot price, and
the last close is above zero. -/
def SpotTold : Prop :=
  ∀ leg ∈ (rowToStrategy w.strategy).legs, leg.segment = .options →
    ∀ last ∈ lastOf (rowToStrategy w.strategy).legs leg.legOrder,
      ReadsSpot last ∧ ∃ close ∈ lastCloseOf fetched, 0 < close

variable {timeOf floatRepr w call fetched}

theorem plan_live_iff (hlive : Text.upper call.mode = "LIVE") :
    (∃ plan, w.plan timeOf floatRepr call = .ok plan) ↔ ¬w.RefusedLive timeOf call := by
  unfold plan RefusedLive
  dsimp only
  rw [if_neg (by simp [hlive])]
  by_cases hlimit : call.superAdmin = false ∧ 0 < call.existing ∧ call.maxActiveStrategies ≤ call.existing
  · rw [if_pos hlimit]
    simp [hlimit]
  rw [if_neg hlimit]
  by_cases hreads : call.reads = false
  · rw [if_pos hreads]
    simp [hreads]
  rw [if_neg hreads]
  cases hvalid : validateUserStrategy timeOf (rowToStrategy w.strategy) with
  | error e => simp
  | ok u =>
    dsimp only
    by_cases hstatus : call.liveStatus = false
    · rw [if_pos ⟨hlive, hstatus⟩]
      simp [hstatus]
    rw [if_neg fun h => hstatus h.2]
    have hlot : (resolveMarketData (rowToStrategy w.strategy).indexSymbol call).lotSize = call.lotSize := rfl
    have hchain : ∃ chain, (resolveMarketData (rowToStrategy w.strategy).indexSymbol call).chain =
        some chain := ⟨_, rfl⟩
    obtain ⟨chain, hchain⟩ := hchain
    unfold compileUserStrategy
    rw [hlot, hchain]
    cases call.lotSize with
    | none => simp
    | some lotSize =>
      by_cases hzero : lotSize = 0
      · simp [hzero]
      · simp [hzero, hlimit, hreads, hstatus]

theorem fromMarket_iff {leg : UserStrategyLeg} :
    FromMarket fetched (w.market (call.fetching fetched)) leg ↔
      ReadsSpot leg ∧ ∃ close ∈ lastCloseOf fetched, 0 < close := by
  have hspot : (w.market (call.fetching fetched)).spot =
      if (lastCloseOf fetched).getD 0 ≤ 0 then 24000 else (lastCloseOf fetched).getD 0 := rfl
  constructor
  · intro h
    have hreads : ReadsSpot leg := by
      by_contra hnot
      have hrow := h.quotes hnot _ (List.mem_map_of_mem (List.mem_range.mpr (show 0 < 21 by decide)))
      exact absurd hrow List.not_mem_nil
    have htold := h.spot hreads
    cases hclose : lastCloseOf fetched with
    | none =>
      rw [hclose] at htold
      cases htold
    | some close =>
      rw [hspot, hclose, Option.getD_some, Option.some_inj] at htold
      refine ⟨hreads, close, rfl, ?_⟩
      by_contra hneg
      rw [if_pos (not_lt.mp hneg)] at htold
      rw [htold] at hneg
      exact hneg (by norm_num)
  · rintro ⟨hreads, close, hclose, hpos⟩
    refine ⟨fun _ => ?_, fun hnot => absurd hreads hnot⟩
    rw [hspot, Option.mem_def.mp hclose, Option.getD_some, if_neg (not_le.mpr hpos)]

theorem spotTold_iff (call : DeployCall) :
    w.SpotTold fetched ↔ ∀ leg ∈ (rowToStrategy w.strategy).legs, w.StrikeFromMarket call fetched leg :=
  forall₂_congr fun _ _ => forall_congr' fun _ => forall₂_congr fun _ _ => fromMarket_iff.symm

theorem leg_of_sent {plan : ExecutionPlan} (hplan : w.plan timeOf floatRepr call = .ok plan) {s : Sent}
    (hs : s ∈ send call plan) : ∃ leg ∈ (rowToStrategy w.strategy).legs,
      (rowToStrategy w.strategy).legs[s.leg]? = some leg := by
  obtain ⟨i, hi, rfl⟩ := List.mem_mapIdx.mp hs
  have hlength : i < (rowToStrategy w.strategy).legs.length := by
    rwa [(plan_spec hplan).2.2, List.length_map] at hi
  exact ⟨_, List.getElem_mem hlength, List.getElem?_eq_getElem hlength⟩

/-- A live deployment is priced by the market just if it is refused whatever the market says, or
the spot price tells all its strikes and is there. -/
theorem quotedLive_iff (timeOf : String → Option ℕ) (floatRepr : ℚ → String) (w : UserStrategyRow)
    (call : DeployCall) (fetched : FetchedCloses) :
    w.QuotedLive timeOf floatRepr call fetched ↔
      (Text.upper call.mode = "LIVE" → w.RefusedLive timeOf call ∨ w.SpotTold fetched) := by
  rw [spotTold_iff call]
  by_cases hlive : Text.upper call.mode = "LIVE"
  · have hplans : (∃ plan, w.plan timeOf floatRepr (call.fetching fetched) = .ok plan) ↔
        ¬w.RefusedLive timeOf call := plan_live_iff hlive
    constructor
    · intro h _
      by_contra hnot
      rw [not_or, not_forall₂] at hnot
      obtain ⟨plan, hplan⟩ := hplans.mpr hnot.1
      obtain ⟨leg, hleg, hstrike⟩ := hnot.2
      obtain ⟨hnone, -⟩ := h.refused hlive ⟨leg, hleg, hstrike⟩
      rw [(deployStrategy_spec hplan).1, ← List.length_eq_zero_iff, send, List.length_mapIdx] at hnone
      obtain ⟨hlength, hpos⟩ := length_orders hplan
      omega
    · intro h
      rcases h hlive with hrefused | htold
      · obtain ⟨e, herror⟩ : ∃ e, w.plan timeOf floatRepr (call.fetching fetched) = .error e := by
          cases hplan : w.plan timeOf floatRepr (call.fetching fetched) with
          | error e => exact ⟨e, rfl⟩
          | ok plan => exact absurd hrefused (hplans.mp ⟨plan, hplan⟩)
        have hdeploy := deployStrategy_of_error herror
        refine ⟨fun _ s hs => ?_, fun _ _ => ?_⟩
        · rw [hdeploy] at hs
          cases hs
        · rw [hdeploy]
          exact ⟨rfl, e, rfl⟩
      · refine ⟨fun _ s hs => ?_, fun _ hbad => ?_⟩
        · cases hplan : w.plan timeOf floatRepr (call.fetching fetched) with
          | error e =>
            rw [deployStrategy_of_error hplan] at hs
            cases hs
          | ok plan =>
            rw [(deployStrategy_spec hplan).1] at hs
            obtain ⟨leg, hleg, hget⟩ := leg_of_sent hplan hs
            exact ⟨leg, hget, htold leg hleg⟩
        · obtain ⟨leg, hleg, hstrike⟩ := hbad
          exact absurd (htold leg hleg) hstrike
  · exact iff_of_true ⟨fun h => absurd h hlive, fun h => absurd h hlive⟩ fun h => absurd h hlive

end UserStrategyRow

section NoCandles

def liveCall : DeployCall where
  mode := "live"
  superAdmin := false
  maxActiveStrategies := 3
  existing := 0
  reads := true
  liveStatus := true
  lastClose := none
  today := ⟨730425⟩
  lotSize := some 75
  replies _ := .ok { success := true }
  updates := true

theorem symbols_liveCall :
    ((UserStrategyRow.deployStrategy clock (fun _ => "") { strategy := straddle }
      (liveCall.fetching (.ok []))).2.1.map fun s => s.order.symbol) =
      ["NIFTY04JAN200024000CE", "NIFTY04JAN200024000PE"] := by decide +kernel

/-- Without candles the straddle is sent live at 24000. -/
theorem noCandles_not_quotedLive :
    ¬UserStrategyRow.QuotedLive clock (fun _ => "") { strategy := straddle } liveCall (.ok []) := by
  intro h
  have hmade : ∀ leg ∈ (rowToStrategy straddle).legs,
      ¬UserStrategyRow.StrikeFromMarket { strategy := straddle } liveCall (.ok []) leg → False := by
    intro leg hleg hstrike
    obtain ⟨hnone, -⟩ := h.refused (by decide) ⟨leg, hleg, hstrike⟩
    have hsymbols := symbols_liveCall
    rw [hnone] at hsymbols
    cases hsymbols
  refine hmade _ List.mem_cons_self fun hstrike => ?_
  obtain ⟨-, close, hclose, -⟩ := UserStrategyRow.fromMarket_iff.mp (hstrike rfl _ rfl)
  cases hclose

end NoCandles

end Trademetrix.Application
