import Mathlib.Data.Rat.Init
import Mathlib.Tactic.Linarith
import Trademetrix.Async.Pool
import Trademetrix.Dict
import Trademetrix.Engine.Models
import Trademetrix.Oms.Models
import Trademetrix.Run
import Trademetrix.Text

/-!
# Trailing stops of a leg

`handle_trailing_sl` computes the stop from the price it is given and compares it with that
price. Nothing is kept between two calls, so the stop follows the price both ways.
-/

namespace Trademetrix.LegControls

open Engine (NormalizedOrder)

inductive SLTargetType
  | percent | points | premium
  deriving DecidableEq

/-- The trailing stop of a `UserStrategyLeg`. -/
structure Trailing where
  trailingSlType : Option SLTargetType := none
  trailingSlValue : Option ℚ := none
  trailingActivation : Option ℚ := none

def sideIsLong (side : String) : Bool := Text.lower side = "buy"

def trailDistance (entryPrice trailBy : ℚ) : SLTargetType → ℚ
  | .percent => entryPrice * trailBy / 100
  | .points => trailBy
  | .premium => trailBy

def pnlPct (entryPrice currentPrice : ℚ) (side : String) : ℚ :=
  let rawPnl := if sideIsLong side then currentPrice - entryPrice else entryPrice - currentPrice
  if 0 < entryPrice then rawPnl / entryPrice * 100 else 0

def computeTrailingStop (leg : Trailing) (entryPrice currentPrice : ℚ) (side : String) :
    Option (ℚ × ℚ) :=
  match leg.trailingSlType, leg.trailingSlValue with
  | some trailType, some trailBy =>
    let activation := leg.trailingActivation.getD 0
    if pnlPct entryPrice currentPrice side < activation then none
    else
      let distance := trailDistance entryPrice trailBy trailType
      some (activation, if sideIsLong side then currentPrice - distance else currentPrice + distance)
  | _, _ => none

def checkTrailingSlTrigger (currentStop currentPrice : ℚ) (side : String) : Bool :=
  if sideIsLong side then currentPrice ≤ currentStop else currentStop ≤ currentPrice

def buildSquareOffOrder (strategyId userId symbol side : String) (quantity : ℤ) :
    NormalizedOrder where
  symbol := symbol
  exchange := .nfo
  side := if sideIsLong side then .sell else .buy
  orderType := .market
  product := .intraday
  quantity := quantity
  strategyId := some strategyId
  userId := userId
  source := "leg_control"

/-- What `handle_trailing_sl` does: the order of a triggered stop goes to the gate. -/
inductive TrailingAction
  | none (details : String)
  | triggered (stopPrice : ℚ) (order : NormalizedOrder)
  | trailed (currentStop : ℚ)

/-- A call of `handle_trailing_sl` but for the price; `allowed` is the capability of the plan. -/
structure Position where
  allowed : Bool
  userId : String
  strategyId : String
  leg : Trailing
  entryPrice : ℚ
  side : String
  symbol : String
  quantity : ℤ

def handleTrailingSl (p : Position) (currentPrice : ℚ) : TrailingAction :=
  if p.allowed = false then .none "trailing_sl_not_in_plan"
  else
    match computeTrailingStop p.leg p.entryPrice currentPrice p.side with
    | none => .none "no_trailing_sl"
    | some (_, currentStop) =>
      if checkTrailingSlTrigger currentStop currentPrice p.side then
        .triggered currentStop
          (buildSquareOffOrder p.strategyId p.userId p.symbol p.side p.quantity)
      else .trailed currentStop

def TrailingAction.level : TrailingAction → Option ℚ
  | .none _ => .none
  | .triggered stop _ => some stop
  | .trailed stop => some stop

def TrailingAction.isTriggered : TrailingAction → Bool
  | .triggered _ _ => true
  | _ => false

section Law

def AsGood (side : String) (p q : ℚ) : Prop := if sideIsLong side then p ≤ q else q ≤ p

def NotAgainst (side : String) : Option ℚ → Option ℚ → Prop
  | some old, some new => AsGood side old new
  | some _, none => False
  | none, _ => True

/-- The last stop level and the best price since the stop became active. -/
structure Watch where
  level : Option ℚ := none
  best : Option ℚ := none

variable (p : Position)

def better (side : String) (a b : ℚ) : ℚ := if sideIsLong side then max a b else min a b

def Watch.step (w : Watch) (price : ℚ) : Watch :=
  let level := (handleTrailingSl p price).level
  { level := level
    best :=
      match w.best with
      | some b => some (better p.side b price)
      | none => level.map fun _ => price }

def retraced (side : String) (best price : ℚ) : ℚ :=
  if sideIsLong side then best - price else price - best

/-- The stop does not move against the position, and triggers when the price has come back by
the distance from the best price since it is active. -/
def Law (distance : ℚ) (w : Watch) (price : ℚ) : Prop :=
  NotAgainst p.side w.level (w.step p price).level ∧
    ((handleTrailingSl p price).isTriggered = true ↔
      ∃ best, (w.step p price).best = some best ∧ distance ≤ retraced p.side best price)

def Favourable (w : Watch) (price : ℚ) : Prop := ∀ b ∈ w.best, AsGood p.side b price

variable {p} {side : String} {a b price d : ℚ} {w : Watch}

theorem better_of_asGood (h : AsGood side b price) : better side b price = price := by
  unfold AsGood at h
  unfold better
  split_ifs at h ⊢
  · exact max_eq_right h
  · exact min_eq_right h

theorem retraced_self : retraced side price price = 0 := by
  unfold retraced
  split_ifs <;> exact sub_self price

theorem pnlPct_mono {entry : ℚ} (h : AsGood side a b) :
    pnlPct entry a side ≤ pnlPct entry b side := by
  unfold AsGood at h
  unfold pnlPct
  dsimp only
  by_cases hentry : 0 < entry
  · rw [if_pos hentry, if_pos hentry]
    refine mul_le_mul_of_nonneg_right (div_le_div_of_nonneg_right ?_ hentry.le) (by norm_num)
    split_ifs at h ⊢
    · exact sub_le_sub_right h entry
    · exact sub_le_sub_left h entry
  · rw [if_neg hentry, if_neg hentry]

section Active

variable {t : SLTargetType} {v : ℚ} (ht : p.leg.trailingSlType = some t)
  (hv : p.leg.trailingSlValue = some v)

def Active (p : Position) (price : ℚ) : Prop :=
  p.allowed = true ∧ p.leg.trailingActivation.getD 0 ≤ pnlPct p.entryPrice price p.side

def stopAt (side : String) (distance price : ℚ) : ℚ :=
  if sideIsLong side then price - distance else price + distance

theorem stopAt_asGood : AsGood side (stopAt side d a) (stopAt side d b) ↔ AsGood side a b := by
  unfold AsGood stopAt
  split_ifs
  · exact sub_le_sub_iff_right d
  · exact add_le_add_iff_right d

theorem not_trigger (hd : 0 < d) : checkTrailingSlTrigger (stopAt side d price) price side = false := by
  unfold checkTrailingSlTrigger stopAt
  split_ifs
  · exact decide_eq_false (by linarith)
  · exact decide_eq_false (by linarith)

include ht hv

theorem handleTrailingSl_eq (hd : 0 < trailDistance p.entryPrice v t) (price : ℚ) :
    (handleTrailingSl p price).isTriggered = false ∧
      ((Active p price ∧ (handleTrailingSl p price).level =
          some (stopAt p.side (trailDistance p.entryPrice v t) price)) ∨
        (¬ Active p price ∧ (handleTrailingSl p price).level = none)) := by
  unfold handleTrailingSl computeTrailingStop Active
  rw [ht, hv]
  dsimp only
  by_cases hallowed : p.allowed = false
  · rw [if_pos hallowed]
    exact ⟨rfl, .inr ⟨fun h => by rw [hallowed] at h; exact absurd h.1 (by decide), rfl⟩⟩
  · rw [if_neg hallowed]
    by_cases hlow : pnlPct p.entryPrice price p.side < p.leg.trailingActivation.getD 0
    · rw [if_pos hlow]
      exact ⟨rfl, .inr ⟨fun h => absurd h.2 (not_le_of_gt hlow), rfl⟩⟩
    · rw [if_neg hlow]
      have hnot : checkTrailingSlTrigger (stopAt p.side (trailDistance p.entryPrice v t) price) price
          p.side = false := not_trigger hd
      unfold stopAt at hnot ⊢
      simp only [hnot, Bool.false_eq_true, if_false]
      exact ⟨rfl, .inl ⟨⟨by simpa using hallowed, not_lt.mp hlow⟩, rfl⟩⟩

def Follows (p : Position) (d : ℚ) (w : Watch) : Prop :=
  (w.best = none ∧ w.level = none) ∨
    ∃ b, w.best = some b ∧ w.level = some (stopAt p.side d b) ∧ Active p b

variable (hd : 0 < trailDistance p.entryPrice v t)
include hd

theorem law_iff_favourable (hw : Follows p (trailDistance p.entryPrice v t) w) :
    Law p (trailDistance p.entryPrice v t) w price ↔ Favourable p w price := by
  obtain ⟨hquiet, hlevel⟩ := handleTrailingSl_eq ht hv hd price
  have hnone : ¬ trailDistance p.entryPrice v t ≤ retraced p.side price price := by
    rw [retraced_self]
    exact not_le_of_gt hd
  unfold Law Favourable Watch.step
  rcases hw with ⟨hbest, hold⟩ | ⟨b, hbest, hold, hactive⟩
  · simp only [hbest, hold, hquiet, Option.not_mem_none, false_imp_iff, implies_true, iff_true]
    refine ⟨trivial, fun h => absurd h (by decide), ?_⟩
    rintro ⟨best, hsome, hretraced⟩
    obtain ⟨-, -, rfl⟩ := Option.map_eq_some_iff.mp hsome
    exact absurd hretraced hnone
  · simp only [hbest, hold, hquiet, Option.mem_some_iff, forall_eq', Option.some_inj,
      exists_eq_left', Bool.false_eq_true, false_iff]
    rcases hlevel with ⟨-, hnew⟩ | ⟨hinactive, hnew⟩
    · rw [hnew]
      constructor
      · exact fun h => stopAt_asGood.mp h.1
      · intro h
        rw [better_of_asGood h]
        exact ⟨stopAt_asGood.mpr h, hnone⟩
    · rw [hnew]
      constructor
      · exact fun h => absurd h.1 id
      · exact fun h => absurd ⟨hactive.1, hactive.2.trans (pnlPct_mono h)⟩ hinactive

theorem follows_step (hw : Follows p (trailDistance p.entryPrice v t) w)
    (h : Favourable p w price) :
    Follows p (trailDistance p.entryPrice v t) (w.step p price) := by
  obtain ⟨-, hlevel⟩ := handleTrailingSl_eq ht hv hd price
  unfold Watch.step Follows
  rcases hw with ⟨hbest, hold⟩ | ⟨b, hbest, hold, hactive⟩
  · rcases hlevel with ⟨hnow, hnew⟩ | ⟨-, hnew⟩
    · rw [hbest, hnew]
      exact .inr ⟨price, rfl, rfl, hnow⟩
    · rw [hbest, hnew]
      exact .inl ⟨rfl, rfl⟩
  · have hgood := h b hbest
    have hnow : Active p price := ⟨hactive.1, hactive.2.trans (pnlPct_mono hgood)⟩
    rcases hlevel with ⟨-, hnew⟩ | ⟨hinactive, -⟩
    · rw [hbest, hnew]
      exact .inr ⟨price, congrArg some (better_of_asGood hgood), rfl, hnow⟩
    · exact absurd hnow hinactive

end Active

/-- Along a path of prices the stop is a ratchet that triggers at the distance exactly when no
price moves against the position once the stop is active. -/
theorem trailing_stop_ratchet_iff {t : SLTargetType} {v : ℚ}
    (ht : p.leg.trailingSlType = some t) (hv : p.leg.trailingSlValue = some v) (hpos : 0 < v)
    (hentry : 0 < p.entryPrice) (prices : List ℚ) :
    Along (Watch.step p) (Law p (trailDistance p.entryPrice v t)) {} prices ↔
      Along (Watch.step p) (Favourable p) {} prices := by
  have hd : 0 < trailDistance p.entryPrice v t := by
    cases t with
    | percent => exact div_pos (mul_pos hentry hpos) (by norm_num)
    | points => exact hpos
    | premium => exact hpos
  exact Along.congr (fun _ _ hw h => follows_step ht hv hd hw h)
    (fun _ _ hw => law_iff_favourable ht hv hd hw) (.inl ⟨rfl, rfl⟩)

def longPosition : Position where
  allowed := true
  userId := "u1"
  strategyId := "s1"
  leg := { trailingSlType := some .points, trailingSlValue := some 5, trailingActivation := some 3 }
  entryPrice := 100
  side := "buy"
  symbol := "NIFTY"
  quantity := 50

theorem trailing_stop_ratchet_long :
    Along (Watch.step longPosition) (Law longPosition (trailDistance 100 5 .points)) {} [110, 104] ↔
      Along (Watch.step longPosition) (Favourable longPosition) {} [110, 104] :=
  trailing_stop_ratchet_iff (p := longPosition) rfl rfl (by norm_num) (by norm_num [longPosition])
    [110, 104]

/-- From 110 back to 104 the stop falls from 105 to 99, and no square-off is triggered. -/
theorem trailing_stop_follows_down :
    (handleTrailingSl longPosition 110).level = some 105 ∧
      (handleTrailingSl longPosition 104).level = some 99 ∧
      (handleTrailingSl longPosition 104).isTriggered = false ∧
      ¬ Along (Watch.step longPosition) (Law longPosition 5) {} [110, 104] := by
  have hhigh : (handleTrailingSl longPosition 110).level = some 105 := by decide +kernel
  have hlow : (handleTrailingSl longPosition 104).level = some 99 := by decide +kernel
  refine ⟨hhigh, hlow, by decide +kernel, fun h => ?_⟩
  have hlevel : NotAgainst "buy" (handleTrailingSl longPosition 110).level
    (handleTrailingSl longPosition 104).level := h.2.1.1
  rw [hhigh, hlow] at hlevel
  have hbuy : sideIsLong "buy" = true := by decide
  have hmoved : ¬ AsGood "buy" 105 99 := by
    unfold AsGood
    rw [if_pos hbuy]
    norm_num
  exact hmoved hlevel

end Law

end Trademetrix.LegControls

/-!
# Square-offs and re-entries of a leg

`handle_square_off`, `handle_reentry` and `cancel_pending_reentries` as coroutines. The counter
and the flag of a leg are two keys of the cache; a command takes effect between two awaits, and
one that fails reads the default. `inside`, `reentries` and `out` tell what each call is in the
middle of and which orders succeeded; no code reads them.
-/

namespace Trademetrix.LegCalls

open Async Proc
open Engine (NormalizedOrder)
open LegControls (buildSquareOffOrder sideIsLong)
open Oms (Time seconds)

structure Leg where
  userId : String
  strategyId : String
  legOrder : ℤ
  deriving DecidableEq

def maxReentries : ℤ := 3

inductive Phase
  | closing
  | exited (success : Bool)
  | marked (success : Bool)
  | entering (count maxReentries : ℤ)
  | entered (count : ℤ) (success : Bool)
  deriving DecidableEq

structure Desk where
  clock : Time := 0
  /-- Each value with the time it expires at. -/
  counts : Leg → Option (ℤ × Time) := fun _ => none
  flags : Leg → Option Time := fun _ => none
  inside : Dict ℕ (Leg × Phase) := []
  reentries : List (Leg × Time) := []
  out : Leg → Bool := fun _ => false

structure OrderResult where
  success : Bool
  reason : String
  deriving DecidableEq

inductive Audit
  | timeSquareOff (leg : Leg) (symbol side : Option String) (success : Bool)
  | reEntry (leg : Leg) (reentryCount : ℤ) (mode symbol side : String) (success : Bool)
  | reentriesCancelled (userId strategyId reason : String)

inductive Answer
  | squaredOff (results : List (ℤ × OrderResult))
  | reEntered (count : ℤ) (result : OrderResult)
  | skipped (details : String)
  | blocked (details : String)
  | cancelled
  | raised

inductive LegEffect
  /-- A square-off that found no flag goes on to its exit order. -/
  | closes (n : ℕ) (leg : Leg)
  | exits (n : ℕ) (leg : Leg) (success : Bool)
  | marks (n : ℕ) (leg : Leg) (success arrives : Bool)
  /-- A re-entry that found the counter below its limits goes on to its order. -/
  | reopens (n : ℕ) (leg : Leg) (count maxReentries : ℤ)
  | enters (n : ℕ) (leg : Leg) (count maxReentries : ℤ) (success : Bool)
  | counts (n : ℕ) (leg : Leg) (count : ℤ) (success arrives : Bool)
  | clears (leg : Leg)
  | unmarks (leg : Leg)
  | audits (n : ℕ) (entry : Audit)
  | returns (n : ℕ) (answer : Answer)
  | tick (now : Time)

inductive Await
  | capabilities (userId : String)
  /-- A command on its way to the cache, and the reply on its way back. -/
  | request
  | reply
  | executeOrder (source : String) (order : NormalizedOrder)
  | strategyRow (strategyId : String)

/-- The capability is `none` where the lookup raises. -/
abbrev Reply : Await → Type
  | .capabilities _ => Option Bool
  | .request => Bool
  | .reply => Bool
  | .executeOrder _ _ => Except String OrderResult
  | .strategyRow _ => Option String

abbrev Call := Proc Desk LegEffect Reply

namespace Desk

variable (s : Desk) (leg : Leg)

def countAt (t : Time) : ℤ := ((s.counts leg).filter fun x => t < x.2).elim 0 Prod.fst

def isSquaredOff : Bool := (s.flags leg).any fun expires => s.clock < expires

def day (t : Time) : ℕ := (t + seconds 19800) / seconds 86400

def reentriesOn (d : ℕ) : ℕ := s.reentries.countP fun p => p.1 = leg ∧ day p.2 = d

def apply : LegEffect → Desk → Desk
  | .closes n leg, s => { s with inside := s.inside.set n (leg, .closing) }
  | .exits n leg success, s =>
    { s with
      inside := s.inside.set n (leg, .exited success)
      out := if success then Function.update s.out leg true else s.out }
  | .marks n leg success arrives, s =>
    { s with
      inside := s.inside.set n (leg, .marked success)
      flags :=
        if arrives then Function.update s.flags leg (some (s.clock + seconds 86400)) else s.flags }
  | .reopens n leg count maxReentries, s =>
    { s with inside := s.inside.set n (leg, .entering count maxReentries) }
  | .enters n leg count _ success, s =>
    { s with
      inside := s.inside.set n (leg, .entered count success)
      out := if success then Function.update s.out leg false else s.out
      reentries := if success then s.reentries ++ [(leg, s.clock)] else s.reentries }
  | .counts n leg count _ arrives, s =>
    { s with
      inside := s.inside.pop n
      counts :=
        if arrives then
          Function.update s.counts leg (some (count + 1, s.clock + seconds 86400))
        else s.counts }
  | .clears leg, s => { s with counts := Function.update s.counts leg none }
  | .unmarks leg, s => { s with flags := Function.update s.flags leg none }
  | .audits n _, s => { s with inside := s.inside.pop n }
  | .returns _ _, s => s
  | .tick now, s => { s with clock := now }

end Desk

/-- `cache.get`. -/
def cacheGet {α : Type} (get : Desk → α) (default : α) : Call α := do
  if ← wait .request then
    let s ← look
    if ← wait .reply then pure (get s) else pure default
  else pure default

/-- `cache.delete`. -/
def cacheDelete (delete : LegEffect) : Call Unit := do
  if ← wait .request then
    emit delete
    let _ ← wait .reply
    pure ()
  else pure ()

def executeLegControl (source : String) (order : NormalizedOrder) : Call OrderResult := do
  let reply : Except String OrderResult ← wait (Await.executeOrder source order)
  match reply with
  | .ok result => pure result
  | .error message => pure ⟨false, message⟩

def markSquaredOff (n : ℕ) (leg : Leg) (success : Bool) : Call Unit := do
  let arrives ← wait .request
  emit (.marks n leg success arrives)
  let _ ← wait .reply
  pure ()

def setReentryCount (n : ℕ) (leg : Leg) (count : ℤ) (success : Bool) : Call Unit := do
  let arrives ← wait .request
  emit (.counts n leg count success arrives)
  let _ ← wait .reply
  pure ()

structure LegInfo where
  legOrder : ℤ
  symbol : Option String := none
  side : Option String := none
  quantity : Option ℤ := none

/-- One round of the loop of `handle_square_off`. -/
def squareOffLeg (n : ℕ) (userId strategyId : String) (info : LegInfo) :
    Call (List (ℤ × OrderResult)) := do
  let leg : Leg := ⟨userId, strategyId, info.legOrder⟩
  if ← cacheGet (fun s => s.isSquaredOff leg) false then pure []
  else
    emit (.closes n leg)
    let order := buildSquareOffOrder strategyId userId (info.symbol.getD "")
      (info.side.getD "buy") (info.quantity.getD 0)
    let result ← executeLegControl "time_square_off" order
    emit (.exits n leg result.success)
    markSquaredOff n leg result.success
    emit (.audits n (.timeSquareOff leg info.symbol info.side result.success))
    pure [(info.legOrder, result)]

def handleSquareOff (n : ℕ) (userId strategyId : String) :
    List LegInfo → Call (List (ℤ × OrderResult))
  | [] => pure []
  | info :: legs => do
    let result ← squareOffLeg n userId strategyId info
    let results ← handleSquareOff n userId strategyId legs
    pure (result ++ results)

structure Reentry where
  userId : String
  strategyId : String
  legOrder : ℤ
  reentryMode : String
  entryPrice : ℚ
  currentPrice : ℚ
  side : String
  symbol : String
  quantity : ℤ
  maxReentries : ℤ := LegCalls.maxReentries

namespace Reentry

variable (r : Reentry)

def leg : Leg := ⟨r.userId, r.strategyId, r.legOrder⟩

def shouldReenter : Option Bool :=
  if r.reentryMode = "RE_ASAP" then some true
  else if r.reentryMode = "RE_COST" then
    some (if sideIsLong r.side then r.currentPrice ≤ r.entryPrice
      else r.entryPrice ≤ r.currentPrice)
  else none

def order : NormalizedOrder where
  symbol := r.symbol
  exchange := .nfo
  side := if sideIsLong r.side then .buy else .sell
  orderType := .market
  product := .intraday
  quantity := r.quantity
  strategyId := some r.strategyId
  userId := r.userId
  source := "re_entry"

end Reentry

/-- `handle_reentry` from its order on. -/
def reenter (n : ℕ) (r : Reentry) (count : ℤ) : Call Answer := do
  emit (.reopens n r.leg count r.maxReentries)
  let result ← executeLegControl "re_entry" r.order
  emit (.enters n r.leg count r.maxReentries result.success)
  setReentryCount n r.leg count result.success
  emit (.audits n (.reEntry r.leg (count + 1) r.reentryMode r.symbol r.side result.success))
  pure (.reEntered (count + 1) result)

def handleReentry (n : ℕ) (r : Reentry) : Call Answer := do
  let allowed : Option Bool ← wait (Await.capabilities r.userId)
  match allowed with
  | none => pure .raised
  | some false => pure (.blocked "reentry_not_in_plan")
  | some true =>
    let count ← cacheGet (fun s => s.countAt r.leg s.clock) 0
    if r.maxReentries ≤ count then pure (.skipped "max_reentries_reached")
    else if maxReentries ≤ count then pure (.skipped "hard_cap_reached")
    else
      match r.shouldReenter with
      | none => pure (.skipped "unknown_mode")
      | some false => pure (.skipped "condition_not_met")
      | some true => reenter n r count

/-- The loop of `cancel_pending_reentries`. -/
def deleteKeys (userId strategyId : String) : List ℤ → Call Unit
  | [] => pure ()
  | legOrder :: rest => do
    cacheDelete (.clears ⟨userId, strategyId, legOrder⟩)
    cacheDelete (.unmarks ⟨userId, strategyId, legOrder⟩)
    deleteKeys userId strategyId rest

def cancelPendingReentries (n : ℕ) (userId strategyId reason : String) : Call Unit := do
  deleteKeys userId strategyId [1, 2, 3, 4, 5, 6]
  emit (.audits n (.reentriesCancelled userId strategyId reason))

/-- `deactivate_strategy`, as on a kill switch. -/
def deactivateStrategy (n : ℕ) (strategyId reason : String) : Call Unit := do
  let row : Option String ← wait (Await.strategyRow strategyId)
  match row with
  | some userId => cancelPendingReentries n userId strategyId reason
  | none => pure ()

inductive LegCall
  | squareOff (userId strategyId : String) (legs : List LegInfo)
  | reentry (r : Reentry)
  | cancel (userId strategyId reason : String)
  | deactivate (strategyId reason : String)

def LegCall.run (n : ℕ) : LegCall → Call Unit
  | .squareOff userId strategyId legs => do
    let results ← handleSquareOff n userId strategyId legs
    emit (.returns n (.squaredOff results))
  | .reentry r => do
    let answer ← handleReentry n r
    emit (.returns n answer)
  | .cancel userId strategyId reason => do
    cancelPendingReentries n userId strategyId reason
    emit (.returns n .cancelled)
  | .deactivate strategyId reason => do
    deactivateStrategy n strategyId reason
    emit (.returns n .cancelled)

def system : System Desk LegEffect Reply ℕ (ℕ × LegCall) where
  apply := Desk.apply
  tag c := c.1
  code c := c.2.run c.1
  blocks a b := decide (a = b)
  ready _ _ _ := true
  env s
    | .tick now => s.clock ≤ now
    | _ => false

end Trademetrix.LegCalls
