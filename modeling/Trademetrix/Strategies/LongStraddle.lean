import Trademetrix.Strategies.Buyers

/-!
# The long straddle

`LongStraddle` buys a call and a put at the money, cuts the loser and leaves the winner to
its trailing stop, as `_manage` has it. The legs in `pos` are the dictionaries that `pos_ce`
and `pos_pe` name, which are `None` for a leg that was cut.
-/

namespace Trademetrix.Strategies

open Engine (OptionType OrderSide)
open Text (roundHalfEven)

namespace LongStraddle

structure Config extends BuyerConfig where
  legTargetMultiple : ℚ := 5 / 2
  combinedLossPct : ℚ := 40

structure Leg where
  symbol : String
  strike : ℚ
  expiry : String
  entry : ℚ
  target : ℚ
  peak : ℚ
  beArmed : Bool := false
  lots : ℤ
  qty : ℤ
  sl : Option ℚ := none

structure Combo where
  leg : OptionType → Leg
  entryCombined : ℚ
  lossCapMult : ℚ

/-- `base` holds what a `BuyerBase` has; its `pos` is not used. -/
structure Straddle where
  base : Buyer := {}
  pos : Option Combo := none
  live : OptionType → Bool := fun _ => false
  entryTs : Option ℤ := none
  premium : OptionType → ℚ := fun _ => 0

section Legs

variable (c : Config) (a : Answers) (s : Straddle) (bar : Candle)

def Leg.trail (l : Leg) (premium : ℚ) : Leg :=
  let l := { l with peak := max l.peak premium }
  let l := if !l.beArmed ∧ l.target ≤ premium then { l with beArmed := true, sl := some l.entry } else l
  if l.beArmed then { l with sl := some (max (l.sl.getD 0) (l.peak * (3 / 4))) } else l

def Combo.emptied (p : Combo) (k : OptionType) : Combo :=
  { p with leg := fun k' => if k' = k then { p.leg k with qty := 0 } else p.leg k' }

def flattenLeg (k : OptionType) (reason : StraddleExit) : Straddle :=
  match s.pos with
  | none => s
  | some p =>
    if s.live k ∧ 0 < (p.leg k).qty then
      { s with
        base := placeOrder c.toBuyerConfig s.base (p.leg k).symbol .sell (p.leg k).qty (.straddleExit reason)
          (some (s.premium k))
        pos := some (p.emptied k) }
    else s

def flattenBoth (reason : StraddleExit) : Straddle :=
  let s := flattenLeg c (flattenLeg c s .ce reason) .pe reason
  { s with
    pos := none
    live := fun _ => false
    base := { s.base with phase := if reason = .squareOff ∨ reason = .killSwitch then .done else .armed } }

def timeStopped (p : Combo) (prem : OptionType → ℚ) : Bool :=
  let held : ℚ := match s.entryTs with
    | some ts => (bar.timestamp - ts) / 1000000 / 60
    | none => 0
  let progress (k : OptionType) :=
    if 0 < (p.leg k).entry then (prem k - (p.leg k).entry) / (p.leg k).entry else 0
  c.timeStopMin ≤ held ∧ progress .ce < 1 / 2 ∧ progress .pe < 1 / 2

def stopLeg (prem : OptionType → ℚ) (k : OptionType) : Straddle :=
  match s.pos with
  | none => s
  | some p =>
    let sl := (p.leg k).sl.getD 0
    if 0 < sl ∧ prem k ≤ sl then
      flattenLeg c s k (if (p.leg k).beArmed then .trailStop k else .stopLoss k)
    else s

/-- A leg at its target has the other one cut; `none` where it is not, or has nothing to cut. -/
def cutLoser (prem : OptionType → ℚ) (hit other : OptionType) : Option Straddle :=
  s.pos.bind fun p =>
    if (p.leg hit).target ≤ prem hit ∧ 0 < (p.leg other).qty then
      let s := flattenLeg c s other (.cutWinner other)
      some { s with live := fun k => if k = other then false else s.live k }
    else none

def manage : Straddle :=
  match s.pos with
  | none => s
  | some p =>
    if !(s.live .ce && s.live .pe) then s
    else
      let prem (k : OptionType) := a.optionLtp (p.leg k).expiry (p.leg k).strike k
      let p := { p with leg := fun k => (p.leg k).trail (prem k) }
      let s := { s with
        base := { s.base with currentPremium := some (prem .ce + prem .pe) }, premium := prem, pos := some p }
      if prem .ce + prem .pe < p.entryCombined * p.lossCapMult then flattenBoth c s .combinedLossCap
      else if timeStopped c s bar p prem then flattenBoth c s .thetaTimeStop
      else
        let s := stopLeg c (stopLeg c s prem .ce) prem .pe
        ((cutLoser c s prem .ce .pe).or (cutLoser c s prem .pe .ce)).getD s

/-- `int` -/
def truncate (q : ℚ) : ℤ := if 0 ≤ q then ⌊q⌋ else ⌈q⌉

def entered (leg : OptionType → Leg) (prem : OptionType → ℚ) : Straddle :=
  let buy (b : Buyer) (k : OptionType) :=
    placeOrder c.toBuyerConfig b (leg k).symbol .buy (leg k).qty (.straddle k) (some (prem k))
  { s with
    base := { buy (buy s.base .ce) .pe with tradesToday := 1, phase := .inTrade }
    pos := some ⟨leg, prem .ce + prem .pe, 1 - c.combinedLossPct / 100⟩
    live := fun _ => true
    entryTs := some bar.timestamp }

def enter (expiry : String) (atm : ℚ) (lot : ℤ) : Straddle :=
  let prem (k : OptionType) := a.optionLtp expiry atm k
  let riskAmt := c.capital * c.riskPerTradePct / 100
  let lots (k : OptionType) := if 0 < prem k then max 1 (truncate (riskAmt / (prem k * lot))) else 0
  let outlay := (lots .ce * prem .ce + lots .pe * prem .pe) * lot
  let maxOk := c.capital * c.maxOutlayPct / 100
  let scale := if maxOk < outlay then min 1 (maxOk / outlay) else 1
  let leg (k : OptionType) : Leg :=
    let lots := max 1 (truncate (lots k * scale))
    { symbol := a.optionSymbol expiry atm k, strike := atm, expiry := expiry, entry := prem k,
      target := prem k * c.legTargetMultiple, peak := prem k, lots := lots, qty := lots * lot }
  if lots .ce < 1 ∨ lots .pe < 1 ∨ scale < 1 / 2 then s
  else entered c s bar leg prem

/-- `none` where it raises. -/
def checkEntry : Option Straddle :=
  if a.ivPercentile.any fun pct => 70 < pct then some s
  else a.expiry.bind fun expiry =>
    let atm := roundHalfEven (bar.close / s.base.step) * s.base.step
    if s.base.step = 0 then none
    else if a.optionLtp expiry atm .ce + a.optionLtp expiry atm .pe ≤ 0 then some s
    else (s.base.lotSize.filter (· ≠ 0)).map (enter c a s bar expiry atm)

end Legs

/-- The strategy after a candle and whether its state goes to the cache. -/
structure Turn where
  straddle : Straddle
  persists : Bool

section Dispatch

variable (c : Config) (a : Answers) (s : Straddle) (bar : Candle)

def on15m : Turn :=
  if isKillSwitched c.toBuyerConfig a then ⟨flattenBoth c s .killSwitch, false⟩
  else if c.squareOff ≤ bar.time then ⟨flattenBoth c s .squareOff, false⟩
  else
    let s := if s.base.phase = .buildingOr then { s with base := { s.base with phase := .armed } } else s
    match s.base.phase with
    | .inTrade => ⟨manage c a s bar, true⟩
    | .armed =>
      if s.base.tradesToday < 1 ∧ bar.time < c.lastEntry then
        match checkEntry c a s bar with
        | none => ⟨s, false⟩
        | some s => ⟨s, true⟩
      else ⟨s, true⟩
    | _ => ⟨s, false⟩

def onCandle : Turn :=
  if FiveMinutes c.toBuyerConfig bar then
    if s.base.phase = .inTrade then ⟨manage c a s bar, true⟩
    else
      match s.base.fiveBuffer with
      | first :: second :: rest =>
        on15m c a { s with base := { s.base with fiveBuffer := [] } }
          (aggregate5mTo15m first (second :: rest ++ [bar]))
      | buffer =>
        let base := { s.base with fiveBuffer := buffer ++ [bar] }
        ⟨{ s with base := pushVolume c.toBuyerConfig base bar.volume }, true⟩
  else on15m c a s bar

end Dispatch

structure Saved where
  base : SavedState
  pos : Option Combo
  entryTs : Option ℤ

/-- A strategy that is restored has the legs of `pos` again, a leg that was cut among them. -/
def Straddle.onStart (s : Straddle) (start : Start) (cached : Option Saved) : Option Straddle :=
  (s.base.onStart start (cached.map Saved.base)).map fun base =>
    match if start.lotSize.all (· = 0) then none else cached with
    | none => { s with base := base }
    | some saved =>
      { s with
        base := base, pos := saved.pos, live := fun _ => saved.pos.isSome, entryTs := saved.entryTs }

structure Desk where
  straddle : Option Straddle := none
  cache : Dict String Saved := []
  placed : List Placed := []

/-- A candle, `on_stop`, or a new start of the strategy. -/
inductive Event
  | candle (bar : Candle) (answers : Answers) (stores : Bool)
  | stop (stores : Bool)
  | restart (start : Start)

variable (c : Config)

def Straddle.persist (s : Straddle) (stores : Bool) (cache : Dict String Saved) : Dict String Saved :=
  if s.base.todayStr = "" ∨ c.strategyId = "" ∨ stores = false then cache
  else cache.set s.base.todayStr ⟨s.base.toState, s.pos, s.entryTs⟩

def Desk.step (d : Desk) : Event → Desk
  | .candle bar a stores =>
    match d.straddle with
    | none => d
    | some s =>
      let turn := onCandle c a s bar
      { straddle := some turn.straddle
        cache := if turn.persists then turn.straddle.persist c stores d.cache else d.cache
        placed := turn.straddle.base.placed }
  | .stop stores =>
    match d.straddle with
    | none => d
    | some s => { d with cache := s.persist c stores d.cache }
  | .restart start =>
    let fresh : Straddle := { base := { backtestCapital := c.backtestInitialCapital, placed := d.placed } }
    { d with straddle := fresh.onStart start (d.cache.get start.todayStr) }

def Desk.run (d : Desk) (es : List Event) : Desk := es.foldl (Desk.step c) d

section Books

variable {c : Config} {a : Answers} {s : Straddle} {bar : Candle} {k : OptionType} {p : Combo}
  {reason : StraddleExit} {sym day : String}

def net (sym : String) (placed : List Placed) : ℤ :=
  (placed.map fun x => if x.symbol = sym then match x.side with | .buy => x.qty | .sell => -x.qty else 0).sum

def Combo.share (p : Combo) (sym : String) (k : OptionType) : ℤ :=
  if (p.leg k).symbol = sym then (p.leg k).qty else 0

def Combo.held (p : Combo) (sym : String) : ℤ := p.share sym .ce + p.share sym .pe

def Straddle.held (s : Straddle) (sym : String) : ℤ := s.pos.elim 0 (·.held sym)

theorem Combo.held_nonneg (p : Combo) (h : ∀ k, 0 ≤ (p.leg k).qty) : 0 ≤ p.held sym := by
  have hshare : ∀ k, 0 ≤ p.share sym k := fun k => by
    simp only [Combo.share]
    split
    · exact h k
    · exact le_refl _
  exact add_nonneg (hshare .ce) (hshare .pe)

theorem net_append (xs ys : List Placed) : net sym (xs ++ ys) = net sym xs + net sym ys := by
  rw [net, List.map_append, List.sum_append]
  rfl

theorem placeOrder_kept (b : Buyer) (symbol : String) (side : OrderSide) (qty : ℤ) (tag : Tag)
    (premium : Option ℚ) :
    (placeOrder c.toBuyerConfig b symbol side qty tag premium).placed =
        b.placed ++ [⟨symbol, side, qty, tag, premium⟩] ∧
      (placeOrder c.toBuyerConfig b symbol side qty tag premium).toState = b.toState ∧
      (placeOrder c.toBuyerConfig b symbol side qty tag premium).todayStr = b.todayStr := by
  simp only [placeOrder]
  split
  · cases side with
    | buy => exact ⟨rfl, rfl, rfl⟩
    | sell => exact ⟨rfl, rfl, rfl⟩
  · exact ⟨rfl, rfl, rfl⟩

def Straddle.Legs (s : Straddle) : Prop :=
  ∀ p, s.pos = some p → ∀ k, 0 ≤ (p.leg k).qty ∧ (s.live k = false → (p.leg k).qty = 0)

structure Straddle.Sound (day : String) (s : Straddle) : Prop where
  books : ∀ sym, net sym s.base.placed = s.held sym
  legs : s.Legs
  idle : s.base.phase ≠ .inTrade → s.pos = none
  lot : ∀ lot, s.base.lotSize = some lot → 0 ≤ lot
  today : s.base.todayStr = day

theorem share_emptied (k' : OptionType) :
    (p.emptied k).share sym k' = if k' = k then 0 else p.share sym k' := by
  simp only [Combo.share, Combo.emptied]
  split
  · simp
  · rfl

theorem held_emptied : (p.emptied k).held sym = p.held sym - p.share sym k := by
  simp only [Combo.held, share_emptied]
  cases k with
  | ce => simp
  | pe => simp

theorem emptied_of_empty (h : (p.leg k).qty = 0) : p.emptied k = p := by
  have hleg : { p.leg k with qty := 0 } = p.leg k := by rw [← h]
  simp only [Combo.emptied, hleg]
  congr 1
  funext k'
  split
  · next heq => rw [heq]
  · rfl

variable (c k reason) in
theorem Straddle.Legs.flattenLeg_spec (h : s.Legs) (hpos : s.pos = some p) :
    (flattenLeg c s k reason).pos = some (p.emptied k) ∧
      ∀ sym, net sym (flattenLeg c s k reason).base.placed = net sym s.base.placed - p.share sym k := by
  simp only [flattenLeg, hpos]
  split
  · refine ⟨rfl, fun sym => ?_⟩
    rw [(placeOrder_kept ..).1, net_append]
    simp only [net, Combo.share, List.map_cons, List.map_nil, List.sum_cons, List.sum_nil]
    split
    · omega
    · omega
  · next hkeeps =>
    have hempty : (p.leg k).qty = 0 := by
      obtain ⟨hnonneg, hdead⟩ := h p hpos k
      by_cases hlive : s.live k = true
      · exact le_antisymm (not_lt.mp fun hlt => hkeeps ⟨hlive, hlt⟩) hnonneg
      · exact hdead (Bool.eq_false_iff.mpr hlive)
    refine ⟨by rw [emptied_of_empty hempty, hpos], fun sym => ?_⟩
    simp only [Combo.share, hempty, ite_self, sub_zero]

variable (c s k reason) in
theorem flattenLeg_kept : (flattenLeg c s k reason).live = s.live ∧
    (flattenLeg c s k reason).entryTs = s.entryTs ∧
    (flattenLeg c s k reason).base.toState = s.base.toState ∧
    (flattenLeg c s k reason).base.todayStr = s.base.todayStr := by
  simp only [flattenLeg]
  split
  · exact ⟨rfl, rfl, rfl, rfl⟩
  split
  · exact ⟨rfl, rfl, (placeOrder_kept ..).2.1, (placeOrder_kept ..).2.2⟩
  · exact ⟨rfl, rfl, rfl, rfl⟩

theorem flattenLeg_none (hpos : s.pos = none) : flattenLeg c s k reason = s := by
  simp only [flattenLeg, hpos]

variable (c k reason) in
theorem Straddle.Legs.flattenLeg (h : s.Legs) : (flattenLeg c s k reason).Legs := by
  intro p' hp' k'
  cases hpos : s.pos with
  | none =>
    rw [flattenLeg_none hpos] at hp' ⊢
    exact h p' hp' k'
  | some p =>
    rw [(h.flattenLeg_spec c k reason hpos).1] at hp'
    rw [← Option.some.inj hp', (flattenLeg_kept ..).1]
    simp only [Combo.emptied]
    split
    · exact ⟨le_refl _, fun _ => rfl⟩
    · exact h p hpos k'

variable (c k reason) in
theorem Straddle.Sound.flattenLeg (h : s.Sound day) : (flattenLeg c s k reason).Sound day := by
  cases hpos : s.pos with
  | none =>
    rw [flattenLeg_none hpos]
    exact h
  | some p =>
    obtain ⟨hpos', hnet⟩ := h.legs.flattenLeg_spec c k reason hpos
    obtain ⟨-, -, hstate, htoday⟩ := flattenLeg_kept c s k reason
    refine ⟨fun sym => ?_, h.legs.flattenLeg c k reason, fun hidle => ?_, fun lot hlot => ?_,
      htoday.trans h.today⟩
    · rw [hnet, h.books, Straddle.held, Straddle.held, hpos', hpos]
      exact held_emptied.symm
    · have hphase : (LongStraddle.flattenLeg c s k reason).base.phase = s.base.phase :=
        congrArg SavedState.phase hstate
      rw [hphase] at hidle
      exact absurd (hpos.symm.trans (h.idle hidle)) (Option.some_ne_none p)
    · exact h.lot lot ((congrArg SavedState.lotSize hstate).symm.trans hlot)

theorem Straddle.Legs.net_flattenBoth (h : s.Legs) (hpos : s.pos = some p) (sym : String) :
    net sym (flattenBoth c s reason).base.placed = net sym s.base.placed - p.held sym := by
  obtain ⟨hfirst, hnet⟩ := h.flattenLeg_spec c .ce reason hpos
  obtain ⟨-, hnet'⟩ := (h.flattenLeg c .ce reason).flattenLeg_spec c .pe reason hfirst
  have hboth : net sym (flattenBoth c s reason).base.placed = _ := hnet' sym
  rw [hboth, hnet, share_emptied, if_neg (by decide), Combo.held]
  omega

theorem Straddle.Sound.flattenBoth (h : s.Sound day) : (flattenBoth c s reason).Sound day := by
  have hlegs := (h.flattenLeg c .ce reason).flattenLeg c .pe reason
  refine ⟨fun sym => ?_, (fun _ hnone => nomatch hnone), fun _ => rfl, hlegs.lot, hlegs.today⟩
  cases hpos : s.pos with
  | none =>
    simp only [LongStraddle.flattenBoth, flattenLeg_none hpos]
    rw [h.books, Straddle.held, hpos]
    rfl
  | some p =>
    rw [h.legs.net_flattenBoth hpos, h.books, Straddle.held, hpos]
    exact sub_self _

variable (c k) in
theorem Straddle.Sound.stopLeg (prem : OptionType → ℚ) (h : s.Sound day) : (stopLeg c s prem k).Sound day := by
  simp only [LongStraddle.stopLeg]
  split
  · exact h
  split
  · exact h.flattenLeg ..
  · exact h

theorem Straddle.Sound.cutLoser {prem : OptionType → ℚ} {t : Straddle} {hit other : OptionType}
    (h : s.Sound day) (ht : cutLoser c s prem hit other = some t) : t.Sound day := by
  obtain ⟨p, hpos, ht⟩ := Option.bind_eq_some_iff.mp ht
  split at ht
  · have hcut := h.flattenLeg c other (.cutWinner other)
    have hpos' := (h.legs.flattenLeg_spec c other (.cutWinner other) hpos).1
    rw [← Option.some.inj ht]
    refine ⟨hcut.books, fun p' hp' k => ⟨(hcut.legs p' hp' k).1, fun hdead => ?_⟩, hcut.idle, hcut.lot,
      hcut.today⟩
    dsimp only at hp' hdead
    split at hdead
    · next heq =>
      rw [hpos'] at hp'
      rw [← Option.some.inj hp', heq]
      simp only [Combo.emptied, if_true]
    · exact (hcut.legs p' hp' k).2 hdead
  · cases ht

theorem Straddle.Sound.cutEither {prem : OptionType → ℚ} (h : s.Sound day) :
    (((LongStraddle.cutLoser c s prem .ce .pe).or (LongStraddle.cutLoser c s prem .pe .ce)).getD s).Sound day := by
  cases hce : LongStraddle.cutLoser c s prem .ce .pe with
  | some t => exact h.cutLoser hce
  | none =>
    cases hpe : LongStraddle.cutLoser c s prem .pe .ce with
    | some t => exact h.cutLoser hpe
    | none => exact h

theorem trail_kept (l : Leg) (premium : ℚ) :
    (l.trail premium).symbol = l.symbol ∧ (l.trail premium).qty = l.qty := by
  simp only [Leg.trail]
  split
  · split
    · exact ⟨rfl, rfl⟩
    · exact ⟨rfl, rfl⟩
  · split
    · exact ⟨rfl, rfl⟩
    · exact ⟨rfl, rfl⟩

theorem Straddle.Sound.manage (h : s.Sound day) : (manage c a s bar).Sound day := by
  simp only [LongStraddle.manage]
  split
  · exact h
  next p hpos =>
  split
  · exact h
  have htrailed : ∀ (prem : OptionType → ℚ) (premium : Option ℚ), ({ s with
      base := { s.base with currentPremium := premium }, premium := prem,
      pos := some { p with leg := fun k => (p.leg k).trail (prem k) } } : Straddle).Sound day := by
    intro prem premium
    refine ⟨fun sym => ?_, fun p' hp' k => ?_,
      fun hidle => absurd (hpos.symm.trans (h.idle hidle)) (Option.some_ne_none p), h.lot, h.today⟩
    · have hbooks := h.books sym
      simp only [Straddle.held, hpos, Option.elim_some, Combo.held, Combo.share] at hbooks
      simp only [Straddle.held, Option.elim_some, Combo.held, Combo.share, trail_kept]
      exact hbooks
    · rw [← Option.some.inj hp']
      simp only [trail_kept]
      exact h.legs p hpos k
  split
  · exact (htrailed _ _).flattenBoth
  split
  · exact (htrailed _ _).flattenBoth
  exact (((htrailed _ _).stopLeg c .ce _).stopLeg c .pe _).cutEither

variable (c a s bar) in
theorem enter_cases (expiry : String) (atm : ℚ) (lot : ℤ) :
    enter c a s bar expiry atm lot = s ∨ ∃ leg prem,
      enter c a s bar expiry atm lot = entered c s bar leg prem ∧ ∀ k, ∃ n, (leg k).qty = max 1 n * lot := by
  simp only [enter]
  exact (ite_eq_or_eq _ _ _).imp_right fun h => ⟨_, _, h, fun k => ⟨_, rfl⟩⟩

theorem Straddle.Sound.entered {leg : OptionType → Leg} {prem : OptionType → ℚ} (h : s.Sound day)
    (hidle : s.base.phase ≠ .inTrade) (hqty : ∀ k, 0 ≤ (leg k).qty) : (entered c s bar leg prem).Sound day := by
  have hbooks : ∀ sym, net sym s.base.placed = 0 := fun sym => by
    rw [h.books, Straddle.held, h.idle hidle]
    rfl
  refine ⟨fun sym => ?_, fun p hp k => ?_, fun hphase => absurd rfl hphase, fun l hl => ?_, ?_⟩
  · simp only [LongStraddle.entered]
    rw [(placeOrder_kept ..).1, (placeOrder_kept ..).1, net_append, net_append, hbooks]
    simp [net, Straddle.held, Combo.held, Combo.share]
  · rw [← Option.some.inj hp]
    exact ⟨hqty k, fun hdead => nomatch hdead⟩
  · have hstate : ∀ b : Buyer, b.toState.lotSize = b.lotSize := fun _ => rfl
    simp only [LongStraddle.entered] at hl
    rw [← hstate, (placeOrder_kept ..).2.1, (placeOrder_kept ..).2.1] at hl
    exact h.lot l hl
  · exact ((placeOrder_kept ..).2.2.trans (placeOrder_kept ..).2.2).trans h.today

theorem Straddle.Sound.checkEntry {t : Straddle} (h : s.Sound day) (hidle : s.base.phase ≠ .inTrade)
    (ht : checkEntry c a s bar = some t) : t.Sound day := by
  simp only [LongStraddle.checkEntry] at ht
  split at ht
  · exact Option.some.inj ht ▸ h
  obtain ⟨expiry, -, ht⟩ := Option.bind_eq_some_iff.mp ht
  split at ht
  · cases ht
  split at ht
  · exact Option.some.inj ht ▸ h
  obtain ⟨lot, hlot, ht⟩ := Option.map_eq_some_iff.mp ht
  rw [← ht]
  obtain hsame | ⟨leg, prem, hentered, hqty⟩ := enter_cases c a s bar expiry _ lot
  · rw [hsame]
    exact h
  · rw [hentered]
    refine h.entered hidle fun k => ?_
    obtain ⟨n, hn⟩ := hqty k
    rw [hn]
    exact mul_nonneg (zero_le_one.trans (le_max_left 1 n)) (h.lot lot (Option.filter_eq_some_iff.mp hlot).1)

theorem Straddle.Sound.rebase {b : Buyer} (h : s.Sound day) (hplaced : b.placed = s.base.placed)
    (hlot : b.lotSize = s.base.lotSize) (htoday : b.todayStr = s.base.todayStr)
    (hphase : b.phase ≠ .inTrade → s.base.phase ≠ .inTrade) :
    ({ s with base := b } : Straddle).Sound day := by
  refine ⟨fun sym => ?_, h.legs, fun hidle => h.idle (hphase hidle), fun lot hl => h.lot lot (hlot ▸ hl),
    htoday.trans h.today⟩
  dsimp only
  rw [hplaced]
  exact h.books sym

theorem Straddle.Sound.on15m (h : s.Sound day) : (on15m c a s bar).straddle.Sound day := by
  simp only [LongStraddle.on15m]
  split
  · exact h.flattenBoth
  split
  · exact h.flattenBoth
  have harmed : (if s.base.phase = .buildingOr then { s with base := { s.base with phase := .armed } }
      else s).Sound day := by
    split
    · next hphase => exact h.rebase rfl rfl rfl fun _ => by rw [hphase]; decide
    · exact h
  generalize (if s.base.phase = .buildingOr then _ else s : Straddle) = t at harmed ⊢
  split
  · exact harmed.manage
  · next hphase =>
    split
    · split
      · exact harmed
      · next t' ht' => exact harmed.checkEntry (by rw [hphase]; decide) ht'
    · exact harmed
  · exact harmed

theorem Straddle.Sound.onCandle (h : s.Sound day) : (onCandle c a s bar).straddle.Sound day := by
  simp only [LongStraddle.onCandle]
  split
  · split
    · exact h.manage
    split
    · exact Straddle.Sound.on15m (h.rebase rfl rfl rfl id)
    · exact h.rebase rfl rfl rfl id
  · exact h.on15m

end Books

section Runs

variable {c : Config} {d : Desk} {day : String}

inductive Visit
  | candle (bar : Candle) (answers : Answers) (stores : Bool)
  | restart (start : Start)

def Visit.events : Visit → List Event
  | .candle bar a stores => [.candle bar a stores]
  | .restart start => [.stop true, .restart start]

structure Resolved (day : String) (start : Start) : Prop where
  today : start.todayStr = day
  lot : ∃ lot, start.lotSize = some lot ∧ 0 < lot
  step : start.strikeStep.isSome

structure Desk.Sound (day : String) (d : Desk) : Prop where
  fresh : d.straddle = none → d.cache.get day = none ∧ d.placed = []
  sound : ∀ s, d.straddle = some s → s.Sound day
  placed : ∀ s, d.straddle = some s → d.placed = s.base.placed

theorem onStart_spec {start : Start} (h : Resolved day start) (capital : ℚ) (placed : List Placed)
    (cached : Option Saved) :
    ∃ s, ({ base := { backtestCapital := capital, placed := placed } } : Straddle).onStart start cached = some s ∧
      s.base.placed = placed ∧ s.base.todayStr = day ∧ (∀ lot, s.base.lotSize = some lot → 0 ≤ lot) ∧
      s.pos = cached.bind Saved.pos ∧ (∀ k, s.live k = s.pos.isSome) ∧
      s.base.phase = cached.elim .buildingOr fun saved => saved.base.phase := by
  obtain ⟨lot, hlot, hpos⟩ := h.lot
  obtain ⟨step, hstep⟩ := Option.isSome_iff_exists.mp h.step
  have hne : lot ≠ 0 := hpos.ne'
  cases cached with
  | none =>
    let base : Buyer :=
      { backtestCapital := capital, placed := placed, lotSize := some lot, step := step,
        todayStr := start.todayStr }
    refine ⟨{ base := base }, ?_, rfl, h.today, fun l hl => ?_, rfl, fun _ => rfl, rfl⟩
    · simp only [Straddle.onStart, Buyer.onStart, hstep, hlot, Option.map_some, Option.map_none, Option.all_some,
        decide_eq_true_eq, if_neg hne, base]
    · rw [← Option.some.inj hl]
      exact hpos.le
  | some saved =>
    let base : Buyer := Buyer.fromState
      { backtestCapital := capital, placed := placed, lotSize := some lot, step := step,
        todayStr := start.todayStr }
      saved.base (some lot)
    refine ⟨{ base := base, pos := saved.pos, live := fun _ => saved.pos.isSome, entryTs := saved.entryTs }, ?_,
      rfl, h.today, fun l hl => ?_, rfl, fun _ => rfl, rfl⟩
    · simp only [Straddle.onStart, Buyer.onStart, hstep, hlot, Option.map_some, Option.all_some,
        decide_eq_true_eq, if_neg hne, base]
    · simp only [Buyer.fromState, if_neg hne, base] at hl
      rw [← Option.some.inj hl]
      exact hpos.le

theorem Desk.Sound.candle {bar : Candle} {a : Answers} {stores : Bool} (h : d.Sound day) :
    (d.step c (.candle bar a stores)).Sound day := by
  cases hs : d.straddle with
  | none =>
    have hsame : d.step c (.candle bar a stores) = d := by simp only [Desk.step, hs]
    rw [hsame]
    exact h
  | some s =>
    simp only [Desk.step, hs]
    refine ⟨fun hnone => absurd hnone (Option.some_ne_none _), fun s' hs' => ?_, fun s' hs' => ?_⟩
    · rw [← Option.some.inj hs']
      exact (h.sound s hs).onCandle
    · rw [← Option.some.inj hs']

theorem Desk.restored_sound {straddle : Option Straddle} {cache : Dict String Saved} {placed : List Placed}
    {start : Start} (hstart : Resolved day start)
    (hbooks : ∀ sym, net sym placed = ((cache.get day).bind Saved.pos).elim 0 (·.held sym))
    (hlegs : ∀ p, (cache.get day).bind Saved.pos = some p → ∀ k, 0 ≤ (p.leg k).qty)
    (hidle : ((cache.get day).elim .buildingOr fun saved => saved.base.phase) ≠ Phase.inTrade →
      (cache.get day).bind Saved.pos = none) :
    (Desk.step c ⟨straddle, cache, placed⟩ (.restart start)).Sound day := by
  simp only [Desk.step, hstart.today]
  obtain ⟨s, hs, hplaced, htoday, hlot, hpos, hlive, hphase⟩ :=
    onStart_spec hstart c.backtestInitialCapital placed (cache.get day)
  rw [hs]
  refine ⟨fun hnone => absurd hnone (Option.some_ne_none s), fun s' hs' => ?_, fun s' hs' => ?_⟩
  · rw [← Option.some.inj hs']
    refine ⟨fun sym => ?_, fun p hp k => ?_, fun hne => ?_, hlot, htoday⟩
    · rw [hplaced, hbooks, Straddle.held, hpos]
    · refine ⟨hlegs p (hpos ▸ hp) k, fun hdead => ?_⟩
      rw [hlive, hp] at hdead
      cases hdead
    · rw [hpos]
      exact hidle (hphase ▸ hne)
  · rw [← Option.some.inj hs', hplaced]

theorem Desk.Sound.restart {start : Start} (hid : c.strategyId ≠ "") (hday : day ≠ "") (h : d.Sound day)
    (hstart : Resolved day start) : ((d.step c (.stop true)).step c (.restart start)).Sound day := by
  cases hs : d.straddle with
  | none =>
    obtain ⟨hcache, hplaced⟩ := h.fresh hs
    have hstop : d.step c (.stop true) = ⟨none, d.cache, d.placed⟩ := by
      simp only [Desk.step, hs]
      rw [← hs]
    rw [hstop]
    refine Desk.restored_sound hstart (fun sym => ?_) (fun p hp => ?_) fun _ => ?_
    · rw [hcache, hplaced]
      rfl
    · rw [hcache] at hp
      cases hp
    · rw [hcache]
      rfl
  | some s =>
    have hsound := h.sound s hs
    let saved : Saved := ⟨s.base.toState, s.pos, s.entryTs⟩
    have hwrite : s.persist c true d.cache = d.cache.set day saved := by
      rw [Straddle.persist, hsound.today, if_neg (by simp [hid, hday])]
    have hstop : d.step c (.stop true) = ⟨some s, d.cache.set day saved, d.placed⟩ := by
      simp only [Desk.step, hs, hwrite]
    have hget : (d.cache.set day saved).get day = some saved := by rw [Dict.get_set, if_pos rfl]
    rw [hstop]
    refine Desk.restored_sound hstart (fun sym => ?_) (fun p hp k => ?_) fun hne => ?_
    · rw [hget, h.placed s hs]
      exact hsound.books sym
    · rw [hget] at hp
      exact (hsound.legs p hp k).1
    · rw [hget] at hne ⊢
      exact hsound.idle hne

theorem Desk.Sound.visits (hid : c.strategyId ≠ "") (hday : day ≠ "") (h : d.Sound day) {visits : List Visit}
    (hvisits : ∀ start, .restart start ∈ visits → Resolved day start) :
    (d.run c (visits.flatMap Visit.events)).Sound day := by
  induction visits generalizing d with
  | nil => exact h
  | cons v visits ih =>
    have hrest : ∀ {d : Desk}, d.Sound day → (d.run c (visits.flatMap Visit.events)).Sound day :=
      fun h => ih h fun start hstart => hvisits start (List.mem_cons_of_mem _ hstart)
    cases v with
    | candle bar a stores => exact hrest h.candle
    | restart start => exact hrest (h.restart hid hday (hvisits start (List.mem_cons_self ..)))

theorem Desk.Sound.net_eq_held (h : d.Sound day) (sym : String) :
    net sym d.placed = d.straddle.elim 0 (·.held sym) := by
  cases hs : d.straddle with
  | none =>
    rw [(h.fresh hs).2]
    rfl
  | some s =>
    rw [h.placed s hs]
    exact (h.sound s hs).books sym

theorem Desk.Sound.held_nonneg (h : d.Sound day) (sym : String) : 0 ≤ d.straddle.elim 0 (·.held sym) := by
  cases hs : d.straddle with
  | none => exact le_refl _
  | some s =>
    rw [Option.elim_some, Straddle.held]
    cases hpos : s.pos with
    | none => exact le_refl _
    | some p => exact p.held_nonneg fun k => ((h.sound s hs).legs p hpos k).1

def heldConfig : Config :=
  { strategyId := "B3", capital := 100000, slPct := 0, timeStopMin := 45, maxTradesPerDay := 1 }

def heldBar (minute : ℤ) : Candle :=
  { interval := "15m", openPrice := 20000, high := 20000, low := 20000, close := 20000,
    timestamp := minute * 60000000 }

def heldStart : Start := { lotSize := some 25, strikeStep := some 50, todayStr := "20250102" }

def heldAnswers : Answers := { optionSymbol := fun _ _ k => k.value, optionLtp := fun _ _ _ => 100 }

def heldVisits : List Visit :=
  [.restart heldStart, .candle (heldBar 570) heldAnswers true, .restart heldStart, .candle (heldBar 940) {} true]

structure Ends (c : Config) (bar : Candle) (a : Answers) : Prop where
  long : ¬FiveMinutes c.toBuyerConfig bar
  ended : isKillSwitched c.toBuyerConfig a = true ∨ c.squareOff ≤ bar.time

structure Crash where
  start : Start
  bar : Candle
  answers : Answers
  stores : Bool

def Crash.events (x : Crash) : List Event := [.restart x.start, .candle x.bar x.answers x.stores]

theorem onCandle_of_ends {s : Straddle} {bar : Candle} {a : Answers} (h : Ends c bar a) :
    ∃ reason, onCandle c a s bar = ⟨flattenBoth c s reason, false⟩ := by
  simp only [onCandle, if_neg h.long, on15m]
  cases hkill : isKillSwitched c.toBuyerConfig a with
  | true => exact ⟨_, rfl⟩
  | false =>
    have htime := h.ended.resolve_left (by rw [hkill]; exact Bool.false_ne_true)
    exact ⟨_, by rw [if_neg Bool.false_ne_true, if_pos htime]⟩

theorem Desk.crash {saved : Saved} {p : Combo} {x : Crash} (hcache : d.cache.get day = some saved)
    (hpos : saved.pos = some p) (hqty : ∀ k, 0 ≤ (p.leg k).qty) (hstart : Resolved day x.start)
    (hends : Ends c x.bar x.answers) (sym : String) :
    (d.run c x.events).cache = d.cache ∧
      net sym (d.run c x.events).placed = net sym d.placed - p.held sym := by
  obtain ⟨s, hs, hplaced, -, -, hpos', hlive, -⟩ :=
    onStart_spec hstart c.backtestInitialCapital d.placed (d.cache.get day)
  have hheld : s.pos = some p := by rw [hpos', hcache]; exact hpos
  obtain ⟨reason, hcandle⟩ := onCandle_of_ends (s := s) hends
  have hrun : d.run c x.events =
      ⟨some (flattenBoth c s reason), d.cache, (flattenBoth c s reason).base.placed⟩ := by
    simp only [Desk.run, Crash.events, List.foldl_cons, List.foldl_nil, Desk.step, hstart.today, hs, hcandle]
    rfl
  rw [hrun]
  have hlegs : s.Legs := by
    intro p' hp' k
    rw [hheld] at hp'
    rw [← Option.some.inj hp']
    exact ⟨hqty k, fun hdead => by rw [hlive, hheld] at hdead; cases hdead⟩
  refine ⟨rfl, (hlegs.net_flattenBoth hheld sym).trans ?_⟩
  rw [hplaced]

def heldEvents : List Event := [.restart heldStart, .candle (heldBar 570) heldAnswers true]

def heldCrash : Crash := ⟨heldStart, heldBar 940, {}, true⟩

end Runs

end LongStraddle

end Trademetrix.Strategies
