import Trademetrix.Alternation
import Trademetrix.Strategies.Trades

/-!
# A day of trades

What the moves keep: a position is open exactly in a trade, every purchase is sold in
full before the next, the purchases keep to the limits of the day, and the stop is given
by the best premium of the position alone. A strategy keeps this over its restarts as
long as the cache takes its state.
-/

namespace Trademetrix.Strategies

open Relation (ReflTransGen)
open Engine (OptionType OrderSide)

section Stops

variable (c : BuyerConfig) (p : Position)

def stopAt (entry r peak : ℚ) : ℚ :=
  if entry + r ≤ peak then max entry (peak * (1 - c.trailGivebackPct / 100)) else entry - r

structure Position.Sound : Prop where
  entry : 0 < p.entry
  risk : 0 < p.r
  peak : p.entry ≤ p.peak
  armed : p.beArmed = true ↔ p.entry + p.r ≤ p.peak
  stop : p.sl = stopAt c p.entry p.r p.peak

structure Position.Later (p q : Position) : Prop where
  symbol : q.symbol = p.symbol
  qty : q.qty = p.qty
  entry : q.entry = p.entry
  risk : q.r = p.r
  target : q.target = p.target
  peak : p.peak ≤ q.peak
  stop : p.sl ≤ q.sl

variable {c p} {q : Position}

theorem Position.Later.refl : p.Later p := ⟨rfl, rfl, rfl, rfl, rfl, le_refl _, le_refl _⟩

theorem Position.Later.trans {q' : Position} (h : p.Later q) (h' : q.Later q') : p.Later q' :=
  ⟨h'.symbol.trans h.symbol, h'.qty.trans h.qty, h'.entry.trans h.entry, h'.risk.trans h.risk,
    h'.target.trans h.target, h.peak.trans h'.peak, h.stop.trans h'.stop⟩

theorem giveback_mono {entry peak peak' g : ℚ} (hentry : 0 < entry) (hpeak : entry ≤ peak)
    (hle : peak ≤ peak') : max entry (peak * g) ≤ max entry (peak' * g) := by
  refine max_le (le_max_left _ _) ?_
  cases le_total 0 g with
  | inl hg => exact (mul_le_mul_of_nonneg_right hle hg).trans (le_max_right _ _)
  | inr hg =>
    have hneg : peak * g ≤ 0 := mul_nonpos_of_nonneg_of_nonpos (hentry.le.trans hpeak) hg
    exact (hneg.trans hentry.le).trans (le_max_left _ _)

theorem stopAt_mono {entry r peak peak' : ℚ} (hentry : 0 < entry) (hrisk : 0 < r)
    (hpeak : entry ≤ peak) (hle : peak ≤ peak') : stopAt c entry r peak ≤ stopAt c entry r peak' := by
  simp only [stopAt]
  by_cases hbefore : entry + r ≤ peak
  · rw [if_pos hbefore, if_pos (hbefore.trans hle)]
    exact giveback_mono hentry hpeak hle
  · rw [if_neg hbefore]
    split
    · have hbelow : entry - r ≤ entry := by linarith
      exact hbelow.trans (le_max_left _ _)
    · exact le_refl _

theorem Bought.sound {key : Key} {L : ℤ → Prop} (h : Bought key c L p) : p.Sound c := by
  have hpeak : ¬ p.entry + p.r ≤ p.peak := by
    have hrisk := h.risk
    rw [h.peak]
    linarith
  refine ⟨h.entry, h.risk, h.peak.ge, ?_, ?_⟩
  · rw [h.unarmed]
    exact ⟨fun harmed => absurd harmed Bool.false_ne_true, fun hle => absurd hle hpeak⟩
  · rw [stopAt, if_neg hpeak]
    exact h.stop

theorem trail_cases (p : Position) (premium : ℚ) :
    (p.trail c premium).symbol = p.symbol ∧ (p.trail c premium).qty = p.qty ∧
      (p.trail c premium).entry = p.entry ∧ (p.trail c premium).r = p.r ∧
      (p.trail c premium).target = p.target ∧ (p.trail c premium).peak = max p.peak premium ∧
      ((p.trail c premium).beArmed = true ↔ p.beArmed = true ∨ p.entry + p.r ≤ premium) ∧
      (p.trail c premium).sl =
        if p.beArmed = true then max p.sl (max p.peak premium * (1 - c.trailGivebackPct / 100))
        else if p.entry + p.r ≤ premium then
          max p.entry (max p.peak premium * (1 - c.trailGivebackPct / 100))
        else p.sl := by
  by_cases harmed : p.beArmed = true <;> by_cases hreached : p.entry + p.r ≤ premium <;>
    simp [Position.trail, harmed, hreached]

theorem Position.Sound.trail (h : p.Sound c) (premium : ℚ) : (p.trail c premium).Sound c := by
  obtain ⟨-, hqty, hentry, hrisk, -, hpeak, harmed, hstop⟩ := trail_cases (c := c) p premium
  have hreached : p.entry + p.r ≤ max p.peak premium ↔ p.beArmed = true ∨ p.entry + p.r ≤ premium := by
    rw [le_max_iff, h.armed]
  refine ⟨by rw [hentry]; exact h.entry, by rw [hrisk]; exact h.risk, ?_, ?_, ?_⟩
  · rw [hentry, hpeak]
    exact h.peak.trans (le_max_left _ _)
  · rw [hentry, hrisk, hpeak, hreached, harmed]
  · rw [hstop, hentry, hrisk, hpeak, stopAt]
    by_cases hbefore : p.beArmed = true
    · have hat := h.armed.mp hbefore
      rw [if_pos hbefore, if_pos (hreached.mpr (.inl hbefore)), h.stop, stopAt, if_pos hat]
      have hmono := giveback_mono (g := 1 - c.trailGivebackPct / 100) h.entry h.peak
        (le_max_left p.peak premium)
      apply le_antisymm
      · exact max_le hmono (le_max_right _ _)
      · exact max_le ((le_max_left _ _).trans (le_max_left _ _)) (le_max_right _ _)
    · rw [if_neg hbefore]
      by_cases hnow : p.entry + p.r ≤ premium
      · rw [if_pos hnow, if_pos (hreached.mpr (.inr hnow))]
      · have hnot : ¬ p.entry + p.r ≤ max p.peak premium := fun hle =>
          (hreached.mp hle).elim hbefore hnow
        rw [if_neg hnow, if_neg hnot, h.stop, stopAt, if_neg fun hle => hbefore (h.armed.mpr hle)]

theorem Position.Sound.later (h : p.Sound c) (h' : q.Sound c) (hsymbol : q.symbol = p.symbol)
    (hqty : q.qty = p.qty) (hentry : q.entry = p.entry) (hrisk : q.r = p.r)
    (htarget : q.target = p.target) (hpeak : p.peak ≤ q.peak) : p.Later q := by
  refine ⟨hsymbol, hqty, hentry, hrisk, htarget, hpeak, ?_⟩
  rw [h.stop, h'.stop, hentry, hrisk]
  exact stopAt_mono h.entry h.risk h.peak hpeak

theorem Position.Sound.trail_later (h : p.Sound c) (premium : ℚ) : p.Later (p.trail c premium) := by
  obtain ⟨hsymbol, hqty, hentry, hrisk, htarget, hpeak, -⟩ := trail_cases (c := c) p premium
  exact h.later (h.trail premium) hsymbol hqty hentry hrisk htarget (hpeak ▸ le_max_left _ _)

end Stops

section Days

def IsBuy (x : Placed) : Prop := x.side = .buy

instance (x : Placed) : Decidable (IsBuy x) := inferInstanceAs (Decidable (_ = _))

def Sells (x y : Placed) : Prop := y.side = .sell ∧ y.symbol = x.symbol ∧ y.qty = x.qty

def Position.From (p : Position) (x : Placed) : Prop := ∃ tag, x = buyOrder p tag

variable {key : Key} {c : BuyerConfig} {T : Terms} {t u : Trading}

structure Trading.Sound (key : Key) (c : BuyerConfig) (t : Trading) : Prop where
  inTrade : t.phase = .inTrade ↔ t.pos.isSome
  log : ∃ o, Alternates IsBuy Sells t.placed o ∧ Option.Rel Position.From t.pos o
  count : (t.placed.countP (IsBuy ·) : ℤ) = t.tradesToday
  limit : t.tradesToday ≤ max c.maxTradesPerDay 0
  dirs : key.Once → (t.tradedDirs.card : ℤ) = t.tradesToday
  position : ∀ p, t.pos = some p → p.Sound c

theorem Trading.Sound.pos_eq_none (h : t.Sound key c) (hphase : t.phase = .armed) : t.pos = none := by
  cases hpos : t.pos with
  | none => rfl
  | some q =>
    have hin := h.inTrade.mpr (by rw [hpos]; rfl)
    rw [hphase] at hin
    cases hin

theorem Trading.Sound.move (h : t.Sound key c) (hmove : Move key c T t u) : u.Sound key c := by
  obtain ⟨o, hlog, hfrom⟩ := h.log
  cases hmove with
  | arm hphase =>
    have hnone : ¬ t.pos.isSome := fun hsome => by
      rw [h.inTrade.mpr hsome] at hphase
      cases hphase
    exact ⟨⟨fun hin => absurd hin (by decide : Phase.armed ≠ .inTrade), fun hsome => absurd hsome hnone⟩,
      h.log, h.count, h.limit, h.dirs, h.position⟩
  | @enter p book tag htag hphase htrades honce hbought hbook =>
    have hclosed : t.pos = none := h.pos_eq_none hphase
    rw [hclosed] at hfrom
    cases hfrom
    refine ⟨⟨fun _ => rfl, fun _ => rfl⟩, ⟨_, hlog.opens rfl, .some ⟨tag, rfl⟩⟩, ?_, ?_, ?_, ?_⟩
    · have hbuy : [buyOrder p tag].countP (IsBuy ·) = 1 := rfl
      rw [List.countP_append, hbuy, Nat.cast_add, h.count]
      rfl
    · exact (Int.add_one_le_iff.mpr htrades).trans (le_max_left _ _)
    · intro hkey
      rw [Finset.card_insert_of_notMem (honce hkey), Nat.cast_add, h.dirs hkey]
      rfl
    · intro q hq
      exact Option.some.inj hq ▸ hbought.sound
  | @note p ts held hpos =>
    have hp := h.position p hpos
    have hin := h.inTrade.mpr (by rw [hpos]; rfl)
    rw [hpos] at hfrom
    cases hfrom with
    | @some _ x hx =>
      refine ⟨⟨fun _ => rfl, fun _ => hin⟩, ⟨_, hlog, .some hx⟩, h.count, h.limit, h.dirs, ?_⟩
      intro q hq
      rw [← Option.some.inj hq]
      exact ⟨hp.entry, hp.risk, hp.peak, hp.armed, hp.stop⟩
  | @trail p premium hpos =>
    have hp := h.position p hpos
    have hin := h.inTrade.mpr (by rw [hpos]; rfl)
    have hlater := hp.trail_later premium
    rw [hpos] at hfrom
    cases hfrom with
    | @some _ x hx =>
      refine ⟨⟨fun _ => rfl, fun _ => hin⟩, ⟨_, hlog, .some ?_⟩, h.count, h.limit, h.dirs, ?_⟩
      · obtain ⟨tag, hx⟩ := hx
        refine ⟨tag, hx.trans ?_⟩
        simp only [buyOrder, hlater.symbol, hlater.qty, hlater.entry]
      · intro q hq
        exact Option.some.inj hq ▸ hp.trail premium
  | @exit p book reason premium phase hpos hreason hphase hbook =>
    rw [hpos] at hfrom
    cases hfrom with
    | @some _ x hx =>
      obtain ⟨tag, hx⟩ := hx
      have hsells : Sells x (sellOrder p reason premium) := by
        rw [hx]
        exact ⟨rfl, rfl, rfl⟩
      refine ⟨⟨fun hin => ?_, fun hsome => absurd hsome Bool.false_ne_true⟩, ⟨_, hlog.closes hsells, .none⟩,
        ?_, h.limit, h.dirs, fun q hq => absurd hq (Option.some_ne_none q).symm⟩
      · dsimp only at hin
        cases hphase with
        | inl heq => rw [heq] at hin; cases hin
        | inr heq => rw [heq] at hin; cases hin
      · have hsell : [sellOrder p reason premium].countP (IsBuy ·) = 0 := rfl
        rw [List.countP_append, hsell]
        exact h.count

theorem Trading.Sound.moves (h : t.Sound key c) (hmoves : Moves key c T t u) : u.Sound key c := by
  induction hmoves with
  | refl => exact h
  | tail _ hmove ih => exact ih.move hmove

theorem Move.placed_prefix (hmove : Move key c T t u) : t.placed <+: u.placed := by
  cases hmove with
  | arm | note | trail => exact List.prefix_rfl
  | enter | exit => exact List.prefix_append _ _

theorem placed_prefix (hmoves : Moves key c T t u) : t.placed <+: u.placed := by
  induction hmoves with
  | refl => exact List.prefix_rfl
  | tail _ hmove ih => exact ih.trans hmove.placed_prefix

theorem Trading.Sound.stays (h : t.Sound key c) (hmoves : Moves key c T t u) (hsame : u.placed = t.placed)
    {p : Position} (hpos : t.pos = some p) : ∃ q, u.pos = some q ∧ p.Later q := by
  induction hmoves with
  | refl => exact ⟨p, hpos, .refl⟩
  | @tail v w hbefore hmove ih =>
    have hv : v.placed = t.placed := by
      apply List.IsPrefix.eq_of_length_le
      · exact hsame ▸ hmove.placed_prefix
      · rw [← hsame]
        exact (hsame ▸ placed_prefix hbefore).length_le
    obtain ⟨q, hq, hlater⟩ := ih hv
    have hsound := (h.moves hbefore).position q hq
    cases hmove with
    | arm => exact ⟨q, hq, hlater⟩
    | enter | exit =>
      rw [← hv] at hsame
      exact absurd (congrArg List.length hsame) (by simp)
    | note ts held hpos' =>
      rw [hq] at hpos'
      cases hpos'
      exact ⟨_, rfl, hlater.trans ⟨rfl, rfl, rfl, rfl, rfl, le_refl _, le_refl _⟩⟩
    | trail premium hpos' =>
      rw [hq] at hpos'
      cases hpos'
      exact ⟨_, rfl, hlater.trans (hsound.trail_later premium)⟩

end Days

section Desks

def Desk.cached (d : Desk) (day : String) (lotSize : Option ℤ := none) (book : Book := ⟨[], 0⟩) : Trading :=
  match d.cache.get day with
  | none => ⟨day, lotSize, book, .buildingOr, none, 0, ∅, d.placed⟩
  | some s => ⟨day, lotSize, book, s.phase, s.pos, s.tradesToday, s.tradedDirs, d.placed⟩

def Event.OnDay (day : String) : Event → Prop
  | .candle _ _ stores => stores = true
  | .restart start _ => start.todayStr = day

variable {key : Key} {c : BuyerConfig} {T : Terms} {L : ℤ → Prop} {a : Answers} {b : Buyer}
  {bar : Candle} {d : Desk} {e : Event} {day : String}

theorem on15m_persists :
    (on15m key c a b bar).persists = true ∨ (on15m key c a b bar).buyer.trading = b.trading := by
  cases key with
  | momentumBreakoutBuyer =>
    simp only [on15m, MomentumBreakoutBuyer.on15m]
    split
    · exact .inl rfl
    split
    · exact .inl rfl
    split
    · exact .inr rfl
    · exact .inl rfl
  | trendRiderBuyer =>
    simp only [on15m, TrendRiderBuyer.on15m]
    split
    · exact .inl rfl
    split
    · exact .inl rfl
    split
    · exact .inr rfl
    · exact .inl rfl
  | heroZero interval =>
    simp only [on15m, HeroZero.on15m]
    split
    · exact .inl rfl
    split
    · exact .inl rfl
    split
    · exact .inr rfl
    split
    · exact .inr rfl
    · exact .inl rfl

theorem onCandle_persists :
    (onCandle key c a b bar).persists = true ∨ (onCandle key c a b bar).buyer.trading = b.trading := by
  simp only [onCandle]
  split
  · split
    · exact .inl rfl
    split
    · exact on15m_persists (b := { b with fiveBuffer := [] })
    · exact .inl rfl
  · exact on15m_persists

theorem Moves.eq_of_done {t u : Trading} (hphase : t.phase = .done) (hpos : t.pos = none)
    (h : Moves key c T t u) : u = t := by
  induction h with
  | refl => rfl
  | tail _ hmove ih =>
    rw [ih] at hmove
    cases hmove with
    | arm hphase' => exact absurd (hphase.symm.trans hphase') nofun
    | enter _ _ hphase' => exact absurd (hphase.symm.trans hphase') nofun
    | note _ _ hpos' | trail _ hpos' | exit _ _ _ hpos' => exact absurd (hpos.symm.trans hpos') nofun

theorem Moves.day_eq {t u : Trading} (h : Moves key c T t u) : u.day = t.day := by
  induction h with
  | refl => rfl
  | tail _ hmove ih => cases hmove <;> exact ih

theorem Moves.lotSize_eq {t u : Trading} (h : Moves key c T t u) : u.lotSize = t.lotSize := by
  induction h with
  | refl => rfl
  | tail _ hmove ih => cases hmove <;> exact ih

theorem Move.unbooked {t u : Trading} (lotSize : Option ℤ) (book : Book) (h : Move key c T t u) :
    Move key c { T with booked := False } { t with lotSize := lotSize, book := book }
      { u with lotSize := lotSize, book := book } := by
  cases h with
  | arm hphase => exact .arm hphase
  | enter tag htag hphase htrades honce hbought => exact .enter tag htag hphase htrades honce hbought False.elim
  | note ts held hpos => exact .note ts held hpos
  | trail premium hpos => exact .trail premium hpos
  | exit reason premium phase hpos hreason hphase =>
    exact .exit reason premium phase hpos hreason hphase False.elim

theorem Moves.unbooked {t u : Trading} (lotSize : Option ℤ) (book : Book) (h : Moves key c T t u) :
    Moves key c { T with booked := False } { t with lotSize := lotSize, book := book }
      { u with lotSize := lotSize, book := book } := by
  induction h with
  | refl => exact .refl
  | tail _ hmove ih => exact ih.tail (hmove.unbooked lotSize book)

section Cached

variable {lotSize : Option ℤ} {book : Book}

theorem Desk.cached_day : (d.cached day lotSize book).day = day := by
  rw [Desk.cached]
  split <;> rfl

variable (d day) in
theorem Desk.cached_placed : (d.cached day lotSize book).placed = d.placed := by
  rw [Desk.cached]
  split <;> rfl

theorem Desk.cached_with (lotSize' : Option ℤ) (book' : Book) :
    { d.cached day lotSize book with lotSize := lotSize', book := book' } = d.cached day lotSize' book' := by
  simp only [Desk.cached]
  cases d.cache.get day <;> rfl

end Cached

structure Desk.Kept (L : ℤ → Prop) (day : String) (d : Desk) : Prop where
  placed : ∀ b, d.buyer = some b → b.placed = d.placed
  trading : ∀ b, d.buyer = some b →
    (b.trading = d.cached day b.lotSize b.trading.book ∧ ∀ lot, b.lotSize = some lot → L lot) ∨
      b.todayStr = "" ∧ b.phase = .done ∧ b.pos = none
  saved : ∀ s, d.cache.get day = some s → ∀ lot, s.lotSize = some lot → L lot

/-- The lot sizes a start is told are in `L`. -/
def Event.LotsIn (L : ℤ → Prop) : Event → Prop
  | .candle _ _ _ => True
  | .restart start _ => ∀ lot, start.lotSize = some lot → L lot

theorem Buyer.fromState_lotSize {s : SavedState} {lotSize : Option ℤ} (hlot : ∀ l, lotSize = some l → L l)
    (hsaved : ∀ l, s.lotSize = some l → L l) (l : ℤ) (h : (b.fromState s lotSize).lotSize = some l) :
    L l := by
  simp only [Buyer.fromState] at h
  split at h
  · split at h
    · exact hsaved l (Option.filter_eq_some_iff.mp h).1
    · exact hlot l h
  · exact hsaved l (Option.filter_eq_some_iff.mp h).1

theorem Desk.Kept.restart (h : d.Kept L day) {start : Start} (isExpiry : Bool) (hstart : start.todayStr = day)
    (hlot : ∀ lot, start.lotSize = some lot → L lot) :
    (d.step key c (.restart start isExpiry)).Kept L day := by
  refine ⟨fun b hb => ?_, fun b hb => ?_, h.saved⟩
  · simp only [Desk.step, Buyer.onStart, Option.map_eq_some_iff] at hb
    obtain ⟨step, -, hb⟩ := hb
    subst hb
    split
    · rfl
    split <;> rfl
  · simp only [Desk.step, Buyer.onStart, Option.map_eq_some_iff] at hb
    obtain ⟨step, -, hb⟩ := hb
    subst hb
    split
    · exact .inr ⟨rfl, rfl, rfl⟩
    · refine .inl ?_
      rw [hstart]
      simp only [Desk.step, Desk.cached]
      cases hget : d.cache.get day with
      | none => exact ⟨rfl, hlot⟩
      | some s => exact ⟨rfl, fun l => Buyer.fromState_lotSize hlot (h.saved s hget) l⟩

def Desk.after (c : BuyerConfig) (d : Desk) (turn : Turn) (stores : Bool) : Desk where
  buyer := some turn.buyer
  cache := if turn.persists then turn.buyer.persist c stores d.cache else d.cache
  placed := turn.buyer.placed

variable (key c a bar) in
theorem Desk.step_candle (hb : d.buyer = some b) (stores : Bool) :
    d.step key c (.candle bar a stores) = d.after c (onCandle key c a b bar) stores := by
  simp only [Desk.step, hb]
  rfl

theorem Desk.after_idle {turn : Turn} {stores : Bool} (htoday : turn.buyer.todayStr = "")
    (hplaced : turn.buyer.placed = d.placed) :
    d.after c turn stores = { d with buyer := some turn.buyer } := by
  have hcache : turn.buyer.persist c stores d.cache = d.cache := by
    rw [Buyer.persist, if_pos (.inl htoday)]
  simp only [Desk.after, hcache, ite_self, hplaced]

theorem Desk.after_started {turn : Turn} {stores : Bool} (hid : c.strategyId ≠ "") (hday : day ≠ "")
    (hstores : stores = true) (hplaced : b.placed = d.placed)
    (hkept : b.trading = d.cached day b.lotSize b.trading.book)
    (htoday : turn.buyer.todayStr = b.todayStr)
    (hturn : turn.persists = true ∨ turn.buyer.trading = b.trading) :
    (d.after c turn stores).cached day turn.buyer.lotSize turn.buyer.trading.book = turn.buyer.trading ∧
      ((d.after c turn stores).cache.get day = some turn.buyer.toState ∨
        (d.after c turn stores).cache = d.cache) := by
  have hdayb : b.todayStr = day := (congrArg Trading.day hkept).trans cached_day
  have hdayt := htoday.trans hdayb
  by_cases hpersists : turn.persists = true
  · have hwrite : turn.buyer.persist c stores d.cache = d.cache.set day turn.buyer.toState := by
      rw [Buyer.persist, if_neg, hdayt]
      rw [hdayt, hstores]
      exact fun hor => hor.elim hday fun hor => hor.elim hid nofun
    have hget : (d.after c turn stores).cache.get day = some turn.buyer.toState := by
      simp only [Desk.after, if_pos hpersists, hwrite, Dict.get_set, if_true]
    refine ⟨?_, .inl hget⟩
    rw [Desk.cached, hget]
    exact congrArg (Trading.mk · _ _ _ _ _ _ _) hdayt.symm
  · have hsame := hturn.resolve_left hpersists
    have hlot : turn.buyer.lotSize = b.lotSize := congrArg Trading.lotSize hsame
    have horders : turn.buyer.placed = d.placed := (congrArg Trading.placed hsame).trans hplaced
    refine ⟨?_, .inr (if_neg hpersists)⟩
    simp only [Desk.after, if_neg hpersists, horders]
    rw [hsame, hlot]
    exact hkept.symm

def Event.Short (c : BuyerConfig) : Event → Prop
  | .candle bar _ _ => FiveMinutes c bar
  | .restart _ _ => True

structure Event.Fits (c : BuyerConfig) (T : Terms) (day : String) (e : Event) :
    Prop where
  onDay : e.OnDay day
  lots : e.LotsIn T.lots
  reasons : ∀ reason, T.reasons reason ∨ e.Short c ∧ reason.Final

theorem Desk.Kept.step (hid : c.strategyId ≠ "") (hday : day ≠ "") (h : d.Kept T.lots day)
    (hsound : (d.cached day).Sound key c) (he : e.Fits c T day) :
    (d.step key c e).Kept T.lots day ∧
      Moves key c { T with booked := False } (d.cached day) ((d.step key c e).cached day) := by
  have hR : ∀ reason : ExitReason, ¬reason.Final → T.reasons reason := fun reason hnot =>
    (he.reasons reason).resolve_right fun hfinal => hnot hfinal.2
  cases e with
  | restart start isExpiry => exact ⟨h.restart isExpiry he.onDay he.lots, .refl⟩
  | candle bar a stores =>
    cases hbuyer : d.buyer with
    | none =>
      simp only [Desk.step, hbuyer]
      exact ⟨h, .refl⟩
    | some b =>
      rw [Desk.step_candle key c a bar hbuyer]
      have hplaced := h.placed b hbuyer
      cases h.trading b hbuyer with
      | inr hidle =>
        obtain ⟨htoday, hphase, hpos⟩ := hidle
        have hmoves : Moves key c {} b.trading (onCandle key c a b bar).buyer.trading :=
          onCandle_moves (fun _ _ => trivial) (fun _ _ => trivial) fun _ _ _ _ => trivial
        have hsame := hmoves.eq_of_done hphase hpos
        have htoday' := (congrArg Trading.day hsame).trans htoday
        rw [Desk.after_idle htoday' ((congrArg Trading.placed hsame).trans hplaced)]
        refine ⟨⟨fun b' hb' => ?_, fun b' hb' => .inr ?_, h.saved⟩, .refl⟩
        · rw [← Option.some.inj hb']
          exact (congrArg Trading.placed hsame).trans hplaced
        · rw [← Option.some.inj hb']
          exact ⟨htoday', (congrArg Trading.phase hsame).trans hphase,
            (congrArg Trading.pos hsame).trans hpos⟩
      | inl hkept =>
        obtain ⟨hkept, hlots⟩ := hkept
        have hopen : b.phase = .inTrade ↔ b.pos.isSome := by
          have hin := hsound.inTrade
          have hnone := congrArg (fun t : Trading => { t with lotSize := none, book := ⟨[], 0⟩ }) hkept
          rw [Desk.cached_with] at hnone
          rwa [← hnone] at hin
        have hmoves : Moves key c T b.trading (onCandle key c a b bar).buyer.trading := by
          refine onCandle_moves hlots hR fun hlong reason _ hsome => ?_
          exact (he.reasons reason).resolve_right fun hshort => hlong ⟨hshort.1, hopen.mpr hsome⟩
        obtain ⟨hcached, hsaved⟩ :=
          Desk.after_started hid hday he.onDay hplaced hkept hmoves.day_eq onCandle_persists
        have hlots' : ∀ lot, (onCandle key c a b bar).buyer.lotSize = some lot → T.lots lot := by
          intro lot hlot
          exact hlots lot (hmoves.lotSize_eq.symm.trans hlot)
        refine ⟨⟨fun b' hb' => Option.some.inj hb' ▸ rfl, fun b' hb' => .inl ?_, fun s hs => ?_⟩, ?_⟩
        · rw [← Option.some.inj hb', hcached]
          exact ⟨rfl, hlots'⟩
        · cases hsaved with
          | inl hget =>
            rw [hget] at hs
            exact Option.some.inj hs ▸ hlots'
          | inr hcache =>
            rw [hcache] at hs
            exact h.saved s hs
        · have hnone := hmoves.unbooked none ⟨[], 0⟩
          rwa [hkept, ← hcached, Desk.cached_with, Desk.cached_with] at hnone

variable (key) in
theorem Desk.Kept.run (hid : c.strategyId ≠ "") (hday : day ≠ "") (h : d.Kept T.lots day)
    (hsound : (d.cached day).Sound key c) {es : List Event} (hes : ∀ e ∈ es, e.Fits c T day) :
    (d.run key c es).Kept T.lots day ∧
      Moves key c { T with booked := False } (d.cached day) ((d.run key c es).cached day) := by
  induction es generalizing d with
  | nil => exact ⟨h, .refl⟩
  | cons e es ih =>
    have hstep := h.step hid hday hsound (hes e (List.mem_cons_self ..))
    have hrest := ih hstep.1 (hsound.moves hstep.2) fun e' he' => hes e' (List.mem_cons_of_mem _ he')
    exact ⟨hrest.1, hstep.2.trans hrest.2⟩

theorem Desk.kept_nil : ({} : Desk).Kept T.lots day :=
  ⟨fun b hb => absurd hb.symm (Option.some_ne_none b), fun b hb => absurd hb.symm (Option.some_ne_none b),
    fun s hs => absurd hs.symm (Option.some_ne_none s)⟩

theorem Desk.cached_nil_sound : (({} : Desk).cached day).Sound key c := by
  have hnil : ({} : Desk).cached day = ⟨day, none, ⟨[], 0⟩, .buildingOr, none, 0, ∅, []⟩ := rfl
  rw [hnil]
  refine ⟨⟨?_, ?_⟩, ⟨none, .nil, .none⟩, rfl, le_max_right _ _, fun _ => rfl, ?_⟩
  · exact fun hin => nomatch hin
  · exact fun hsome => nomatch hsome
  · exact fun p hp => nomatch hp

variable (key) in
theorem Desk.run_sound (hid : c.strategyId ≠ "") (hday : day ≠ "") {es : List Event}
    (hes : ∀ e ∈ es, e.Fits c T day) :
    (({} : Desk).run key c es).Kept T.lots day ∧
      Moves key c { T with booked := False } (({} : Desk).cached day) ((({} : Desk).run key c es).cached day) ∧
      ((({} : Desk).run key c es).cached day).Sound key c := by
  have hrun := Desk.kept_nil.run key hid hday Desk.cached_nil_sound hes
  exact ⟨hrun.1, hrun.2, Desk.cached_nil_sound.moves hrun.2⟩

theorem Event.OnDay.fits (h : e.OnDay day) : e.Fits c {} day := by
  refine ⟨h, ?_, fun _ => .inl trivial⟩
  cases e with
  | candle bar a stores => trivial
  | restart start isExpiry => exact fun _ _ => trivial

end Desks

end Trademetrix.Strategies
