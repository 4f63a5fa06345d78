import Mathlib.Algebra.Order.Floor.Ring
import Mathlib.Data.Rat.Floor
import Mathlib.Logic.Relation
import Trademetrix.Strategies.Buyers

/-!
# The trades of a buyer

What is traded is a small machine: armed, it may buy; with a position it may note the
time, trail the stop and sell. Each strategy makes such moves only, whatever it is fed,
and a restart on the same day is no move at all.
-/

namespace Trademetrix.Strategies

open Relation (ReflTransGen)
open Engine (OptionType OrderSide)
open Text (round2)

structure Book where
  trades : List BacktestTrade
  capital : ℚ

structure Trading where
  day : String
  lotSize : Option ℤ
  book : Book
  phase : Phase
  pos : Option Position
  tradesToday : ℤ
  tradedDirs : Finset OptionType
  placed : List Placed

def Buyer.trading (b : Buyer) : Trading :=
  ⟨b.todayStr, b.lotSize, ⟨b.backtestTrades, b.backtestCapital⟩, b.phase, b.pos, b.tradesToday,
    b.tradedDirs, b.placed⟩

/-- The budgets for `n` lots of a position: its risk down to the first stop, and its outlay. -/
def Affords (c : BuyerConfig) (p : Position) (lot n : ℤ) : Prop :=
  p.r * lot * n ≤ c.capital * c.riskPerTradePct / 100 ∧
    p.entry * lot * n ≤ c.capital * c.maxOutlayPct / 100

def Key.stopPct (c : BuyerConfig) : Key → ℚ
  | .heroZero _ => 40
  | _ => c.slPct

/-- A position as it is bought: as many lots, of one of the sizes in `L`, as both budgets allow. -/
structure Bought (key : Key) (c : BuyerConfig) (L : ℤ → Prop) (p : Position) : Prop where
  entry : 0 < p.entry
  risk : 0 < p.r
  share : p.r = p.entry * key.stopPct c / 100
  stop : p.sl = p.entry - p.r
  peak : p.peak = p.entry
  unarmed : p.beArmed = false
  lots : ∃ lot n : ℤ, L lot ∧ 0 < lot ∧ 1 ≤ n ∧ p.qty = n * lot ∧ ∀ m : ℤ, m ≤ n ↔ Affords c p lot m

def Key.Once : Key → Prop
  | .heroZero _ => False
  | _ => True

theorem Key.Once.stopPct_eq {c : BuyerConfig} {key : Key} (h : key.Once) : key.stopPct c = c.slPct := by
  cases key with
  | momentumBreakoutBuyer | trendRiderBuyer => rfl
  | heroZero interval => exact h.elim

def buyOrder (p : Position) (tag : Tag) : Placed := ⟨p.symbol, .buy, p.qty, tag, some p.entry⟩

def sellOrder (p : Position) (reason : ExitReason) (premium : Option ℚ) : Placed :=
  ⟨p.symbol, .sell, p.qty, .exit reason, premium⟩

/-- What is asked of the moves: the reasons for which a position may be left, the lot sizes, and
whether the book is kept. -/
structure Terms where
  reasons : ExitReason → Prop := fun _ => True
  lots : ℤ → Prop := fun _ => True
  booked : Prop := False

def Placed.record (x : Placed) (phase : Phase) : BacktestTrade :=
  { symbol := x.symbol, side := x.side, qty := x.qty, premium := x.premium.getD 0,
    cost := x.premium.getD 0 * x.qty, tag := x.tag, phase := phase }

def Book.record (k : Book) (phase : Phase) (x : Placed) : Book :=
  let premium := x.premium.getD 0
  match x.side with
  | .buy => ⟨k.trades ++ [x.record phase], k.capital - premium * x.qty⟩
  | .sell =>
    let closed := closeLast x.symbol premium x.qty x.tag k.trades.reverse
    let pnl := match closed.2 with
      | some entryPremium => (premium - entryPremium) * x.qty
      | none => 0
    ⟨closed.1.reverse ++ [{ x.record phase with pnl := some (round2 pnl), entryPremium := closed.2 }],
      k.capital + premium * x.qty⟩

def Book.place (c : BuyerConfig) (k : Book) (phase : Phase) (x : Placed) : Book :=
  if c.backtestMode then k.record phase x else k

inductive Move (key : Key) (c : BuyerConfig) (T : Terms) :
    Trading → Trading → Prop
  | arm {t : Trading} (hphase : t.phase = .buildingOr) : Move key c T t { t with phase := .armed }
  | enter {t : Trading} {p : Position} {book : Book} (tag : Tag) (htag : ∀ reason, tag ≠ .exit reason)
      (hphase : t.phase = .armed)
      (htrades : t.tradesToday < c.maxTradesPerDay) (honce : key.Once → p.cepe ∉ t.tradedDirs)
      (hbought : Bought key c T.lots p)
      (hbook : T.booked → book = t.book.place c t.phase (buyOrder p tag)) :
      Move key c T t
        { day := t.day, lotSize := t.lotSize, book := book, phase := .inTrade, pos := some p,
          tradesToday := t.tradesToday + 1, tradedDirs := insert p.cepe t.tradedDirs,
          placed := t.placed ++ [buyOrder p tag] }
  | note {t : Trading} {p : Position} (ts : Option ℤ) (held : ℚ) (hpos : t.pos = some p) :
      Move key c T t { t with pos := some { p with entryTs := ts, heldMin := held } }
  | trail {t : Trading} {p : Position} (premium : ℚ) (hpos : t.pos = some p) :
      Move key c T t { t with pos := some (p.trail c premium) }
  | exit {t : Trading} {p : Position} {book : Book} (reason : ExitReason) (premium : Option ℚ) (phase : Phase)
      (hpos : t.pos = some p) (hreason : T.reasons reason) (hphase : phase = .armed ∨ phase = .done)
      (hbook : T.booked → book = t.book.place c t.phase (sellOrder p reason premium)) :
      Move key c T t
        { t with book := book, pos := none, phase := phase, placed := t.placed ++ [sellOrder p reason premium] }

abbrev Moves (key : Key) (c : BuyerConfig) (T : Terms) :
    Trading → Trading → Prop :=
  ReflTransGen (Move key c T)

section Steps

variable {key : Key} {c : BuyerConfig} {T : Terms} {a : Answers} {b : Buyer} {bar : Candle}

theorem moves_of_eq {t u : Trading} (h : u = t) : Moves key c T t u := h ▸ .refl

theorem recordBacktestTrade_trading (x : Placed) (hpremium : x.premium.isSome ∨ x.premium = b.currentPremium) :
    (recordBacktestTrade b x.symbol x.side x.qty x.tag x.premium).trading =
      { b.trading with book := b.trading.book.record b.phase x } := by
  have hget : x.premium.getD (b.currentPremium.getD 0) = x.premium.getD 0 := by
    cases hx : x.premium with
    | some premium => rfl
    | none =>
      rw [hx] at hpremium
      rw [← hpremium.resolve_left nofun]
      rfl
  rw [recordBacktestTrade.eq_def, Book.record, hget]
  obtain ⟨symbol, side, qty, tag, premium⟩ := x
  cases side with
  | buy => rfl
  | sell => rfl

theorem placeOrder_trading (x : Placed) (hpremium : x.premium.isSome ∨ x.premium = b.currentPremium) :
    (placeOrder c b x.symbol x.side x.qty x.tag x.premium).trading =
      { b.trading with book := b.trading.book.place c b.phase x, placed := b.placed ++ [x] } := by
  simp only [placeOrder, Book.place]
  split
  · exact recordBacktestTrade_trading (b := { b with placed := b.placed ++ [x] }) x hpremium
  · rfl

theorem le_lots_iff {risk outlay perLot cost : ℚ} (hrisk : 0 < perLot) (hcost : 0 < cost) (n : ℤ) :
    n ≤ min ⌊risk / perLot⌋ ⌊outlay / cost⌋ ↔ perLot * n ≤ risk ∧ cost * n ≤ outlay := by
  rw [le_min_iff, Int.le_floor, Int.le_floor, le_div_iff₀ hrisk, le_div_iff₀ hcost,
    mul_comm perLot, mul_comm cost]

theorem premiumSize_spec {entry sl : ℚ} {lotSize : Option ℤ} (hentry : 0 < entry)
    (h : ¬ (premiumSize c entry sl lotSize).lots < 1) :
    0 < entry - sl ∧ ∃ lot n : ℤ, lotSize = some lot ∧ 0 < lot ∧ 1 ≤ n ∧
      premiumSize c entry sl lotSize = ⟨n, n * lot, entry - sl⟩ ∧
      ∀ m : ℤ, m ≤ n ↔ (entry - sl) * lot * m ≤ c.capital * c.riskPerTradePct / 100 ∧
        entry * lot * m ≤ c.capital * c.maxOutlayPct / 100 := by
  have hnone : Sizing.none.lots < 1 := by decide
  cases lotSize with
  | none => exact absurd hnone h
  | some lot =>
    simp only [premiumSize] at h ⊢
    by_cases hlot : lot ≤ 0
    · rw [if_pos hlot] at h
      exact absurd hnone h
    rw [if_neg hlot] at h ⊢
    by_cases hrisk : (entry - sl) * lot ≤ 0
    · rw [if_pos hrisk] at h
      exact absurd hnone h
    have hlot' : (0 : ℚ) < lot := by exact_mod_cast not_le.mp hlot
    have hunit : 0 < entry * lot := mul_pos hentry hlot'
    rw [if_neg hrisk, if_pos hunit] at h ⊢
    have hrisk' := not_le.mp hrisk
    split at h
    · exact absurd hnone h
    next hone =>
    rw [if_neg hone]
    exact ⟨(mul_pos_iff_of_pos_right hlot').mp hrisk', lot, _, rfl, not_le.mp hlot, not_lt.mp hone, rfl,
      le_lots_iff hrisk' hunit⟩

theorem sized_bought {cepe : OptionType} {strike p0 slPrem : ℚ} {expiry : String} {p : Position}
    (hL : ∀ lot, b.lotSize = some lot → T.lots lot) (hp0 : 0 < p0)
    (hstop : slPrem = p0 * (1 - key.stopPct c / 100))
    (h : sized c a b cepe strike expiry p0 slPrem = some p) : Bought key c T.lots p ∧ p.cepe = cepe := by
  simp only [sized] at h
  split at h
  · cases h
  next hlots =>
  obtain ⟨hrisk, lot, n, hsome, hlot, hn, hsize, hgreatest⟩ := premiumSize_spec hp0 hlots
  have hp := Option.some.inj h
  rw [hsize] at hp
  subst hp
  have hshare : p0 - slPrem = p0 * key.stopPct c / 100 := by
    rw [hstop]
    ring
  exact ⟨⟨hp0, hrisk, hshare, (sub_sub_cancel p0 slPrem).symm, rfl, rfl, lot, n, hL lot hsome, hlot, hn,
    rfl, hgreatest⟩, rfl⟩

theorem opened_moves {tag : Tag} {p : Position} (htag : ∀ reason, tag ≠ .exit reason)
    (hphase : b.phase = .armed) (htrades : b.tradesToday < c.maxTradesPerDay)
    (honce : key.Once → p.cepe ∉ b.tradedDirs) (hbought : Bought key c T.lots p) :
    Moves key c T b.trading (opened c b tag p).trading := by
  have hmove : Move key c T b.trading _ := .enter tag htag hphase htrades honce hbought fun _ => rfl
  have hplaced := placeOrder_trading (c := c) (b := b) (buyOrder p tag) (.inl rfl)
  simp only [Buyer.trading, Trading.mk.injEq] at hplaced
  obtain ⟨hday, hlot, hbook, -, -, htrades', hdirs, hplaced⟩ := hplaced
  simp only [buyOrder] at hday hlot hbook htrades' hdirs hplaced
  simp only [opened, Buyer.trading, hday, hlot, hbook, htrades', hdirs, hplaced]
  exact .single hmove

theorem sold_moves {p : Position} (reason : ExitReason) {phase : Phase} (hpos : b.pos = some p)
    (hreason : T.reasons reason) (hphase : phase = .armed ∨ phase = .done) :
    Moves key c T b.trading
      { placeOrder c b p.symbol .sell p.qty (.exit reason) b.currentPremium with
        pos := none, phase := phase }.trading := by
  have hmove : Move key c T b.trading _ :=
    .exit reason b.currentPremium phase hpos hreason hphase fun _ => rfl
  have hplaced := placeOrder_trading (c := c) (b := b) (sellOrder p reason b.currentPremium) (.inr rfl)
  simp only [Buyer.trading, Trading.mk.injEq] at hplaced
  obtain ⟨hday, hlot, hbook, -, -, htrades, hdirs, hplaced⟩ := hplaced
  simp only [sellOrder] at hday hlot hbook htrades hdirs hplaced
  simp only [Buyer.trading, hday, hlot, hbook, htrades, hdirs, hplaced]
  exact .single hmove

theorem flatten_moves {reason : ExitReason} (hreason : b.pos.isSome → T.reasons reason) :
    Moves key c T b.trading (flatten c b reason).trading := by
  simp only [flatten]
  split
  · exact .refl
  next p hpos =>
  refine sold_moves reason hpos (hreason (by rw [hpos]; rfl)) ?_
  split
  · exact .inr rfl
  split
  · exact .inl rfl
  · exact .inr rfl

theorem HeroZero.flatten_moves {reason : ExitReason} (hreason : b.pos.isSome → T.reasons reason) :
    Moves key c T b.trading (HeroZero.flatten c b reason).trading := by
  simp only [HeroZero.flatten]
  split
  · exact .refl
  next p hpos =>
  refine sold_moves reason hpos (hreason (by rw [hpos]; rfl)) ?_
  split
  · exact .inr rfl
  · exact .inl rfl

theorem managed_moves : Moves key c T b.trading (managed c a b bar).1.trading := by
  simp only [managed]
  split
  · exact .refl
  next p hpos =>
  have hnote : Move key c T b.trading _ := .note (p.entryTs.or (some bar.timestamp)) p.heldMin hpos
  split
  · exact .single hnote
  · exact .tail (.single hnote) (.trail (a.optionLtp p.expiry p.strike p.cepe) rfl)

variable (bar) in
theorem checkThetaTimeStop_moves (premium : ℚ) :
    Moves key c T b.trading (checkThetaTimeStop c b premium bar).1.trading := by
  simp only [checkThetaTimeStop]
  split
  · exact .refl
  next p hpos =>
  split
  · exact .refl
  next ts hts =>
  have hnote : Move key c T b.trading _ := .note p.entryTs (heldAndProgress p ts premium bar).1 hpos
  exact .single hnote

variable (bar) in
theorem TrendRiderBuyer.checkThetaTimeStop_moves (premium : ℚ) :
    Moves key c T b.trading (TrendRiderBuyer.checkThetaTimeStop c b bar premium).1.trading := by
  simp only [TrendRiderBuyer.checkThetaTimeStop]
  split
  · exact .refl
  next p hpos =>
  split
  · exact .refl
  next ts hts =>
  have hnote : Move key c T b.trading _ := .note p.entryTs (heldAndProgress p ts premium bar).1 hpos
  exact .single hnote

theorem not_final_stop (armed : Bool) :
    ¬(if armed = true then ExitReason.trailStop else ExitReason.stopLoss).Final := by
  cases armed <;> decide

theorem MomentumBreakoutBuyer.manage_moves (hR : ∀ reason : ExitReason, ¬reason.Final → T.reasons reason) :
    Moves key c T b.trading (MomentumBreakoutBuyer.manage c a b bar).trading := by
  have hmanaged : Moves key c T b.trading (managed c a b bar).1.trading := managed_moves
  simp only [MomentumBreakoutBuyer.manage]
  split
  · next b' heq => rwa [heq] at hmanaged
  next b' prem heq =>
  rw [heq] at hmanaged
  have hstop := hmanaged.trans (checkThetaTimeStop_moves bar prem)
  split
  · exact hstop.trans (flatten_moves fun _ => hR _ (by decide))
  split
  · exact hstop.trans (flatten_moves fun _ => hR _ (by decide))
  split
  · exact hstop
  split
  · exact hstop.trans (flatten_moves fun _ => hR _ (not_final_stop _))
  split
  · exact hstop.trans (flatten_moves fun _ => hR _ (by decide))
  · exact hstop

theorem TrendRiderBuyer.manage_moves (hR : ∀ reason : ExitReason, ¬reason.Final → T.reasons reason) :
    Moves key c T b.trading (TrendRiderBuyer.manage c a b bar).trading := by
  have hmanaged : Moves key c T b.trading (managed c a b bar).1.trading := managed_moves
  simp only [TrendRiderBuyer.manage]
  split
  · next b' heq => rwa [heq] at hmanaged
  next b' prem heq =>
  rw [heq] at hmanaged
  have hstop := hmanaged.trans (TrendRiderBuyer.checkThetaTimeStop_moves bar prem)
  split
  · exact hstop.trans (flatten_moves fun _ => hR _ (by decide))
  split
  · exact hstop
  split
  · exact hstop.trans (flatten_moves fun _ => hR _ (by decide))
  split
  · exact hstop.trans (flatten_moves fun _ => hR _ (not_final_stop _))
  split
  · exact hstop.trans (flatten_moves fun _ => hR _ (by decide))
  · exact hstop

theorem HeroZero.manage_moves (hR : ∀ reason : ExitReason, ¬reason.Final → T.reasons reason) :
    Moves key c T b.trading (HeroZero.manage c a b bar).trading := by
  have hmanaged : Moves key c T b.trading (managed c a b bar).1.trading := managed_moves
  simp only [HeroZero.manage]
  split
  · next b' heq => rwa [heq] at hmanaged
  next b' prem heq =>
  rw [heq] at hmanaged
  have hstop := hmanaged.trans (Strategies.checkThetaTimeStop_moves bar prem)
  split
  · exact hstop.trans (HeroZero.flatten_moves fun _ => hR _ (by decide))
  split
  · exact hstop
  split
  · exact hstop.trans (HeroZero.flatten_moves fun _ => hR _ (by decide))
  split
  · exact hstop.trans (HeroZero.flatten_moves fun _ => hR _ (by decide))
  split
  · exact hstop.trans (HeroZero.flatten_moves fun _ => hR _ (by decide))
  · exact hstop

theorem enter_moves {cepe : OptionType} {spot : ℚ} {b' : Buyer} (hkey : key.Once)
    (hL : ∀ lot, b.lotSize = some lot → T.lots lot) (hphase : b.phase = .armed)
    (htrades : b.tradesToday < c.maxTradesPerDay) (honce : cepe ∉ b.tradedDirs)
    (h : enter c a b cepe spot = some b') : Moves key c T b.trading b'.trading := by
  simp only [enter, Option.bind_eq_bind, Option.bind_eq_some_iff] at h
  obtain ⟨expiry, -, strike, -, h⟩ := h
  split at h
  · exact moves_of_eq (congrArg Buyer.trading (Option.some.inj h).symm)
  next hp0 =>
  split at h
  · exact moves_of_eq (congrArg Buyer.trading (Option.some.inj h).symm)
  next p hsized =>
  obtain ⟨hbought, hcepe⟩ := sized_bought hL (not_le.mp hp0) (by rw [hkey.stopPct_eq]) hsized
  rw [← Option.some.inj h]
  exact opened_moves nofun hphase htrades (fun _ => hcepe ▸ honce) hbought

theorem MomentumBreakoutBuyer.checkEntry_moves {b' : Buyer} (hkey : key.Once)
    (hL : ∀ lot, b.lotSize = some lot → T.lots lot) (hphase : b.phase = .armed)
    (h : MomentumBreakoutBuyer.checkEntry c a b bar = some b') :
    Moves key c T b.trading b'.trading := by
  have hstay : some b = some b' → Moves key c T b.trading b'.trading := fun heq =>
    moves_of_eq (congrArg Buyer.trading (Option.some.inj heq).symm)
  simp only [MomentumBreakoutBuyer.checkEntry] at h
  split at h
  · exact hstay h
  next htrades =>
  split at h
  · exact hstay h
  split at h
  · next hce =>
    split at h
    · exact hstay h
    · exact enter_moves hkey hL hphase (not_le.mp htrades) hce.2 h
  split at h
  · next hpe =>
    split at h
    · exact hstay h
    · exact enter_moves hkey hL hphase (not_le.mp htrades) hpe.2 h
  · exact hstay h

theorem TrendRiderBuyer.checkEntry_moves {b' : Buyer} (hkey : key.Once)
    (hL : ∀ lot, b.lotSize = some lot → T.lots lot) (hphase : b.phase = .armed)
    (htrades : b.tradesToday < c.maxTradesPerDay)
    (h : TrendRiderBuyer.checkEntry c a b bar = some b') : Moves key c T b.trading b'.trading := by
  have hstay : some b = some b' → Moves key c T b.trading b'.trading := fun heq =>
    moves_of_eq (congrArg Buyer.trading (Option.some.inj heq).symm)
  simp only [TrendRiderBuyer.checkEntry] at h
  split at h
  · exact hstay h
  split at h
  · exact hstay h
  split at h
  · exact hstay h
  split at h
  · next hce => exact enter_moves hkey hL hphase htrades hce.2.2 h
  split at h
  · next hpe => exact enter_moves hkey hL hphase htrades hpe.2.2 h
  · exact hstay h

theorem HeroZero.best_prem {expiry : String} {step spot : ℚ} {k : HeroZero.Candidate}
    (h : HeroZero.best a b expiry step spot = some k) : 5 ≤ k.prem := by
  have hfold : ∀ (ks : List HeroZero.Candidate) (found : Option HeroZero.Candidate),
      (∀ k ∈ found, 5 ≤ k.prem) → ∀ k ∈ ks.foldl (fun found k =>
        if 5 ≤ k.prem ∧ k.prem < 100 ∧ found.all (fun f =>
          HeroZero.score b spot f < HeroZero.score b spot k) then some k else found) found,
        5 ≤ k.prem := by
    intro ks
    induction ks with
    | nil => exact fun found hfound => hfound
    | cons k ks ih =>
      intro found hfound
      refine ih _ fun k' hk' => ?_
      dsimp only at hk'
      split at hk'
      · next hin => exact Option.mem_some.mp hk' ▸ hin.1
      · exact hfound k' hk'
  exact hfold _ none (fun k hk => nomatch hk) k h

theorem HeroZero.checkEntry_moves {interval interval' : ℤ} {b' : Buyer}
    (hL : ∀ lot, b.lotSize = some lot → T.lots lot) (hphase : b.phase = .armed)
    (h : HeroZero.checkEntry c a b bar interval = some b') :
    Moves (.heroZero interval') c T b.trading b'.trading := by
  have hstay : some b = some b' → Moves (.heroZero interval') c T b.trading b'.trading := fun heq =>
    moves_of_eq (congrArg Buyer.trading (Option.some.inj heq).symm)
  simp only [HeroZero.checkEntry] at h
  split at h
  · exact hstay h
  next htrades =>
  split at h
  · exact hstay h
  simp only [Option.bind_eq_bind, Option.bind_eq_some_iff] at h
  obtain ⟨expiry, -, h⟩ := h
  split at h
  · exact hstay h
  next k hbest =>
  split at h
  · exact hstay h
  split at h
  · exact hstay h
  split at h
  · exact hstay h
  next p hsized =>
  have hprem : 0 < k.prem := lt_of_lt_of_le (by norm_num) (best_prem hbest)
  have hstop : k.prem * (3 / 5) = k.prem * (1 - (Key.heroZero interval').stopPct c / 100) := by
    rw [Key.stopPct]
    norm_num
  obtain ⟨hbought, -⟩ := sized_bought hL hprem hstop hsized
  rw [← Option.some.inj h]
  refine opened_moves nofun hphase (not_le.mp htrades) (fun honce => nomatch honce) ?_
  exact ⟨hbought.entry, hbought.risk, hbought.share, hbought.stop, hbought.peak, hbought.unarmed, hbought.lots⟩

theorem buildOr_moves (hphase : b.phase = .buildingOr) :
    Moves key c T b.trading (buildOr c b bar).trading := by
  simp only [buildOr]
  split
  · exact .refl
  · exact .single (.arm hphase)

theorem MomentumBreakoutBuyer.on15m_moves (hkey : key.Once)
    (hL : ∀ lot, b.lotSize = some lot → T.lots lot) (hR : ∀ reason : ExitReason, ¬reason.Final → T.reasons reason)
    (hfinal : ∀ reason : ExitReason, reason.Final → b.pos.isSome → T.reasons reason) :
    Moves key c T b.trading (MomentumBreakoutBuyer.on15m c a b bar).buyer.trading := by
  simp only [MomentumBreakoutBuyer.on15m]
  split
  · exact flatten_moves (hfinal _ (by decide))
  split
  · exact flatten_moves (hfinal _ (by decide))
  split
  · exact .refl
  next b' hnext =>
  change Moves key c T b.trading b'.trading
  cases hphase : b.phase with
  | buildingOr =>
    simp only [hphase] at hnext
    exact Option.some.inj hnext ▸ buildOr_moves hphase
  | armed =>
    simp only [hphase] at hnext
    split at hnext
    · exact checkEntry_moves hkey hL hphase hnext
    · exact moves_of_eq (congrArg Buyer.trading (Option.some.inj hnext).symm)
  | inTrade =>
    simp only [hphase] at hnext
    exact Option.some.inj hnext ▸ manage_moves hR
  | done =>
    simp only [hphase] at hnext
    exact moves_of_eq (congrArg Buyer.trading (Option.some.inj hnext).symm)

theorem HeroZero.on15m_moves {interval interval' : ℤ} (hL : ∀ lot, b.lotSize = some lot → T.lots lot)
    (hR : ∀ reason : ExitReason, ¬reason.Final → T.reasons reason)
    (hfinal : ∀ reason : ExitReason, reason.Final → b.pos.isSome → T.reasons reason) :
    Moves (.heroZero interval') c T b.trading (HeroZero.on15m c a b bar interval).buyer.trading := by
  simp only [HeroZero.on15m]
  split
  · exact HeroZero.flatten_moves (hfinal _ (by decide))
  split
  · exact HeroZero.flatten_moves (hfinal _ (by decide))
  split
  · exact .refl
  split
  · exact .refl
  next b' hnext =>
  change Moves (.heroZero interval') c T b.trading b'.trading
  cases hphase : b.phase with
  | buildingOr =>
    simp only [hphase] at hnext
    exact Option.some.inj hnext ▸ buildOr_moves hphase
  | armed =>
    simp only [hphase] at hnext
    split at hnext
    · exact checkEntry_moves hL hphase hnext
    · exact moves_of_eq (congrArg Buyer.trading (Option.some.inj hnext).symm)
  | inTrade =>
    simp only [hphase] at hnext
    exact Option.some.inj hnext ▸ manage_moves hR
  | done =>
    simp only [hphase] at hnext
    exact moves_of_eq (congrArg Buyer.trading (Option.some.inj hnext).symm)

theorem TrendRiderBuyer.on15m_moves (hkey : key.Once)
    (hL : ∀ lot, b.lotSize = some lot → T.lots lot) (hR : ∀ reason : ExitReason, ¬reason.Final → T.reasons reason)
    (hfinal : ∀ reason : ExitReason, reason.Final → b.pos.isSome → T.reasons reason) :
    Moves key c T b.trading (TrendRiderBuyer.on15m c a b bar).buyer.trading := by
  simp only [TrendRiderBuyer.on15m]
  split
  · exact flatten_moves (hfinal _ (by decide))
  split
  · exact flatten_moves (hfinal _ (by decide))
  split
  · exact .refl
  next b' hnext =>
  have hmoved : Moves key c T (pushCandle b bar).trading b'.trading := by
    split at hnext
    · exact Option.some.inj hnext ▸ manage_moves hR
    split at hnext
    · next hentry => exact checkEntry_moves hkey hL hentry.1 hentry.2.2 hnext
    · exact moves_of_eq (congrArg Buyer.trading (Option.some.inj hnext).symm)
  split
  · next hphase => exact hmoved.tail (.arm hphase)
  · exact hmoved

theorem onCandle_moves (hL : ∀ lot, b.lotSize = some lot → T.lots lot)
    (hR : ∀ reason : ExitReason, ¬reason.Final → T.reasons reason)
    (hfinal : ¬(FiveMinutes c bar ∧ b.phase = .inTrade) →
      ∀ reason : ExitReason, reason.Final → b.pos.isSome → T.reasons reason) :
    Moves key c T b.trading (onCandle key c a b bar).buyer.trading := by
  have hon15m : ∀ (b : Buyer) (bar : Candle), (∀ lot, b.lotSize = some lot → T.lots lot) →
      (∀ reason : ExitReason, reason.Final → b.pos.isSome → T.reasons reason) →
      Moves key c T b.trading (on15m key c a b bar).buyer.trading := by
    intro b bar hL hfinal
    cases key with
    | momentumBreakoutBuyer => exact MomentumBreakoutBuyer.on15m_moves trivial hL hR hfinal
    | trendRiderBuyer => exact TrendRiderBuyer.on15m_moves trivial hL hR hfinal
    | heroZero interval => exact HeroZero.on15m_moves hL hR hfinal
  simp only [onCandle]
  split
  · split
    · cases key with
      | momentumBreakoutBuyer => exact MomentumBreakoutBuyer.manage_moves hR
      | trendRiderBuyer => exact TrendRiderBuyer.manage_moves hR
      | heroZero interval => exact HeroZero.manage_moves hR
    next hphase =>
    split
    · exact hon15m { b with fiveBuffer := [] } _ hL (hfinal fun h => hphase h.2)
    · exact .refl
  next hlong => exact hon15m b bar hL (hfinal fun h => hlong h.1)

end Steps

end Trademetrix.Strategies
