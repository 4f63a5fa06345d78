import Mathlib.Algebra.BigOperators.Group.List.Basic
import Trademetrix.Strategies.BuyerRuns

/-!
# A day of a buyer

A strategy over a day of candles and restarts, the cache taking its state each time: what
is bought is sold before the next purchase, the purchases are as large as the budgets
allow and keep to the limits of the day, the stop of a position never falls, and five
minute candles alone never square off.
-/

namespace Trademetrix.Strategies

open Relation (ReflTransGen)
open Engine (OptionType OrderSide)

variable {key : Key} {c : BuyerConfig} {T : Terms} {a : Answers} {b : Buyer}
  {bar : Candle} {t u : Trading} {day : String}

section Morning

def morningConfig : BuyerConfig := { strategyId := "B1", capital := 50000, slPct := 10 }

def quarterHour (minute : ℤ) (close : ℚ) (volume : ℤ) : Candle :=
  { interval := "15m", openPrice := close, high := close, low := close, close := close,
    volume := volume, timestamp := minute * 60000000 }

def morningStart : Start := { lotSize := some 25, strikeStep := some 50, todayStr := "20250102" }

def morningCandles : List Event :=
  [.candle (quarterHour 555 20000 100) {} true, .candle (quarterHour 570 20000 100) {} true,
    .candle (quarterHour 585 20030 400) { optionLtp := fun _ _ _ => 100 } true]

def morning : List Event := .restart morningStart false :: morningCandles

def noon : List Event :=
  [.candle (quarterHour 600 20060 100) { optionLtp := fun _ _ _ => 115 } true, .restart morningStart false]

theorem morning_onDay : ∀ e ∈ morning ++ noon, e.OnDay "20250102" ∧ e.LotsIn (· = 25) := by
  simp [morning, morningStart, morningCandles, noon, Event.OnDay, Event.LotsIn, eq_comm]

end Morning

section Orders

theorem card_directions (dirs : Finset OptionType) : dirs.card ≤ 2 := by
  have hsub : dirs ⊆ {OptionType.ce, OptionType.pe} := by
    intro x _
    cases x <;> decide
  exact (Finset.card_le_card hsub).trans Finset.card_le_two

theorem Trading.Sound.trades (h : t.Sound key c) :
    ∃ trades : List (Placed × Placed), ∃ held : Option Placed,
      t.placed = (trades.flatMap fun x => [x.1, x.2]) ++ held.toList ∧
      (∀ x ∈ trades, x.1.side = .buy ∧ x.2.side = .sell ∧ x.2.symbol = x.1.symbol ∧ x.2.qty = x.1.qty) ∧
      Option.Rel Position.From t.pos held := by
  obtain ⟨held, hlog, hheld⟩ := h.log
  obtain ⟨trades, htrades, hplaced⟩ := hlog.pairs
  exact ⟨trades, held, hplaced, htrades, hheld⟩

structure Trading.Ordered (key : Key) (c : BuyerConfig) (T : Terms) (t : Trading) : Prop where
  buys : ∀ x ∈ t.placed, x.side = .buy → ∃ p tag, Bought key c T.lots p ∧ x = buyOrder p tag
  exits : ∀ x ∈ t.placed, ∀ reason, x.tag = .exit reason → T.reasons reason

theorem Trading.Ordered.moves (h : t.Ordered key c T) (hmoves : Moves key c T t u) :
    u.Ordered key c T := by
  induction hmoves with
  | refl => exact h
  | tail _ hmove ih =>
    cases hmove with
    | arm | note | trail => exact ⟨ih.buys, ih.exits⟩
    | @enter p book tag htag hphase htrades honce hbought hbook =>
      refine ⟨fun x hx hside => ?_, fun x hx reason htagx => ?_⟩
      · cases List.mem_append.mp hx with
        | inl hx => exact ih.buys x hx hside
        | inr hx => exact ⟨p, tag, hbought, List.mem_singleton.mp hx⟩
      · cases List.mem_append.mp hx with
        | inl hx => exact ih.exits x hx reason htagx
        | inr hx =>
          rw [List.mem_singleton.mp hx] at htagx
          exact absurd htagx (htag reason)
    | @exit p book reason' premium phase hpos hreason hphase hbook =>
      refine ⟨fun x hx hside => ?_, fun x hx reason htagx => ?_⟩
      · cases List.mem_append.mp hx with
        | inl hx => exact ih.buys x hx hside
        | inr hx =>
          rw [List.mem_singleton.mp hx] at hside
          cases hside
      · cases List.mem_append.mp hx with
        | inl hx => exact ih.exits x hx reason htagx
        | inr hx =>
          rw [List.mem_singleton.mp hx] at htagx
          cases htagx
          exact hreason

variable (key) in
theorem Desk.run_ordered (hid : c.strategyId ≠ "") (hday : day ≠ "") {es : List Event}
    (hes : ∀ e ∈ es, e.Fits c T day) :
    ((({} : Desk).run key c es).cached day).Ordered key c { T with booked := False } := by
  have hnil : (({} : Desk).cached day).Ordered key c { T with booked := False } :=
    ⟨(fun x hx => nomatch hx), fun x hx => nomatch hx⟩
  exact hnil.moves (Desk.run_sound key hid hday hes).2.1

end Orders

section Stops

end Stops

section SquareOff

theorem flatten_pos (reason : ExitReason) : (flatten c b reason).pos = none := by
  rw [flatten]
  split
  · assumption
  · rfl

theorem HeroZero.flatten_pos (reason : ExitReason) : (HeroZero.flatten c b reason).pos = none := by
  rw [HeroZero.flatten]
  split
  · assumption
  · rfl

theorem on15m_pos_of_ended (h : isKillSwitched c a = true ∨ c.squareOff ≤ bar.time) :
    (on15m key c a b bar).buyer.pos = none := by
  by_cases hkilled : isKillSwitched c a = true
  · cases key with
    | momentumBreakoutBuyer =>
      simp only [on15m, MomentumBreakoutBuyer.on15m, if_pos hkilled]
      exact flatten_pos _
    | trendRiderBuyer =>
      simp only [on15m, TrendRiderBuyer.on15m, if_pos hkilled]
      exact flatten_pos _
    | heroZero interval =>
      simp only [on15m, HeroZero.on15m, if_pos hkilled]
      exact HeroZero.flatten_pos _
  · have hlate := h.resolve_left hkilled
    cases key with
    | momentumBreakoutBuyer =>
      simp only [on15m, MomentumBreakoutBuyer.on15m, if_neg hkilled, if_pos hlate]
      exact flatten_pos _
    | trendRiderBuyer =>
      simp only [on15m, TrendRiderBuyer.on15m, if_neg hkilled, if_pos hlate]
      exact flatten_pos _
    | heroZero interval =>
      simp only [on15m, HeroZero.on15m, if_neg hkilled, if_pos hlate]
      exact HeroZero.flatten_pos _

end SquareOff

end Trademetrix.Strategies

/-!
## The book of a backtest

From one start on, the capital of a backtest is what the finished rounds have gained less
what is paid for the position that is held, and the report counts every round twice: once
for its purchase and once for its sale.
-/

namespace Trademetrix.Strategies

open Relation (ReflTransGen)
open Engine (OptionType OrderSide)
open Text (round2)

structure Round where
  bought : Placed
  sold : Placed
  boughtIn : Phase
  soldIn : Phase
  buys : IsBuy bought
  sells : Sells bought sold

namespace Round

def orders (x : Round) : List Placed := [x.bought, x.sold]

def gain (x : Round) : ℚ := (x.sold.premium.getD 0 - x.bought.premium.getD 0) * x.sold.qty

def entries (x : Round) : List BacktestTrade :=
  [{ x.bought.record x.boughtIn with pnl := some (round2 x.gain), exitTag := some x.sold.tag },
    { x.sold.record x.soldIn with
      pnl := some (round2 x.gain), entryPremium := some (x.bought.premium.getD 0) }]

theorem countP_entries (f : BacktestTrade → Bool) (g : ℚ → Bool) (hf : ∀ t, f t = g (t.pnl.getD 0))
    (rounds : List Round) :
    (rounds.flatMap entries).countP f = 2 * rounds.countP fun x => g (round2 x.gain) := by
  induction rounds with
  | nil => rfl
  | cons x rounds ih =>
    have hone : x.entries.countP f = 2 * [x].countP fun x => g (round2 x.gain) := by
      simp only [entries, List.countP_cons, List.countP_nil, hf, Option.getD_some]
      split <;> rfl
    rw [List.flatMap_cons, List.countP_append, hone, ih, ← Nat.mul_add, ← List.countP_append]
    rfl

theorem length_flatMap_entries (rounds : List Round) : (rounds.flatMap entries).length = 2 * rounds.length := by
  induction rounds with
  | nil => rfl
  | cons x rounds ih =>
    rw [List.flatMap_cons, List.length_append, ih, List.length_cons, entries, List.length_cons,
      List.length_cons, List.length_nil]
    omega

end Round

variable {key : Key} {c : BuyerConfig} {T : Terms} {a : Answers} {b : Buyer} {t u : Trading} {d : Desk}
  {initial : ℚ} {rounds : List Round}

def Trading.BookedAs (initial : ℚ) (rounds : List Round) (t : Trading) : Prop :=
  match t.pos with
  | none =>
    t.placed = rounds.flatMap Round.orders ∧
      t.book = ⟨rounds.flatMap Round.entries, initial + (rounds.map Round.gain).sum⟩
  | some p => ∃ tag phase,
    t.placed = rounds.flatMap Round.orders ++ [buyOrder p tag] ∧
      t.book = ⟨rounds.flatMap Round.entries ++ [(buyOrder p tag).record phase],
        initial + (rounds.map Round.gain).sum - p.entry * p.qty⟩

theorem Book.record_sale {entries : List BacktestTrade} {capital : ℚ} {x y : Placed} {bought sold : Phase}
    (hx : x.side = .buy) (hy : Sells x y) :
    Book.record ⟨entries ++ [x.record bought], capital⟩ sold y =
      ⟨entries ++
        [{ x.record bought with
            pnl := some (round2 ((y.premium.getD 0 - x.premium.getD 0) * y.qty)), exitTag := some y.tag },
          { y.record sold with
            pnl := some (round2 ((y.premium.getD 0 - x.premium.getD 0) * y.qty)),
            entryPremium := some (x.premium.getD 0) }],
        capital + y.premium.getD 0 * y.qty⟩ := by
  obtain ⟨hside, hsymbol, hqty⟩ := hy
  have hmatch : (x.record bought).symbol = y.symbol ∧ (x.record bought).side = .buy ∧
      (x.record bought).pnl = none := ⟨hsymbol.symm, hx, rfl⟩
  have hclose : closeLast y.symbol (y.premium.getD 0) y.qty y.tag (entries ++ [x.record bought]).reverse =
      ({ x.record bought with
          pnl := some (round2 ((y.premium.getD 0 - x.premium.getD 0) * y.qty)), exitTag := some y.tag } ::
        entries.reverse, some (x.premium.getD 0)) := by
    rw [List.reverse_append, List.reverse_singleton, List.singleton_append, closeLast, if_pos hmatch]
    rfl
  simp only [Book.record, hside, hclose, List.reverse_cons, List.reverse_reverse, List.append_assoc,
    List.singleton_append]

theorem Move.booked (hmode : c.backtestMode = true) (hT : T.booked) (ht : t.Sound key c)
    (h : t.BookedAs initial rounds) (hmove : Move key c T t u) :
    ∃ rounds', u.BookedAs initial rounds' := by
  cases hmove with
  | arm hphase => exact ⟨rounds, h⟩
  | @enter p book tag htag hphase htrades honce hbought hbook =>
    have hclosed : t.pos = none := ht.pos_eq_none hphase
    simp only [Trading.BookedAs, hclosed] at h
    refine ⟨rounds, tag, t.phase, ?_, ?_⟩
    · rw [h.1]
    · rw [hbook hT, Book.place, if_pos hmode, h.2]
      rfl
  | note ts held hpos =>
    simp only [Trading.BookedAs, hpos] at h
    exact ⟨rounds, h⟩
  | @trail p premium hpos =>
    simp only [Trading.BookedAs, hpos] at h
    obtain ⟨hsymbol, hqty, hentry, -⟩ := trail_cases (c := c) p premium
    refine ⟨rounds, ?_⟩
    simp only [Trading.BookedAs, buyOrder, hsymbol, hqty, hentry]
    exact h
  | @exit p book reason premium phase hpos hreason hphase hbook =>
    simp only [Trading.BookedAs, hpos] at h
    obtain ⟨tag, bought, hplaced, hkept⟩ := h
    have hsells : Sells (buyOrder p tag) (sellOrder p reason premium) := ⟨rfl, rfl, rfl⟩
    refine ⟨rounds ++ [⟨buyOrder p tag, sellOrder p reason premium, bought, t.phase, rfl, hsells⟩], ?_, ?_⟩
    · rw [hplaced, List.flatMap_append, List.append_assoc]
      rfl
    · have hcapital : initial + (rounds.map Round.gain).sum - p.entry * p.qty + premium.getD 0 * p.qty =
          initial + ((rounds.map Round.gain).sum + (premium.getD 0 - p.entry) * p.qty) := by
        ring
      rw [hbook hT, Book.place, if_pos hmode, hkept, Book.record_sale rfl hsells, List.flatMap_append,
        List.map_append, List.sum_append, List.map_singleton, List.sum_singleton]
      exact congrArg (Book.mk _) hcapital

theorem Moves.booked (hmode : c.backtestMode = true) (hT : T.booked) (ht : t.Sound key c)
    (h : t.BookedAs initial rounds) (hmoves : Moves key c T t u) :
    ∃ rounds', u.BookedAs initial rounds' := by
  induction hmoves with
  | refl => exact ⟨rounds, h⟩
  | tail hbefore hmove ih =>
    obtain ⟨rounds', h'⟩ := ih
    exact hmove.booked hmode hT (ht.moves hbefore) h'

def Event.IsCandle : Event → Prop
  | .candle _ _ _ => True
  | .restart _ _ => False

variable (key c) in
theorem Desk.candles_moves (hb : d.buyer = some b) {es : List Event} (hes : ∀ e ∈ es, e.IsCandle) :
    ∃ b', (d.run key c es).buyer = some b' ∧ Moves key c { booked := True } b.trading b'.trading := by
  induction es generalizing d b with
  | nil => exact ⟨b, hb, .refl⟩
  | cons e es ih =>
    cases e with
    | restart start isExpiry => exact (hes _ (List.mem_cons_self ..)).elim
    | candle bar a stores =>
      have hmoves : Moves key c { booked := True } b.trading (onCandle key c a b bar).buyer.trading :=
        onCandle_moves (fun _ _ => trivial) (fun _ _ => trivial) fun _ _ _ _ => trivial
      have hstep := Desk.step_candle key c a bar hb stores
      obtain ⟨b', hb', hrest⟩ := ih (d := d.step key c (.candle bar a stores)) (by rw [hstep]; rfl)
        fun e he => hes e (List.mem_cons_of_mem _ he)
      exact ⟨b', hb', hmoves.trans hrest⟩

theorem Desk.idle_run (hd : d.buyer = none) {es : List Event} (hes : ∀ e ∈ es, e.IsCandle) :
    (d.run key c es).buyer = none := by
  induction es generalizing d with
  | nil => exact hd
  | cons e es ih =>
    cases e with
    | restart start isExpiry => exact (hes _ (List.mem_cons_self ..)).elim
    | candle bar a stores =>
      have hstep : d.step key c (.candle bar a stores) = d := by
        simp only [Desk.step, hd]
      rw [Desk.run, List.foldl_cons, hstep]
      exact ih hd fun e he => hes e (List.mem_cons_of_mem _ he)

theorem Trading.BookedAs.held (h : t.BookedAs initial rounds) :
    ∃ held : Option Placed, ∃ rest : List BacktestTrade,
      t.placed = rounds.flatMap Round.orders ++ held.toList ∧ Option.Rel Position.From t.pos held ∧
      t.book.capital = initial + (rounds.map Round.gain).sum -
        held.elim 0 (fun x => x.premium.getD 0 * x.qty) ∧
      t.book.trades = rounds.flatMap Round.entries ++ rest ∧ rest.length = held.toList.length ∧
      ∀ x ∈ rest, x.pnl = none := by
  cases hpos : t.pos with
  | none =>
    simp only [Trading.BookedAs, hpos] at h
    refine ⟨none, [], ?_, .none, ?_, ?_, rfl, fun x hx => absurd hx (List.not_mem_nil)⟩
    · rw [h.1, Option.toList_none, List.append_nil]
    · rw [h.2, Option.elim_none, sub_zero]
    · rw [h.2, List.append_nil]
  | some p =>
    simp only [Trading.BookedAs, hpos] at h
    obtain ⟨tag, phase, hplaced, hbook⟩ := h
    refine ⟨some (buyOrder p tag), [(buyOrder p tag).record phase], hplaced, .some ⟨tag, rfl⟩, ?_,
      congrArg Book.trades hbook, rfl, ?_⟩
    · rw [hbook, Option.elim_some]
      rfl
    · intro x hx
      rw [List.mem_singleton.mp hx]
      rfl

theorem started_booked {start : Start} {isExpiry : Bool}
    (hb : ((({} : Desk).step key c (.restart start isExpiry))).buyer = some b) :
    b.trading.Sound key c ∧ b.trading.BookedAs c.backtestInitialCapital [] := by
  have hget : ({} : Desk).cache.get start.todayStr = none := rfl
  simp only [Desk.step, Buyer.onStart, hget, Option.map_eq_some_iff] at hb
  obtain ⟨step, -, hb⟩ := hb
  have hnil : (([] : List Round).map Round.gain).sum = 0 := rfl
  have hfresh : ∀ t : Trading, t.phase ≠ .inTrade → t.pos = none → t.placed = [] → t.tradesToday = 0 →
      t.tradedDirs = ∅ → t.book = ⟨[], c.backtestInitialCapital⟩ →
      t.Sound key c ∧ t.BookedAs c.backtestInitialCapital [] := by
    intro t hphase hpos hplaced htrades hdirs hbook
    refine ⟨⟨⟨fun hin => absurd hin hphase, fun hsome => ?_⟩, ⟨none, hplaced ▸ .nil, hpos ▸ .none⟩, ?_, ?_,
      fun _ => ?_, fun p hp => ?_⟩, ?_⟩
    · rw [hpos] at hsome
      cases hsome
    · rw [hplaced, htrades]
      rfl
    · rw [htrades]
      exact le_max_right _ _
    · rw [hdirs, htrades]
      rfl
    · rw [hpos] at hp
      cases hp
    · simp only [Trading.BookedAs, hpos]
      rw [hplaced, hbook, hnil, add_zero]
      exact ⟨rfl, rfl⟩
  subst hb
  split
  · exact hfresh _ (by decide : Phase.done ≠ .inTrade) rfl rfl rfl rfl rfl
  · exact hfresh _ (by decide : Phase.buildingOr ≠ .inTrade) rfl rfl rfl rfl rfl

end Trademetrix.Strategies
