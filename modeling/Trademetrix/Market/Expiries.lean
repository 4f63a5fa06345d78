import Trademetrix.Engine.OptionSymbols
import Trademetrix.Calendar

/-!
# Expiry calculators

Three places compute expiries of their own: the strategy compiler, the constants and
the option chain. The weekly expiry is the next expiry weekday after a day; the
monthly one should be the last of a month.
-/

namespace Trademetrix.Market

open Engine (LegExpiry UserStrategyLeg dayText expiryText monthCodes resolveExpiry weekdayExpiry)
open OptionSymbols (daysInMonth twoDigits)

section Calculators

/-- `date.weekday`, where Monday is 0. -/
def mondayFirst (d : Day) : ℕ := (d.weekday + 6) % 7

def getWeeklyExpiry (symbol : String) (refDate : Day) : Day :=
  let expiryWeekday := (weekdayExpiry.get (Text.upper symbol)).getD 3
  let daysAhead : ℤ := (expiryWeekday : ℤ) - mondayFirst refDate
  ⟨refDate.index + (if daysAhead ≤ 0 then daysAhead + 7 else daysAhead).toNat⟩

def backToThursday : ℕ → Day
  | 0 => ⟨0⟩
  | i + 1 => if mondayFirst ⟨i + 1⟩ = 3 then ⟨i + 1⟩ else backToThursday i

def getMonthlyExpiry (refDate : Day) : Day :=
  let lastDay := daysInMonth refDate.year refDate.month
  backToThursday (refDate.index + (lastDay - refDate.dayOfMonth))

/-- `strftime("%d%b").upper()`. -/
def shortText (d : Day) : String :=
  (if d.dayOfMonth < 10 then "0" else "") ++ toString d.dayOfMonth ++ monthCodes.getD (d.month - 1) ""

/-- The day that `_next_expiry` puts out. -/
def nextThursday (today : Day) : Day :=
  let daysAhead := (3 + 7 - mondayFirst today) % 7
  ⟨today.index + if daysAhead = 0 then 7 else daysAhead⟩

def nextExpiry (today : Day) : String := shortText (nextThursday today)

end Calculators

section Calendar

structure NextOn (weekday : ℕ) (start d : Day) : Prop where
  on : mondayFirst d = weekday
  start_le : start.index ≤ d.index
  least : ∀ e, mondayFirst e = weekday → start.index ≤ e.index → d.index ≤ e.index

structure LastOn (weekday : ℕ) (d : Day) : Prop where
  on : mondayFirst d = weekday
  greatest : ∀ e, mondayFirst e = weekday → Day.SameMonth e d → e.index ≤ d.index

structure OneCalendar (symbol : String) (weekday : ℕ) (today : Day) : Prop where
  weekly : ∃ start first, (start = today ∨ start = ⟨today.index + 1⟩) ∧ NextOn weekday start first ∧
    (∀ leg : UserStrategyLeg, leg.expiry = .weekly → resolveExpiry today leg symbol = dayText first) ∧
    getWeeklyExpiry symbol today = first ∧ nextExpiry today = shortText first ∧
    ∀ leg : UserStrategyLeg, leg.expiry = .nextWeekly →
      resolveExpiry today leg symbol = dayText ⟨first.index + 7⟩
  monthly : ∃ last, LastOn weekday last ∧ today.index ≤ last.index ∧
    (∀ leg : UserStrategyLeg, leg.expiry = .monthly → resolveExpiry today leg symbol = dayText last) ∧
    getMonthlyExpiry today = last

end Calendar

section Weekly

variable {symbol : String} {w : ℕ}

theorem mondayFirst_add (d : Day) (j : ℕ) : mondayFirst ⟨d.index + j⟩ = (mondayFirst d + j) % 7 := by
  unfold mondayFirst Day.weekday
  dsimp only
  omega

theorem mondayFirst_lt (d : Day) : mondayFirst d < 7 := Nat.mod_lt _ (by decide)

theorem nextOn_of_ahead {today : Day} {j : ℕ} (hj : 1 ≤ j) (hj' : j ≤ 7)
    (hw : mondayFirst ⟨today.index + j⟩ = w) : NextOn w ⟨today.index + 1⟩ ⟨today.index + j⟩ where
  on := hw
  start_le := Nat.add_le_add_left hj _
  least := by
    intro e he hstart
    dsimp only at hstart ⊢
    have hsame : mondayFirst e = mondayFirst ⟨today.index + j⟩ := he.trans hw.symm
    unfold mondayFirst Day.weekday at hsame
    dsimp only at hsame
    omega

theorem NextOn.unique {start d e : Day} (hd : NextOn w start d) (he : NextOn w start e) : d = e := by
  have hle := hd.least e he.on he.start_le
  have hge := he.least d hd.on hd.start_le
  have hindex : d.index = e.index := Nat.le_antisymm hle hge
  cases d
  cases e
  exact congrArg Day.mk hindex

theorem supported (hw : weekdayExpiry.get symbol = some w) : w < 7 ∧ Text.upper symbol = symbol := by
  have hmem := Dict.mem_of_get hw
  simp only [weekdayExpiry, List.mem_cons, Prod.mk.injEq, List.not_mem_nil, or_false] at hmem
  rcases hmem with ⟨rfl, rfl⟩ | ⟨rfl, rfl⟩ | ⟨rfl, rfl⟩ | ⟨rfl, rfl⟩ | ⟨rfl, rfl⟩ <;> decide

theorem nextOn_getWeeklyExpiry (hw : weekdayExpiry.get symbol = some w) (today : Day) :
    NextOn w ⟨today.index + 1⟩ (getWeeklyExpiry symbol today) := by
  obtain ⟨hlt, hupper⟩ := supported hw
  have htoday := mondayFirst_lt today
  unfold getWeeklyExpiry
  rw [hupper, hw]
  dsimp only [Option.getD_some]
  refine nextOn_of_ahead ?_ ?_ ?_
  · split <;> omega
  · split <;> omega
  · rw [mondayFirst_add]
    split <;> omega

theorem resolveExpiry_weekly (hw : weekdayExpiry.get symbol = some w) (today : Day)
    {leg : UserStrategyLeg} (hleg : leg.expiry = .weekly) :
    resolveExpiry today leg symbol = dayText (getWeeklyExpiry symbol today) := by
  obtain ⟨hlt, hupper⟩ := supported hw
  have htoday := mondayFirst_lt today
  unfold mondayFirst at htoday
  unfold resolveExpiry getWeeklyExpiry mondayFirst
  rw [hupper, hw, hleg]
  dsimp only [Option.getD_some]
  congr 3
  split <;> split <;> omega

theorem resolveExpiry_nextWeekly (hw : weekdayExpiry.get symbol = some w) (today : Day)
    {leg : UserStrategyLeg} (hleg : leg.expiry = .nextWeekly) :
    resolveExpiry today leg symbol =
      dayText ⟨(getWeeklyExpiry symbol today).index + if mondayFirst today = w then 0 else 7⟩ := by
  obtain ⟨hlt, hupper⟩ := supported hw
  have htoday := mondayFirst_lt today
  unfold mondayFirst at htoday
  unfold resolveExpiry getWeeklyExpiry mondayFirst
  rw [hupper, hw, hleg]
  dsimp only [Option.getD_some]
  congr 2
  split <;> split <;> omega

theorem twoDigits_inj : ∀ a < 32, ∀ b < 32, (twoDigits a).toList = (twoDigits b).toList → a = b := by
  decide

theorem length_twoDigits : ∀ a < 32, (twoDigits a).toList.length = 2 := by decide

theorem dayOfMonth_lt (d : Day) : d.dayOfMonth < 32 :=
  Nat.lt_succ_of_le (d.dayOfMonth_le.trans d.daysOfMonth_bounds.2)

theorem eq_of_twoDigits {a b : ℕ} (ha : a < 32) (hb : b < 32) {xs ys : List Char}
    (h : (twoDigits a).toList ++ xs = (twoDigits b).toList ++ ys) : a = b := by
  have hlength := (length_twoDigits a ha).trans (length_twoDigits b hb).symm
  exact twoDigits_inj a ha b hb (List.append_inj_left h hlength)

theorem dayOfMonth_of_expiryText {d : Day} {day month year : ℕ} (hday : day < 32)
    (h : dayText d = expiryText day month year) : d.dayOfMonth = day := by
  have hsplit : ∀ day month year, (expiryText day month year).toList = (twoDigits day).toList ++
      ((monthCodes.getD (month - 1) "").toList ++ (toString year).toList) := by
    intro day month year
    unfold expiryText
    rw [String.toList_append, String.toList_append, List.append_assoc]
    rfl
  have htext := congrArg String.toList h
  unfold dayText at htext
  rw [hsplit, hsplit] at htext
  exact eq_of_twoDigits (dayOfMonth_lt d) hday htext

theorem dayOfMonth_of_shortText {a b : Day} (h : shortText a = shortText b) :
    a.dayOfMonth = b.dayOfMonth := by
  have hsplit : ∀ d, (shortText d).toList = (twoDigits d.dayOfMonth).toList ++
      (monthCodes.getD (d.month - 1) "").toList := by
    intro d
    unfold shortText
    rw [String.toList_append]
    rfl
  have htext := congrArg String.toList h
  rw [hsplit, hsplit] at htext
  exact eq_of_twoDigits (dayOfMonth_lt a) (dayOfMonth_lt b) htext

theorem dayOfMonth_ne {d : Day} {j : ℕ} (hj : 1 ≤ j) (hj' : j < 28) :
    (⟨d.index + j⟩ : Day).dayOfMonth ≠ d.dayOfMonth := by
  have hle := d.dayOfMonth_le
  have hbounds := d.daysOfMonth_bounds
  by_cases hsame : d.dayOfMonth + j ≤ d.daysOfMonth
  · have hnumber := (Day.sameMonth_add hsame).2.1
    omega
  · have hnext := (Day.nextMonth_add (d := d) (j := d.dayOfMonth + j - d.daysOfMonth) (by omega)
      (by omega)).1
    have hindex : d.index + (d.daysOfMonth - d.dayOfMonth) + (d.dayOfMonth + j - d.daysOfMonth) =
        d.index + j := by omega
    rw [hindex] at hnext
    omega

/-- The next weekly expiry is a week after the weekly one exactly when the day is no expiry
weekday. -/
theorem nextWeekly_iff (hw : weekdayExpiry.get symbol = some w) (today : Day)
    {leg : UserStrategyLeg} (hleg : leg.expiry = .nextWeekly) :
    resolveExpiry today leg symbol = dayText ⟨(getWeeklyExpiry symbol today).index + 7⟩ ↔
      mondayFirst today ≠ w := by
  rw [resolveExpiry_nextWeekly hw today hleg]
  by_cases hon : mondayFirst today = w
  · rw [if_pos hon, Nat.add_zero]
    have hne := dayOfMonth_ne (d := getWeeklyExpiry symbol today) (j := 7) (by decide) (by decide)
    constructor
    · intro htext
      exact absurd (dayOfMonth_of_expiryText (dayOfMonth_lt _) htext).symm hne
    · intro hoff
      exact absurd hon hoff
  · rw [if_neg hon]
    exact ⟨fun _ => hon, fun _ => rfl⟩

theorem nextOn_nextThursday (today : Day) : NextOn 3 ⟨today.index + 1⟩ (nextThursday today) := by
  have htoday := mondayFirst_lt today
  unfold nextThursday
  dsimp only
  refine nextOn_of_ahead ?_ ?_ ?_
  · split <;> omega
  · split <;> omega
  · rw [mondayFirst_add]
    split <;> omega

theorem nextExpiry_iff (hw : weekdayExpiry.get symbol = some w) (today : Day) :
    nextExpiry today = shortText (getWeeklyExpiry symbol today) ↔ w = 3 := by
  have hweekly := nextOn_getWeeklyExpiry hw today
  have hthursday := nextOn_nextThursday today
  constructor
  · intro htext
    have hnumber := dayOfMonth_of_shortText htext
    by_contra hne
    have hwithin : ∀ {w d}, NextOn w ⟨today.index + 1⟩ d →
        today.index + 1 ≤ d.index ∧ d.index ≤ today.index + 7 := by
      intro w d hd
      refine ⟨hd.start_le, ?_⟩
      by_contra hlate
      have hback : mondayFirst ⟨d.index - 7⟩ = w := by
        have hon := hd.on
        unfold mondayFirst Day.weekday at hon ⊢
        dsimp only
        omega
      have hleast := hd.least ⟨d.index - 7⟩ hback (by dsimp only; omega)
      dsimp only at hleast
      omega
    obtain ⟨hlow, hhigh⟩ := hwithin hweekly
    obtain ⟨hlow', hhigh'⟩ := hwithin hthursday
    have hdiff : (nextThursday today).index ≠ (getWeeklyExpiry symbol today).index := by
      intro hindex
      have hon := hthursday.on
      rw [← hweekly.on] at hne
      unfold mondayFirst Day.weekday at hon hne
      rw [hindex] at hon
      exact hne hon
    rcases Nat.lt_or_gt_of_ne hdiff with hlt | hlt
    · have hnot := dayOfMonth_ne (d := nextThursday today)
        (j := (getWeeklyExpiry symbol today).index - (nextThursday today).index) (by omega) (by omega)
      rw [Nat.add_sub_cancel' hlt.le] at hnot
      exact hnot hnumber.symm
    · have hnot := dayOfMonth_ne (d := getWeeklyExpiry symbol today)
        (j := (nextThursday today).index - (getWeeklyExpiry symbol today).index) (by omega) (by omega)
      rw [Nat.add_sub_cancel' hlt.le] at hnot
      exact hnot hnumber
  · rintro rfl
    rw [hweekly.unique hthursday, nextExpiry]

end Weekly

section Monthly

variable {symbol : String} {w : ℕ}

theorem not_lastOn_twenty {d : Day} (h : d.dayOfMonth = 20) : ¬ LastOn w d := by
  intro hlast
  have hbounds := d.daysOfMonth_bounds
  have hmonth := (Day.sameMonth_add (d := d) (j := 7) (by omega)).1
  have hon : mondayFirst ⟨d.index + 7⟩ = w := by
    rw [mondayFirst_add, Nat.add_mod_right, Nat.mod_eq_of_lt (mondayFirst_lt d)]
    exact hlast.on
  have hle := hlast.greatest _ hon hmonth
  dsimp only at hle
  omega

theorem resolveExpiry_monthly (symbol : String) (today : Day) {leg : UserStrategyLeg} (hleg : leg.expiry = .monthly) :
    ∃ d : Day, resolveExpiry today leg symbol = dayText d ∧ d.dayOfMonth = 20 ∧ today.index ≤ d.index ∧
      (Day.SameMonth d today ∨ (d.year, d.month) = today.nextMonth) := by
  have hbounds := today.daysOfMonth_bounds
  unfold resolveExpiry
  rw [hleg]
  dsimp only
  by_cases hearly : today.dayOfMonth < 20
  · obtain ⟨hsame, hnumber, -⟩ :=
      Day.sameMonth_add (d := today) (j := 20 - today.dayOfMonth) (by omega)
    rw [if_pos hearly]
    refine ⟨_, ?_, ?_, Nat.le_add_right _ _, .inl hsame⟩
    · unfold dayText
      rw [hsame.year, hsame.month, hnumber, Nat.add_sub_cancel' hearly.le]
    · omega
  · obtain ⟨hnumber, hnext⟩ := Day.nextMonth_add (d := today) (j := 20) (by decide) (by decide)
    rw [if_neg hearly]
    refine ⟨_, ?_, hnumber, by dsimp only; omega, .inr hnext⟩
    unfold dayText
    rw [hnumber]
    unfold Day.nextMonth at hnext
    by_cases hmonth : today.month < 12
    · rw [if_pos hmonth] at hnext ⊢
      rw [(Prod.mk.inj hnext).1, (Prod.mk.inj hnext).2]
    · rw [if_neg hmonth] at hnext ⊢
      rw [(Prod.mk.inj hnext).1, (Prod.mk.inj hnext).2]

theorem daysInMonth_eq (d : Day) : daysInMonth d.year d.month = d.daysOfMonth := by
  obtain ⟨e, y, m, k, hy, hm, hk, rfl⟩ := Day.exists_ofMarch d
  rw [Day.year_ofMarch hy hm hk, Day.month_ofMarch hy hm hk, Day.daysOfMonth_ofMarch hy hm hk]
  by_cases hfebruary : m = 11
  · subst hfebruary
    have hleap : OptionSymbols.isLeapYear (400 * e + y + 1) = true ↔
        y % 4 = 3 ∧ (y % 100 ≠ 99 ∨ y = 399) := by
      simp only [OptionSymbols.isLeapYear, Bool.and_eq_true, Bool.or_eq_true, decide_eq_true_eq,
        ne_eq, decide_not, Bool.not_eq_true', decide_eq_false_iff_not]
      omega
    unfold Day.monthLength Day.yearLength daysInMonth
    rw [if_neg (by decide), if_pos (by decide), if_pos rfl]
    have hnext : (if 10 ≤ 11 then 1 else 0) = 1 := rfl
    rw [hnext]
    by_cases hlong : y % 4 = 3 ∧ (y % 100 ≠ 99 ∨ y = 399)
    · rw [if_pos hlong, if_pos (hleap.mpr hlong)]
    · rw [if_neg hlong, if_neg (mt hleap.mp hlong)]
  · have hmonths : ∀ m < 12, m ≠ 11 → (if m < 10 then m + 3 else m - 9) ≠ 2 ∧
        (if (if m < 10 then m + 3 else m - 9) ∈ [4, 6, 9, 11] then 30 else 31) =
          Day.monthStart (m + 1) - Day.monthStart m := by decide
    obtain ⟨htwo, hlength⟩ := hmonths m hm hfebruary
    unfold Day.monthLength daysInMonth
    rw [if_neg hfebruary, if_neg htwo]
    exact hlength

theorem backToThursday_eq (i : ℕ) : backToThursday i = ⟨i - (i + 6) % 7⟩ := by
  induction i with
  | zero => rfl
  | succ i ih =>
    unfold backToThursday
    have hthursday : mondayFirst ⟨i + 1⟩ = 3 ↔ i % 7 = 0 := by
      unfold mondayFirst Day.weekday
      dsimp only
      omega
    by_cases hon : i % 7 = 0
    · rw [if_pos (hthursday.mpr hon)]
      have hstay : (i + 1 + 6) % 7 = 0 := by omega
      rw [hstay, Nat.sub_zero]
    · rw [if_neg (mt hthursday.mp hon), ih]
      congr 1
      omega

/-- The monthly expiry of the constants is the last Thursday of the month of the day, whatever the
symbol, and may be before the day. -/
theorem lastOn_getMonthlyExpiry (today : Day) :
    LastOn 3 (getMonthlyExpiry today) ∧ Day.SameMonth (getMonthlyExpiry today) today := by
  have hbounds := today.daysOfMonth_bounds
  have hle := today.dayOfMonth_le
  obtain ⟨hlast, hnumber, hdays⟩ := Day.sameMonth_add
    (d := today) (j := today.daysOfMonth - today.dayOfMonth) (by omega)
  rw [Nat.add_sub_cancel' hle] at hnumber
  obtain ⟨last, hdef⟩ : ∃ last : Day,
      last = ⟨today.index + (today.daysOfMonth - today.dayOfMonth)⟩ := ⟨_, rfl⟩
  rw [← hdef] at hlast hnumber hdays
  have hback : getMonthlyExpiry today = ⟨last.index - (last.index + 6) % 7⟩ := by
    unfold getMonthlyExpiry
    rw [daysInMonth_eq, backToThursday_eq, hdef]
  obtain ⟨hsame, -, hindex⟩ := Day.sameMonth_sub (d := last) (j := (last.index + 6) % 7) (by omega)
  rw [hback]
  refine ⟨⟨?_, fun e hon he => ?_⟩, ⟨hsame.year.trans hlast.year, hsame.month.trans hlast.month⟩⟩
  · unfold mondayFirst Day.weekday
    dsimp only
    omega
  · have hmonth : Day.SameMonth e last := ⟨he.year.trans hsame.year, he.month.trans hsame.month⟩
    have hshift := hmonth.index
    have hdom := e.dayOfMonth_le
    have hlength : e.daysOfMonth = last.daysOfMonth := by
      rw [← daysInMonth_eq, ← daysInMonth_eq, hmonth.year, hmonth.month]
    unfold mondayFirst Day.weekday at hon
    dsimp only
    omega

def monthlyLeg : UserStrategyLeg where
  legOrder := 1
  segment := .futures
  position := .buy
  expiry := .monthly
  strikeCriteria := .atmOffset
  strikeValue := 0

/-- The calculators agree on no day and for no symbol. -/
theorem not_oneCalendar (symbol : String) (w : ℕ) (today : Day) : ¬ OneCalendar symbol w today := by
  intro h
  obtain ⟨last, hlast, -, htext, -⟩ := h.monthly
  obtain ⟨d, hd, hnumber, -, -⟩ := resolveExpiry_monthly symbol today
    (show monthlyLeg.expiry = .monthly from rfl)
  have heq : dayText last = dayText d := (htext monthlyLeg rfl).symm.trans hd
  have htwenty : last.dayOfMonth = 20 := by
    rw [dayOfMonth_of_expiryText (dayOfMonth_lt d) heq]
    exact hnumber
  exact not_lastOn_twenty htwenty hlast

/-- NIFTY on 18 November 2025, a Tuesday: the chain expires on Thursday the 20th, the weekly expiry
is the 25th, and so is the next weekly one. -/
theorem nifty_not_oneCalendar :
    ¬ ∀ (symbol : String) (w : ℕ) (today : Day), weekdayExpiry.get symbol = some w →
      OneCalendar symbol w today := by
  intro h
  have hnifty : weekdayExpiry.get "NIFTY" = some 1 := rfl
  obtain ⟨start, first, -, -, -, hfirst, htext, -⟩ := (h "NIFTY" 1 ⟨739878⟩ hnifty).weekly
  rw [← hfirst, nextExpiry_iff hnifty] at htext
  cases htext

end Monthly

end Trademetrix.Market
