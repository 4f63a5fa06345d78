import Mathlib.Algebra.Order.Floor.Semiring
import Mathlib.Data.Rat.Floor
import Mathlib.Tactic.Linarith
import Mathlib.Tactic.Ring
import Trademetrix.Decimal
import Trademetrix.Engine.StrategyCompiler

/-!
# Option symbols and the in-the-money snap

The gate reads an option symbol as underlying, day, month, two digits of a year, strike and
type; `format_fyers_option_symbol` writes no year. The snap computes a strike from a spot
price and writes a new symbol for it.
-/

namespace Trademetrix.OptionSymbols

open Engine (NormalizedOrder OptionType monthCodes strikeInterval truncate)

section Dates

def isLeapYear (year : ℕ) : Bool := year % 4 = 0 && (year % 100 ≠ 0 || year % 400 = 0)

def daysInMonth (year month : ℕ) : ℕ :=
  if month ∈ [4, 6, 9, 11] then 30
  else if month = 2 then if isLeapYear year then 29 else 28
  else 31

structure Date where
  year : ℕ
  month : ℕ
  day : ℕ
  year_valid : 1 ≤ year ∧ year ≤ 9999
  month_valid : 1 ≤ month ∧ month ≤ 12
  day_valid : 1 ≤ day ∧ day ≤ daysInMonth year month
  deriving DecidableEq

/-- `date(year, month, day)`; `none` is a `ValueError`. -/
def Date.of? (year month day : ℕ) : Option Date :=
  if h : (1 ≤ year ∧ year ≤ 9999) ∧ (1 ≤ month ∧ month ≤ 12) ∧
      1 ≤ day ∧ day ≤ daysInMonth year month then
    some ⟨year, month, day, h.1, h.2.1, h.2.2⟩
  else none

def twoDigits (n : ℕ) : String := (if n < 10 then "0" else "") ++ toString n

def Date.isoformat (d : Date) : String :=
  let year := toString d.year
  String.ofList (List.replicate (4 - year.length) '0') ++ year ++ "-" ++ twoDigits d.month ++
    "-" ++ twoDigits d.day

def monthCode (month : ℕ) : String := monthCodes.getD (month - 1) ""

def monthNum (code : List Char) : Option ℕ :=
  (monthCodes.findIdx? fun m => m.toList = code).map (· + 1)

end Dates

section Symbols

def formatFyersOptionSymbol (symbol : String) (strike : ℚ) (optionType : String)
    (expiryDate : Date) : String :=
  let exch := if Text.upper symbol = "SENSEX" then "BSE" else "NSE"
  exch ++ ":" ++ Text.upper symbol ++ twoDigits expiryDate.day ++ monthCode expiryDate.month ++
    toString (truncate strike) ++ Text.upper optionType

structure OptionSymbol where
  underlying : String
  expiry : Date
  strike : ℚ
  optionType : OptionType
  deriving DecidableEq

/-- `\d`. -/
def isDecimal (c : Char) : Bool := (Text.decimal c).isSome

/-- The value of digits as `int` and `float` read them. -/
def decimalValue (cs : List Char) : ℕ :=
  cs.foldl (fun n c => 10 * n + (Text.decimal c).getD 0) 0

structure SymbolGroups where
  dd : List Char
  mon : List Char
  yy : List Char
  strike : List Char

/-- `(\d{2})([A-Z]{3})(\d{2})(\d+)` up to the end. -/
def matchGroups : List Char → Option SymbolGroups
  | d₁ :: d₂ :: m₁ :: m₂ :: m₃ :: y₁ :: y₂ :: strike =>
    if [d₁, d₂, y₁, y₂].all isDecimal ∧ [m₁, m₂, m₃].all Char.isUpper ∧ strike ≠ [] ∧
        strike.all isDecimal then
      some ⟨[d₁, d₂], [m₁, m₂, m₃], [y₁, y₂], strike⟩
    else none
  | _ => none

/-- The shortest `(.*?)` before the other groups. -/
def matchUnderlying : List Char → Option (List Char × SymbolGroups)
  | [] => none
  | c :: cs =>
    match matchGroups (c :: cs) with
    | some g => some ([], g)
    | none => if c = '\n' then none else (matchUnderlying cs).map fun p => (c :: p.1, p.2)

/-- `(CE|PE)$`, where the end may stand before a line break. -/
def splitOptionType (cs : List Char) : Option (List Char × OptionType) :=
  match (if cs.getLast? = some '\n' then cs.dropLast else cs).reverse with
  | 'E' :: 'C' :: rest => some (rest.reverse, .ce)
  | 'E' :: 'P' :: rest => some (rest.reverse, .pe)
  | _ => none

/-- `_parse_option_symbol`; strikes are read exactly. -/
def parseOptionSymbol (symbol : String) : Option OptionSymbol := do
  let (front, optionType) ← splitOptionType symbol.toList
  let (underlying, g) ← matchUnderlying front
  let month ← monthNum g.mon
  let expiry ← Date.of? (decimalValue ('2' :: '0' :: g.yy)) month (decimalValue g.dd)
  return ⟨String.ofList underlying, expiry, decimalValue g.strike, optionType⟩

variable {cs front back : List Char} {c d : Char} {g : SymbolGroups}

theorem isDecimal_of_isUpper (h : c.isUpper = true) : isDecimal c = false := by
  have hzeros : ∀ z ∈ Text.decimalZeros, z + 10 ≤ 65 ∨ 90 < z := by decide
  have hbounds : 65 ≤ c.toNat ∧ c.toNat ≤ 90 := of_decide_eq_true h
  have hnone : Text.decimalZeros.find? (fun z => decide (z ≤ c.toNat ∧ c.toNat < z + 10)) = none := by
    refine List.find?_eq_none.mpr fun z hz => ?_
    have hz' := hzeros z hz
    rw [decide_eq_true_iff]
    omega
  rw [isDecimal, Text.decimal, hnone]
  rfl

theorem isDecimal_of_digits (h : Text.Digits cs) : ∀ c ∈ cs, isDecimal c = true :=
  fun c hc => Text.decimal_of_isDigit (h c hc)

theorem decimal_lt (c : Char) : (Text.decimal c).getD 0 < 10 := by
  unfold Text.decimal
  cases hfind : Text.decimalZeros.find? fun z => decide (z ≤ c.toNat ∧ c.toNat < z + 10) with
  | none => exact Nat.succ_pos 9
  | some z =>
    have hz : z ≤ c.toNat ∧ c.toNat < z + 10 := by simpa using List.find?_some hfind
    have hlt : c.toNat - z < 10 := by omega
    exact hlt

theorem decimalValue_lt (cs : List Char) : decimalValue cs < 10 ^ cs.length := by
  have hgo : ∀ (cs : List Char) (n : ℕ),
      cs.foldl (fun n c => 10 * n + (Text.decimal c).getD 0) n + 1 ≤ (n + 1) * 10 ^ cs.length := by
    intro cs
    induction cs with
    | nil => exact fun n => le_of_eq (by simp)
    | cons c cs ih =>
      intro n
      have hdigit := decimal_lt c
      calc (c :: cs).foldl (fun n c => 10 * n + (Text.decimal c).getD 0) n + 1
          ≤ (10 * n + (Text.decimal c).getD 0 + 1) * 10 ^ cs.length := ih _
        _ ≤ ((n + 1) * 10) * 10 ^ cs.length := Nat.mul_le_mul_right _ (by omega)
        _ = (n + 1) * 10 ^ (c :: cs).length := by rw [List.length_cons, pow_succ']; ring
  have hall := hgo cs 0
  rw [Nat.zero_add, Nat.one_mul] at hall
  exact hall

theorem digits_unique {xs ys ds es : List Char} (h : xs ++ c :: ds = ys ++ d :: es)
    (hc : isDecimal c = false) (hd : isDecimal d = false) (hds : ∀ a ∈ ds, isDecimal a = true)
    (hes : ∀ a ∈ es, isDecimal a = true) : c = d ∧ ds = es := by
  have hrun : ∀ (xs : List Char) {ds : List Char} {c : Char}, isDecimal c = false →
      (∀ a ∈ ds, isDecimal a = true) →
        (xs ++ c :: ds).reverse.takeWhile isDecimal = ds.reverse := by
    intro xs ds c hc hds
    have hne : ¬ isDecimal c = true := by simp [hc]
    rw [List.reverse_append, List.reverse_cons, List.append_assoc, List.singleton_append,
      List.takeWhile_append_of_pos fun a ha => hds a (List.mem_reverse.mp ha),
      List.takeWhile_cons_of_neg hne, List.append_nil]
  have hsame : ds = es := by
    rw [← List.reverse_inj, ← hrun xs hc hds, h, hrun ys hd hes]
  subst hsame
  have hfront := List.append_inj_left' h rfl
  have hlast := List.append_inj_right' h rfl
  exact ⟨(List.cons.inj hlast).1, rfl⟩

theorem matchGroups_eq_some (h : matchGroups cs = some g) :
    ∃ xs m, cs = xs ++ m :: (g.yy ++ g.strike) ∧ m.isUpper = true ∧
      (∀ a ∈ g.yy ++ g.strike, isDecimal a = true) ∧ g.yy.length = 2 ∧ g.strike ≠ [] := by
  unfold matchGroups at h
  split at h
  · next d₁ d₂ m₁ m₂ m₃ y₁ y₂ strike =>
    split_ifs at h with hall
    obtain ⟨hdigits, hmonth, hne, hstrike⟩ := hall
    obtain rfl := Option.some.inj h
    simp only [List.all_cons, List.all_nil, Bool.and_eq_true] at hdigits hmonth
    refine ⟨[d₁, d₂, m₁, m₂], m₃, rfl, hmonth.2.2.1, fun a ha => ?_, rfl, hne⟩
    rcases List.mem_append.mp ha with hyear | hrest
    · rcases List.mem_pair.mp hyear with rfl | rfl
      · exact hdigits.2.2.1
      · exact hdigits.2.2.2.1
    · exact List.all_eq_true.mp hstrike a hrest
  · exact absurd h (Option.some_ne_none g).symm

theorem matchUnderlying_eq_some {u : List Char} (h : matchUnderlying cs = some (u, g)) :
    ∃ xs m, cs = xs ++ m :: (g.yy ++ g.strike) ∧ m.isUpper = true ∧
      (∀ a ∈ g.yy ++ g.strike, isDecimal a = true) ∧ g.yy.length = 2 ∧ g.strike ≠ [] := by
  induction cs generalizing u with
  | nil => exact absurd h (Option.some_ne_none _).symm
  | cons c cs ih =>
    unfold matchUnderlying at h
    cases hg : matchGroups (c :: cs) with
    | some g' =>
      rw [hg] at h
      obtain ⟨-, rfl⟩ := Prod.mk.inj (Option.some.inj h)
      exact matchGroups_eq_some hg
    | none =>
      rw [hg] at h
      dsimp only at h
      split_ifs at h
      obtain ⟨⟨u', g'⟩, hmatch, heq⟩ := Option.map_eq_some_iff.mp h
      obtain ⟨-, rfl⟩ := Prod.mk.inj heq
      obtain ⟨xs, m, rfl, hgroups⟩ := ih hmatch
      exact ⟨c :: xs, m, rfl, hgroups⟩

theorem splitOptionType_append (front : List Char) (t : OptionType) :
    splitOptionType (front ++ t.value.toList) = some (front, t) := by
  cases t with
  | ce =>
    have hchars : OptionType.ce.value.toList = ['C', 'E'] := by decide
    simp [hchars, splitOptionType]
  | pe =>
    have hchars : OptionType.pe.value.toList = ['P', 'E'] := by decide
    simp [hchars, splitOptionType]

theorem parseOptionSymbol_eq_some {symbol : String} {xs ds : List Char} {t : OptionType}
    {p : OptionSymbol} (hsymbol : symbol.toList = xs ++ c :: ds ++ t.value.toList)
    (hc : isDecimal c = false) (hds : ∀ a ∈ ds, isDecimal a = true)
    (h : parseOptionSymbol symbol = some p) :
    c.isUpper = true ∧ ∃ yy rest, ds = yy ++ rest ∧ yy.length = 2 ∧ rest ≠ [] ∧
      p.strike = decimalValue rest := by
  unfold parseOptionSymbol at h
  rw [hsymbol, splitOptionType_append] at h
  simp only [Option.bind_eq_bind, Option.bind_some, Option.bind_eq_some_iff] at h
  obtain ⟨⟨u, g⟩, hmatch, month, -, expiry, -, heq⟩ := h
  obtain ⟨ys, m, hfront, hm, hall, hlen, hne⟩ := matchUnderlying_eq_some hmatch
  obtain ⟨rfl, rfl⟩ := digits_unique hfront hc (isDecimal_of_isUpper hm) hds hall
  refine ⟨hm, g.yy, g.strike, rfl, hlen, hne, ?_⟩
  rw [← Option.some.inj heq]

def Yearless (symbol : String) (strike : ℤ) (t : OptionType) : Prop :=
  ∃ xs m, symbol.toList = xs ++ m :: (toString strike).toList ++ t.value.toList ∧ m.isUpper = true

theorem monthCode_last {month : ℕ} (h : 1 ≤ month ∧ month ≤ 12) :
    ∃ xs m, (monthCode month).toList = xs ++ [m] ∧ m.isUpper = true := by
  have hall : ∀ month < 13, 1 ≤ month →
      (monthCode month).toList.getLast?.any Char.isUpper = true := by decide
  have hlast := hall month (by omega) h.1
  cases hm : (monthCode month).toList.getLast? with
  | none => exact absurd (hm ▸ hlast) (by decide)
  | some m =>
    rw [hm] at hlast
    exact ⟨_, m, (List.dropLast_append_getLast? m hm).symm, hlast⟩

theorem formatFyersOptionSymbol_yearless (symbol : String) (strike : ℚ) (t : OptionType)
    (expiry : Date) :
    Yearless (formatFyersOptionSymbol symbol strike t.value expiry) (truncate strike) t := by
  obtain ⟨xs, m, hmonth, hm⟩ := monthCode_last expiry.month_valid
  have ht : Text.upper t.value = t.value := by cases t <;> decide
  refine ⟨(((if Text.upper symbol = "SENSEX" then "BSE" else "NSE") ++ ":" ++ Text.upper symbol ++
    twoDigits expiry.day).toList ++ xs), m, ?_, hm⟩
  unfold formatFyersOptionSymbol
  rw [ht]
  simp only [String.toList_append, hmonth, List.append_assoc, List.nil_append, List.cons_append]

theorem colon_not_mem {strike : ℤ} {t : OptionType} {m : Char} (hm : m.isUpper = true) :
    ':' ∉ m :: (toString strike).toList ++ t.value.toList := by
  rw [Text.toList_toString, List.cons_append, List.mem_cons, List.mem_append, List.mem_append]
  rintro (rfl | (hsign | hdigits) | htype)
  · exact absurd hm (by decide)
  · split_ifs at hsign
    · exact absurd hsign (by decide)
    · exact absurd hsign List.not_mem_nil
  · exact (Text.digits_toDigits _).ne (by decide) ':' hdigits rfl
  · revert htype
    cases t <;> decide

theorem Yearless.replace {symbol : String} {strike : ℤ} {t : OptionType}
    (h : Yearless symbol strike t) : Yearless (Text.replace symbol "NSE:" "BSE:") strike t := by
  obtain ⟨xs, m, hsymbol, hm⟩ := h
  refine ⟨Text.replaceGo "NSE:".toList "BSE:".toList 0 xs, m, ?_, hm⟩
  have hold : "NSE:".toList = ['N', 'S', 'E'] ++ [':'] := by decide
  rw [Text.replace, String.toList_ofList, hsymbol, List.append_assoc, hold,
    Text.replaceGo_append (colon_not_mem hm) (Nat.zero_le _), ← List.append_assoc]

theorem Yearless.strike_lt {symbol : String} {strike : ℤ} {t : OptionType} {p : OptionSymbol}
    (h : Yearless symbol strike t) (hp : parseOptionSymbol symbol = some p) :
    0 < strike ∧ p.strike < strike := by
  obtain ⟨xs, m, hsymbol, hm⟩ := h
  have hdigits := isDecimal_of_digits (Text.digits_toDigits strike.natAbs)
  rw [Text.toList_toString] at hsymbol
  by_cases hneg : strike < 0
  · rw [if_pos hneg] at hsymbol
    have hminus : symbol.toList =
        (xs ++ [m]) ++ '-' :: Nat.toDigits 10 strike.natAbs ++ t.value.toList := by
      rw [hsymbol]
      simp
    exact absurd (parseOptionSymbol_eq_some hminus (by decide) hdigits hp).1 (by decide)
  · rw [if_neg hneg, List.nil_append] at hsymbol
    obtain ⟨-, yy, rest, heq, hlen, hne, hstrike⟩ :=
      parseOptionSymbol_eq_some hsymbol (isDecimal_of_isUpper hm) hdigits hp
    have hlarge : 10 ^ rest.length ≤ strike.natAbs := by
      by_contra hsmall
      have hle := (Nat.length_toDigits_le_iff (by decide) (List.length_pos_iff.mpr hne)).mpr
        (not_le.mp hsmall)
      rw [heq, List.length_append] at hle
      omega
    have hlt : decimalValue rest < strike.natAbs := (decimalValue_lt rest).trans_le hlarge
    have habs : ((strike.natAbs : ℕ) : ℤ) = strike := Int.natAbs_of_nonneg (not_lt.mp hneg)
    refine ⟨by omega, ?_⟩
    rw [hstrike, ← habs]
    exact_mod_cast hlt

theorem truncate_eq_floor {x : ℚ} (h : 0 ≤ x) : truncate x = ⌊x⌋ := by
  rw [truncate, Rat.floor_def', Int.tdiv_eq_ediv_of_nonneg (Rat.num_nonneg.mpr h)]

theorem truncate_le {x : ℚ} (h : 0 < truncate x) : (truncate x : ℚ) ≤ x := by
  rcases le_or_gt 0 x with hx | hx
  · rw [truncate_eq_floor hx]
    exact Int.floor_le x
  · have hnum : 0 ≤ -x.num := by
      have hneg := Rat.num_neg.mpr hx
      omega
    have hdiv := Int.tdiv_nonneg hnum (Int.natCast_nonneg x.den)
    rw [Int.neg_tdiv] at hdiv
    unfold truncate at h
    omega

end Symbols

section Snap

/-- The strike `_snap_to_itm_strike` computes; any type but `CE` is treated as `PE`. -/
def itmStrike (spot : ℚ) (interval : ℕ) : OptionType → ℤ
  | .ce => ⌊spot / interval⌋ * interval
  | .pe => -((-truncate spot) / interval) * interval

/-- Where the snap finds a spot price: the quotes of the market cache, the session of the user,
whether the broker authenticates it, and the quotes of the broker; reading the session raises
where it is `none`. -/
structure SpotSources where
  cached : String → Option ℚ
  session : Option Bool
  authenticates : Bool
  quote : String → Option ℚ

/-- `text.split(':')[-1]`. -/
def afterColon (s : String) : String := String.ofList ((s.toList.splitOn ':').getLastD [])

def positive (price : Option ℚ) : Option ℚ := price.filter fun lp => 0 < lp

def brokerSpot (sources : SpotSources) (isSensex : Bool) (p : OptionSymbol) : Option ℚ :=
  let year := toString p.expiry.year
  let yy := String.ofList (year.toList.drop (year.length - 2))
  let futSym := "NSE:" ++ afterColon p.underlying ++ yy ++ monthCode p.expiry.month ++ "FUT"
  let idxSym := if isSensex then "BSE:SENSEX-INDEX" else "NSE:NIFTY50-INDEX"
  (positive (sources.quote futSym)).or (positive (sources.quote idxSym))

/-- The spot price, or `none` after an exception. -/
def spotPrice (sources : SpotSources) (symbol : String) (p : OptionSymbol) : Option ℚ :=
  let isSensex := Text.contains (Text.upper symbol) "SENSEX"
  let probes :=
    if isSensex then ["NSE:NIFTY50-INDEX", "BSE:SENSEX-INDEX"] else ["NSE:NIFTY50-INDEX"]
  let fallback : ℚ := if isSensex then 81000 else 24500
  match probes.findSome? fun probe => positive (sources.cached probe) with
  | some spot => some spot
  | none =>
    match sources.session with
    | none => none
    | some false => some fallback
    | some true =>
      if sources.authenticates then some ((brokerSpot sources isSensex p).getD fallback) else none

def onBse (underlying : String) : Bool :=
  Text.contains (Text.upper underlying) "BSE" || Text.upper (afterColon underlying) = "SENSEX"

def snappedSymbol (p : OptionSymbol) (strike : ℤ) : String :=
  let symbol :=
    formatFyersOptionSymbol (afterColon p.underlying) strike p.optionType.value p.expiry
  if onBse p.underlying then Text.replace symbol "NSE:" "BSE:" else symbol

/-- `_snap_to_itm_strike`: the rewritten order, if it is rewritten. -/
def snapToItmStrike (sources : SpotSources) (order : NormalizedOrder) : Option NormalizedOrder := do
  guard (order.symbol ≠ "" ∧ order.strikePrice.getD 0 ≠ 0)
  let p ← parseOptionSymbol order.symbol
  guard order.optionType.isSome
  guard (Text.contains (Text.upper order.symbol) "NIFTY" ∨
    Text.contains (Text.upper order.symbol) "SENSEX")
  let spot ← spotPrice sources order.symbol p
  let strike := itmStrike spot (strikeInterval (Text.upper (afterColon p.underlying))) p.optionType
  guard (¬ (strike ≤ 0 ∨ strike = truncate p.strike))
  return { order with
    symbol := snappedSymbol p strike
    exchange := if onBse p.underlying then .bse else order.exchange
    strikePrice := some strike
    expiryDate := some p.expiry.isoformat }

variable {sources : SpotSources} {order snapped : NormalizedOrder} {spot : ℚ} {interval : ℕ}

def InTheMoney (spot : ℚ) (interval : ℕ) (strike : ℤ) : OptionType → Prop
  | .ce => (strike : ℚ) ≤ spot ∧ spot < strike + interval
  | .pe => (strike : ℚ) - interval < spot ∧ spot ≤ strike

theorem itmStrike_ce (hinterval : 0 < interval) :
    InTheMoney spot interval (itmStrike spot interval .ce) .ce := by
  have hpos : (0 : ℚ) < interval := Nat.cast_pos.mpr hinterval
  have hlow := (le_div_iff₀ hpos).mp (Int.floor_le (spot / interval))
  have hhigh := (div_lt_iff₀ hpos).mp (Int.lt_floor_add_one (spot / interval))
  constructor
  · push_cast [itmStrike]
    exact hlow
  · push_cast [itmStrike]
    linarith

theorem itmStrike_pe_mem (hspot : 0 ≤ spot) (hinterval : 0 < interval) :
    itmStrike spot interval .pe - interval < ⌊spot⌋ ∧ ⌊spot⌋ ≤ itmStrike spot interval .pe := by
  have hpos : (0 : ℤ) < interval := Int.natCast_pos.mpr hinterval
  have hlow := Int.ediv_mul_le (-⌊spot⌋) hpos.ne'
  have hhigh := Int.lt_ediv_add_one_mul_self (-⌊spot⌋) hpos
  rw [itmStrike, truncate_eq_floor hspot]
  constructor <;> linarith

theorem itmStrike_pe_eq (hspot : 0 ≤ spot) :
    itmStrike spot interval .pe = ⌊spot⌋ ↔ (interval : ℤ) ∣ ⌊spot⌋ := by
  rw [itmStrike, truncate_eq_floor hspot]
  constructor
  · intro h
    exact ⟨_, (h.symm.trans (mul_comm _ _))⟩
  · intro h
    rw [neg_mul, Int.ediv_mul_cancel ((Int.dvd_neg).mpr h), neg_neg]

theorem itmStrike_pe_iff (hspot : 0 ≤ spot) (hinterval : 0 < interval) :
    InTheMoney spot interval (itmStrike spot interval .pe) .pe ↔
      ((interval : ℤ) ∣ ⌊spot⌋ → spot = ⌊spot⌋) := by
  obtain ⟨hlow, hhigh⟩ := itmStrike_pe_mem hspot hinterval
  have hfloor := Int.floor_le spot
  have hnext := Int.lt_floor_add_one spot
  have hbelow : ((itmStrike spot interval .pe : ℤ) : ℚ) - interval < spot := by
    have hcast : ((itmStrike spot interval .pe - interval : ℤ) : ℚ) < ⌊spot⌋ := by
      exact_mod_cast hlow
    push_cast at hcast
    linarith
  by_cases hdvd : (interval : ℤ) ∣ ⌊spot⌋
  · have hstrike := (itmStrike_pe_eq hspot).mpr hdvd
    constructor
    · intro h _
      have hle : spot ≤ ((itmStrike spot interval .pe : ℤ) : ℚ) := h.2
      rw [hstrike] at hle
      exact le_antisymm hle hfloor
    · intro h
      refine ⟨hbelow, ?_⟩
      rw [hstrike]
      exact le_of_eq (h hdvd)
  · refine iff_of_true ⟨hbelow, ?_⟩ fun h => absurd h hdvd
    have hne : itmStrike spot interval .pe ≠ ⌊spot⌋ := fun h => hdvd ((itmStrike_pe_eq hspot).mp h)
    have hge : ((⌊spot⌋ + 1 : ℤ) : ℚ) ≤ itmStrike spot interval .pe := by
      exact_mod_cast (by omega : ⌊spot⌋ + 1 ≤ itmStrike spot interval .pe)
    push_cast at hge
    linarith

theorem snapToItmStrike_eq_some (h : snapToItmStrike sources order = some snapped) :
    ∃ p spot, parseOptionSymbol order.symbol = some p ∧
      spotPrice sources order.symbol p = some spot ∧
      ∃ strike, strike = itmStrike spot
          (strikeInterval (Text.upper (afterColon p.underlying))) p.optionType ∧
        snapped.symbol = snappedSymbol p strike ∧ snapped.strikePrice = some (strike : ℚ) := by
  unfold snapToItmStrike at h
  simp only [Option.bind_eq_bind, Option.bind_eq_some_iff, Option.guard_eq_some'] at h
  obtain ⟨-, -, p, hp, -, -, -, -, spot, hspot, -, -, heq⟩ := h
  have hfields := Option.some.inj heq
  refine ⟨p, spot, hp, hspot, itmStrike spot (strikeInterval (Text.upper (afterColon p.underlying)))
    p.optionType, rfl, ?_, ?_⟩
  · rw [← hfields]
  · rw [← hfields]

theorem snappedSymbol_yearless (p : OptionSymbol) (strike : ℤ) :
    Yearless (snappedSymbol p strike) strike p.optionType := by
  have hformat := formatFyersOptionSymbol_yearless (afterColon p.underlying) strike p.optionType
    p.expiry
  have hwhole : truncate (strike : ℚ) = strike := by simp [truncate]
  rw [hwhole] at hformat
  unfold snappedSymbol
  dsimp only
  split_ifs
  · exact hformat.replace
  · exact hformat

end Snap

section Claims

/-- No symbol the application writes is read back as the option it was written for, nor is a
snapped order's symbol read as the strike of the order. -/
theorem option_symbol_not_read_back (symbol : String) (strike : ℚ) (t : OptionType) (expiry : Date)
    (underlying : String) (sources : SpotSources) (order snapped : NormalizedOrder) :
    parseOptionSymbol (formatFyersOptionSymbol symbol strike t.value expiry) ≠
        some ⟨underlying, expiry, strike, t⟩ ∧
      (snapToItmStrike sources order = some snapped →
        ∀ p, parseOptionSymbol snapped.symbol = some p → some p.strike ≠ snapped.strikePrice) := by
  constructor
  · intro h
    obtain ⟨hpos, hlt⟩ :=
      (formatFyersOptionSymbol_yearless symbol strike t expiry).strike_lt h
    exact absurd hlt (not_lt_of_ge (truncate_le hpos))
  · intro h p hp hsame
    obtain ⟨q, spot, -, -, strike, -, hsymbol, hstrike⟩ := snapToItmStrike_eq_some h
    rw [hsymbol] at hp
    rw [hstrike] at hsame
    have hlt := ((snappedSymbol_yearless q strike).strike_lt hp).2
    exact absurd (Option.some.inj hsame) hlt.ne

def expiry : Date := ⟨2026, 8, 26, by decide, by decide, by decide⟩

/-- `NSE:NIFTY26AUG25000CE` is read as a strike of 0 that expires in 2025. -/
theorem option_symbol_misread :
    parseOptionSymbol (formatFyersOptionSymbol "NIFTY" 25000 "CE" expiry) =
        some ⟨"NSE:NIFTY", ⟨2025, 8, 26, by decide, by decide, by decide⟩, 0, .ce⟩ ∧
      parseOptionSymbol (formatFyersOptionSymbol "NIFTY" 25000 "CE" expiry) ≠
        some ⟨"NSE:NIFTY", expiry, 25000, .ce⟩ := by
  have hread : parseOptionSymbol (formatFyersOptionSymbol "NIFTY" 25000 "CE" expiry) =
      some ⟨"NSE:NIFTY", ⟨2025, 8, 26, by decide, by decide, by decide⟩, 0, .ce⟩ := by
    decide
  refine ⟨hread, fun h => ?_⟩
  rw [hread] at h
  exact absurd (congrArg (Option.map (·.strike)) h) (by decide)

/-- The snapped strike is the nearest in the money unless a put's spot price is a fraction above
a strike; a snapped order has that strike. -/
theorem snapped_strike_in_the_money (spot : ℚ) (interval : ℕ) (t : OptionType)
    (sources : SpotSources) (order snapped : NormalizedOrder) :
    (0 < spot → 0 < interval →
        (InTheMoney spot interval (itmStrike spot interval t) t ↔
          (t = .pe → (interval : ℤ) ∣ ⌊spot⌋ → spot = ⌊spot⌋))) ∧
      (snapToItmStrike sources order = some snapped →
        ∃ p spot, parseOptionSymbol order.symbol = some p ∧
          spotPrice sources order.symbol p = some spot ∧
          snapped.strikePrice = some (itmStrike spot
            (strikeInterval (Text.upper (afterColon p.underlying))) p.optionType : ℚ)) := by
  constructor
  · intro hspot hinterval
    cases t with
    | ce => exact iff_of_true (itmStrike_ce hinterval) fun h => absurd h (by decide)
    | pe => exact (itmStrike_pe_iff hspot.le hinterval).trans (true_imp_iff.symm.trans (by simp))
  · intro h
    obtain ⟨p, spot, hp, hspot, strike, rfl, -, hstrike⟩ := snapToItmStrike_eq_some h
    exact ⟨p, spot, hp, hspot, hstrike⟩

def cachedAt (spot : ℚ) : SpotSources where
  cached := fun _ => some spot
  session := none
  authenticates := false
  quote := fun _ => none

def put25000 : NormalizedOrder where
  symbol := "NSE:NIFTY26AUG2525000PE"
  exchange := .nfo
  side := .buy
  orderType := .market
  product := .intraday
  quantity := 50
  strikePrice := some 25000
  optionType := some .pe

def put24550 : NormalizedOrder :=
  { put25000 with
    symbol := "NSE:NIFTY26AUG24550PE"
    strikePrice := some 24550
    expiryDate := some "2025-08-26" }

theorem snapped_strike_in_the_money_put :
    (InTheMoney 24525 50 (itmStrike 24525 50 .pe) .pe ↔
      (OptionType.pe = .pe → ((50 : ℕ) : ℤ) ∣ ⌊(24525 : ℚ)⌋ → (24525 : ℚ) = ⌊(24525 : ℚ)⌋)) ∧
      ∃ p spot, parseOptionSymbol put25000.symbol = some p ∧
        spotPrice (cachedAt 24525) put25000.symbol p = some spot ∧
        put24550.strikePrice = some (itmStrike spot
          (strikeInterval (Text.upper (afterColon p.underlying))) p.optionType : ℚ) := by
  have h := snapped_strike_in_the_money 24525 50 .pe (cachedAt 24525) put25000 put24550
  exact ⟨h.1 (by norm_num) (by norm_num), h.2 (by decide)⟩

/-- A put on a spot price of 24500.5 is snapped to 24500, below the spot price. -/
theorem put_snapped_out_of_the_money :
    ¬ InTheMoney (49001 / 2) 50 (itmStrike (49001 / 2) 50 .pe) .pe := by
  rintro ⟨-, h⟩
  exact absurd h (by decide +kernel)

end Claims

end Trademetrix.OptionSymbols
