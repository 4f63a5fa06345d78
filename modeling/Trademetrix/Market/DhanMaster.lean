import Mathlib.Algebra.Order.Floor.Ring
import Trademetrix.Dict
import Trademetrix.Results
import Trademetrix.Text

/-!
# Dhan's instrument master

The rows of the master CSV, their parsing into contracts and the dictionaries
the in-memory dataset looks contracts up in. What `float` and `strptime` make of
a text is left to `Readings`. Times are seconds; the clock's reading is a
parameter. Reasons of rejected rows are counted, not spelled out.
-/

namespace Trademetrix.Market

/-- What `float(text)` gives, when it does not raise. -/
inductive FloatText
  | nan | inf
  | finite (x : ℚ)

/-- `float` of a stripped text, and `strptime(text, format).date().isoformat()`. -/
structure Readings where
  float : String → Option FloatText
  strptime : (text format : String) → Option String

def indexOption : String := "OPTIDX"
def stockOption : String := "OPTSTK"
def futOption : String := "OPTFUT"
def currencyOption : String := "OPTCUR"
def indexFuture : String := "FUTIDX"
def stockFuture : String := "FUTSTK"
def currencyFuture : String := "FUTCUR"

def requiredColumns : List String :=
  ["EXCH_ID", "SEGMENT", "SECURITY_ID", "INSTRUMENT", "UNDERLYING_SECURITY_ID",
    "UNDERLYING_SYMBOL", "SYMBOL_NAME", "DISPLAY_NAME", "INSTRUMENT_TYPE", "LOT_SIZE",
    "SM_EXPIRY_DATE", "STRIKE_PRICE", "OPTION_TYPE", "TICK_SIZE"]

def exchangeSegmentMap : Dict (String × String) String :=
  [(("NSE", "E"), "NSE_EQ"), (("NSE", "D"), "NSE_FNO"), (("BSE", "E"), "BSE_EQ"),
    (("BSE", "D"), "BSE_FNO"), (("MCX", "M"), "MCX_FNO")]

def ingestedInstruments : List String :=
  [indexOption, stockOption, futOption, currencyOption, indexFuture, stockFuture, currencyFuture]

def optionFamilies : List String := [indexOption, stockOption, futOption, currencyOption]

def futureFamilies : List String := [indexFuture, stockFuture, currencyFuture, "FUT"]

structure DhanContract where
  provider : String := "dhan"
  exchange : String
  exchangeSegment : String
  securityId : String
  tradingSymbol : String
  displaySymbol : String
  instrumentType : String
  instrumentFamily : String
  underlyingSymbol : String
  underlyingSecurityId : String
  expiryDate : String
  strikePrice : Option ℚ
  optionType : String
  lotSize : ℤ
  tickSize : ℚ
  instrumentStatus : String := "active"
  source : String := "dhan_instrument_master"
  sourceUpdatedAt : ℚ
  deriving DecidableEq

def niftyCall : DhanContract where
  exchange := "NSE"
  exchangeSegment := "NSE_FNO"
  securityId := "40687"
  tradingSymbol := "NIFTY-22400-CE"
  displaySymbol := "NIFTY 22400 CALL"
  instrumentType := "OPT"
  instrumentFamily := indexOption
  underlyingSymbol := "NIFTY"
  underlyingSecurityId := "26009"
  expiryDate := "2026-10-06"
  strikePrice := some 22400
  optionType := "CE"
  lotSize := 65
  tickSize := 5 / 100
  sourceUpdatedAt := 0

def DhanContract.key (c : DhanContract) : String × String × String :=
  (c.exchange, c.exchangeSegment, c.securityId)

/-- A row as `csv.DictReader` reads it; a short row lacks its last columns. -/
abbrev Row := Dict String String

/-- `row.get(column) or ""`, stripped. -/
def Row.text (row : Row) (column : String) : String := Text.strip ((row.get column).getD "")

/-- What raises `DhanMasterValidationError` in a row. -/
inductive RowError
  | lotSize | notFinite | expiryDate | optionType | instrumentFamily
  deriving DecidableEq

inductive Reject
  | missingSecurityId | missingExchange | missingSegment
  | unmappedSegment (exchange segment : String)
  | optionMissingOptionType | nonOptionWithOptionType | nonPositiveTickSize
  | optionMissingUnderlying | optionMissingUnderlyingSecurityId | optionMissingExpiry
  | optionMissingStrike | duplicateContractKey
  | invalid (e : RowError)
  deriving DecidableEq

section Parsing

variable (r : Readings)

def parseLotSize (row : Row) : Except RowError ℤ :=
  let text := row.text "LOT_SIZE"
  if text = "" then .error .lotSize
  else match r.float text with
    | some (.finite value) =>
      if value ≤ 0 then .error .lotSize
      else if value ≠ ⌊value⌋ then .error .lotSize
      else .ok ⌊value⌋
    | _ => .error .lotSize

def parseFloat (row : Row) (column : String) : Except RowError (Option ℚ) :=
  let text := row.text column
  if text = "" then .ok none
  else match r.float text with
    | none => .ok none
    | some (.finite value) => .ok (some value)
    | some _ => .error .notFinite

def parseDate (row : Row) : Except RowError (Option String) :=
  let text := row.text "SM_EXPIRY_DATE"
  if text = "" then .ok none
  else match ["%Y-%m-%d", "%d-%b-%Y", "%Y%m%d"].findSome? (r.strptime text) with
    | some date => .ok (some date)
    | none => .error .expiryDate

def normalizeOptionType (raw : String) : Except RowError String :=
  let text := Text.upper (Text.strip raw)
  if text = "" ∨ text = "CE" ∨ text = "PE" then .ok text else .error .optionType

def instrumentFamilyToType (family optionType : String) : Except RowError String :=
  if optionType ≠ "" then .ok "OPT"
  else if family ∈ futureFamilies then .ok "FUT"
  else .error .instrumentFamily

inductive Parsed
  | skipped
  | rejected (why : Reject)
  | contract (c : DhanContract)

/-- The part of the loop's body in the `try`. -/
def parseFields (now : ℚ) (seen : List (String × String × String)) (row : Row)
    (family exchange exchangeSegment securityId : String) : Except RowError Parsed := do
  let optionType ← normalizeOptionType ((row.get "OPTION_TYPE").getD "")
  let isOption : Bool := family ∈ optionFamilies
  if isOption ∧ optionType = "" then return .rejected .optionMissingOptionType
  if ¬isOption ∧ optionType ≠ "" then return .rejected .nonOptionWithOptionType
  let lotSize ← parseLotSize r row
  let tick ← parseFloat r row "TICK_SIZE"
  let tickSize : ℚ := if tick.getD 0 = 0 then 5 / 100 else tick.getD 0
  if tickSize ≤ 0 then return .rejected .nonPositiveTickSize
  let expiry ← parseDate r row
  let strike ← parseFloat r row "STRIKE_PRICE"
  let underlying := Text.upper (row.text "UNDERLYING_SYMBOL")
  let underlyingId := row.text "UNDERLYING_SECURITY_ID"
  if isOption ∧ underlying = "" then return .rejected .optionMissingUnderlying
  if isOption ∧ underlyingId = "" then return .rejected .optionMissingUnderlyingSecurityId
  if isOption ∧ expiry.isNone then return .rejected .optionMissingExpiry
  if isOption ∧ strike.isNone then return .rejected .optionMissingStrike
  let instrumentType ← instrumentFamilyToType family optionType
  if (exchange, exchangeSegment, securityId) ∈ seen then return .rejected .duplicateContractKey
  return .contract
    { exchange := exchange, exchangeSegment := exchangeSegment, securityId := securityId
      tradingSymbol := row.text "SYMBOL_NAME", displaySymbol := row.text "DISPLAY_NAME"
      instrumentType := instrumentType, instrumentFamily := family
      underlyingSymbol := underlying, underlyingSecurityId := underlyingId
      expiryDate := expiry.getD "", strikePrice := strike, optionType := optionType
      lotSize := lotSize, tickSize := tickSize, sourceUpdatedAt := now }

/-- One round of the loop over the rows; `seen` are the keys of the contracts so far. -/
def parseRow (now : ℚ) (seen : List (String × String × String)) (row : Row) : Parsed :=
  let family := row.text "INSTRUMENT"
  let securityId := row.text "SECURITY_ID"
  let exchange := Text.upper (row.text "EXCH_ID")
  let segmentCode := Text.upper (row.text "SEGMENT")
  if family ∉ ingestedInstruments then .skipped
  else if securityId = "" then .rejected .missingSecurityId
  else if exchange = "" then .rejected .missingExchange
  else if segmentCode = "" then .rejected .missingSegment
  else match exchangeSegmentMap.get (exchange, segmentCode) with
    | none => .rejected (.unmappedSegment exchange segmentCode)
    | some exchangeSegment =>
      match parseFields r now seen row family exchange exchangeSegment securityId with
      | .error e => .rejected (.invalid e)
      | .ok parsed => parsed

end Parsing

structure Contracts where
  contracts : Dict (String × String × String) DhanContract := []
  byTradingSymbol : Dict String DhanContract := []
  bySecurityId : Dict (String × String) DhanContract := []
  byUnderlying : Dict String (List DhanContract) := []

def setDefault {κ ν : Type} [DecidableEq κ] (d : Dict κ ν) (k : κ) (v : ν) : Dict κ ν :=
  if (d.get k).isSome then d else d.set k v

theorem get_setDefault {κ ν : Type} [DecidableEq κ] (d : Dict κ ν) (k q : κ) (v : ν) :
    (setDefault d k v).get q = (d.get q).or (if k = q then some v else none) := by
  rw [setDefault]
  by_cases hq : k = q
  · subst hq
    cases hget : d.get k with
    | none => simp [Dict.get_set]
    | some w => simp [hget]
  · rw [if_neg hq, Option.or_none]
    split
    · rfl
    · rw [Dict.get_set, if_neg (Ne.symm hq)]

def Contracts.add (d : Contracts) (c : DhanContract) : Contracts :=
  { contracts := d.contracts.set c.key c
    byTradingSymbol :=
      if c.tradingSymbol ≠ "" then setDefault d.byTradingSymbol c.tradingSymbol c
      else d.byTradingSymbol
    bySecurityId := setDefault d.bySecurityId (c.exchange, c.securityId) c
    byUnderlying :=
      d.byUnderlying.set c.underlyingSymbol ((d.byUnderlying.get c.underlyingSymbol).getD [] ++ [c]) }

structure Parse where
  found : Contracts := {}
  rejected : List Reject := []

def Parse.row (r : Readings) (now : ℚ) (p : Parse) (row : Row) : Parse :=
  match parseRow r now (p.found.contracts.map Prod.fst) row with
  | .skipped => p
  | .rejected why => { p with rejected := p.rejected ++ [why] }
  | .contract c => { p with found := p.found.add c }

structure MasterText where
  fieldnames : List String
  rows : List Row

inductive MasterError
  | missingColumns (columns : List String)
  | noUsableContracts (rejected : List Reject)
  deriving DecidableEq

def parse (r : Readings) (now : ℚ) (text : MasterText) : Except MasterError Contracts :=
  let missing := requiredColumns.filter fun c => c ∉ text.fieldnames
  if missing ≠ [] then .error (.missingColumns missing)
  else
    let p := text.rows.foldl (Parse.row r now) {}
    if p.found.contracts = [] then .error (.noUsableContracts p.rejected)
    else .ok p.found

section Reparsing

def DhanContract.parsedAt (c : DhanContract) (time : ℚ) : DhanContract := { c with sourceUpdatedAt := time }

def Parsed.parsedAt (time : ℚ) : Parsed → Parsed
  | .contract c => .contract (c.parsedAt time)
  | p => p

variable (r : Readings) (now later : ℚ)

theorem parseFields_at (seen : List (String × String × String)) (row : Row)
    (family exchange exchangeSegment securityId : String) :
    parseFields r later seen row family exchange exchangeSegment securityId =
      (parseFields r now seen row family exchange exchangeSegment securityId).map
        (Parsed.parsedAt later) := by
  have hok : ∀ p, Except.map (Parsed.parsedAt later) (.ok p : Except RowError Parsed) =
      .ok (p.parsedAt later) := fun _ => rfl
  simp only [parseFields, map_bind_eq, apply_ite (Except.map (Parsed.parsedAt later)), pure_eq_ok, hok,
    Parsed.parsedAt, DhanContract.parsedAt]

theorem parseRow_at (seen : List (String × String × String)) (row : Row) :
    parseRow r later seen row = (parseRow r now seen row).parsedAt later := by
  simp only [parseRow, apply_ite (Parsed.parsedAt later), parseFields_at r now later]
  cases exchangeSegmentMap.get (Text.upper (row.text "EXCH_ID"), Text.upper (row.text "SEGMENT")) with
  | none => simp only [Parsed.parsedAt]
  | some exchangeSegment =>
    dsimp only
    generalize parseFields r now seen row _ _ _ _ = x
    cases x <;> simp only [Parsed.parsedAt, Except.map]

def SameBut (later : ℚ) (p q : Parse) : Prop :=
  q.found.contracts = p.found.contracts.map (fun x => (x.1, x.2.parsedAt later)) ∧
    q.rejected = p.rejected

theorem row_sameBut {p q : Parse} (h : SameBut later p q) (row : Row) :
    SameBut later (p.row r now row) (q.row r later row) := by
  obtain ⟨hfound, hrejected⟩ := h
  have hkeys : q.found.contracts.map Prod.fst = p.found.contracts.map Prod.fst := by
    simp [hfound, Function.comp_def]
  unfold Parse.row
  rw [hkeys, parseRow_at r now later]
  cases parseRow r now (p.found.contracts.map Prod.fst) row with
  | skipped => exact ⟨hfound, hrejected⟩
  | rejected why => exact ⟨hfound, by simp [Parsed.parsedAt, hrejected]⟩
  | contract c =>
    refine ⟨?_, hrejected⟩
    simp only [Parsed.parsedAt, Contracts.add, hfound]
    exact Dict.set_map _ (fun c : DhanContract => c.parsedAt later) c.key c

theorem rows_sameBut {p q : Parse} (h : SameBut later p q) (rows : List Row) :
    SameBut later (rows.foldl (Parse.row r now) p) (rows.foldl (Parse.row r later) q) := by
  induction rows generalizing p q with
  | nil => exact h
  | cons row rows ih =>
    rw [List.foldl_cons, List.foldl_cons]
    exact ih (row_sameBut r now later h row)

theorem parse_later {text : MasterText} {d : Contracts} (h : parse r now text = .ok d) :
    d.contracts ≠ [] ∧ ∃ d', parse r later text = .ok d' ∧
      d'.contracts = d.contracts.map fun x => (x.1, x.2.parsedAt later) := by
  have hrows := rows_sameBut r now later (p := {}) (q := {}) ⟨rfl, rfl⟩ text.rows
  simp only [parse] at h ⊢
  split at h
  · cases h
  · next hcolumns =>
    split at h
    · cases h
    · next hsome =>
      cases h
      refine ⟨hsome, _, ?_, hrows.1⟩
      rw [if_neg hcolumns, if_neg]
      rw [hrows.1]
      simpa using hsome

end Reparsing

end Trademetrix.Market
