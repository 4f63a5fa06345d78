import Trademetrix.Market.InstrumentFiles

/-!
# The dataset behind the instrument provider

`_Dataset`: one surface of lookups over two backends, the dictionaries `parse`
fills and the mapped store. A lookup of the mapped store may raise.
-/

namespace Trademetrix.Market

inductive Backend
  | object (d : Contracts)
  | mmap (m : MmapStore)

structure Dataset where
  backend : Backend
  installedAt : ℚ
  sourceUrl : String := ""

namespace Dataset

def isOption (expiry : String) (strike : ℚ) (optionType : String) (c : DhanContract) : Bool :=
  c.instrumentFamily ∈ optionFamilies ∧ c.optionType = optionType ∧ c.expiryDate = expiry ∧
    c.strikePrice = some strike

variable (d : Dataset)

def isMmap : Bool :=
  match d.backend with
  | .object _ => false
  | .mmap _ => true

def contractCount : ℕ :=
  match d.backend with
  | .object o => o.contracts.length
  | .mmap m => m.count

def rowsForUnderlying (underlying : String) : Except StoreError (List DhanContract) :=
  match d.backend with
  | .object o => .ok ((o.byUnderlying.get (Text.upper underlying)).getD [])
  | .mmap m =>
    let name := Text.upper underlying
    if name ∉ m.underlyings then .ok []
    else do
      let slots ← m.iterUnderlying name
      slots.mapM (m.contractAt d.installedAt)

def contractFor (exchange exchangeSegment securityId : String) :
    Except StoreError (Option DhanContract) :=
  match d.backend with
  | .object o => .ok (o.contracts.get (exchange, exchangeSegment, securityId))
  | .mmap m => do
    let slot ← m.slotForSecurity exchange exchangeSegment securityId
    slot.mapM (m.contractAt d.installedAt)

def contractsForSecurityId (securityId : String) : Except StoreError (List DhanContract) :=
  match d.backend with
  | .object o => .ok (o.bySecurityId.values.filter fun c => c.securityId = securityId)
  | .mmap m => do
    let slots ← m.slotsForSecurityId securityId
    slots.mapM (m.contractAt d.installedAt)

def firstInSegment (m : MmapStore) (installedAt : ℚ) (segment : String) :
    List ℤ → Except StoreError (Option DhanContract)
  | [] => .ok none
  | slot :: slots => do
    let c ← m.contractAt installedAt slot
    if c.exchangeSegment = segment then return some c
    else firstInSegment m installedAt segment slots

def contractForSegmentAndId (exchangeSegment securityId : String) :
    Except StoreError (Option DhanContract) :=
  match d.backend with
  | .object o =>
    .ok ((o.contracts.find? fun e => e.1.2.2 = securityId ∧ e.1.2.1 = exchangeSegment).map Prod.snd)
  | .mmap m => do
    let slots ← m.slotsForSecurityId securityId
    firstInSegment m d.installedAt exchangeSegment slots

def contractForSymbol (tradingSymbol : String) : Except StoreError (Option DhanContract) :=
  match d.backend with
  | .object o => .ok (o.byTradingSymbol.get (Text.strip tradingSymbol))
  | .mmap m => (m.slotForSymbol (Text.strip tradingSymbol)).mapM (m.contractAt d.installedAt)

/-- The mapped path of `find_option`. Only a `ReopenRejectedError` of the index is caught. -/
def directOption (m : MmapStore) (installedAt : ℚ) (underlying expiry : String) (strike : ℚ)
    (optionType : String) : Except StoreError (Option DhanContract) :=
  match m.slotForOption underlying expiry (Text.roundHalfEven (strike * 100)) optionType with
  | .error .reopenRejected => .ok none
  | .error e => .error e
  | .ok none => .ok none
  | .ok (some slot) => do
    let found ← m.contractAt installedAt slot
    return if found.instrumentFamily ∈ optionFamilies then some found else none

def scanOption (underlying expiry : String) (strike : ℚ) (optionType : String) :
    Except StoreError (Option DhanContract) := do
  let rows ← d.rowsForUnderlying underlying
  return rows.find? (isOption expiry strike optionType)

def findOption (underlying expiry : String) (strike : ℚ) (optionType : String) :
    Except StoreError (Option DhanContract) :=
  match d.backend with
  | .object _ => d.scanOption underlying expiry strike optionType
  | .mmap m => do
    let direct ← directOption m d.installedAt underlying expiry strike optionType
    match direct with
    | some c => return some c
    | none => d.scanOption underlying expiry strike optionType

end Dataset

end Trademetrix.Market

/-!
# The Dhan instrument provider

`DhanInstrumentProvider`: its health, the checks a candidate dataset passes
before it is installed, and the questions it answers. Times are seconds and the
clock's reading is a parameter; the texts of errors are left out.
-/

namespace Trademetrix.Market

/-- `LIVE_MAX_METADATA_AGE`, a day. -/
def liveMaxMetadataAge : ℚ := 24 * 60 * 60

def minContractRetention : ℚ := 1 / 2

structure MasterHealth where
  lastSuccessfulRefresh : Option ℚ := none
  lastAttempt : Option ℚ := none
  rowCount : ℕ := 0
  optionContractCount : ℕ := 0
  indexOptionCount : ℕ := 0
  stockOptionCount : ℕ := 0
  futureCount : ℕ := 0
  validationStatus : String := "never_loaded"
  sourceUrl : String := ""

def MasterHealth.isStaleForLive (h : MasterHealth) (now : ℚ) : Bool :=
  match h.lastSuccessfulRefresh with
  | none => true
  | some stamp => h.validationStatus ≠ "ok" ∨ liveMaxMetadataAge < now - stamp

structure Instrument where
  broker : String
  securityId : String
  brokerSymbol : String
  exchangeSegment : String
  instrumentType : String
  lotSize : ℤ
  tickSize : ℚ
  underlying : String
  expiry : String
  strike : Option ℚ
  optionType : String
  source : String
  underlyingSecurityId : String
  deriving DecidableEq

def DhanContract.toInstrument (c : DhanContract) : Instrument where
  broker := "dhan"
  securityId := c.securityId
  brokerSymbol := c.tradingSymbol
  exchangeSegment := c.exchangeSegment
  instrumentType := c.instrumentType
  lotSize := c.lotSize
  tickSize := c.tickSize
  underlying := c.underlyingSymbol
  expiry := c.expiryDate
  strike := c.strikePrice
  optionType := c.optionType
  source := c.source
  underlyingSecurityId := c.underlyingSecurityId

/-- What a question to the provider raises: `InstrumentResolutionError`, or what the store
raises. -/
inductive QueryError
  | unavailable
  | store (e : StoreError)
  deriving DecidableEq, Repr

structure DhanProvider where
  dataset : Option Dataset := none
  health : MasterHealth := {}

def QueryError.lift {α : Type} : Except StoreError α → Except QueryError α
  | .ok a => .ok a
  | .error e => .error (.store e)

namespace DhanProvider

variable (p : DhanProvider)

def requireDataset (now : ℚ) (forLive : Bool) : Except QueryError Dataset :=
  match p.dataset with
  | none => .error .unavailable
  | some d => if forLive && p.health.isStaleForLive now then .error .unavailable else .ok d

def resolveBySecurityId (now : ℚ) (securityId : String) (exchangeSegment : String := "")
    (forLive : Bool := false) : Except QueryError (Option Instrument) := do
  let d ← p.requireDataset now forLive
  if exchangeSegment ≠ "" then do
    let found ← QueryError.lift (d.contractForSegmentAndId exchangeSegment securityId)
    return found.map DhanContract.toInstrument
  else do
    let found ← QueryError.lift (d.contractsForSecurityId securityId)
    match found with
    | [c] => return some c.toInstrument
    | _ => return none

def resolveByTradingSymbol (now : ℚ) (tradingSymbol : String) (forLive : Bool := false) :
    Except QueryError (Option Instrument) := do
  let d ← p.requireDataset now forLive
  let found ← QueryError.lift (d.contractForSymbol tradingSymbol)
  return found.map DhanContract.toInstrument

def resolveIndexOptionLotSize (now : ℚ) (underlying : String) (forLive : Bool := false) :
    Except QueryError (Option ℤ) := do
  let d ← p.requireDataset now forLive
  let rows ← QueryError.lift (d.rowsForUnderlying underlying)
  let lots := (rows.filter fun c => c.instrumentFamily = indexOption).map DhanContract.lotSize
  return (lots.insertionSort (· ≤ ·)).head?

/-- `_expiries_for`; the cutoff is the date `min_days` from today. -/
def expiries (now : ℚ) (cutoff underlying : String) (option : Bool := true) :
    Except QueryError (List String) := do
  let d ← p.requireDataset now false
  let rows ← QueryError.lift (d.rowsForUnderlying underlying)
  let families := if option then optionFamilies else futureFamilies
  let dates := (rows.filter fun c => c.instrumentFamily ∈ families ∧ c.expiryDate ≠ "" ∧
    cutoff ≤ c.expiryDate).map DhanContract.expiryDate
  return dates.dedup.insertionSort (· ≤ ·)

def strikes (now : ℚ) (underlying expiry : String) (optionType : String := "") :
    Except QueryError (List ℚ) := do
  let d ← p.requireDataset now false
  let rows ← QueryError.lift (d.rowsForUnderlying underlying)
  let listed := (rows.filter fun c => c.expiryDate = expiry ∧
    (optionType = "" ∨ c.optionType = optionType)).filterMap DhanContract.strikePrice
  return listed.dedup.insertionSort (· ≤ ·)

def resolveOption (now : ℚ) (underlying expiry : String) (strike : ℚ) (optionType : String)
    (forLive : Bool := false) : Except QueryError (Option Instrument) := do
  let d ← p.requireDataset now forLive
  match normalizeOptionType optionType with
  | .error _ => return none
  | .ok wantType =>
    if wantType = "" then return none
    else do
      let direct ← QueryError.lift (d.findOption underlying expiry strike wantType)
      match direct.filter fun c => c.instrumentFamily ∈ optionFamilies with
      | some c => return some c.toInstrument
      | none => do
        let found ← QueryError.lift (d.scanOption underlying expiry strike wantType)
        return found.map DhanContract.toInstrument

def resolveFuture (now : ℚ) (underlying expiry : String) (forLive : Bool := false) :
    Except QueryError (Option Instrument) := do
  let d ← p.requireDataset now forLive
  let rows ← QueryError.lift (d.rowsForUnderlying underlying)
  let found := rows.find? fun c => c.instrumentFamily ∈ futureFamilies ∧ c.expiryDate = expiry
  return found.map DhanContract.toInstrument

def afterColon (text : String) : String :=
  Text.strip (String.ofList (text.toList.reverse.takeWhile (· ≠ ':')).reverse)

/-- `resolve`, the entry point of the shared resolver. -/
def resolve (now : ℚ) (symbol : String) (forLive : Bool := false) :
    Except QueryError (Option Instrument) :=
  match p.requireDataset now forLive with
  | .error _ => .ok none
  | .ok d => QueryError.lift do
    let text := Text.strip symbol
    if text = "" then return none
    else do
      let found ← d.contractForSymbol text
      match found with
      | some c => return some c.toInstrument
      | none => do
        let found ← d.contractForSymbol (afterColon text)
        match found with
        | some c => return some c.toInstrument
        | none =>
          if Text.isDigit text then do
            let found ← d.contractsForSecurityId text
            return found.head?.map DhanContract.toInstrument
          else return none

end DhanProvider

end Trademetrix.Market
