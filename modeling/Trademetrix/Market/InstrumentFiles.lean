import Mathlib.Data.List.Lex
import Mathlib.Data.List.Sort
import Trademetrix.Market.DhanMaster
import Trademetrix.Market.InstrumentSchema

/-!
# The files of a stored master

One version directory of the mapped store: its payload files byte by byte, its
header and its two markers. `validate` is the check made on opening, `MmapStore`
what is built from the files and answers the lookups, and `Encoding` what the
writer keeps while it packs contracts. The header's JSON keeps its structure.
-/

namespace Trademetrix.Market

inductive Payload
  | records | strings | sec | opt | sym
  deriving DecidableEq, Repr

def Payload.all : List Payload := [records, strings, sec, opt, sym]

def Payload.index : Payload → Option Schema
  | sec => some secIndex
  | opt => some optIndex
  | sym => some symIndex
  | _ => none

inductive StringTable
  | exchange | exchangeSegment | instrumentType | instrumentFamily | optionType
  | instrumentStatus | source | expiryDate | underlyingSymbol
  deriving DecidableEq

inductive StoreError
  | activationRejected | reopenRejected | nameError | osError | valueError | structError
  deriving DecidableEq, Repr

/-- `b"TMMAP01\x00"`. -/
def magic : List UInt8 := [84, 77, 77, 65, 80, 48, 49, 0]

def magicText : String := "TMMAP01"

def formatVersion : ℕ := 1

def crcAlgorithm : String := "CRC32/zlib"

/-- One bit of the CRC-32 of `zlib`. -/
def crcBit (c : UInt32) : UInt32 := if c &&& 1 = 1 then (c >>> 1) ^^^ 0xEDB88320 else c >>> 1

def crcByte (c : UInt32) (b : UInt8) : UInt32 :=
  crcBit (crcBit (crcBit (crcBit (crcBit (crcBit (crcBit (crcBit (c ^^^ b.toUInt32))))))))

def crc32 (bs : List UInt8) : ℕ := ((bs.foldl crcByte 0xFFFFFFFF) ^^^ 0xFFFFFFFF).toNat

def crcOfPayload (file : List UInt8) : Except StoreError ℕ :=
  if file.take magic.length = magic then .ok (crc32 (file.drop magic.length))
  else .error .reopenRejected

abbrev StringTables := StringTable → List String

structure Source where
  url : String
  builtAt : ℚ

structure VersionHeader where
  magic : String
  formatVersion : ℕ
  schemaId : String
  recordSize : ℕ
  indexSizes : Payload → ℕ
  recordCount : ℕ
  fileSizes : Payload → ℕ
  algorithm : String
  payloadCrc32 : Payload → ℕ
  source : Source
  stringTables : StringTables

/-- What `header.json` holds; a file cut short does not parse. -/
inductive HeaderFile
  | unreadable
  | json (h : VersionHeader)

structure VersionDir where
  building : Bool := false
  frozen : Bool := false
  payload : Payload → Option (List UInt8) := fun _ => none
  header : Option HeaderFile := none

section Validation

variable (schemaId : String)

def writeHeader (recordCount : ℕ) (tables : StringTables) (sizes crcs : Payload → ℕ)
    (source : Source) : VersionHeader where
  magic := magicText
  formatVersion := formatVersion
  schemaId := schemaId
  recordSize := record.size
  indexSizes p := (p.index.map Schema.size).getD 0
  recordCount := recordCount
  fileSizes := sizes
  algorithm := crcAlgorithm
  payloadCrc32 := crcs
  source := source
  stringTables := tables

def readHeader (d : VersionDir) : Except StoreError VersionHeader :=
  match d.header with
  | some (.json h) => .ok h
  | _ => .error .reopenRejected

def ensure (check : Prop) [Decidable check] : Except StoreError Unit :=
  if check then .ok () else .error .reopenRejected

def validateFile (d : VersionDir) (h : VersionHeader) (p : Payload) : Except StoreError Unit :=
  match d.payload p with
  | none => .error .reopenRejected
  | some file => do
    ensure (file.length = h.fileSizes p)
    ensure (file.take magic.length = magic)

def payloadLength (d : VersionDir) (p : Payload) : ℕ :=
  ((d.payload p).getD []).length - magic.length

def validateIndex (d : VersionDir) (h : VersionHeader) (p : Payload) (s : Schema) : Except StoreError Unit := do
  ensure (payloadLength d p % s.size = 0)
  ensure (payloadLength d p / s.size = h.recordCount)

def validateCrc (d : VersionDir) (h : VersionHeader) (p : Payload) : Except StoreError Unit := do
  let got ← crcOfPayload ((d.payload p).getD [])
  ensure (got = h.payloadCrc32 p)

def validate (d : VersionDir) : Except StoreError VersionHeader := do
  let h ← readHeader d
  ensure (h.magic = magicText)
  ensure (h.formatVersion = formatVersion)
  ensure (h.schemaId = schemaId)
  ensure (h.recordSize = record.size)
  ensure (h.indexSizes .sec = secIndex.size)
  ensure (h.indexSizes .sym = symIndex.size)
  ensure (h.indexSizes .opt = optIndex.size)
  ensure (0 < h.recordCount)
  Payload.all.forM (validateFile d h)
  validateIndex d h .sec secIndex
  validateIndex d h .opt optIndex
  validateIndex d h .sym symIndex
  ensure (payloadLength d .records = h.recordCount * record.size)
  ensure (h.algorithm = crcAlgorithm)
  Payload.all.forM (validateCrc d h)
  return h

end Validation

/-- `_Interner.code`: the code of a string, and the tables with it in. -/
def internCode (tables : StringTables) (name : StringTable) (value : String) : ℕ × StringTables :=
  if value ∈ tables name then ((tables name).idxOf value, tables)
  else ((tables name).length, Function.update tables name (tables name ++ [value]))

def scaled (value : Option ℚ) (scale : ℚ) : ℤ :=
  match value with
  | none => 0
  | some x => Text.roundHalfEven (x * scale)

def strikeScale : ℚ := 100

def tickScale : ℚ := 100000

def utf8 (s : String) : List UInt8 := s.toByteArray.data.toList

def decodeUtf8 (bs : List UInt8) : Except StoreError String :=
  match String.fromUTF8? ⟨bs.toArray⟩ with
  | some s => .ok s
  | none => .error .valueError

/-- What `encode_version` keeps in memory while it writes the records. -/
structure Encoding where
  tables : StringTables := fun _ => []
  poolLen : ℕ := 0
  sec : List UInt8 := []
  opt : List UInt8 := []
  sym : List UInt8 := []

def toInt (s : String) : Except StoreError ℤ :=
  match Text.parseInt s with
  | some n => .ok n
  | none => .error .valueError

def packRow (s : Schema) (row : List ℤ) : Except StoreError (List UInt8) :=
  match s.pack row with
  | some bs => .ok bs
  | none => .error .structError

def internContract (tables : StringTables) (c : DhanContract) : StringTables :=
  let t := (internCode tables .exchange c.exchange).2
  let t := (internCode t .exchangeSegment c.exchangeSegment).2
  let t := (internCode t .instrumentType c.instrumentType).2
  let t := (internCode t .instrumentFamily c.instrumentFamily).2
  let t := (internCode t .optionType c.optionType).2
  let t := (internCode t .instrumentStatus c.instrumentStatus).2
  let t := (internCode t .source c.source).2
  let t := (internCode t .expiryDate c.expiryDate).2
  (internCode t .underlyingSymbol c.underlyingSymbol).2

def recordOf (tables : StringTables) (c : DhanContract) (securityId underlyingId : ℤ)
    (offset length : ℕ) : Record :=
  let code (name : StringTable) (value : String) : ℤ := ((tables name).idxOf value : ℕ)
  { securityId := securityId
    exchangeCode := code .exchange c.exchange
    exchangeSegmentCode := code .exchangeSegment c.exchangeSegment
    instrumentTypeCode := code .instrumentType c.instrumentType
    instrumentFamilyCode := code .instrumentFamily c.instrumentFamily
    optionTypeCode := code .optionType c.optionType
    instrumentStatusCode := code .instrumentStatus c.instrumentStatus
    sourceCode := code .source c.source
    lotSize := c.lotSize
    strikeScaled := scaled c.strikePrice strikeScale
    tickScaled := scaled (some c.tickSize) tickScale
    expiryId := code .expiryDate c.expiryDate
    underlyingId := code .underlyingSymbol c.underlyingSymbol
    underlyingSecurityId := underlyingId
    tradingSymbolOffset := offset
    tradingSymbolLength := length }

/-- `int(c.underlying_security_id or 0)`. -/
def underlyingIdOf (c : DhanContract) : Except StoreError ℤ :=
  if c.underlyingSecurityId = "" then .ok 0 else toInt c.underlyingSecurityId

structure Placed where
  contract : DhanContract
  securityId : ℤ
  underlyingId : ℤ
  offset : ℕ

namespace Placed

def symbol (p : Placed) : List UInt8 := utf8 p.contract.tradingSymbol

def record (p : Placed) (tables : StringTables) : Record :=
  recordOf tables p.contract p.securityId p.underlyingId p.offset p.symbol.length

def secRow (tables : StringTables) (p : Placed) (slot : ℕ) : List ℤ :=
  [(p.record tables).exchangeCode, (p.record tables).exchangeSegmentCode, p.securityId, slot]

def optRow (tables : StringTables) (p : Placed) (slot : ℕ) : List ℤ :=
  [(p.record tables).underlyingId, (p.record tables).expiryId, (p.record tables).strikeScaled,
    (p.record tables).optionTypeCode, slot]

def symRow (p : Placed) (slot : ℕ) : List ℤ := [p.offset, p.symbol.length, slot]

end Placed

/-- One round of the loop over the contracts, after its symbol is in the pool: the bytes of
its record, and what is kept. -/
def Encoding.add (e : Encoding) (slot : ℕ) (c : DhanContract) :
    Except StoreError (List UInt8 × Encoding) := do
  let tables := internContract e.tables c
  let securityId ← toInt c.securityId
  let underlyingId ← underlyingIdOf c
  let p : Placed := ⟨c, securityId, underlyingId, e.poolLen⟩
  let bytes ← packRow record (p.record tables).values
  let sec ← packRow secIndex (p.secRow tables slot)
  let opt ← packRow optIndex (p.optRow tables slot)
  let sym ← packRow symIndex (p.symRow slot)
  return (bytes,
    { tables := tables, poolLen := e.poolLen + p.symbol.length
      sec := e.sec ++ sec, opt := e.opt ++ opt, sym := e.sym ++ sym })

structure MmapStore where
  count : ℕ
  tables : StringTables
  records : List UInt8
  strings : List UInt8
  secKeys : List (List ℤ × ℤ)
  optKeys : List (List ℤ × ℤ)
  symFirst : Dict String ℤ
  underlyings : List String

def readRows (s : Schema) (file : List UInt8) (count : ℕ) : Except StoreError (List (List ℤ)) :=
  match (List.range count).mapM fun k => s.unpackFrom file (magic.length + k * s.size) with
  | some rows => .ok rows
  | none => .error .structError

/-- Rows split into key and slot, sorted by key; rows of one key keep their order. -/
def sortedIndex (width : ℕ) (rows : List (List ℤ)) : List (List ℤ × ℤ) :=
  (rows.map fun row => (row.take width, row.getD width 0)).insertionSort fun a b => a.1 ≤ b.1

def sliceText (pool : List UInt8) (offset length : ℤ) : Except StoreError String :=
  decodeUtf8 ((pool.drop (magic.length + offset.toNat)).take length.toNat)

def distinctUnderlyings (tables : StringTables) (codes : List ℤ) : List String :=
  ((codes.filterMap fun c => (tables .underlyingSymbol)[c.toNat]?).dedup).insertionSort (· ≤ ·)

def Record.underlyingOf (row : List ℤ) : ℤ := row.getD 12 0

namespace MmapStore

/-- `MmapStore(...).open()` of a directory whose header is `h`. -/
def open_ (d : VersionDir) (h : VersionHeader) : Except StoreError MmapStore := do
  let file (p : Payload) := (d.payload p).getD []
  let sec ← readRows secIndex (file .sec) h.recordCount
  let opt ← readRows optIndex (file .opt) h.recordCount
  let sym ← readRows symIndex (file .sym) h.recordCount
  let named ← sym.mapM fun row => do
    let text ← sliceText (file .strings) (row.getD 0 0) (row.getD 1 0)
    return (text, row.getD 2 0)
  let rows ← readRows record (file .records) h.recordCount
  return {
    count := h.recordCount
    tables := h.stringTables
    records := file .records
    strings := file .strings
    secKeys := sortedIndex 3 sec
    optKeys := sortedIndex 4 opt
    symFirst := (named.insertionSort fun a b => a.1 ≤ b.1).foldl
      (fun first p => setDefault first p.1 p.2) []
    underlyings := distinctUnderlyings h.stringTables (rows.map Record.underlyingOf) }

/-- The loop of `_bisect`: the least place whose key is not below. -/
def bisectFrom (keys : List (List ℤ × ℤ)) (below : List ℤ → Bool) : ℕ → ℕ → ℕ → ℕ
  | 0, lo, _ => lo
  | fuel + 1, lo, hi =>
    if lo < hi then
      let mid := (lo + hi) / 2
      if below (keys.getD mid ([], 0)).1 then bisectFrom keys below fuel (mid + 1) hi
      else bisectFrom keys below fuel lo mid
    else lo

def bisect (keys : List (List ℤ × ℤ)) (below : List ℤ → Bool) : ℕ :=
  bisectFrom keys below keys.length 0 keys.length

/-- The slot at the place `_bisect` finds, if its key is the one asked for. -/
def slotAt (keys : List (List ℤ × ℤ)) (key : List ℤ) : Option ℤ :=
  match keys[bisect keys fun k => decide (k < key)]? with
  | some entry => if entry.1 = key then some entry.2 else none
  | none => none

variable (m : MmapStore)

def code (table : StringTable) (value : String) : Except StoreError ℤ :=
  if value ∈ m.tables table then .ok (((m.tables table).idxOf value : ℕ) : ℤ)
  else .error .reopenRejected

def slotForSecurity (exchange segment securityId : String) : Except StoreError (Option ℤ) := do
  let e ← m.code .exchange exchange
  let s ← m.code .exchangeSegment segment
  let sid ← toInt securityId
  return slotAt m.secKeys [e, s, sid]

def slotsForSecurityId (securityId : String) : Except StoreError (List ℤ) := do
  let sid ← toInt securityId
  return (m.secKeys.filter fun entry => entry.1.getD 2 0 = sid).map Prod.snd

def slotForOption (underlying expiry : String) (strikeScaled : ℤ) (optionType : String) :
    Except StoreError (Option ℤ) := do
  let u ← m.code .underlyingSymbol (Text.upper underlying)
  let x ← m.code .expiryDate expiry
  let t ← m.code .optionType optionType
  return slotAt m.optKeys [u, x, strikeScaled, t]

def slotForSymbol (symbol : String) : Option ℤ := m.symFirst.get symbol

def iterUnderlying (underlying : String) : Except StoreError (List ℤ) := do
  let c ← m.code .underlyingSymbol (Text.upper underlying)
  let first := bisect m.optKeys fun k => decide (k.getD 0 0 < c)
  let slots := ((m.optKeys.drop first).takeWhile fun entry => entry.1.getD 0 0 = c).map Prod.snd
  return slots.insertionSort (· ≤ ·)

/-- `fields` as `_contract_from_fields` rebuilds a contract from them. -/
def contractAt (installedAt : ℚ) (slot : ℤ) : Except StoreError DhanContract := do
  let raw ← match record.unpackFrom m.records (magic.length + slot.toNat * record.size) with
    | some row => .ok row
    | none => .error .structError
  let r ← match Record.ofValues raw with
    | some r => .ok r
    | none => .error .structError
  let text (name : StringTable) (code : ℤ) : String := (m.tables name).getD code.toNat ""
  let symbol ← sliceText m.strings r.tradingSymbolOffset r.tradingSymbolLength
  return {
    exchange := text .exchange r.exchangeCode
    exchangeSegment := text .exchangeSegment r.exchangeSegmentCode
    securityId := toString r.securityId
    tradingSymbol := symbol
    displaySymbol := symbol
    instrumentType := text .instrumentType r.instrumentTypeCode
    instrumentFamily := text .instrumentFamily r.instrumentFamilyCode
    underlyingSymbol := text .underlyingSymbol r.underlyingId
    underlyingSecurityId := toString r.underlyingSecurityId
    expiryDate := text .expiryDate r.expiryId
    strikePrice := some (r.strikeScaled / strikeScale)
    optionType := text .optionType r.optionTypeCode
    lotSize := r.lotSize
    tickSize := r.tickScaled / tickScale
    instrumentStatus := text .instrumentStatus r.instrumentStatusCode
    source := text .source r.sourceCode
    sourceUpdatedAt := installedAt }

end MmapStore

end Trademetrix.Market
