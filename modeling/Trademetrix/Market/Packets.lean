import Mathlib.Data.Rat.Init
import Trademetrix.Dict
import Trademetrix.Results
import Trademetrix.Struct

/-!
# The binary packets of the Dhan feed

`parse_packet` and its parsers. What a single-precision float is worth is left
to `SinglePrecision`. The clock's reading is a parameter. `Packet` is the table
of the documented packets with their fields, and `encode` their bytes.
-/

namespace Trademetrix.Market

open Struct

structure SinglePrecision (F : Type) where
  decode : UInt32 → F
  positive : F → Bool

def segmentCodeToName : Dict ℕ String :=
  [(0, "IDX_I"), (1, "NSE_EQ"), (2, "NSE_FNO"), (3, "NSE_CURRENCY"), (4, "BSE_EQ"),
    (5, "MCX_COMM"), (7, "BSE_CURRENCY"), (8, "BSE_FNO")]

def disconnectReasons : Dict ℕ String :=
  [(805, "no. of active websocket connections exceeded"),
    (806, "subscribe to Data APIs to continue"), (807, "access token is expired"),
    (808, "invalid client id"), (809, "authentication failed")]

def terminalDisconnectCodes : List ℕ := [806, 807, 808, 809]

structure DhanMarketEvent (F : Type) where
  provider : String
  exchangeSegment : String
  securityId : String
  packetType : String
  timestamp : ℚ
  ltp : Option F := none
  ltq : Option ℕ := none
  bid : Option F := none
  ask : Option F := none
  bidQuantity : Option ℕ := none
  askQuantity : Option ℕ := none
  volume : Option ℕ := none
  openInterest : Option ℕ := none
  open_ : Option F := none
  high : Option F := none
  low : Option F := none
  close : Option F := none
  avgPrice : Option F := none

inductive Decoded (F : Type)
  | event (e : DhanMarketEvent F)
  | marketStatus (code : ℕ)
  | serverDisconnect (code : ℕ) (reason : String) (terminal : Bool)

/-- `structError` is what `struct.unpack` raises on bytes of another length. -/
inductive Raised
  | packetError (message : String)
  | structError

def segmentName (code : ℕ) : String := (segmentCodeToName.get code).getD s!"UNKNOWN_{code}"

def need (data : List UInt8) (length : ℕ) (what : String) : Except Raised Unit :=
  if data.length < length then
    .error (.packetError s!"{what} packet is {data.length} bytes, expected at least {length}")
  else .ok ()

def unpackBytes (cs : List Code) (data : List UInt8) : Except Raised (Tuple cs) :=
  match unpack cs data with
  | none => .error .structError
  | some t => .ok t

/-- `best_bid`, `best_ask` and their quantities. -/
structure Best (F : Type) where
  bid : Option F := none
  ask : Option F := none
  bidQuantity : Option ℕ := none
  askQuantity : Option ℕ := none

section Parsers

variable {F : Type} (flt : SinglePrecision F) (now : ℚ)

def Best.see (b : Best F) (bidQty askQty bidPx askPx : UInt32) : Best F :=
  let b :=
    if b.bid.isNone && decide (0 < bidQty.toNat) && flt.positive (flt.decode bidPx) then
      { b with bid := some (flt.decode bidPx), bidQuantity := some bidQty.toNat }
    else b
  if b.ask.isNone && decide (0 < askQty.toNat) && flt.positive (flt.decode askPx) then
    { b with ask := some (flt.decode askPx), askQuantity := some askQty.toNat }
  else b

def depthRow : List Code := [.I, .I, .H, .H, .f, .f]

def parseDepthRowsFrom (blob : List UInt8) : List ℕ → Best F → Except Raised (Best F)
  | [], b => .ok b
  | i :: is, b => do
    let size := calcsize depthRow
    let chunk := (blob.take ((i + 1) * size)).drop (i * size)
    if chunk.length < size then .ok b
    else
      let (bidQty, askQty, _, _, bidPx, askPx, _) ← unpackBytes depthRow chunk
      parseDepthRowsFrom blob is (b.see flt bidQty askQty bidPx askPx)

def depthRows : ℕ := 5

def parseDepthRows (blob : List UInt8) : Except Raised (Best F) :=
  parseDepthRowsFrom flt blob (List.range depthRows) {}

def parseTicker (data : List UInt8) : Except Raised (Decoded F) := do
  need data 16 "ticker"
  let (_, _, seg, sec, ltp, ltt, _) ← unpackBytes [.B, .H, .B, .I, .f, .I] (data.take 16)
  return .event {
    provider := "dhan", exchangeSegment := segmentName seg.toNat, securityId := toString sec.toNat,
    packetType := "ticker", timestamp := ltt.toNat, ltp := some (flt.decode ltp) }

def parseDepth (data : List UInt8) : Except Raised (Decoded F) := do
  need data 112 "market depth"
  let (_, _, seg, sec, ltp, blob, _) ← unpackBytes [.B, .H, .B, .I, .f, .s 100] (data.take 112)
  let best ← parseDepthRows flt blob.val
  return .event {
    provider := "dhan", exchangeSegment := segmentName seg.toNat, securityId := toString sec.toNat,
    packetType := "depth", timestamp := now, ltp := some (flt.decode ltp),
    bid := best.bid, ask := best.ask, bidQuantity := best.bidQuantity,
    askQuantity := best.askQuantity }

def parseQuote (data : List UInt8) : Except Raised (Decoded F) := do
  need data 50 "quote"
  let (_, _, f2, f3, f4, f5, f6, f7, f8, _, _, f11, f12, f13, f14, _) ←
    unpackBytes [.B, .H, .B, .I, .f, .H, .I, .f, .I, .I, .I, .f, .f, .f, .f] (data.take 50)
  return .event {
    provider := "dhan", exchangeSegment := segmentName f2.toNat, securityId := toString f3.toNat,
    packetType := "quote", timestamp := f6.toNat,
    ltp := some (flt.decode f4), ltq := some f5.toNat, avgPrice := some (flt.decode f7),
    volume := some f8.toNat, open_ := some (flt.decode f11), close := some (flt.decode f12),
    high := some (flt.decode f13), low := some (flt.decode f14) }

def parseOi (data : List UInt8) : Except Raised (Decoded F) := do
  need data 12 "open interest"
  let (_, _, seg, sec, oi, _) ← unpackBytes [.B, .H, .B, .I, .I] (data.take 12)
  return .event {
    provider := "dhan", exchangeSegment := segmentName seg.toNat, securityId := toString sec.toNat,
    packetType := "oi", timestamp := now, openInterest := some oi.toNat }

def parsePrevClose (data : List UInt8) : Except Raised (Decoded F) := do
  need data 16 "previous close"
  let (_, _, seg, sec, prev, prevOi, _) ← unpackBytes [.B, .H, .B, .I, .f, .I] (data.take 16)
  return .event {
    provider := "dhan", exchangeSegment := segmentName seg.toNat, securityId := toString sec.toNat,
    packetType := "prev_close", timestamp := now, close := some (flt.decode prev),
    openInterest := some prevOi.toNat }

def parseStatus (data : List UInt8) : Except Raised (Decoded F) := do
  need data 8 "market status"
  let (_, _, _, code, _) ← unpackBytes [.B, .H, .B, .I] (data.take 8)
  return .marketStatus code.toNat

def parseFull (data : List UInt8) : Except Raised (Decoded F) := do
  need data 162 "full"
  let (_, _, f2, f3, f4, f5, f6, f7, f8, _, _, f11, _, _, f14, f15, f16, f17, f18, _) ←
    unpackBytes [.B, .H, .B, .I, .f, .H, .I, .f, .I, .I, .I, .I, .I, .I, .f, .f, .f, .f, .s 100]
      (data.take 162)
  let best ← parseDepthRows flt f18.val
  return .event {
    provider := "dhan", exchangeSegment := segmentName f2.toNat, securityId := toString f3.toNat,
    packetType := "full", timestamp := f6.toNat,
    ltp := some (flt.decode f4), ltq := some f5.toNat, avgPrice := some (flt.decode f7),
    volume := some f8.toNat, openInterest := some f11.toNat, open_ := some (flt.decode f14),
    close := some (flt.decode f15), high := some (flt.decode f16), low := some (flt.decode f17),
    bid := best.bid, ask := best.ask, bidQuantity := best.bidQuantity,
    askQuantity := best.askQuantity }

def disconnectReason (code : ℕ) : String :=
  (disconnectReasons.get code).getD s!"unknown disconnection code {code}"

def parseDisconnect (data : List UInt8) : Except Raised (Decoded F) := do
  need data 10 "server disconnection"
  let (_, _, _, _, code, _) ← unpackBytes [.B, .H, .B, .I, .H] (data.take 10)
  return .serverDisconnect code.toNat (disconnectReason code.toNat)
    (decide (code.toNat ∈ terminalDisconnectCodes))

def parsePacket (data : List UInt8) : Except Raised (Decoded F) :=
  match data with
  | [] => .error (.packetError "empty frame")
  | first :: _ =>
    if first = 2 then parseTicker flt data
    else if first = 3 then parseDepth flt now data
    else if first = 4 then parseQuote flt data
    else if first = 5 then parseOi now data
    else if first = 6 then parsePrevClose flt now data
    else if first = 7 then parseStatus data
    else if first = 8 then parseFull flt data
    else if first = 50 then parseDisconnect data
    else .error (.packetError s!"unknown packet type {first.toNat}")

end Parsers

end Trademetrix.Market
