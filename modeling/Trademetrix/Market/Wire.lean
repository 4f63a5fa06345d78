import Trademetrix.Market.Packets

/-!
# The wire format of the Dhan feed

`Packet` lists the documented packets with their fields in the order of the
wire. What `parse_packet` makes of the bytes of a packet, with or without more
bytes behind, is the packet's reading; bytes that hold no packet are refused.
-/

namespace Trademetrix.Market

open Struct

structure Header where
  messageLength : UInt16
  segment : UInt8
  securityId : UInt32

structure DepthRow where
  bidQuantity : UInt32
  askQuantity : UInt32
  bidOrders : UInt16
  askOrders : UInt16
  bidPrice : UInt32
  askPrice : UInt32

abbrev Depth := {rows : List DepthRow // rows.length = 5}

structure Trade where
  ltp : UInt32
  ltq : UInt16
  ltt : UInt32
  avgPrice : UInt32
  volume : UInt32
  totalSellQuantity : UInt32
  totalBuyQuantity : UInt32

structure Ohlc where
  open_ : UInt32
  close : UInt32
  high : UInt32
  low : UInt32

inductive Packet
  | ticker (h : Header) (ltp ltt : UInt32)
  | depth (h : Header) (ltp : UInt32) (rows : Depth)
  | quote (h : Header) (t : Trade) (day : Ohlc)
  | oi (h : Header) (openInterest : UInt32)
  | prevClose (h : Header) (close openInterest : UInt32)
  | status (messageLength : UInt16) (segment : UInt8) (code : UInt32)
  | full (h : Header) (t : Trade) (openInterest oiHigh oiLow : UInt32) (day : Ohlc) (rows : Depth)
  | disconnect (h : Header) (code : UInt16)

def documentedLength : UInt8 → Option ℕ
  | 2 => some 16
  | 3 => some 112
  | 4 => some 50
  | 5 => some 12
  | 6 => some 16
  | 7 => some 8
  | 8 => some 162
  | 50 => some 10
  | _ => none

def DepthRow.encode (r : DepthRow) : List UInt8 :=
  pack [.I, .I, .H, .H, .f, .f]
    (r.bidQuantity, r.askQuantity, r.bidOrders, r.askOrders, r.bidPrice, r.askPrice, ())

@[simp] theorem DepthRow.length_encode (r : DepthRow) : r.encode.length = 20 := length_pack _ _

theorem length_encodeRows (rows : List DepthRow) :
    (rows.flatMap DepthRow.encode).length = 20 * rows.length := by
  induction rows with
  | nil => rfl
  | cons r rows ih =>
    rw [List.flatMap_cons, List.length_append, ih, DepthRow.length_encode, List.length_cons]
    omega

def Depth.encode (rows : Depth) : (Code.s 100).Val :=
  ⟨rows.val.flatMap DepthRow.encode, by rw [length_encodeRows, rows.property]⟩

def Packet.encode : Packet → List UInt8
  | .ticker h ltp ltt =>
    pack [.B, .H, .B, .I, .f, .I] (2, h.messageLength, h.segment, h.securityId, ltp, ltt, ())
  | .depth h ltp rows =>
    pack [.B, .H, .B, .I, .f, .s 100]
      (3, h.messageLength, h.segment, h.securityId, ltp, rows.encode, ())
  | .quote h t day =>
    pack [.B, .H, .B, .I, .f, .H, .I, .f, .I, .I, .I, .f, .f, .f, .f]
      (4, h.messageLength, h.segment, h.securityId, t.ltp, t.ltq, t.ltt, t.avgPrice, t.volume,
        t.totalSellQuantity, t.totalBuyQuantity, day.open_, day.close, day.high, day.low, ())
  | .oi h openInterest =>
    pack [.B, .H, .B, .I, .I] (5, h.messageLength, h.segment, h.securityId, openInterest, ())
  | .prevClose h close openInterest =>
    pack [.B, .H, .B, .I, .f, .I]
      (6, h.messageLength, h.segment, h.securityId, close, openInterest, ())
  | .status messageLength segment code =>
    pack [.B, .H, .B, .I] (7, messageLength, segment, code, ())
  | .full h t openInterest oiHigh oiLow day rows =>
    pack [.B, .H, .B, .I, .f, .H, .I, .f, .I, .I, .I, .I, .I, .I, .f, .f, .f, .f, .s 100]
      (8, h.messageLength, h.segment, h.securityId, t.ltp, t.ltq, t.ltt, t.avgPrice, t.volume,
        t.totalSellQuantity, t.totalBuyQuantity, openInterest, oiHigh, oiLow,
        day.open_, day.close, day.high, day.low, rows.encode, ())
  | .disconnect h code =>
    pack [.B, .H, .B, .I, .H] (50, h.messageLength, h.segment, h.securityId, code, ())

section Reading

variable {F : Type} (flt : SinglePrecision F) (now : ℚ)

def DepthRow.bids (r : DepthRow) : Bool :=
  decide (0 < r.bidQuantity.toNat) && flt.positive (flt.decode r.bidPrice)

def DepthRow.asks (r : DepthRow) : Bool :=
  decide (0 < r.askQuantity.toNat) && flt.positive (flt.decode r.askPrice)

def best (rows : List DepthRow) : Best F where
  bid := (rows.find? (DepthRow.bids flt)).map fun r => flt.decode r.bidPrice
  ask := (rows.find? (DepthRow.asks flt)).map fun r => flt.decode r.askPrice
  bidQuantity := (rows.find? (DepthRow.bids flt)).map fun r => r.bidQuantity.toNat
  askQuantity := (rows.find? (DepthRow.asks flt)).map fun r => r.askQuantity.toNat

def Header.event (h : Header) (packetType : String) (timestamp : ℚ) : DhanMarketEvent F where
  provider := "dhan"
  exchangeSegment := segmentName h.segment.toNat
  securityId := toString h.securityId.toNat
  packetType := packetType
  timestamp := timestamp

namespace DhanMarketEvent

variable (e : DhanMarketEvent F)

def withBook (b : Best F) : DhanMarketEvent F :=
  { e with bid := b.bid, ask := b.ask, bidQuantity := b.bidQuantity, askQuantity := b.askQuantity }

def withTrade (t : Trade) : DhanMarketEvent F :=
  { e with
    ltp := some (flt.decode t.ltp)
    ltq := some t.ltq.toNat
    avgPrice := some (flt.decode t.avgPrice)
    volume := some t.volume.toNat }

def withOhlc (day : Ohlc) : DhanMarketEvent F :=
  { e with
    open_ := some (flt.decode day.open_)
    close := some (flt.decode day.close)
    high := some (flt.decode day.high)
    low := some (flt.decode day.low) }

end DhanMarketEvent

def Packet.reading : Packet → Decoded F
  | .ticker h ltp ltt => .event { h.event "ticker" ltt.toNat with ltp := some (flt.decode ltp) }
  | .depth h ltp rows =>
    .event (DhanMarketEvent.withBook { h.event "depth" now with ltp := some (flt.decode ltp) }
      (best flt rows.val))
  | .quote h t day => .event (((h.event "quote" t.ltt.toNat).withTrade flt t).withOhlc flt day)
  | .oi h openInterest =>
    .event { h.event "oi" now with openInterest := some openInterest.toNat }
  | .prevClose h close openInterest =>
    .event { h.event "prev_close" now with
      close := some (flt.decode close), openInterest := some openInterest.toNat }
  | .status _ _ code => .marketStatus code.toNat
  | .full h t openInterest _ _ day rows =>
    .event ({ ((h.event "full" t.ltt.toNat).withTrade flt t).withOhlc flt day with
      openInterest := some openInterest.toNat }.withBook (best flt rows.val))
  | .disconnect _ code =>
    .serverDisconnect code.toNat (disconnectReason code.toNat)
      (decide (code.toNat ∈ terminalDisconnectCodes))

namespace Best

/-- The prices of `b`, and those of `c` where `b` has none. -/
def or (b c : Best F) : Best F :=
  ⟨b.bid.or c.bid, b.ask.or c.ask, b.bidQuantity.or c.bidQuantity, b.askQuantity.or c.askQuantity⟩

def Paired (b : Best F) : Prop :=
  b.bid.isSome = b.bidQuantity.isSome ∧ b.ask.isSome = b.askQuantity.isSome

theorem or_assoc (b c d : Best F) : (b.or c).or d = b.or (c.or d) := by
  simp only [or, Option.or_assoc]

theorem Paired.or {b c : Best F} (hb : b.Paired) (hc : c.Paired) : (b.or c).Paired := by
  simp only [Paired, Best.or, Option.isSome_or, hb.1, hb.2, hc.1, hc.2, and_self]

end Best

theorem best_paired (rows : List DepthRow) : (best flt rows).Paired := by
  simp only [Best.Paired, best, Option.isSome_map, and_self]

theorem best_cons (r : DepthRow) (rows : List DepthRow) :
    best flt (r :: rows) = (best flt [r]).or (best flt rows) := by
  cases hbid : r.bids flt <;> cases hask : r.asks flt <;>
    simp [best, Best.or, hbid, hask]

def Best.seeRow (b : Best F) (r : DepthRow) : Best F :=
  b.see flt r.bidQuantity r.askQuantity r.bidPrice r.askPrice

theorem seeRow_eq {b : Best F} (hb : b.Paired) (r : DepthRow) :
    b.seeRow flt r = b.or (best flt [r]) := by
  obtain ⟨bid, ask, bidQuantity, askQuantity⟩ := b
  obtain ⟨hbid, hask⟩ := hb
  have hbids : r.bids flt =
      (decide (0 < r.bidQuantity.toNat) && flt.positive (flt.decode r.bidPrice)) := rfl
  have hasks : r.asks flt =
      (decide (0 < r.askQuantity.toNat) && flt.positive (flt.decode r.askPrice)) := rfl
  simp only [Best.seeRow, Best.see, Bool.and_assoc, ← hbids, ← hasks]
  cases bid <;> cases bidQuantity <;> cases ask <;> cases askQuantity <;>
    cases hrb : r.bids flt <;> cases hra : r.asks flt <;>
    simp_all [Best.or, best]

theorem foldl_seeRow (rows : List DepthRow) {b : Best F} (hb : b.Paired) :
    rows.foldl (Best.seeRow flt) b = b.or (best flt rows) := by
  induction rows generalizing b with
  | nil => simp [best, Best.or]
  | cons r rows ih =>
    rw [List.foldl_cons, seeRow_eq flt hb, ih (hb.or (best_paired flt [r])), Best.or_assoc,
      ← best_cons]

theorem unpackBytes_pack (cs : List Code) (t : Tuple cs) : unpackBytes cs (pack cs t) = .ok t := by
  rw [unpackBytes, unpack_pack]

theorem parseDepthRowsFrom_encode (rows : List DepthRow) {i : ℕ} {a : List UInt8}
    (hlen : a.length = 20 * i) (b : Best F) :
    parseDepthRowsFrom flt (a ++ rows.flatMap DepthRow.encode) (List.range' i rows.length) b =
      .ok (rows.foldl (Best.seeRow flt) b) := by
  induction rows generalizing i a b with
  | nil => rfl
  | cons r rows ih =>
    have hnext : (a ++ r.encode).length = 20 * (i + 1) := by
      rw [List.length_append, hlen, DepthRow.length_encode]
      omega
    have hchunk : ((a ++ (r :: rows).flatMap DepthRow.encode).take ((i + 1) * calcsize depthRow)).drop
        (i * calcsize depthRow) = r.encode := by
      rw [List.flatMap_cons, ← List.append_assoc,
        List.take_left' (by rw [hnext]; exact Nat.mul_comm _ _),
        List.drop_left' (by rw [hlen]; exact Nat.mul_comm _ _)]
    have hrest := ih hnext (b.seeRow flt r)
    rw [List.append_assoc, ← List.flatMap_cons] at hrest
    rw [List.length_cons, List.range'_succ, parseDepthRowsFrom]
    simp only [hchunk]
    rw [if_neg (by rw [DepthRow.length_encode]; decide)]
    have hread : unpackBytes depthRow r.encode = .ok (r.bidQuantity, r.askQuantity, r.bidOrders,
        r.askOrders, r.bidPrice, r.askPrice, ()) := unpackBytes_pack depthRow _
    rw [hread]
    exact hrest

theorem parseDepthRows_encode (rows : Depth) :
    parseDepthRows flt rows.encode.val = .ok (best flt rows.val) := by
  have hloop := parseDepthRowsFrom_encode flt rows.val (i := 0) (a := []) rfl {}
  have hbest : rows.val.foldl (Best.seeRow flt) {} = best flt rows.val := by
    rw [foldl_seeRow flt rows.val ⟨rfl, rfl⟩]
    simp [Best.or]
  rw [rows.property, hbest] at hloop
  rw [parseDepthRows, depthRows, List.range_eq_range']
  exact hloop

theorem need_of_le {data : List UInt8} {length : ℕ} {what : String} (h : length ≤ data.length) :
    need data length what = .ok () := if_neg (by omega)

theorem read_pack {α : Type} {cs : List Code} (t : Tuple cs) (extra : List UInt8) (n : ℕ)
    (hn : calcsize cs = n) (what : String) (k : Tuple cs → Except Raised α) :
    (do need (pack cs t ++ extra) n what
        let u ← unpackBytes cs ((pack cs t ++ extra).take n)
        k u) = k t := by
  have hneed : need (pack cs t ++ extra) n what = .ok () := by
    refine need_of_le ?_
    rw [List.length_append, length_pack]
    omega
  rw [hneed, unpackBytes, ← hn, unpack_take_pack]
  rfl

theorem parsePacket_encode (p : Packet) (extra : List UInt8) :
    parsePacket flt now (p.encode ++ extra) = .ok (p.reading flt now) := by
  cases p with
  | ticker => exact read_pack _ extra 16 rfl _ _
  | depth h ltp rows =>
    refine (read_pack _ extra 112 rfl _ _).trans ?_
    simp only [parseDepthRows_encode]
    rfl
  | quote => exact read_pack _ extra 50 rfl _ _
  | oi => exact read_pack _ extra 12 rfl _ _
  | prevClose => exact read_pack _ extra 16 rfl _ _
  | status => exact read_pack _ extra 8 rfl _ _
  | full h t openInterest oiHigh oiLow day rows =>
    refine (read_pack _ extra 162 rfl _ _).trans ?_
    simp only [parseDepthRows_encode]
    rfl
  | disconnect => exact read_pack _ extra 10 rfl _ _

/-- The bytes are empty, of an unknown type, or fewer than a packet of their type has. -/
def Malformed : List UInt8 → Prop
  | [] => True
  | first :: rest => ∀ n, documentedLength first = some n → (first :: rest).length < n

theorem read_short {α : Type} {data : List UInt8} {n : ℕ} (h : data.length < n) (what : String)
    (k : Unit → Except Raised α) :
    ∃ message, (need data n what >>= k) = .error (.packetError message) :=
  ⟨_, by rw [need, if_pos h]; rfl⟩

theorem parsePacket_kind (first : UInt8) (rest : List UInt8) :
    (first = 2 ∧ ∀ now, parsePacket flt now (first :: rest) = parseTicker flt (first :: rest)) ∨
    (first = 3 ∧ ∀ now, parsePacket flt now (first :: rest) = parseDepth flt now (first :: rest)) ∨
    (first = 4 ∧ ∀ now, parsePacket flt now (first :: rest) = parseQuote flt (first :: rest)) ∨
    (first = 5 ∧ ∀ now, parsePacket flt now (first :: rest) = parseOi now (first :: rest)) ∨
    (first = 6 ∧ ∀ now, parsePacket flt now (first :: rest) = parsePrevClose flt now (first :: rest)) ∨
    (first = 7 ∧ ∀ now, parsePacket flt now (first :: rest) = parseStatus (first :: rest)) ∨
    (first = 8 ∧ ∀ now, parsePacket flt now (first :: rest) = parseFull flt (first :: rest)) ∨
    (first = 50 ∧ ∀ now, parsePacket flt now (first :: rest) = parseDisconnect (first :: rest)) ∨
    ∀ now, parsePacket flt now (first :: rest) =
      .error (.packetError s!"unknown packet type {first.toNat}") := by
  simp only [parsePacket]
  by_cases h2 : first = 2
  · exact .inl ⟨h2, fun _ => if_pos h2⟩
  simp only [if_neg h2]
  right
  by_cases h3 : first = 3
  · exact .inl ⟨h3, fun _ => if_pos h3⟩
  simp only [if_neg h3]
  right
  by_cases h4 : first = 4
  · exact .inl ⟨h4, fun _ => if_pos h4⟩
  simp only [if_neg h4]
  right
  by_cases h5 : first = 5
  · exact .inl ⟨h5, fun _ => if_pos h5⟩
  simp only [if_neg h5]
  right
  by_cases h6 : first = 6
  · exact .inl ⟨h6, fun _ => if_pos h6⟩
  simp only [if_neg h6]
  right
  by_cases h7 : first = 7
  · exact .inl ⟨h7, fun _ => if_pos h7⟩
  simp only [if_neg h7]
  right
  by_cases h8 : first = 8
  · exact .inl ⟨h8, fun _ => if_pos h8⟩
  simp only [if_neg h8]
  right
  by_cases h50 : first = 50
  · exact .inl ⟨h50, fun _ => if_pos h50⟩
  exact .inr fun _ => if_neg h50

theorem parsePacket_malformed {data : List UInt8} (h : Malformed data) :
    ∃ message, parsePacket flt now data = .error (.packetError message) := by
  cases data with
  | nil => exact ⟨_, rfl⟩
  | cons first rest =>
    rcases parsePacket_kind flt first rest with ⟨h2, hread⟩ | ⟨h3, hread⟩ | ⟨h4, hread⟩ | ⟨h5, hread⟩ |
      ⟨h6, hread⟩ | ⟨h7, hread⟩ | ⟨h8, hread⟩ | ⟨h50, hread⟩ | hread <;> rw [hread]
    · exact read_short (h 16 (by rw [h2]; rfl)) _ _
    · exact read_short (h 112 (by rw [h3]; rfl)) _ _
    · exact read_short (h 50 (by rw [h4]; rfl)) _ _
    · exact read_short (h 12 (by rw [h5]; rfl)) _ _
    · exact read_short (h 16 (by rw [h6]; rfl)) _ _
    · exact read_short (h 8 (by rw [h7]; rfl)) _ _
    · exact read_short (h 162 (by rw [h8]; rfl)) _ _
    · exact read_short (h 10 (by rw [h50]; rfl)) _ _
    · exact ⟨_, rfl⟩

theorem reason_of_parsePacket {data : List UInt8} {code : ℕ} {reason : String} {terminal : Bool}
    (h : parsePacket flt now data = .ok (.serverDisconnect code reason terminal)) :
    reason = disconnectReason code := by
  cases data with
  | nil => cases h
  | cons first rest =>
    rcases parsePacket_kind flt first rest with ⟨-, hread⟩ | ⟨-, hread⟩ | ⟨-, hread⟩ | ⟨-, hread⟩ |
      ⟨-, hread⟩ | ⟨-, hread⟩ | ⟨-, hread⟩ | ⟨-, hread⟩ | hread <;> rw [hread] at h
    · simp only [parseTicker, bind_eq_ok, pure, Except.pure] at h
      obtain ⟨_, _, _, _, hdecoded⟩ := h
      cases hdecoded
    · simp only [parseDepth, bind_eq_ok, pure, Except.pure] at h
      obtain ⟨_, _, _, _, _, _, hdecoded⟩ := h
      cases hdecoded
    · simp only [parseQuote, bind_eq_ok, pure, Except.pure] at h
      obtain ⟨_, _, _, _, hdecoded⟩ := h
      cases hdecoded
    · simp only [parseOi, bind_eq_ok, pure, Except.pure] at h
      obtain ⟨_, _, _, _, hdecoded⟩ := h
      cases hdecoded
    · simp only [parsePrevClose, bind_eq_ok, pure, Except.pure] at h
      obtain ⟨_, _, _, _, hdecoded⟩ := h
      cases hdecoded
    · simp only [parseStatus, bind_eq_ok, pure, Except.pure] at h
      obtain ⟨_, _, _, _, hdecoded⟩ := h
      cases hdecoded
    · simp only [parseFull, bind_eq_ok, pure, Except.pure] at h
      obtain ⟨_, _, _, _, _, _, hdecoded⟩ := h
      cases hdecoded
    · simp only [parseDisconnect, bind_eq_ok, pure, Except.pure] at h
      obtain ⟨_, _, _, _, hdecoded⟩ := h
      cases hdecoded
      rfl
    · cases h

def carriesQuote : List UInt8 → Bool
  | [] => false
  | first :: rest =>
    decide (first ∈ [2, 3, 4, 5, 6, 8]) &&
      (documentedLength first).any fun n => decide (n ≤ (first :: rest).length)

theorem carriesQuote_of_parsePacket {data : List UInt8} {e : DhanMarketEvent F}
    (h : parsePacket flt now data = .ok (.event e)) : carriesQuote data = true := by
  cases data with
  | nil => cases h
  | cons first rest =>
    have hlength : ¬ Malformed (first :: rest) := by
      intro hmalformed
      obtain ⟨message, herror⟩ := parsePacket_malformed flt now hmalformed
      rw [herror] at h
      cases h
    simp only [Malformed, not_forall, not_lt] at hlength
    obtain ⟨n, hn, hle⟩ := hlength
    have hkind : first ∈ [2, 3, 4, 5, 6, 8] := by
      rcases parsePacket_kind flt first rest with ⟨h2, hread⟩ | ⟨h3, hread⟩ | ⟨h4, hread⟩ | ⟨h5, hread⟩ |
        ⟨h6, hread⟩ | ⟨h7, hread⟩ | ⟨h8, hread⟩ | ⟨h50, hread⟩ | hread
      · simp [h2]
      · simp [h3]
      · simp [h4]
      · simp [h5]
      · simp [h6]
      · rw [hread] at h
        simp [parseStatus, bind_eq_ok, pure, Except.pure] at h
      · simp [h8]
      · rw [hread] at h
        simp [parseDisconnect, bind_eq_ok, pure, Except.pure] at h
      · rw [hread] at h
        cases h
    simp only [carriesQuote, hkind, hn, decide_true, Bool.true_and, Option.any_some, hle]

theorem identity_of_parsePacket (now' : ℚ) {data : List UInt8} {e : DhanMarketEvent F}
    (h : parsePacket flt now data = .ok (.event e)) :
    ∃ e', parsePacket flt now' data = .ok (.event e') ∧
      e'.exchangeSegment = e.exchangeSegment ∧ e'.securityId = e.securityId := by
  cases data with
  | nil => cases h
  | cons first rest =>
    rcases parsePacket_kind flt first rest with ⟨-, hread⟩ | ⟨-, hread⟩ | ⟨-, hread⟩ | ⟨-, hread⟩ |
      ⟨-, hread⟩ | ⟨-, hread⟩ | ⟨-, hread⟩ | ⟨-, hread⟩ | hread <;> rw [hread] at h ⊢
    · exact ⟨e, h, rfl, rfl⟩
    · simp only [parseDepth, bind_eq_ok, pure, Except.pure] at h ⊢
      obtain ⟨_, hneed, t, ht, b, hb, hdecoded⟩ := h
      cases hdecoded
      exact ⟨_, ⟨_, hneed, t, ht, b, hb, rfl⟩, rfl, rfl⟩
    · exact ⟨e, h, rfl, rfl⟩
    · simp only [parseOi, bind_eq_ok, pure, Except.pure] at h ⊢
      obtain ⟨_, hneed, t, ht, hdecoded⟩ := h
      cases hdecoded
      exact ⟨_, ⟨_, hneed, t, ht, rfl⟩, rfl, rfl⟩
    · simp only [parsePrevClose, bind_eq_ok, pure, Except.pure] at h ⊢
      obtain ⟨_, hneed, t, ht, hdecoded⟩ := h
      cases hdecoded
      exact ⟨_, ⟨_, hneed, t, ht, rfl⟩, rfl, rfl⟩
    · exact ⟨e, h, rfl, rfl⟩
    · exact ⟨e, h, rfl, rfl⟩
    · exact ⟨e, h, rfl, rfl⟩
    · cases h

/-- Each documented packet is read as its fields say, whatever is behind it; bytes that hold
no packet raise `DhanPacketError` and nothing else. -/
theorem parsePacket_exact :
    (∀ (p : Packet) (extra : List UInt8),
      parsePacket flt now (p.encode ++ extra) = .ok (p.reading flt now)) ∧
    ∀ data, Malformed data →
      ∃ message, parsePacket flt now data = .error (.packetError message) :=
  ⟨parsePacket_encode flt now, fun _ h => parsePacket_malformed flt now h⟩

end Reading

end Trademetrix.Market
