import Trademetrix.Decimal
import Trademetrix.Market.AmbiguousSymbols
import Trademetrix.Market.Feed
import Trademetrix.Market.Wire

/-!
# The identity of a contract on the feed

`subscription_for_instrument` takes segment and id from the contract, and
`parse_packet` names both from the packet's header. The two tables of segment
names agree on what a contract may be in, but for that of MCX; an id has to be
the decimal that the packet's number is written as.
-/

namespace Trademetrix.Market

def segmentNameToCode : Dict String ℕ := segmentCodeToName.map fun e => (e.2, e.1)

/-- What `subscription_for_instrument` and `DhanSubscription` raise. -/
inductive SubscriptionError
  | noExchangeSegment
  | noSecurityId
  | notNumeric (securityId : String)
  | unknownSegment (segment : String)

def subscriptionForInstrument (i : Instrument) (mode : FeedMode) :
    Except SubscriptionError (Identity × FeedMode) :=
  if i.exchangeSegment = "" then .error .noExchangeSegment
  else if i.securityId = "" then .error .noSecurityId
  else if Text.isDigit i.securityId = false then .error (.notNumeric i.securityId)
  else if i.exchangeSegment ∉ segmentNameToCode.map Prod.fst then
    .error (.unknownSegment i.exchangeSegment)
  else .ok ((i.exchangeSegment, i.securityId), mode)

section Quotes

variable {F : Type}

def Feed.quoteFor (s : Feed F) (i : Identity) : Option (DhanMarketEvent F) := s.quotes.get i

/-- `age` is what the clock makes the age of an event. -/
def Feed.freshQuote (s : Feed F) (age : DhanMarketEvent F → ℚ) (i : Identity) (maxAge : ℚ := 15) :
    Option (DhanMarketEvent F) :=
  (s.quoteFor i).filter fun e => age e ≤ maxAge

end Quotes

def Packet.header : Packet → Option Header
  | .ticker h _ _ => some h
  | .depth h _ _ => some h
  | .quote h _ _ => some h
  | .oi h _ => some h
  | .prevClose h _ _ => some h
  | .status _ _ _ => none
  | .full h _ _ _ _ _ _ => some h
  | .disconnect _ _ => none

def feedCode : Dict String ℕ := segmentNameToCode ++ [("MCX_FNO", 5)]

def Header.IsOf (h : Header) (c : DhanContract) : Prop :=
  feedCode.get c.exchangeSegment = some h.segment.toNat ∧
    Text.parseInt c.securityId = some (h.securityId.toNat : ℤ)

/-- The contract can be subscribed, the feed has packets of it, and what they say is found under
the identity of the subscription. -/
def DhanContract.Served {F : Type} (flt : SinglePrecision F) (mode : FeedMode) (c : DhanContract) :
    Prop :=
  ∃ i, subscriptionForInstrument c.toInstrument mode = .ok (i, mode) ∧
    (∃ h : Header, h.IsOf c) ∧
    ∀ (p : Packet) (h : Header) (extra : List UInt8) (now : ℚ) (e : DhanMarketEvent F),
      p.header = some h → h.IsOf c → parsePacket flt now (p.encode ++ extra) = .ok (.event e) →
        (e.exchangeSegment, e.securityId) = i ∧
          ∀ s : Feed F, (s.apply (.event e)).quoteFor i = some e ∧
            ∀ age maxAge, age e ≤ maxAge → (s.apply (.event e)).freshQuote age i maxAge = some e

theorem subscriptionForInstrument_eq_key (sub : DhanSubscription) {i : Instrument}
    (hsegment : i.exchangeSegment = sub.exchangeSegment) (hid : i.securityId = sub.securityId) :
    subscriptionForInstrument i sub.mode = .ok sub.key := by
  have hdigit : Text.isDigit sub.securityId = true := by
    have hne : sub.securityId.isEmpty = false := by simpa using sub.digits.1
    rw [Text.isDigit, hne, Bool.not_false, Bool.true_and]
    refine List.all_eq_true.mpr fun c hc => ?_
    rw [Text.decimal_of_isDigit (List.all_eq_true.mp sub.digits.2 c hc), Bool.true_or]
  have hnames : segmentNameToCode.map Prod.fst = segmentCodeToName.map Prod.snd := by
    rw [segmentNameToCode, List.map_map]
    rfl
  have hne : sub.exchangeSegment ≠ "" := by
    intro hempty
    have hknown := sub.known
    rw [hempty] at hknown
    exact absurd hknown (by decide)
  rw [subscriptionForInstrument, hsegment, hid, if_neg hne, if_neg sub.digits.1, hdigit,
    if_neg (by decide), hnames, if_neg (not_not_intro sub.known)]
  rfl

section Packets

variable {F : Type} (flt : SinglePrecision F) (now : ℚ)

theorem reading_header {p : Packet} {h : Header} (hp : p.header = some h) :
    ∃ e, p.reading flt now = .event e ∧ e.exchangeSegment = segmentName h.segment.toNat ∧
      e.securityId = toString h.securityId.toNat := by
  cases p with
  | status messageLength segment code => cases hp
  | disconnect h' code => cases hp
  | ticker h' ltp ltt => cases hp; exact ⟨_, rfl, rfl, rfl⟩
  | depth h' ltp rows => cases hp; exact ⟨_, rfl, rfl, rfl⟩
  | quote h' t day => cases hp; exact ⟨_, rfl, rfl, rfl⟩
  | oi h' openInterest => cases hp; exact ⟨_, rfl, rfl, rfl⟩
  | prevClose h' close openInterest => cases hp; exact ⟨_, rfl, rfl, rfl⟩
  | full h' t openInterest oiHigh oiLow day rows => cases hp; exact ⟨_, rfl, rfl, rfl⟩

theorem identity_of_header {p : Packet} {h : Header} {extra : List UInt8} {e : DhanMarketEvent F}
    (hp : p.header = some h) (he : parsePacket flt now (p.encode ++ extra) = .ok (.event e)) :
    (e.exchangeSegment, e.securityId) =
      (segmentName h.segment.toNat, toString h.securityId.toNat) := by
  obtain ⟨e', hread, hsegment, hid⟩ := reading_header flt now hp
  rw [parsePacket_encode, hread] at he
  cases he
  rw [hsegment, hid]

end Packets

section Serving

variable {F : Type} {flt : SinglePrecision F} {mode : FeedMode} {c : DhanContract}

theorem segment_known {key : String × String} {segment : String}
    (h : exchangeSegmentMap.get key = some segment) :
    segment = "MCX_FNO" ∨ ∃ code < 9, feedCode.get segment = some code ∧
      segmentName code = segment ∧ segment ∈ segmentNameToCode.map Prod.fst ∧ segment ≠ "" := by
  have hmem : segment ∈ exchangeSegmentMap.map Prod.snd :=
    List.mem_map_of_mem (f := Prod.snd) (Dict.mem_of_get h)
  have hall : ∀ s ∈ exchangeSegmentMap.map Prod.snd, s = "MCX_FNO" ∨ ∃ code < 9,
      feedCode.get s = some code ∧ segmentName code = s ∧ s ∈ segmentNameToCode.map Prod.fst ∧
        s ≠ "" := by
    decide
  exact hall segment hmem

theorem exchange_of_segment {x x' code code' segment : String}
    (h : exchangeSegmentMap.get (x, code) = some segment)
    (h' : exchangeSegmentMap.get (x', code') = some segment) : x = x' := by
  have hall : ∀ e ∈ exchangeSegmentMap, ∀ e' ∈ exchangeSegmentMap, e.2 = e'.2 → e.1.1 = e'.1.1 := by
    decide
  exact hall _ (Dict.mem_of_get h) _ (Dict.mem_of_get h') rfl

theorem subscription_eq_ok {i : Instrument} {x : Identity × FeedMode} :
    subscriptionForInstrument i mode = .ok x ↔
      i.exchangeSegment ≠ "" ∧ i.securityId ≠ "" ∧ Text.isDigit i.securityId = true ∧
        i.exchangeSegment ∈ segmentNameToCode.map Prod.fst ∧
        ((i.exchangeSegment, i.securityId), mode) = x := by
  unfold subscriptionForInstrument
  by_cases hsegment : i.exchangeSegment = ""
  · simp [hsegment]
  by_cases hid : i.securityId = ""
  · simp [hsegment, hid]
  by_cases hdigit : Text.isDigit i.securityId = false
  · simp [hsegment, hid, hdigit]
  by_cases hknown : i.exchangeSegment ∈ segmentNameToCode.map Prod.fst
  · rw [if_neg hsegment, if_neg hid, if_neg hdigit, if_neg (not_not_intro hknown)]
    simp only [Bool.not_eq_false] at hdigit
    simp [hsegment, hid, hdigit, hknown]
  · rw [if_neg hsegment, if_neg hid, if_neg hdigit, if_pos hknown]
    simp [hknown]

theorem parseInt_plain {id : String} {n : ℕ} (hn : n < 2 ^ 32) (hid : id = toString n) :
    Text.parseInt id = some (n : ℤ) := by
  rw [hid]
  refine Text.parseInt_toString (hn.trans ?_)
  exact lt_of_lt_of_le (by norm_num) (Nat.pow_le_pow_right (n := 10) (by norm_num)
    (by decide : 10 ≤ Text.maxDigits))

theorem served_iff {key : String × String}
    (hsegment : exchangeSegmentMap.get key = some c.exchangeSegment) :
    c.Served flt mode ↔ c.exchangeSegment ≠ "MCX_FNO" ∧ ∃ n < 2 ^ 32, c.securityId = toString n := by
  constructor
  · intro h
    obtain ⟨i, hsub, ⟨h, hof⟩, hfound⟩ := h
    obtain ⟨-, -, -, hknown, hi⟩ := subscription_eq_ok.mp hsub
    refine ⟨fun hmcx => ?_, h.securityId.toNat, UInt32.toNat_lt _, ?_⟩
    · have hmem : c.exchangeSegment ∈ segmentNameToCode.map Prod.fst := hknown
      rw [hmcx] at hmem
      exact absurd hmem (by decide)
    · -- a ticker packet of the contract
      have hparse := parsePacket_encode flt 0 (.ticker h 0 0) []
      obtain ⟨hsame, -⟩ := hfound (.ticker h 0 0) h [] 0 _ rfl hof hparse
      rw [identity_of_header flt 0 (p := .ticker h 0 0) rfl hparse] at hsame
      have hid := congrArg (fun x => x.2) (hsame.trans (congrArg Prod.fst hi).symm)
      exact hid.symm
  · intro h
    obtain ⟨hmcx, n, hn, hid⟩ := h
    obtain hbad | ⟨code, hcode, hget, hname, hknown, hne⟩ := segment_known hsegment
    · exact absurd hbad hmcx
    have hparse : Text.parseInt c.securityId = some (n : ℤ) := parseInt_plain hn hid
    have hdigit : Text.isDigit c.securityId = true := hid ▸ Text.isDigit_toString n
    have hblank : c.securityId ≠ "" := by
      intro hempty
      rw [hempty] at hdigit
      exact absurd hdigit (by decide)
    refine ⟨(c.exchangeSegment, c.securityId), subscription_eq_ok.mpr
      ⟨hne, hblank, hdigit, hknown, rfl⟩, ⟨⟨0, UInt8.ofNat code, UInt32.ofNat n⟩, ?_, ?_⟩, ?_⟩
    · rw [hget]
      exact congrArg some (UInt8.toNat_ofNat_of_lt' (hcode.trans (by norm_num))).symm
    · rw [hparse]
      exact congrArg (fun k : ℕ => some (k : ℤ)) (UInt32.toNat_ofNat_of_lt' hn).symm
    · intro p h extra now e hp hof he
      have hid' : (e.exchangeSegment, e.securityId) = (c.exchangeSegment, c.securityId) := by
        rw [identity_of_header flt now hp he]
        obtain ⟨hsame, hnumber⟩ := hof
        have hcode' : h.segment.toNat = code := Option.some.inj (hsame.symm.trans hget)
        have hn' : h.securityId.toNat = n := by
          exact_mod_cast Option.some.inj (hnumber.symm.trans hparse)
        rw [hcode', hn', hname, hid]
      refine ⟨hid', fun s => ?_⟩
      have hquote : (s.apply (.event e)).quoteFor (c.exchangeSegment, c.securityId) = some e := by
        rw [Feed.quoteFor, Feed.apply, hid', Dict.get_set, if_pos rfl]
      refine ⟨hquote, fun age maxAge hage => ?_⟩
      rw [Feed.freshQuote, hquote, Option.filter_some, if_pos (decide_eq_true hage)]

end Serving

def DhanContract.identity (c : DhanContract) : Identity := (c.exchangeSegment, c.securityId)

structure Dataset.Addressed {F : Type} (flt : SinglePrecision F) (mode : FeedMode) (d : Dataset) :
    Prop where
  served : ∀ c ∈ d.listed, c.Served flt mode
  distinct : (d.listed.map DhanContract.identity).Nodup

structure Contracts.Addressable (o : Contracts) (d : Dataset) : Prop where
  segment : ∀ c ∈ o.all, c.exchangeSegment ≠ "MCX_FNO"
  plain : d.isMmap = false → ∀ c ∈ o.all, ∃ n < 2 ^ 32, c.securityId = toString n
  numbers : (o.all.map fun c => (c.exchangeSegment, Text.parseInt c.securityId)).Nodup

section Masters

variable {F : Type} {flt : SinglePrecision F} {mode : FeedMode} {readings : Readings}
  {schemaId : String} {now : ℚ} {text : MasterText} {o : Contracts} {d : Dataset}

theorem segment_of_parse (h : parse readings now text = .ok o) {c : DhanContract} (hc : c ∈ o.all) :
    ∃ code, exchangeSegmentMap.get (c.exchange, code) = some c.exchangeSegment := by
  have hreads := (gathers_rows readings now text.rows).readsFirst
  rw [← found_of_parse h] at hc
  obtain ⟨row, ⟨hread, -⟩⟩ := hreads.source c hc
  exact ⟨_, hread.segment⟩

theorem nodup_identity (h : parse readings now text = .ok o) {κ : Type} {f : DhanContract → κ}
    (hf : ∀ c ∈ o.all, ∀ c' ∈ o.all, f c = f c' → c.identity = c'.identity) :
    (o.all.map f).Nodup := by
  have hkeys := (lists_of_parse h).unique
  refine List.Nodup.map_on (fun c hc c' hc' hsame => ?_) (List.Nodup.of_map _ hkeys)
  refine List.inj_on_of_nodup_map hkeys hc hc' ?_
  obtain ⟨hsegment, hid⟩ := Prod.mk.inj (hf c hc c' hc' hsame)
  obtain ⟨code, hcode⟩ := segment_of_parse h hc
  obtain ⟨code', hcode'⟩ := segment_of_parse h hc'
  rw [← hsegment] at hcode'
  rw [DhanContract.key, DhanContract.key, exchange_of_segment hcode hcode', hsegment, hid]

theorem addressed_object (h : parse readings now text = .ok o) (installedAt : ℚ) (url : String) :
    Dataset.Addressed flt mode ⟨.object o, installedAt, url⟩ ↔
      o.Addressable ⟨.object o, installedAt, url⟩ := by
  have hserved : ∀ c ∈ o.all, c.Served flt mode ↔
      c.exchangeSegment ≠ "MCX_FNO" ∧ ∃ n < 2 ^ 32, c.securityId = toString n := by
    intro c hc
    obtain ⟨code, hcode⟩ := segment_of_parse h hc
    exact served_iff hcode
  constructor
  · intro hall
    have hplain : ∀ c ∈ o.all, ∃ n < 2 ^ 32, c.securityId = toString n :=
      fun c hc => ((hserved c hc).mp (hall.served c hc)).2
    refine ⟨fun c hc => ((hserved c hc).mp (hall.served c hc)).1, fun _ => hplain, ?_⟩
    refine nodup_identity h fun c hc c' hc' hsame => ?_
    obtain ⟨hsegment, hnumber⟩ := Prod.mk.inj hsame
    obtain ⟨n, hn, hid⟩ := hplain c hc
    obtain ⟨n', hn', hid'⟩ := hplain c' hc'
    rw [parseInt_plain hn hid, parseInt_plain hn' hid'] at hnumber
    have hnn : n = n' := by exact_mod_cast Option.some.inj hnumber
    rw [DhanContract.identity, DhanContract.identity, hsegment, hid, hid', hnn]
  · intro hok
    exact ⟨fun c hc => (hserved c hc).mpr ⟨hok.segment c hc, hok.plain rfl c hc⟩,
      nodup_identity h fun _ _ _ _ hsame => hsame⟩

theorem securityId_bounds {cs : List DhanContract} {recs : List UInt8} {e : Encoding}
    {ps : List Placed} (h : Laid 0 cs {} recs e ps) {p : Placed} (hp : p ∈ ps) :
    0 ≤ p.securityId ∧ p.securityId < 2 ^ 32 := by
  obtain ⟨b, hb⟩ := Schema.pack_of_packAll h.records (List.mem_map_of_mem hp)
  simp only [record, Record.values, Schema.pack, Option.bind_eq_bind, Option.bind_eq_some_iff] at hb
  obtain ⟨first, hfirst, -⟩ := hb
  exact BinaryType.holds_of_pack hfirst

theorem served_decoded (h : parse readings now text = .ok o) {recs : List UInt8} {e : Encoding}
    {ps : List Placed} (hl : Laid 0 o.all {} recs e ps) (installedAt : ℚ) {p : Placed} (hp : p ∈ ps) :
    (p.decoded installedAt).Served flt mode ↔ p.contract.exchangeSegment ≠ "MCX_FNO" := by
  have hlisted : p.contract ∈ o.all := by
    rw [← hl.contracts]
    exact List.mem_map_of_mem hp
  obtain ⟨code, hcode⟩ := segment_of_parse h hlisted
  obtain ⟨hlow, hhigh⟩ := securityId_bounds hl hp
  have hcode' : exchangeSegmentMap.get (p.contract.exchange, code) =
      some (p.decoded installedAt).exchangeSegment := hcode
  refine (served_iff hcode').trans ⟨fun hserved => hserved.1, fun hmcx => ⟨hmcx, ?_⟩⟩
  refine ⟨p.securityId.toNat, by omega, ?_⟩
  change toString p.securityId = _
  rw [← Int.toNat_of_nonneg hlow]
  rfl

theorem nodup_identity_decoded {recs : List UInt8} {e : Encoding} {ps : List Placed}
    (hl : Laid 0 o.all {} recs e ps) (installedAt : ℚ) :
    ((ps.map (Placed.decoded installedAt)).map DhanContract.identity).Nodup ↔
      (o.all.map fun c => (c.exchangeSegment, Text.parseInt c.securityId)).Nodup := by
  let number (p : Placed) : String × ℤ := (p.contract.exchangeSegment, p.securityId)
  have hdecoded : (ps.map (Placed.decoded installedAt)).map DhanContract.identity =
      (ps.map number).map fun x => (x.1, toString x.2) := by
    rw [List.map_map, List.map_map]
    rfl
  have hparsed : o.all.map (fun c => (c.exchangeSegment, Text.parseInt c.securityId)) =
      (ps.map number).map fun x => (x.1, some x.2) := by
    rw [← hl.contracts, List.map_map, List.map_map]
    refine List.map_congr_left fun p hp => ?_
    simp [number, toInt_eq_ok.mp (hl.securityId p hp)]
  have hsome : Function.Injective fun x : String × ℤ => (x.1, some x.2) := by
    intro x y hxy
    obtain ⟨hsegment, hnumber⟩ := Prod.mk.inj hxy
    exact Prod.ext hsegment (Option.some.inj hnumber)
  have htext : Function.Injective fun x : String × ℤ => (x.1, toString x.2) := by
    intro x y hxy
    obtain ⟨hsegment, hnumber⟩ := Prod.mk.inj hxy
    exact Prod.ext hsegment (toString_inj.mp hnumber)
  rw [hdecoded, hparsed, List.nodup_map_iff htext, List.nodup_map_iff hsome]

theorem addressed_mmap {m : MmapStore} (h : Encoded readings schemaId now text o m)
    (installedAt : ℚ) (url : String) :
    Dataset.Addressed flt mode ⟨.mmap m, installedAt, url⟩ ↔
      o.Addressable ⟨.mmap m, installedAt, url⟩ := by
  obtain ⟨recs, e, ps, -, hl, rfl⟩ := h.laid
  have hlisted := listed_mmap installedAt url hl
  constructor
  · intro hok
    refine ⟨fun c hc => ?_, nofun, ?_⟩
    · rw [← hl.contracts] at hc
      obtain ⟨p, hp, rfl⟩ := List.mem_map.mp hc
      refine (served_decoded h.parsed hl installedAt hp).mp (hok.served _ ?_)
      rw [hlisted]
      exact List.mem_map_of_mem hp
    · have hdistinct := hok.distinct
      rw [hlisted] at hdistinct
      exact (nodup_identity_decoded hl installedAt).mp hdistinct
  · intro hok
    refine ⟨fun c hc => ?_, ?_⟩
    · rw [hlisted] at hc
      obtain ⟨p, hp, rfl⟩ := List.mem_map.mp hc
      refine (served_decoded h.parsed hl installedAt hp).mpr (hok.segment _ ?_)
      rw [← hl.contracts]
      exact List.mem_map_of_mem hp
    · rw [hlisted]
      exact (nodup_identity_decoded hl installedAt).mpr hok.numbers

/-- The contracts of a master are all served on the feed, under identities of their own, exactly
when none of them is of MCX, their ids are plain decimals (or come back so from the mapped store),
and no two of one segment are of one number. -/
theorem addressed_iff (h : d.OfMaster readings schemaId o) (flt : SinglePrecision F)
    (mode : FeedMode) : d.Addressed flt mode ↔ o.Addressable d := by
  cases h with
  | object h installedAt url => exact addressed_object h installedAt url
  | mmap h installedAt url => exact addressed_mmap h installedAt url

end Masters

section Samples

theorem addressed_iff_nifty :
    ∃ o, parse niftySetup.readings 0 niftyMaster = .ok o ∧
      ∀ (flt : SinglePrecision UInt32) (mode : FeedMode),
        Dataset.Addressed flt mode ⟨.object o, 0, ""⟩ ↔ o.Addressable ⟨.object o, 0, ""⟩ := by
  obtain ⟨o, hparse⟩ := parse_niftyMaster
  have hmaster : Dataset.OfMaster niftySetup.readings "" o ⟨.object o, 0, ""⟩ :=
    .object hparse 0 ""
  exact ⟨o, hparse, fun flt mode => addressed_iff hmaster flt mode⟩

def mcxMaster : MasterText :=
  { niftyMaster with
    rows := niftyMaster.rows.map fun row => (row.set "EXCH_ID" "MCX").set "SEGMENT" "M" }

/-- `unknown exchange segment 'MCX_FNO'`. -/
theorem not_addressed_mcx :
    ∃ o, parse niftySetup.readings 0 mcxMaster = .ok o ∧
      (∃ c ∈ o.all, ∀ mode, subscriptionForInstrument c.toInstrument mode =
        .error (.unknownSegment "MCX_FNO")) ∧
      ∀ (flt : SinglePrecision UInt32) (mode : FeedMode),
        ¬ Dataset.Addressed flt mode ⟨.object o, 0, ""⟩ := by
  obtain ⟨o, hparse, c, hc, hsegment, hid⟩ : ∃ o, parse niftySetup.readings 0 mcxMaster = .ok o ∧
      ∃ c ∈ o.all, c.exchangeSegment = "MCX_FNO" ∧ c.securityId = "40687" :=
    ok_of_decide (by decide +kernel)
  refine ⟨o, hparse, ⟨c, hc, fun mode => ?_⟩, fun flt mode haddressed => ?_⟩
  · have hinstrument : c.toInstrument.exchangeSegment = "MCX_FNO" ∧
        c.toInstrument.securityId = "40687" := ⟨hsegment, hid⟩
    rw [subscriptionForInstrument, hinstrument.1, hinstrument.2]
    rw [if_neg (by decide), if_neg (by decide), if_neg (by decide), if_pos (by decide)]
  · exact ((addressed_object hparse 0 "").mp haddressed).segment c hc hsegment

end Samples

end Trademetrix.Market
