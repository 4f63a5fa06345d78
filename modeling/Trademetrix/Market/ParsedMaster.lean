import Trademetrix.Market.DhanRefresh

/-!
# What a parsed master says

Every contract is read off one row, the first that is accepted under its key,
and every other row of an ingested family is rejected. The indexes by symbol and
by id keep the first contract of each, the one by underlying keeps all.
-/

namespace Trademetrix.Market

def Row.contract (r : Readings) (now : ℚ) (row : Row) : Option DhanContract :=
  match parseRow r now [] row with
  | .contract c => some c
  | _ => none

def Row.ingested (row : Row) : Bool := row.text "INSTRUMENT" ∈ ingestedInstruments

/-- The cells of a row say what the contract is. Of the tick size it says nothing where the cell is
blank, zero or no number. -/
structure DhanContract.ReadFrom (r : Readings) (row : Row) (c : DhanContract) : Prop where
  securityId : c.securityId = row.text "SECURITY_ID" ∧ c.securityId ≠ ""
  exchange : c.exchange = Text.upper (row.text "EXCH_ID") ∧ c.exchange ≠ ""
  segment : exchangeSegmentMap.get (c.exchange, Text.upper (row.text "SEGMENT")) = some c.exchangeSegment
  family : c.instrumentFamily = row.text "INSTRUMENT" ∧ c.instrumentFamily ∈ ingestedInstruments
  symbols : c.tradingSymbol = row.text "SYMBOL_NAME" ∧ c.displaySymbol = row.text "DISPLAY_NAME"
  underlying : c.underlyingSymbol = Text.upper (row.text "UNDERLYING_SYMBOL") ∧
    c.underlyingSecurityId = row.text "UNDERLYING_SECURITY_ID"
  lotSize : 0 < c.lotSize ∧ r.float (row.text "LOT_SIZE") = some (.finite c.lotSize)
  tickSize : 0 < c.tickSize ∧ ∀ x, x ≠ 0 → row.text "TICK_SIZE" ≠ "" →
    r.float (row.text "TICK_SIZE") = some (.finite x) → c.tickSize = x
  expiry : parseDate r row = .ok none ∧ c.expiryDate = "" ∨ parseDate r row = .ok (some c.expiryDate)
  strike : ∀ x, c.strikePrice = some x → r.float (row.text "STRIKE_PRICE") = some (.finite x)
  optionType : c.optionType = Text.upper (row.text "OPTION_TYPE")
  option : c.instrumentFamily ∈ optionFamilies → c.instrumentType = "OPT" ∧
    (c.optionType = "CE" ∨ c.optionType = "PE") ∧ c.underlyingSymbol ≠ "" ∧
      c.underlyingSecurityId ≠ "" ∧ parseDate r row = .ok (some c.expiryDate) ∧ c.strikePrice ≠ none
  future : c.instrumentFamily ∉ optionFamilies → c.instrumentType = "FUT" ∧ c.optionType = ""

section Rows

variable {r : Readings} {now : ℚ} {seen : List (String × String × String)} {row : Row}
  {family exchange segment id : String} {c : DhanContract}

theorem unless_rejected {p : Prop} [Decidable p] {why : Reject} {x : Except RowError Parsed}
    {parsed : Parsed} (hparsed : parsed ≠ .rejected why) :
    (if p then .ok (.rejected why) else x) = .ok parsed ↔ ¬p ∧ x = .ok parsed := by
  by_cases hp : p
  · simp [hp, Ne.symm hparsed]
  · simp [hp]

theorem parseLotSize_eq_ok {n : ℤ} (h : parseLotSize r row = .ok n) :
    0 < n ∧ r.float (row.text "LOT_SIZE") = some (.finite n) := by
  simp only [parseLotSize] at h
  split at h
  · cases h
  · split at h
    · next x hx =>
      split at h
      · cases h
      · next hpos =>
        split at h
        · cases h
        · next hwhole =>
          cases h
          rw [ne_eq, not_not] at hwhole
          rw [not_le, hwhole] at hpos
          exact ⟨by exact_mod_cast hpos, hwhole ▸ hx⟩
    · cases h

theorem parseFloat_eq_ok {column : String} {value : Option ℚ} (h : parseFloat r row column = .ok value) :
    (∀ x, value = some x → r.float (row.text column) = some (.finite x)) ∧
      ∀ x, row.text column ≠ "" → r.float (row.text column) = some (.finite x) → value = some x := by
  simp only [parseFloat] at h
  split at h
  · next hblank =>
    cases h
    exact ⟨nofun, fun x hne => absurd hblank hne⟩
  · split at h
    · next hnone =>
      cases h
      exact ⟨nofun, fun x _ hx => by rw [hnone] at hx; cases hx⟩
    · next x hx =>
      rw [← Except.ok.inj h]
      refine ⟨fun y hy => ?_, fun y _ hy => ?_⟩
      · rw [hx, Option.some.inj hy]
      · rw [hx] at hy
        rw [FloatText.finite.inj (Option.some.inj hy)]
    · cases h

theorem normalizeOptionType_eq_ok {raw optionType : String} (h : normalizeOptionType raw = .ok optionType) :
    optionType = Text.upper (Text.strip raw) ∧ (optionType = "" ∨ optionType = "CE" ∨ optionType = "PE") := by
  simp only [normalizeOptionType] at h
  split at h
  · next hknown =>
    rw [← Except.ok.inj h]
    exact ⟨rfl, hknown⟩
  · cases h

theorem parseFields_contract
    (h : parseFields r now seen row family exchange segment id = .ok (.contract c)) :
    c.key ∉ seen ∧ c.key = (exchange, segment, id) ∧ c.instrumentFamily = family ∧ (
      family ∈ ingestedInstruments → id = row.text "SECURITY_ID" → id ≠ "" →
        exchange = Text.upper (row.text "EXCH_ID") → exchange ≠ "" → family = row.text "INSTRUMENT" →
          exchangeSegmentMap.get (exchange, Text.upper (row.text "SEGMENT")) = some segment →
            c.ReadFrom r row) := by
  simp only [parseFields, pure_eq_ok, bind_eq_ok, unless_rejected, ne_eq, reduceCtorEq, not_false_iff] at h
  obtain ⟨optionType, htype, hoption, hfuture, lot, hlot, tick, htick, hpositive, expiry, hexpiry, strike,
    hstrike, hunderlying, hid, hdate, hprice, instrumentType, hinstrument, hnew, hc⟩ := h
  have hcontract := Parsed.contract.inj (Except.ok.inj hc)
  subst hcontract
  obtain ⟨hupper, hknown⟩ := normalizeOptionType_eq_ok htype
  obtain ⟨hlotpos, hlotread⟩ := parseLotSize_eq_ok hlot
  have hprices := parseFloat_eq_ok hstrike
  have hticks := parseFloat_eq_ok htick
  simp only [decide_eq_true_eq, not_and, not_not] at hoption hfuture hunderlying hid hdate hprice
  refine ⟨hnew, rfl, rfl, fun hfamily hid' hne hexchange hne' hfamily' hsegment => ?_⟩
  exact {
    securityId := ⟨hid', hne⟩
    exchange := ⟨hexchange, hne'⟩
    segment := hsegment
    family := ⟨hfamily', hfamily⟩
    symbols := ⟨rfl, rfl⟩
    underlying := ⟨rfl, rfl⟩
    lotSize := ⟨hlotpos, hlotread⟩
    tickSize := by
      refine ⟨not_le.mp hpositive, fun x hx hblank hread => ?_⟩
      simp [hticks.2 x hblank hread, hx]
    expiry := by
      cases expiry with
      | none => exact .inl ⟨hexpiry, rfl⟩
      | some date => exact .inr hexpiry
    strike := hprices.1
    optionType := hupper
    option := by
      intro hopt
      have hside := hoption hopt
      refine ⟨?_, hknown.resolve_left hside, hunderlying hopt, hid hopt, ?_, ?_⟩
      · rw [instrumentFamilyToType, if_pos hside] at hinstrument
        exact (Except.ok.inj hinstrument).symm
      · cases expiry with
        | none => exact absurd rfl (hdate hopt)
        | some date => exact hexpiry
      · simpa using hprice hopt
    future := by
      intro hfut
      have hside := hfuture hfut
      refine ⟨?_, hside⟩
      rw [instrumentFamilyToType, if_neg (not_not_intro hside)] at hinstrument
      split at hinstrument
      · exact (Except.ok.inj hinstrument).symm
      · cases hinstrument }

theorem parseFields_ne_skipped : parseFields r now seen row family exchange segment id ≠ .ok .skipped := by
  intro h
  simp only [parseFields, pure_eq_ok, bind_eq_ok, unless_rejected, ne_eq, reduceCtorEq, not_false_iff,
    Except.ok.injEq, and_false, exists_false] at h

theorem parseRow_ingested (h : row.ingested = true) (seen : List (String × String × String)) :
    (∃ why, parseRow r now seen row = .rejected why) ∨
      row.text "SECURITY_ID" ≠ "" ∧ Text.upper (row.text "EXCH_ID") ≠ "" ∧
        ∃ segment, exchangeSegmentMap.get (Text.upper (row.text "EXCH_ID"), Text.upper (row.text "SEGMENT")) =
            some segment ∧
          parseFields r now seen row (row.text "INSTRUMENT") (Text.upper (row.text "EXCH_ID")) segment
            (row.text "SECURITY_ID") = .ok (parseRow r now seen row) := by
  simp only [parseRow, if_neg (not_not_intro (of_decide_eq_true h))]
  by_cases hid : row.text "SECURITY_ID" = ""
  · simp [hid]
  by_cases hexchange : Text.upper (row.text "EXCH_ID") = ""
  · simp [hid, hexchange]
  by_cases hcode : Text.upper (row.text "SEGMENT") = ""
  · simp [hid, hexchange, hcode]
  simp only [hid, hexchange, hcode, if_false]
  cases hsegment : exchangeSegmentMap.get (Text.upper (row.text "EXCH_ID"), Text.upper (row.text "SEGMENT")) with
  | none => exact .inl ⟨_, rfl⟩
  | some segment =>
    dsimp only
    cases hfields : parseFields r now seen row (row.text "INSTRUMENT") (Text.upper (row.text "EXCH_ID")) segment
        (row.text "SECURITY_ID") with
    | error e => exact .inl ⟨_, rfl⟩
    | ok parsed => exact .inr ⟨hid, hexchange, segment, rfl, hfields⟩

theorem parseRow_skipped : parseRow r now seen row = .skipped ↔ row.ingested = false := by
  constructor
  · intro h
    by_contra hfamily
    rcases parseRow_ingested (Bool.eq_true_of_not_eq_false hfamily) seen with ⟨why, hwhy⟩ | ⟨-, -, segment, -, hfields⟩
    · rw [h] at hwhy
      cases hwhy
    · exact parseFields_ne_skipped (hfields.trans (congrArg Except.ok h))
  · intro hfamily
    rw [parseRow, if_pos (of_decide_eq_false hfamily)]

theorem readFrom_of_parseRow (h : parseRow r now seen row = .contract c) :
    c.key ∉ seen ∧ c.ReadFrom r row ∧ row.ingested = true := by
  have hfamily : row.ingested = true := by
    by_contra hfamily
    rw [parseRow_skipped.mpr (Bool.eq_false_of_not_eq_true hfamily)] at h
    cases h
  rcases parseRow_ingested hfamily seen with ⟨why, hwhy⟩ | ⟨hid, hexchange, segment, hsegment, hfields⟩
  · rw [h] at hwhy
    cases hwhy
  · rw [h] at hfields
    obtain ⟨hnew, -, -, hread⟩ := parseFields_contract hfields
    exact ⟨hnew, hread (of_decide_eq_true hfamily) rfl hid rfl hexchange rfl hsegment, hfamily⟩

def Parsed.unlessSeen (seen : List (String × String × String)) : Parsed → Parsed
  | .skipped => .skipped
  | .rejected why => .rejected why
  | .contract c => if ∃ k ∈ seen, k = c.key then .rejected .duplicateContractKey else .contract c

theorem unlessSeen_contract (seen : List (String × String × String)) (c : DhanContract) :
    (Parsed.contract c).unlessSeen seen =
      if c.key ∈ seen then .rejected .duplicateContractKey else .contract c := by
  by_cases h : c.key ∈ seen <;> simp [Parsed.unlessSeen, h]

theorem parseFields_seen (seen : List (String × String × String)) (row : Row)
    (family exchange segment id : String) :
    parseFields r now seen row family exchange segment id =
      (parseFields r now [] row family exchange segment id).map (Parsed.unlessSeen seen) := by
  have hrejected : ∀ why, Except.map (Parsed.unlessSeen seen)
      (.ok (.rejected why) : Except RowError Parsed) = .ok (.rejected why) := fun _ => rfl
  have hcontract : ∀ c : DhanContract, Except.map (Parsed.unlessSeen seen)
      (.ok (.contract c) : Except RowError Parsed) =
        if (c.exchange, c.exchangeSegment, c.securityId) ∈ seen then .ok (.rejected .duplicateContractKey)
        else .ok (.contract c) :=
    fun c => (congrArg Except.ok (unlessSeen_contract seen c)).trans (apply_ite Except.ok _ _ _)
  simp only [parseFields, map_bind_eq, apply_ite (Except.map (Parsed.unlessSeen seen)), pure_eq_ok,
    hrejected, hcontract, List.not_mem_nil, if_false]

theorem parseRow_seen (seen : List (String × String × String)) (row : Row) :
    parseRow r now seen row = (parseRow r now [] row).unlessSeen seen := by
  simp only [parseRow, apply_ite (Parsed.unlessSeen seen), parseFields_seen seen]
  cases exchangeSegmentMap.get (Text.upper (row.text "EXCH_ID"), Text.upper (row.text "SEGMENT")) with
  | none => simp only [Parsed.unlessSeen]
  | some segment =>
    dsimp only
    generalize parseFields r now [] row _ _ _ _ = x
    cases x <;> simp only [Parsed.unlessSeen, Except.map]

end Rows

section Indexes

structure Contracts.Lists (d : Contracts) (cs : List DhanContract) : Prop where
  contracts : d.contracts = cs.map fun c => (c.key, c)
  unique : (cs.map DhanContract.key).Nodup
  byTradingSymbol : ∀ symbol, d.byTradingSymbol.get symbol =
    if symbol = "" then none else cs.find? fun c => c.tradingSymbol = symbol
  bySecurityId : ∀ exchange id, d.bySecurityId.get (exchange, id) =
    cs.find? fun c => c.exchange = exchange ∧ c.securityId = id
  filed : ∀ c ∈ d.bySecurityId.values, c ∈ cs
  byUnderlying : ∀ underlying, (d.byUnderlying.get underlying).getD [] =
    cs.filter fun c => c.underlyingSymbol = underlying

theorem Contracts.Lists.add {d : Contracts} {cs : List DhanContract} (h : d.Lists cs) {c : DhanContract}
    (hnew : c.key ∉ cs.map DhanContract.key) : (d.add c).Lists (cs ++ [c]) where
  contracts := by
    have hany : ¬(d.contracts.any fun p => p.1 = c.key) = true := by
      rw [h.contracts]
      simpa using hnew
    rw [Contracts.add, Dict.set, if_neg hany, h.contracts, List.map_append]
    rfl
  unique := by
    rw [List.map_append]
    exact List.nodup_append_comm.mp (List.nodup_cons.mpr ⟨hnew, h.unique⟩)
  byTradingSymbol symbol := by
    simp only [Contracts.add, List.find?_append, List.find?_singleton, decide_eq_true_eq]
    by_cases hblank : c.tradingSymbol = ""
    · simp only [hblank, ne_eq, not_true, if_false, h.byTradingSymbol]
      by_cases hsymbol : symbol = ""
      · simp [hsymbol]
      · simp [hsymbol, Ne.symm hsymbol]
    · rw [if_pos hblank, get_setDefault, h.byTradingSymbol]
      by_cases hsymbol : symbol = ""
      · subst hsymbol
        simp [hblank]
      · simp [hsymbol]
  bySecurityId exchange id := by
    simp only [Contracts.add, get_setDefault, h.bySecurityId, List.find?_append, List.find?_singleton,
      decide_eq_true_eq, Prod.mk.injEq]
  filed c' hc' := by
    simp only [Contracts.add, setDefault] at hc'
    split at hc'
    · exact List.mem_append_left _ (h.filed c' hc')
    · obtain ⟨x, hx, rfl⟩ := List.mem_map.mp hc'
      rcases Dict.mem_set hx with rfl | hold
      · exact List.mem_append_right _ List.mem_cons_self
      · exact List.mem_append_left _ (h.filed _ (List.mem_map_of_mem hold))
  byUnderlying underlying := by
    simp only [Contracts.add, Dict.get_set, List.filter_append, ← h.byUnderlying]
    by_cases hu : underlying = c.underlyingSymbol
    · simp [hu]
    · simp [hu, Ne.symm hu]

theorem Contracts.Lists.all_eq {d : Contracts} {cs : List DhanContract} (h : d.Lists cs) : d.all = cs := by
  rw [Contracts.all, h.contracts, Dict.values, List.map_map]
  exact List.map_id cs

theorem Contracts.Lists.get_eq {d : Contracts} {cs : List DhanContract} (h : d.Lists cs)
    (k : String × String × String) : d.contracts.get k = cs.find? fun c => c.key = k := by
  simp [h.contracts, Dict.get, List.find?_map, Function.comp_def]

end Indexes

section Masters

variable {r : Readings} {now : ℚ} {rows : List Row} {row : Row} {p : Parse}

/-- What the loop over the rows has gathered: of the contracts the rows have on their own the first
of each key, in dictionaries that list them, and a rejection for every other row of an ingested
family. -/
structure Parse.Gathers (r : Readings) (now : ℚ) (rows : List Row) (p : Parse) : Prop where
  lists : p.found.Lists p.found.all
  first : ∀ k, (p.found.all.find? fun c => c.key = k) =
    (rows.filterMap (Row.contract r now)).find? fun c => c.key = k
  counted : p.rejected.length + p.found.all.length = (rows.filter Row.ingested).length

theorem gathers_nil : Parse.Gathers r now [] {} where
  lists :=
    { contracts := rfl
      unique := List.nodup_nil
      byTradingSymbol := fun symbol => by simp [Dict.get, Contracts.all, Dict.values]
      bySecurityId := fun _ _ => rfl
      filed := List.forall_mem_nil _
      byUnderlying := fun _ => rfl }
  first _ := rfl
  counted := rfl

theorem Parse.Gathers.step (h : p.Gathers r now rows) (row : Row) :
    (p.row r now row).Gathers r now (rows ++ [row]) := by
  have hkeys : p.found.contracts.map Prod.fst = p.found.all.map DhanContract.key := by
    rw [h.lists.contracts, List.map_map]
    rfl
  rw [Parse.row, parseRow_seen, hkeys]
  cases halone : parseRow r now [] row with
  | skipped =>
    have hnone : row.contract r now = none := by rw [Row.contract, halone]
    have hnot : row.ingested = false := parseRow_skipped.mp halone
    refine ⟨h.lists, fun k => ?_, ?_⟩
    · simp [Parsed.unlessSeen, h.first k, hnone]
    · simp [Parsed.unlessSeen, h.counted, hnot]
  | rejected why =>
    have hnone : row.contract r now = none := by rw [Row.contract, halone]
    have hin : row.ingested = true := by
      by_contra hnot
      rw [parseRow_skipped.mpr (Bool.eq_false_of_not_eq_true hnot)] at halone
      cases halone
    have hcounted := h.counted
    refine ⟨h.lists, fun k => ?_, ?_⟩
    · simp [Parsed.unlessSeen, h.first k, hnone]
    · simp only [Parsed.unlessSeen, List.length_append, List.filter_append, List.filter_singleton, hin,
        cond_true, List.length_singleton]
      omega
  | contract c =>
    have hsome : row.contract r now = some c := by rw [Row.contract, halone]
    have hin : row.ingested = true := (readFrom_of_parseRow halone).2.2
    have hcounted := h.counted
    have hrows : ∀ k, ((rows ++ [row]).filterMap (Row.contract r now)).find? (fun c => c.key = k) =
        (p.found.all.find? fun c => c.key = k).or (if c.key = k then some c else none) := by
      intro k
      simp [List.filterMap_append, hsome, h.first k, List.find?_append, List.find?_singleton]
    by_cases hseen : c.key ∈ p.found.all.map DhanContract.key
    · -- an earlier contract has the key already
      rw [unlessSeen_contract, if_pos hseen]
      refine ⟨h.lists, fun k => ?_, ?_⟩
      · rw [hrows k]
        by_cases hk : c.key = k
        · obtain ⟨c', hc', hkey⟩ := List.mem_map.mp hseen
          obtain ⟨found, hfound⟩ : ∃ found, (p.found.all.find? fun c => c.key = k) = some found := by
            refine Option.isSome_iff_exists.mp (List.find?_isSome.mpr ⟨c', hc', ?_⟩)
            exact decide_eq_true (hkey.trans hk)
          simp [hfound]
        · simp [hk]
      · simp only [List.length_append, List.filter_append, List.filter_singleton, hin, cond_true,
          List.length_singleton]
        omega
    · rw [unlessSeen_contract, if_neg hseen]
      have hadd := h.lists.add hseen
      have hall : (p.found.add c).all = p.found.all ++ [c] := hadd.all_eq
      refine ⟨hall ▸ hadd, fun k => ?_, ?_⟩
      · rw [hrows k]
        simp [hall, List.find?_append, List.find?_singleton]
      · simp only [hall, List.length_append, List.filter_append, List.filter_singleton, hin, cond_true,
          List.length_singleton]
        omega

theorem gathers_rows (r : Readings) (now : ℚ) (rows : List Row) :
    (rows.foldl (Parse.row r now) {}).Gathers r now rows := by
  induction rows using List.reverseRecOn with
  | nil => exact gathers_nil
  | append_singleton rows row ih =>
    rw [List.foldl_append, List.foldl_cons, List.foldl_nil]
    exact ih.step row

def Parse.FromRow (r : Readings) (now : ℚ) (rows : List Row) (c : DhanContract) (row : Row) : Prop :=
  c.ReadFrom r row ∧ row.contract r now = some c ∧ ∃ before after, rows = before ++ row :: after ∧
    ∀ x ∈ before, ∀ c', x.contract r now = some c' → c'.key ≠ c.key

structure Parse.Reads (r : Readings) (now : ℚ) (rows : List Row) (p : Parse) : Prop where
  source : ∀ c ∈ p.found.all, ∃ row, Parse.FromRow r now rows c row ∧
    r.float (row.text "TICK_SIZE") = some (.finite c.tickSize)
  unique : (p.found.all.map DhanContract.key).Nodup
  counted : p.rejected.length + p.found.all.length = (rows.filter Row.ingested).length
  byTradingSymbol : ∀ c, c ∈ p.found.byTradingSymbol.values ↔ c ∈ p.found.all
  bySecurityId : ∀ c, c ∈ p.found.bySecurityId.values ↔ c ∈ p.found.all
  byUnderlying : ∀ c, (∃ cs ∈ p.found.byUnderlying.values, c ∈ cs) ↔ c ∈ p.found.all

/-- What a parsed master comes to: the tick size is that of the row if its cell has one, and the
indexes by symbol and by id hold the first contract of each. -/
structure Parse.ReadsFirst (r : Readings) (now : ℚ) (rows : List Row) (p : Parse) : Prop where
  source : ∀ c ∈ p.found.all, ∃ row, Parse.FromRow r now rows c row
  counted : p.rejected.length + p.found.all.length = (rows.filter Row.ingested).length
  lists : p.found.Lists p.found.all

theorem fromRow_of_find? {c : DhanContract}
    (h : ((rows.filterMap (Row.contract r now)).find? fun x => x.key = c.key) = some c) :
    ∃ row, Parse.FromRow r now rows c row := by
  induction rows with
  | nil => cases h
  | cons row rows ih =>
    have hlater : (row.contract r now).all (fun x => decide (x.key ≠ c.key)) = true →
        ((rows.filterMap (Row.contract r now)).find? fun x => x.key = c.key) = some c →
          ∃ x, Parse.FromRow r now (row :: rows) c x := by
      intro hother hrest
      obtain ⟨x, hread, hx, before, after, rfl, hbefore⟩ := ih hrest
      refine ⟨x, hread, hx, row :: before, after, rfl, List.forall_mem_cons.mpr ⟨fun c' hc' => ?_, hbefore⟩⟩
      rw [hc'] at hother
      exact of_decide_eq_true hother
    cases halone : row.contract r now with
    | none =>
      rw [List.filterMap_cons_none halone] at h
      exact hlater (by rw [halone]; rfl) h
    | some c' =>
      rw [List.filterMap_cons_some halone] at h
      by_cases hkey : c'.key = c.key
      · rw [List.find?_cons, decide_eq_true hkey] at h
        cases h
        have hrow : parseRow r now [] row = .contract c := by
          rw [Row.contract] at halone
          split at halone
          · next c' hc' =>
            cases halone
            exact hc'
          · cases halone
        exact ⟨row, (readFrom_of_parseRow hrow).2.1, halone, [], rows, rfl, List.forall_mem_nil _⟩
      · rw [List.find?_cons, decide_eq_false hkey] at h
        exact hlater (by rw [halone]; exact decide_eq_true hkey) h

theorem Parse.Gathers.readsFirst (h : p.Gathers r now rows) : p.ReadsFirst r now rows where
  source c hc := by
    have hget : p.found.contracts.get c.key = some c := by
      refine Dict.get_of_mem ?_ ?_
      · rw [h.lists.contracts, List.map_map]
        exact h.lists.unique
      · rw [h.lists.contracts]
        exact List.mem_map_of_mem hc
    rw [h.lists.get_eq, h.first] at hget
    exact fromRow_of_find? hget
  counted := h.counted
  lists := h.lists

theorem found_of_parse {text : MasterText} {d : Contracts} (h : parse r now text = .ok d) :
    (text.rows.foldl (Parse.row r now) {}).found = d := by
  simp only [parse] at h
  split at h
  · cases h
  · split at h
    · cases h
    · exact Except.ok.inj h

theorem lists_of_parse {text : MasterText} {d : Contracts} (h : parse r now text = .ok d) :
    d.Lists d.all :=
  found_of_parse h ▸ (gathers_rows r now text.rows).lists

/-- A master that parses reads its contracts off the rows, the first of each key. -/
theorem parse_reads {text : MasterText} {d : Contracts} (h : parse r now text = .ok d) :
    (text.rows.foldl (Parse.row r now) {}).found = d ∧
      (text.rows.foldl (Parse.row r now) {}).ReadsFirst r now text.rows :=
  ⟨found_of_parse h, (gathers_rows r now text.rows).readsFirst⟩

end Masters

section Samples

theorem parse_niftyMaster : ∃ d, parse niftySetup.readings 0 niftyMaster = .ok d := by
  obtain ⟨d, hparse, -⟩ : ∃ d, parse niftySetup.readings 0 niftyMaster = .ok d ∧ True :=
    ok_of_decide (by decide +kernel)
  exact ⟨d, hparse⟩

theorem parse_reads_nifty :
    ∃ d, parse niftySetup.readings 0 niftyMaster = .ok d ∧
      (niftyMaster.rows.foldl (Parse.row niftySetup.readings 0) {}).found = d ∧
        (niftyMaster.rows.foldl (Parse.row niftySetup.readings 0) {}).ReadsFirst niftySetup.readings 0
          niftyMaster.rows := by
  obtain ⟨d, hparse⟩ := parse_niftyMaster
  exact ⟨d, hparse, parse_reads hparse⟩

/-- An option listed twice under one symbol and one id, in two segments, the second time without a
tick size. -/
def niftyTwice : List Row :=
  niftyMaster.rows ++ (niftyMaster.rows.map fun row => (row.set "SEGMENT" "E").set "TICK_SIZE" "")

/-- Both rows have a contract. The second is in neither index, and its tick size is in no cell. -/
theorem niftyTwice_not_reads :
    let p := niftyTwice.foldl (Parse.row niftySetup.readings 0) {}
    (parse niftySetup.readings 0 { niftyMaster with rows := niftyTwice }).isOk = true ∧
      ¬p.Reads niftySetup.readings 0 niftyTwice ∧
        ∃ c ∈ p.found.all, c ∉ p.found.byTradingSymbol.values ∧ c ∉ p.found.bySecurityId.values ∧
          ∃ row ∈ niftyTwice, row.contract niftySetup.readings 0 = some c ∧ row.text "TICK_SIZE" = "" := by
  intro p
  have hsecond : ∃ c ∈ p.found.all, c ∉ p.found.byTradingSymbol.values ∧ c ∉ p.found.bySecurityId.values ∧
      ∃ row ∈ niftyTwice, row.contract niftySetup.readings 0 = some c ∧ row.text "TICK_SIZE" = "" := by
    decide +kernel
  refine ⟨by decide +kernel, fun h => ?_, hsecond⟩
  obtain ⟨c, hc, hsymbol, -⟩ := hsecond
  exact hsymbol ((h.byTradingSymbol c).mpr hc)

end Samples

end Trademetrix.Market
