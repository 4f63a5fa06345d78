import Trademetrix.Decimal
import Trademetrix.Market.ParsedMaster
import Trademetrix.Market.SlotLookups
import Trademetrix.Market.StaleMetadata

/-!
# Symbols of several contracts

What a text matches in a master: the contracts of that symbol, else those of
what follows its last colon, else those with that id. The order path takes the
first of them; it returns the only one there is exactly when all of them have
one key.
-/

namespace Trademetrix.Market

namespace Dataset

variable (d : Dataset)

def listed : List DhanContract :=
  match d.backend with
  | .object o => o.all
  | .mmap m => (List.range m.count).filterMap fun slot =>
      (m.contractAt d.installedAt (slot : ℕ)).toOption

def hasSymbol (symbol : String) (c : DhanContract) : Bool :=
  match d.backend with
  | .object _ => symbol ≠ "" ∧ c.tradingSymbol = symbol
  | .mmap _ => c.tradingSymbol = symbol

def hasId (id : String) (c : DhanContract) : Bool :=
  match d.backend with
  | .object _ => c.securityId = id
  | .mmap _ => (Text.parseInt id).map toString = some c.securityId

def matching (text : String) : List DhanContract :=
  let exact := d.listed.filter (d.hasSymbol text)
  let stripped := d.listed.filter (d.hasSymbol (DhanProvider.afterColon text))
  if text = "" then []
  else if exact ≠ [] then exact
  else if stripped ≠ [] then stripped
  else if Text.isDigit text then d.listed.filter (d.hasId text)
  else []

def Unambiguous (text : String) : Prop :=
  ∀ c ∈ d.matching text, ∀ c' ∈ d.matching text, c'.key = c.key

instance (text : String) : Decidable (d.Unambiguous text) := by
  unfold Unambiguous
  infer_instance

structure Searches : Prop where
  symbol : ∀ s, d.contractForSymbol s =
    .ok (d.listed.filter (d.hasSymbol (Text.strip s))).head?
  id : ∀ s, match d.contractsForSecurityId s with
    | .ok cs => (∀ c ∈ cs, c ∈ d.listed.filter (d.hasId s)) ∧
        (d.listed.filter (d.hasId s) ≠ [] → cs ≠ [])
    | .error _ => d.listed.filter (d.hasId s) = []

end Dataset

inductive Dataset.OfMaster (readings : Readings) (schemaId : String) (o : Contracts) : Dataset → Prop
  | object {now : ℚ} {text : MasterText} (h : parse readings now text = .ok o)
      (installedAt : ℚ) (url : String) : OfMaster readings schemaId o ⟨.object o, installedAt, url⟩
  | mmap {now : ℚ} {text : MasterText} {m : MmapStore}
      (h : Encoded readings schemaId now text o m) (installedAt : ℚ) (url : String) :
      OfMaster readings schemaId o ⟨.mmap m, installedAt, url⟩

def ResolvesUnique (p : DhanProvider) (now : ℚ) (symbol broker instrumentType : String) : Prop :=
  ∀ i, (p.resolver now).resolve symbol broker instrumentType = some i →
    ∃ d c, p.dataset = some d ∧ c ∈ d.matching (Text.strip symbol) ∧ c.toInstrument = i ∧
      ∀ c' ∈ d.matching (Text.strip symbol), c'.key = c.key

section Resolving

variable {p : DhanProvider} {d : Dataset} {now : ℚ}

theorem resolve_matching (now : ℚ) (h : d.Searches) (hd : p.dataset = some d) (symbol : String) :
    (d.matching (Text.strip symbol) = [] ∧ ∀ i, p.resolve now symbol ≠ .ok (some i)) ∨
      ∃ c ∈ d.matching (Text.strip symbol), p.resolve now symbol = .ok (some c.toInstrument) := by
  have hrequire : p.requireDataset now false = .ok d := by
    rw [requireDataset_eq, hd]
  have hafter : Text.strip (DhanProvider.afterColon (Text.strip symbol)) =
      DhanProvider.afterColon (Text.strip symbol) := Text.strip_strip _
  have hexact := h.symbol (Text.strip symbol)
  have hstripped := h.symbol (DhanProvider.afterColon (Text.strip symbol))
  have hid := h.id (Text.strip symbol)
  rw [Text.strip_strip] at hexact
  rw [hafter] at hstripped
  unfold DhanProvider.resolve Dataset.matching
  rw [hrequire]
  dsimp only
  by_cases htext : Text.strip symbol = ""
  · left
    simp [htext, QueryError.lift]
  rw [if_neg htext, if_neg htext, hexact, ok_bind]
  cases hfirst : d.listed.filter (d.hasSymbol (Text.strip symbol)) with
  | cons c cs => exact .inr ⟨c, List.mem_cons_self, rfl⟩
  | nil =>
    rw [hstripped]
    cases hnext : d.listed.filter (d.hasSymbol (DhanProvider.afterColon (Text.strip symbol))) with
    | cons c cs => exact .inr ⟨c, List.mem_cons_self, rfl⟩
    | nil =>
      by_cases hdigit : Text.isDigit (Text.strip symbol) = true
      · simp only [hdigit, if_true, List.head?_nil, ok_bind, ne_eq, not_true, if_false]
        cases hcs : d.contractsForSecurityId (Text.strip symbol) with
        | error e =>
          rw [hcs] at hid
          exact .inl ⟨hid, fun i => error_ne_ok _ _⟩
        | ok cs =>
          rw [hcs] at hid
          obtain ⟨hsound, hsome⟩ := hid
          cases cs with
          | nil =>
            exact .inl ⟨by_contra fun hne => hsome hne rfl, fun i => by simp [QueryError.lift]⟩
          | cons c cs => exact .inr ⟨c, hsound c List.mem_cons_self, rfl⟩
      · left
        simp [hdigit, QueryError.lift]

theorem resolvesUnique_searches (h : ∀ d, p.dataset = some d → d.Searches)
    (symbol broker instrumentType : String) :
    ResolvesUnique p now symbol broker instrumentType ↔
      ∀ d, p.dataset = some d → d.Unambiguous (Text.strip symbol) := by
  constructor
  · intro hunique d hd
    rcases resolve_matching now (h d hd) hd symbol with ⟨hnone, -⟩ | ⟨c, -, hc⟩
    · intro c hc
      rw [hnone] at hc
      cases hc
    · obtain ⟨d', c, hd', -, -, hall⟩ :=
        hunique _ ((resolver_resolve p now symbol broker instrumentType _).mpr hc)
      rw [Option.some.inj (hd.symm.trans hd')]
      intro c₁ hc₁ c₂ hc₂
      rw [hall c₁ hc₁, hall c₂ hc₂]
  · intro hsame i hi
    have hresolve := (resolver_resolve p now symbol broker instrumentType i).mp hi
    obtain ⟨d, hd, -⟩ := (exists_resolve_iff p now symbol).mp ⟨i, hresolve⟩
    rcases resolve_matching now (h d hd) hd symbol with ⟨-, hnone⟩ | ⟨c, hc, hfound⟩
    · exact absurd hresolve (hnone i)
    · rw [hfound] at hresolve
      exact ⟨d, c, hd, hc, Option.some.inj (Except.ok.inj hresolve),
        fun c' hc' => hsame d hd c hc c' hc'⟩

end Resolving

section Searching

variable {readings : Readings} {schemaId : String} {installedAt : ℚ} {url : String}

theorem searches_object {o : Contracts} (h : o.Lists o.all) :
    Dataset.Searches ⟨.object o, installedAt, url⟩ where
  symbol s := by
    have htest : Dataset.hasSymbol ⟨.object o, installedAt, url⟩ (Text.strip s) =
        fun c => decide (Text.strip s ≠ "" ∧ c.tradingSymbol = Text.strip s) := rfl
    simp only [Dataset.contractForSymbol, h.byTradingSymbol, Dataset.listed, htest,
      List.head?_filter]
    by_cases hs : Text.strip s = ""
    · simp [hs, List.find?_eq_none.mpr]
    · simp [hs]
  id s := by
    refine ⟨fun c hc => ?_, fun hne hnone => ?_⟩
    · obtain ⟨hc, hid⟩ := List.mem_filter.mp hc
      exact List.mem_filter.mpr ⟨h.filed c hc, hid⟩
    · obtain ⟨c, hc⟩ := List.exists_mem_of_ne_nil _ hne
      obtain ⟨hc, hid⟩ := List.mem_filter.mp hc
      have hid : c.securityId = s := of_decide_eq_true hid
      -- the entry of its exchange and id is of a contract with the id
      obtain ⟨found, hfound⟩ : ∃ found, o.bySecurityId.get (c.exchange, s) = some found := by
        rw [h.bySecurityId, ← Option.isSome_iff_exists, List.find?_isSome]
        exact ⟨c, hc, by simp [hid]⟩
      have hmem : found ∈ o.bySecurityId.values :=
        List.mem_map_of_mem (f := Prod.snd) (Dict.mem_of_get hfound)
      have hsame : found.securityId = s := by
        rw [h.bySecurityId] at hfound
        have := List.find?_some hfound
        simp only [decide_eq_true_eq] at this
        exact this.2
      exact absurd hnone (List.ne_nil_of_mem (List.mem_filter.mpr ⟨hmem, decide_eq_true hsame⟩))

variable {cs : List DhanContract} {recs : List UInt8} {e : Encoding} {ps : List Placed}

theorem listed_mmap (installedAt : ℚ) (url : String) (h : Laid 0 cs {} recs e ps) :
    Dataset.listed ⟨.mmap (openedStore e.tables recs ps), installedAt, url⟩ =
      ps.map (Placed.decoded installedAt) := by
  have hslots : ∀ x ∈ ps.zipIdx, ((openedStore e.tables recs ps).contractAt installedAt
      (x.2 : ℕ)).toOption = some (x.1.decoded installedAt) := by
    intro x hx
    rw [contractAt_openedStore h installedAt (List.mem_zipIdx_iff_getElem?.mp hx)]
    rfl
  have hrange : List.range (openedStore e.tables recs ps).count = ps.zipIdx.map Prod.snd := by
    rw [List.zipIdx_map_snd, List.range_eq_range']
    rfl
  simp only [Dataset.listed]
  rw [hrange, List.filterMap_map]
  calc ps.zipIdx.filterMap _
      = ps.zipIdx.filterMap fun x => some (x.1.decoded installedAt) := List.filterMap_congr hslots
    _ = (ps.zipIdx.map Prod.fst).map (Placed.decoded installedAt) := by
      rw [← Function.comp_def some, List.filterMap_eq_map, List.map_map]
      rfl
    _ = ps.map (Placed.decoded installedAt) := by rw [List.zipIdx_map_fst]

theorem filter_zipIdx (test : Placed → Bool) (ps : List Placed) :
    ps.filter test = (ps.zipIdx.filter fun x => test x.1).map Prod.fst := by
  conv_lhs => rw [← List.zipIdx_map_fst 0 ps, List.filter_map]
  rfl

theorem contractAt_of_mem_slotsOf (h : Laid 0 cs {} recs e ps) (installedAt : ℚ)
    {test : Placed → Bool} {slot : ℤ}
    (hslot : slot ∈ slotsOf test ps) :
    ∃ c, (openedStore e.tables recs ps).contractAt installedAt slot = .ok c ∧
      c ∈ (ps.filter test).map (Placed.decoded installedAt) := by
  obtain ⟨x, hx, rfl⟩ := List.mem_map.mp hslot
  obtain ⟨hx, htest⟩ := List.mem_filter.mp hx
  have hat := List.mem_zipIdx_iff_getElem?.mp hx
  refine ⟨_, contractAt_openedStore h installedAt hat, List.mem_map_of_mem ?_⟩
  exact List.mem_filter.mpr ⟨List.mem_of_getElem? hat, htest⟩

theorem contractAt_head (h : Laid 0 cs {} recs e ps) (test : Placed → Bool) :
    (slotsOf test ps).head?.mapM ((openedStore e.tables recs ps).contractAt installedAt) =
      .ok ((ps.filter test).head?.map (Placed.decoded installedAt)) := by
  rw [filter_zipIdx, slotsOf]
  cases hfirst : ps.zipIdx.filter fun x => test x.1 with
  | nil => rfl
  | cons x rest =>
    have hx : x ∈ ps.zipIdx.filter fun x => test x.1 := hfirst ▸ List.mem_cons_self
    have hat := List.mem_zipIdx_iff_getElem?.mp (List.mem_filter.mp hx).1
    have hc := contractAt_openedStore h installedAt hat
    simp only [List.map_cons, List.head?_cons, Option.mapM_some]
    exact (congrArg (Except.map some) hc).trans rfl

theorem filter_decoded_symbol (installedAt : ℚ) (s : String) (ps : List Placed) :
    (ps.map (Placed.decoded installedAt)).filter (fun c => decide (c.tradingSymbol = s)) =
      (ps.filter fun p => p.contract.tradingSymbol = s).map (Placed.decoded installedAt) :=
  List.filter_map

theorem toString_inj {n k : ℤ} : toString n = toString k ↔ n = k := by
  refine ⟨fun h => ?_, congrArg toString⟩
  have hread := congrArg Text.readG h
  rw [Text.readG_toString, Text.readG_toString] at hread
  exact_mod_cast hread

theorem filter_decoded_id (installedAt : ℚ) (n : ℤ) (ps : List Placed) :
    (ps.map (Placed.decoded installedAt)).filter
        (fun c => decide (some (toString n) = some c.securityId)) =
      (ps.filter fun p => p.securityId = n).map (Placed.decoded installedAt) := by
  rw [List.filter_map]
  refine congrArg _ (List.filter_congr fun p _ => decide_eq_decide.mpr ?_)
  rw [Option.some.injEq]
  exact toString_inj.trans eq_comm

theorem contractsForSecurityId_mmap (h : Laid 0 cs {} recs e ps) (installedAt : ℚ) (url : String)
    {s : String} {n : ℤ} (hid : Text.parseInt s = some n) :
    ∃ found, Dataset.contractsForSecurityId
        ⟨.mmap (openedStore e.tables recs ps), installedAt, url⟩ s = .ok found ∧
      (∀ c ∈ found, c ∈ (ps.filter fun p => p.securityId = n).map (Placed.decoded installedAt)) ∧
        found.length = (ps.filter fun p => p.securityId = n).length := by
  obtain ⟨slots, hslots, hperm⟩ :=
    slotsForSecurityId_openedSymbols e.tables recs ps (toInt_eq_ok.mpr hid)
  have hslot : ∀ slot ∈ slots, ∃ c,
      (openedStore e.tables recs ps).contractAt installedAt slot = .ok c ∧
        c ∈ (ps.filter fun p => p.securityId = n).map (Placed.decoded installedAt) :=
    fun slot hslot => contractAt_of_mem_slotsOf h installedAt (hperm.mem_iff.mp hslot)
  obtain ⟨found, hfound, hlen, hall⟩ := mapM_eq_ok hslot
  refine ⟨found, (ok_then hslots).trans hfound, hall, ?_⟩
  rw [hlen, hperm.length_eq, filter_zipIdx, slotsOf, List.length_map, List.length_map]

theorem searches_mmap (h : Laid 0 cs {} recs e ps) :
    Dataset.Searches ⟨.mmap (openedStore e.tables recs ps), installedAt, url⟩ where
  symbol s := by
    have hslot := slotForSymbol_openedSymbols e.tables recs ps (Text.strip s)
    have htest : Dataset.hasSymbol ⟨.mmap (openedStore e.tables recs ps), installedAt, url⟩
        (Text.strip s) = fun c => decide (c.tradingSymbol = Text.strip s) := rfl
    rw [listed_mmap installedAt url h, htest, filter_decoded_symbol, List.head?_map,
      ← contractAt_head h]
    exact congrArg (Option.mapM _) hslot
  id s := by
    rw [listed_mmap installedAt url h]
    cases hid : Text.parseInt s with
    | none =>
      have herror : Dataset.contractsForSecurityId
          ⟨.mmap (openedStore e.tables recs ps), installedAt, url⟩ s = .error .valueError := by
        simp [Dataset.contractsForSecurityId, MmapStore.slotsForSecurityId, toInt, hid]
      rw [herror]
      refine List.filter_eq_nil_iff.mpr fun c _ => ?_
      simp [Dataset.hasId, hid]
    | some n =>
      have htest : Dataset.hasId ⟨.mmap (openedStore e.tables recs ps), installedAt, url⟩ s =
          fun c => decide (some (toString n) = some c.securityId) := by
        funext c
        rw [Dataset.hasId, hid, Option.map_some]
      have hcontracts := contractsForSecurityId_mmap h installedAt url hid
      generalize Dataset.contractsForSecurityId
        ⟨.mmap (openedStore e.tables recs ps), installedAt, url⟩ s = out at hcontracts
      obtain ⟨found, rfl, hall, hlen⟩ := hcontracts
      rw [htest, filter_decoded_id]
      refine ⟨hall, fun hne hnone => ?_⟩
      rw [hnone, List.length_nil] at hlen
      rw [List.eq_nil_of_length_eq_zero hlen.symm] at hne
      exact hne rfl

theorem searches_of_ofMaster {o : Contracts} {d : Dataset} (h : d.OfMaster readings schemaId o) : d.Searches := by
  cases h with
  | object h installedAt url => exact searches_object (lists_of_parse h)
  | mmap h installedAt url =>
    obtain ⟨recs, e, ps, -, hl, rfl⟩ := h.laid
    exact searches_mmap hl

end Searching

/-- The order path resolves a symbol to the only contract it matches, or to none, exactly when the
contracts it matches in the master are all of one key. -/
theorem resolvesUnique_iff {readings : Readings} {schemaId : String} {p : DhanProvider}
    (h : ∀ d, p.dataset = some d → ∃ o, d.OfMaster readings schemaId o)
    (now : ℚ) (symbol broker instrumentType : String) :
    ResolvesUnique p now symbol broker instrumentType ↔
      ∀ d, p.dataset = some d → d.Unambiguous (Text.strip symbol) := by
  refine resolvesUnique_searches (fun d hd => ?_) symbol broker instrumentType
  obtain ⟨o, ho⟩ := h d hd
  exact searches_of_ofMaster ho

section Samples

theorem resolvesUnique_iff_nifty :
    ∃ o, parse niftySetup.readings 0 niftyMaster = .ok o ∧
      ∀ symbol, ResolvesUnique { dataset := some ⟨.object o, 0, ""⟩ } 0 symbol "dhan" "OPT" ↔
        Dataset.Unambiguous ⟨.object o, 0, ""⟩ (Text.strip symbol) := by
  obtain ⟨o, hparse⟩ := parse_niftyMaster
  refine ⟨o, hparse, fun symbol => ?_⟩
  have hmaster : ∀ d, some (⟨.object o, 0, ""⟩ : Dataset) = some d →
      ∃ o, d.OfMaster niftySetup.readings "" o := by
    intro d hd
    cases hd
    exact ⟨o, .object hparse 0 ""⟩
  exact (resolvesUnique_iff (p := { dataset := some ⟨.object o, 0, ""⟩ }) hmaster 0 symbol "dhan"
    "OPT").trans ⟨fun h => h _ rfl, fun h d hd => by cases hd; exact h⟩

/-- The option of the master, once more under another id, and at BSE under the same id with a
symbol of its own. -/
def niftyThrice : MasterText :=
  { niftyMaster with
    rows := niftyMaster.rows ++ niftyMaster.rows.map (fun row => row.set "SECURITY_ID" "40688") ++
      niftyMaster.rows.map fun row => (row.set "EXCH_ID" "BSE").set "SYMBOL_NAME" "BSXOPT" }

/-- The first contract of the symbol, and the first of the id, come back. -/
theorem not_resolvesUnique_nifty :
    ∃ o, parse niftySetup.readings 0 niftyThrice = .ok o ∧
      ¬ ResolvesUnique { dataset := some ⟨.object o, 0, ""⟩ } 0 "NIFTY-22400-CE" "dhan" "OPT" ∧
      ¬ ResolvesUnique { dataset := some ⟨.object o, 0, ""⟩ } 0 "40687" "dhan" "OPT" := by
  obtain ⟨o, hparse, hsymbol, hid⟩ : ∃ o, parse niftySetup.readings 0 niftyThrice = .ok o ∧
      ¬ Dataset.Unambiguous ⟨.object o, 0, ""⟩ (Text.strip "NIFTY-22400-CE") ∧
        ¬ Dataset.Unambiguous ⟨.object o, 0, ""⟩ (Text.strip "40687") :=
    ok_of_decide (by decide +kernel)
  have hsearches : ∀ d, some (⟨.object o, 0, ""⟩ : Dataset) = some d → d.Searches := by
    intro d hd
    cases hd
    exact searches_object (lists_of_parse hparse)
  refine ⟨o, hparse, fun hunique => hsymbol ?_, fun hunique => hid ?_⟩
  · exact (resolvesUnique_searches hsearches _ _ _).mp hunique _ rfl
  · exact (resolvesUnique_searches hsearches _ _ _).mp hunique _ rfl

end Samples

end Trademetrix.Market
