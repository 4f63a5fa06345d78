import Trademetrix.Bisect
import Trademetrix.Market.BuiltVersion
import Trademetrix.Market.DhanProvider

/-!
# What the mapped store answers

The reader of placed contracts decodes the contract of each slot, with its
numbers scaled there and back, and its bisected index finds the first contract
that has the key asked for.
-/

namespace Trademetrix.Market

/-- `_CODE_FIELDS`: where a record holds the code of a string. -/
def StringTable.codeIn (r : Record) : StringTable → ℤ
  | .exchange => r.exchangeCode
  | .exchangeSegment => r.exchangeSegmentCode
  | .instrumentType => r.instrumentTypeCode
  | .instrumentFamily => r.instrumentFamilyCode
  | .optionType => r.optionTypeCode
  | .instrumentStatus => r.instrumentStatusCode
  | .source => r.sourceCode
  | .expiryDate => r.expiryId
  | .underlyingSymbol => r.underlyingId

structure Fields where
  record : Record
  text : StringTable → String
  tradingSymbol : String

/-- `_contract_from_fields`. -/
def Fields.contract (installedAt : ℚ) (f : Fields) : DhanContract where
  exchange := f.text .exchange
  exchangeSegment := f.text .exchangeSegment
  securityId := toString f.record.securityId
  tradingSymbol := f.tradingSymbol
  displaySymbol := f.tradingSymbol
  instrumentType := f.text .instrumentType
  instrumentFamily := f.text .instrumentFamily
  underlyingSymbol := f.text .underlyingSymbol
  underlyingSecurityId := toString f.record.underlyingSecurityId
  expiryDate := f.text .expiryDate
  strikePrice := some (f.record.strikeScaled / strikeScale)
  optionType := f.text .optionType
  lotSize := f.record.lotSize
  tickSize := f.record.tickScaled / tickScale
  instrumentStatus := f.text .instrumentStatus
  source := f.text .source
  sourceUpdatedAt := installedAt

namespace MmapStore

variable (m : MmapStore)

def fields (slot : ℕ) : Except StoreError Fields := do
  let raw ← match record.unpackFrom m.records (magic.length + slot * record.size) with
    | some row => .ok row
    | none => .error .structError
  let r ← match Record.ofValues raw with
    | some r => .ok r
    | none => .error .structError
  let symbol ← sliceText m.strings r.tradingSymbolOffset r.tradingSymbolLength
  return ⟨r, fun name => (m.tables name).getD (name.codeIn r).toNat "", symbol⟩

theorem contractAt_eq (installedAt : ℚ) (slot : ℤ) :
    m.contractAt installedAt slot = (m.fields slot.toNat).map (Fields.contract installedAt) := by
  unfold contractAt fields
  cases hread : record.unpackFrom m.records (magic.length + slot.toNat * record.size) with
  | none => rfl
  | some raw =>
    cases hr : Record.ofValues raw with
    | none => simp [hr, Except.map]
    | some r =>
      cases hsymbol : sliceText m.strings r.tradingSymbolOffset r.tradingSymbolLength with
      | error err => simp [hr, hsymbol, Except.map]
      | ok symbol =>
        simp only [hr, ok_bind, hsymbol]
        rfl

end MmapStore

def Placed.fields (tables : StringTables) (p : Placed) : Fields where
  record := p.record tables
  text := p.text
  tradingSymbol := p.contract.tradingSymbol

theorem Placed.codeIn_record (tables : StringTables) (p : Placed) (name : StringTable) :
    name.codeIn (p.record tables) = ((tables name).idxOf (p.text name) : ℕ) := by
  cases name <;> rfl

variable {cs : List DhanContract} {recs : List UInt8} {e : Encoding} {ps : List Placed}

theorem fields_openedStore (h : Laid 0 cs {} recs e ps) {k : ℕ} {p : Placed}
    (hk : ps[k]? = some p) :
    (openedStore e.tables recs ps).fields k = .ok (p.fields e.tables) := by
  have hp : p ∈ ps := List.mem_of_getElem? hk
  have hrow : (ps.map fun p => (p.record e.tables).values)[k]? = some (p.record e.tables).values := by
    simp [hk]
  have hread := (Schema.packAll_eq_some h.records).2 magic k _ hrow
  have hsymbol : sliceText (magic ++ pool ps) (p.record e.tables).tradingSymbolOffset
      (p.record e.tables).tradingSymbolLength = .ok p.contract.tradingSymbol :=
    sliceText_symbol h.chained hp
  have htext : (fun name : StringTable =>
      (e.tables name).getD (name.codeIn (p.record e.tables)).toNat "") = p.text := by
    funext name
    have hmem := h.interned p hp name
    rw [Placed.codeIn_record, Int.toNat_natCast,
      List.getD_eq_getElem _ _ (List.idxOf_lt_length_of_mem hmem)]
    exact List.getElem_idxOf _
  simp only [MmapStore.fields, openedStore, hread, Record.ofValues_values, ok_bind, hsymbol, htext]
  rfl

end Trademetrix.Market

namespace Trademetrix.Market

section Bisecting

variable {keys : List (List ℤ × ℤ)}

theorem bisectFrom_eq (keys : List (List ℤ × ℤ)) (below : List ℤ → Bool) (fuel lo hi : ℕ) :
    MmapStore.bisectFrom keys below fuel lo hi =
      Bisect.place keys (fun e => below e.1) fuel lo hi := by
  induction fuel generalizing lo hi with
  | zero => rfl
  | succ fuel ih =>
    rw [MmapStore.bisectFrom, Bisect.place]
    simp only [ih]
    rfl

theorem bisect_eq (keys : List (List ℤ × ℤ)) (below : List ℤ → Bool) :
    MmapStore.bisect keys below = Bisect.left keys fun e => below e.1 :=
  bisectFrom_eq _ _ _ _ _

theorem slotAt_eq_find? (h : keys.Pairwise fun a b => a.1 ≤ b.1) (key : List ℤ) :
    MmapStore.slotAt keys key = (keys.find? fun e => e.1 = key).map Prod.snd := by
  rw [← Bisect.getElem?_left h, MmapStore.slotAt, bisect_eq]
  cases keys[Bisect.left keys fun e => decide (e.1 < key)]? with
  | none => rfl
  | some entry =>
    by_cases hkey : entry.1 = key <;> simp [hkey, Option.filter]

instance totalFirst {κ : Type} [LinearOrder κ] : Std.Total fun a b : κ × ℤ => a.1 ≤ b.1 :=
  ⟨fun a b => le_total a.1 b.1⟩

instance transFirst {κ : Type} [LinearOrder κ] : IsTrans (κ × ℤ) fun a b => a.1 ≤ b.1 :=
  ⟨fun _ _ _ => le_trans⟩

theorem slotAt_sortedIndex (width : ℕ) (rows : List (List ℤ)) (key : List ℤ) :
    MmapStore.slotAt (sortedIndex width rows) key =
      (rows.find? fun row => row.take width = key).map fun row => row.getD width 0 := by
  have horder : (sortedIndex width rows).Pairwise fun a b => a.1 ≤ b.1 :=
    List.pairwise_insertionSort _ _
  rw [slotAt_eq_find? horder, sortedIndex, find?_insertionSort, List.find?_map]
  · simp [Function.comp_def]
  · intro a b ha hb
    simp only [decide_eq_true_eq] at ha hb
    rw [ha, hb]


end Bisecting

/-- The contract a reader decodes: ids as the texts of their numbers, the strike and the tick in
units of their scales, no strike as zero. -/
def Placed.decoded (time : ℚ) (p : Placed) : DhanContract :=
  { p.contract with
    provider := "dhan"
    securityId := toString p.securityId
    displaySymbol := p.contract.tradingSymbol
    underlyingSecurityId := toString p.underlyingId
    strikePrice := some (scaled p.contract.strikePrice strikeScale / strikeScale)
    tickSize := scaled (some p.contract.tickSize) tickScale / tickScale
    sourceUpdatedAt := time }

section Decoding

variable {cs : List DhanContract} {recs : List UInt8} {e : Encoding} {ps : List Placed}

theorem contractAt_openedStore (h : Laid 0 cs {} recs e ps) (time : ℚ) {k : ℕ} {p : Placed}
    (hk : ps[k]? = some p) :
    (openedStore e.tables recs ps).contractAt time k = .ok (p.decoded time) := by
  rw [MmapStore.contractAt_eq, Int.toNat_natCast, fields_openedStore h hk]
  rfl

theorem find?_slotRows (f : Placed → ℕ → List ℤ) (test : List ℤ → Bool) (q : Placed → Bool)
    (hq : ∀ p ∈ ps, ∀ k, test (f p k) = q p) (slot : ℕ) :
    match ps.find? q with
    | none => (slotRows f slot ps).find? test = none
    | some p => ∃ k, ps[k]? = some p ∧ (slotRows f slot ps).find? test = some (f p (slot + k)) := by
  induction ps generalizing slot with
  | nil => rfl
  | cons p ps ih =>
    obtain ⟨hp, hps⟩ := List.forall_mem_cons.mp hq
    have hrest := ih hps (slot + 1)
    cases htest : q p with
    | true =>
      rw [List.find?_cons_of_pos htest]
      exact ⟨0, rfl, List.find?_cons_of_pos ((hp slot).trans htest)⟩
    | false =>
      have hskip : (slotRows f slot (p :: ps)).find? test = (slotRows f (slot + 1) ps).find? test :=
        List.find?_cons_of_neg (by rw [hp slot, htest]; decide)
      rw [List.find?_cons_of_neg (by rw [htest]; decide), hskip]
      cases hfind : ps.find? q with
      | none => simpa only [hfind] using hrest
      | some found =>
        rw [hfind] at hrest
        obtain ⟨k, hk, hrow⟩ := hrest
        refine ⟨k + 1, hk, ?_⟩
        rw [hrow]
        congr 2
        omega

def Placed.hasKey (exchange segment : String) (n : ℤ) (p : Placed) : Bool :=
  p.contract.exchange = exchange ∧ p.contract.exchangeSegment = segment ∧ p.securityId = n

theorem secRow_hasKey {tables : StringTables} {p : Placed} (h : Interned tables p)
    (exchange segment : String) (n : ℤ) (k : ℕ) :
    decide ((p.secRow tables k).take 3 =
      [((tables .exchange).idxOf exchange : ℤ), ((tables .exchangeSegment).idxOf segment : ℤ), n]) =
      p.hasKey exchange segment n := by
  have h₁ : (tables .exchange).idxOf p.contract.exchange = (tables .exchange).idxOf exchange ↔
      p.contract.exchange = exchange := List.idxOf_inj (h .exchange)
  have h₂ : (tables .exchangeSegment).idxOf p.contract.exchangeSegment =
      (tables .exchangeSegment).idxOf segment ↔ p.contract.exchangeSegment = segment :=
    List.idxOf_inj (h .exchangeSegment)
  simp [Placed.secRow, Placed.hasKey, Placed.record, recordOf, h₁, h₂]

variable {exchange segment securityId : String} {time : ℚ} {url : String}

def openedDataset (tables : StringTables) (recs : List UInt8) (ps : List Placed) (time : ℚ)
    (url : String) : Dataset where
  backend := .mmap (openedStore tables recs ps)
  installedAt := time
  sourceUrl := url

theorem contractFor_unknown (m : MmapStore)
    (h : exchange ∉ m.tables .exchange ∨ segment ∉ m.tables .exchangeSegment) :
    ({ backend := .mmap m, installedAt := time, sourceUrl := url } : Dataset).contractFor exchange
      segment securityId = .error .reopenRejected := by
  by_cases hexchange : exchange ∈ m.tables .exchange
  · have hsegment := h.resolve_left (not_not_intro hexchange)
    simp [Dataset.contractFor, MmapStore.slotForSecurity, MmapStore.code, hexchange, hsegment]
  · simp [Dataset.contractFor, MmapStore.slotForSecurity, MmapStore.code, hexchange]

theorem contractFor_known (h : Laid 0 cs {} recs e ps) {n : ℤ} (hid : toInt securityId = .ok n)
    (hexchange : exchange ∈ e.tables .exchange) (hsegment : segment ∈ e.tables .exchangeSegment) :
    (openedDataset e.tables recs ps time url).contractFor exchange segment securityId =
      .ok ((ps.find? (Placed.hasKey exchange segment n)).map (Placed.decoded time)) := by
  let key : List ℤ :=
    [((e.tables .exchange).idxOf exchange : ℤ), ((e.tables .exchangeSegment).idxOf segment : ℤ), n]
  have hfound := find?_slotRows (Placed.secRow e.tables) (fun row => decide (row.take 3 = key))
    (Placed.hasKey exchange segment n)
    (fun p hp => secRow_hasKey (h.interned p hp) exchange segment n) 0
  have hslot := slotAt_sortedIndex 3 (slotRows (Placed.secRow e.tables) 0 ps) key
  have hlookup : (openedStore e.tables recs ps).slotForSecurity exchange segment securityId =
      .ok (MmapStore.slotAt (openedStore e.tables recs ps).secKeys key) := by
    simp [MmapStore.slotForSecurity, MmapStore.code, openedStore, hexchange, hsegment, hid, key]
  simp only [Dataset.contractFor, openedDataset, hlookup, ok_bind]
  cases hfind : ps.find? (Placed.hasKey exchange segment n) with
  | none =>
    rw [hfind] at hfound
    have hnone : MmapStore.slotAt (openedStore e.tables recs ps).secKeys key = none :=
      hslot.trans (by rw [hfound]; rfl)
    rw [hnone]
    rfl
  | some p =>
    rw [hfind] at hfound
    obtain ⟨k, hk, hrow⟩ := hfound
    have hsome : MmapStore.slotAt (openedStore e.tables recs ps).secKeys key = some (k : ℤ) :=
      hslot.trans (by rw [hrow]; simp [Placed.secRow])
    rw [hsome, Option.mapM_some, contractAt_openedStore h time hk]
    rfl

theorem contractFor_eq_some (h : Laid 0 cs {} recs e ps) {c : DhanContract} :
    (openedDataset e.tables recs ps time url).contractFor exchange segment securityId =
        .ok (some c) ↔
      ∃ n p, toInt securityId = .ok n ∧ ps.find? (Placed.hasKey exchange segment n) = some p ∧
        p.decoded time = c := by
  by_cases hknown : exchange ∈ e.tables .exchange ∧ segment ∈ e.tables .exchangeSegment
  · obtain ⟨hexchange, hsegment⟩ := hknown
    cases hid : toInt securityId with
    | error err =>
      simp [Dataset.contractFor, openedDataset, MmapStore.slotForSecurity, MmapStore.code,
        openedStore, hexchange, hsegment, hid]
    | ok n =>
      rw [contractFor_known h hid hexchange hsegment]
      simp
  · rw [openedDataset, contractFor_unknown _ (not_and_or.mp hknown)]
    refine iff_of_false (by simp) ?_
    rintro ⟨n, p, -, hfind, -⟩
    have hp := List.mem_of_find?_eq_some hfind
    have hkey := List.find?_some hfind
    simp only [Placed.hasKey, Bool.decide_and, Bool.and_eq_true, decide_eq_true_eq] at hkey
    obtain ⟨rfl, rfl, -⟩ := hkey
    exact hknown ⟨h.interned p hp .exchange, h.interned p hp .exchangeSegment⟩

end Decoding

end Trademetrix.Market
