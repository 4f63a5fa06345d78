import Mathlib.Data.String.Basic
import Trademetrix.Market.BackendParity

/-!
# The indexes against a scan of the records

Every lookup of the mapped store is a scan of the decoded records: the bisected
indexes find the first slot with a key, or all of them, and the slots of an
underlying come in record order. Of a string that no record has, the lookups by
code raise instead.
-/

namespace Trademetrix.Market

open Async Proc

structure OpenStore extends MmapStore where
  symKeys : List (String × ℤ)

namespace OpenStore

def open_ (d : VersionDir) (h : VersionHeader) : Except StoreError OpenStore := do
  let m ← MmapStore.open_ d h
  let sym ← readRows symIndex ((d.payload .sym).getD []) h.recordCount
  let named ← sym.mapM fun row => do
    let text ← sliceText ((d.payload .strings).getD []) (row.getD 0 0) (row.getD 1 0)
    return (text, row.getD 2 0)
  return { m with symKeys := named.insertionSort fun a b => a.1 ≤ b.1 }

variable (m : OpenStore)

/-- From the place that `_bisect` finds, while the symbol is the one asked for. -/
def slotsForSymbol (symbol : String) : List ℤ :=
  let i := Bisect.left m.symKeys fun e => decide (e.1 < symbol)
  ((m.symKeys.drop i).takeWhile fun e => e.1 = symbol).map Prod.snd

def scan (test : Fields → Bool) : List ℤ :=
  ((List.range m.count).filter fun slot => (m.fields slot).toOption.any test).map Int.ofNat

end OpenStore

inductive SlotQuery
  | security (exchange segment securityId : String)
  | securityId (securityId : String)
  | option (underlying expiry : String) (strikeScaled : ℤ) (optionType : String)
  | symbol (symbol : String)
  | symbols (symbol : String)
  | underlying (underlying : String)

/-- The lookup answers what a scan of the records does. An underlying is asked for in upper case,
and a security id by its number. -/
def OpenStore.Scanned (m : OpenStore) : SlotQuery → Prop
  | .security exchange segment id =>
    m.slotForSecurity exchange segment id = .ok (m.scan fun f => f.text .exchange = exchange ∧
      f.text .exchangeSegment = segment ∧ Text.parseInt id = some f.record.securityId).head?
  | .securityId id => ∃ slots, m.slotsForSecurityId id = .ok slots ∧
      slots.Perm (m.scan fun f => Text.parseInt id = some f.record.securityId)
  | .option underlying expiry strike optionType =>
    m.slotForOption underlying expiry strike optionType = .ok (m.scan fun f =>
      f.text .underlyingSymbol = Text.upper underlying ∧ f.text .expiryDate = expiry ∧
        f.record.strikeScaled = strike ∧ f.text .optionType = optionType).head?
  | .symbol symbol => m.slotForSymbol symbol = (m.scan fun f => f.tradingSymbol = symbol).head?
  | .symbols symbol => m.slotsForSymbol symbol = m.scan fun f => f.tradingSymbol = symbol
  | .underlying underlying =>
    m.iterUnderlying underlying =
      .ok (m.scan fun f => f.text .underlyingSymbol = Text.upper underlying)

/-- Each string that a lookup takes for a code is that of some contract, and the security id is a
number. -/
def SlotQuery.Known (cs : List DhanContract) : SlotQuery → Prop
  | .security exchange segment id => (∃ c ∈ cs, c.exchange = exchange) ∧
      (∃ c ∈ cs, c.exchangeSegment = segment) ∧ (Text.parseInt id).isSome
  | .securityId id => (Text.parseInt id).isSome
  | .option name expiry _ type =>
    (∃ c ∈ cs, c.underlyingSymbol = Text.upper name) ∧ (∃ c ∈ cs, c.expiryDate = expiry) ∧
      ∃ c ∈ cs, c.optionType = type
  | .symbol _ => True
  | .symbols _ => True
  | .underlying name => ∃ c ∈ cs, c.underlyingSymbol = Text.upper name

section Placing

variable {ps : List Placed} {tables : StringTables}

theorem slotRows_eq (f : Placed → ℕ → List ℤ) (slot : ℕ) (ps : List Placed) :
    slotRows f slot ps = (ps.zipIdx slot).map fun x => f x.1 x.2 := by
  induction ps generalizing slot with
  | nil => rfl
  | cons p ps ih => simp [slotRows, ih]

theorem symbolsFrom_eq (slot : ℕ) (ps : List Placed) :
    symbolsFrom slot ps = (ps.zipIdx slot).map fun x => (x.1.contract.tradingSymbol, (x.2 : ℤ)) := by
  induction ps generalizing slot with
  | nil => rfl
  | cons p ps ih => simp [symbolsFrom, ih]

def slotsOf (test : Placed → Bool) (ps : List Placed) : List ℤ :=
  (ps.zipIdx.filter fun x => test x.1).map fun x => Int.ofNat x.2

theorem slotsOf_congr {test test' : Placed → Bool} (h : ∀ p ∈ ps, test p = test' p) :
    slotsOf test ps = slotsOf test' ps := by
  have hsame : ps.zipIdx.filter (fun x => test x.1) = ps.zipIdx.filter fun x => test' x.1 :=
    List.filter_congr fun x hx => h x.1 (List.fst_mem_of_mem_zipIdx hx)
  rw [slotsOf, slotsOf, hsame]

theorem scan_eq_slotsOf {m : OpenStore} (hcount : m.count = ps.length)
    (hfields : ∀ k p, ps[k]? = some p → m.fields k = .ok (p.fields tables))
    (test : Fields → Bool) : m.scan test = slotsOf (fun p => test (p.fields tables)) ps := by
  have hrange : List.range m.count = ps.zipIdx.map Prod.snd := by
    rw [List.zipIdx_map_snd, List.range_eq_range', hcount]
  rw [OpenStore.scan, hrange, List.filter_map, List.map_map, slotsOf]
  have hsame : ps.zipIdx.filter ((fun slot => (m.fields slot).toOption.any test) ∘ Prod.snd) =
      ps.zipIdx.filter fun x => test (x.1.fields tables) := by
    refine List.filter_congr fun x hx => ?_
    have hx' := List.mem_zipIdx_iff_getElem?.mp hx
    rw [Function.comp_apply, hfields _ _ hx']
    rfl
  rw [hsame]
  rfl

theorem pairwise_slotsOf (test : Placed → Bool) (ps : List Placed) :
    (slotsOf test ps).Pairwise (· ≤ ·) := by
  have hslots : (ps.zipIdx.map Prod.snd).Pairwise (· < ·) := by
    rw [List.zipIdx_map_snd]
    exact List.pairwise_lt_range'
  have hkept := (List.pairwise_map.mp hslots).sublist
    (List.filter_sublist (p := fun x => test x.1))
  refine List.pairwise_map.mpr (hkept.imp fun h => ?_)
  exact Int.ofNat_le.mpr (Nat.le_of_lt h)

end Placing

section Indexes

variable {κ : Type} {ps : List Placed}

def entries (key : Placed → κ) (ps : List Placed) : List (κ × ℤ) :=
  ps.zipIdx.map fun x => (key x.1, Int.ofNat x.2)

theorem slots_entries (key : Placed → κ) (test : κ → Bool) :
    ((entries key ps).filter fun e => test e.1).map Prod.snd =
      slotsOf (fun p => test (key p)) ps := by
  rw [entries, List.filter_map, List.map_map]
  rfl

theorem sortedIndex_slotRows {width : ℕ} {f : Placed → ℕ → List ℤ} {key : Placed → List ℤ}
    (hkey : ∀ p k, (f p k).take width = key p) (hslot : ∀ p k, (f p k).getD width 0 = (k : ℤ)) :
    sortedIndex width (slotRows f 0 ps) =
      (entries key ps).insertionSort fun a b => a.1 ≤ b.1 := by
  have hrows : (slotRows f 0 ps).map (fun row => (row.take width, row.getD width 0)) =
      entries key ps := by
    rw [slotRows_eq, List.map_map, entries]
    refine List.map_congr_left fun x _ => ?_
    rw [Function.comp_apply, hkey, hslot]
    rfl
  rw [sortedIndex, hrows]

variable [LinearOrder κ] (key : Placed → κ) (k : κ)

theorem pairwise_entries :
    ((entries key ps).insertionSort fun a b => a.1 ≤ b.1).Pairwise fun a b => a.1 ≤ b.1 :=
  List.pairwise_insertionSort _ _

theorem filter_entries [DecidableEq κ] :
    (((entries key ps).insertionSort fun a b => a.1 ≤ b.1).filter fun e => e.1 = k).map Prod.snd =
      slotsOf (fun p => key p = k) ps := by
  rw [filter_insertionSort, ← slots_entries key fun q => decide (q = k)]
  intro a b ha hb
  simp only [decide_eq_true_eq] at ha hb
  rw [ha, hb]

end Indexes

section Lookups

variable {cs : List DhanContract} {recs : List UInt8} {e : Encoding} {ps : List Placed}

def openedSymbols (tables : StringTables) (recs : List UInt8) (ps : List Placed) : OpenStore :=
  { openedStore tables recs ps with
    symKeys := (symbolsFrom 0 ps).insertionSort fun a b => a.1 ≤ b.1 }

def Placed.secKey (tables : StringTables) (p : Placed) : List ℤ := (p.secRow tables 0).take 3

def Placed.optKey (tables : StringTables) (p : Placed) : List ℤ := (p.optRow tables 0).take 4

theorem secKeys_openedSymbols (tables : StringTables) (recs : List UInt8) (ps : List Placed) :
    (openedSymbols tables recs ps).secKeys =
      (entries (Placed.secKey tables) ps).insertionSort fun a b => a.1 ≤ b.1 :=
  sortedIndex_slotRows (fun _ _ => rfl) fun _ _ => rfl

theorem optKeys_openedSymbols (tables : StringTables) (recs : List UInt8) (ps : List Placed) :
    (openedSymbols tables recs ps).optKeys =
      (entries (Placed.optKey tables) ps).insertionSort fun a b => a.1 ≤ b.1 :=
  sortedIndex_slotRows (fun _ _ => rfl) fun _ _ => rfl

theorem symKeys_openedSymbols (tables : StringTables) (recs : List UInt8) (ps : List Placed) :
    (openedSymbols tables recs ps).symKeys =
      (entries (fun p => p.contract.tradingSymbol) ps).insertionSort fun a b => a.1 ≤ b.1 := by
  rw [openedSymbols, symbolsFrom_eq]
  rfl

theorem slotAt_entries (key : Placed → List ℤ) (k : List ℤ) :
    MmapStore.slotAt ((entries key ps).insertionSort fun a b => a.1 ≤ b.1) k =
      (slotsOf (fun p => key p = k) ps).head? := by
  rw [slotAt_eq_find? (pairwise_entries key), ← filter_entries, List.head?_map, List.head?_filter]

theorem get_foldl_setDefault {κ ν : Type} [DecidableEq κ] (d : Dict κ ν) (l : List (κ × ν)) (k : κ) :
    (l.foldl (fun first p => setDefault first p.1 p.2) d).get k =
      (d.get k).or ((l.find? fun p => p.1 = k).map Prod.snd) := by
  induction l generalizing d with
  | nil => simp
  | cons p l ih =>
    rw [List.foldl_cons, ih, get_setDefault, Option.or_assoc]
    by_cases hp : p.1 = k <;> simp [hp]

theorem slotForSymbol_openedSymbols (tables : StringTables) (recs : List UInt8)
    (ps : List Placed) (symbol : String) :
    (openedSymbols tables recs ps).slotForSymbol symbol =
      (slotsOf (fun p => p.contract.tradingSymbol = symbol) ps).head? := by
  have hfirst : (openedSymbols tables recs ps).symFirst =
      (openedSymbols tables recs ps).symKeys.foldl (fun first p => setDefault first p.1 p.2) [] := rfl
  rw [MmapStore.slotForSymbol, hfirst, get_foldl_setDefault, symKeys_openedSymbols,
    ← filter_entries, List.head?_map, List.head?_filter]
  rfl

theorem slotsForSymbol_openedSymbols (tables : StringTables) (recs : List UInt8)
    (ps : List Placed) (symbol : String) :
    (openedSymbols tables recs ps).slotsForSymbol symbol =
      slotsOf (fun p => p.contract.tradingSymbol = symbol) ps := by
  rw [OpenStore.slotsForSymbol, symKeys_openedSymbols, ← filter_entries]
  exact congrArg _ (Bisect.takeWhile_drop_left (pairwise_entries _) symbol)

theorem slotsForSecurityId_openedSymbols (tables : StringTables) (recs : List UInt8)
    (ps : List Placed) {id : String} {n : ℤ}
    (hid : toInt id = .ok n) :
    ∃ slots, (openedSymbols tables recs ps).slotsForSecurityId id = .ok slots ∧
      slots.Perm (slotsOf (fun p => p.securityId = n) ps) := by
  refine ⟨_, (ok_then hid).trans rfl, ?_⟩
  rw [secKeys_openedSymbols]
  have hperm := List.perm_insertionSort (fun a b : List ℤ × ℤ => a.1 ≤ b.1)
    (entries (Placed.secKey tables) ps)
  refine ((hperm.filter _).map _).trans (.of_eq ?_)
  exact slots_entries (Placed.secKey tables) fun key => decide (key.getD 2 0 = n)

theorem pairwise_underlying (tables : StringTables) (recs : List UInt8) (ps : List Placed) :
    (openedSymbols tables recs ps).optKeys.Pairwise fun a b => a.1.getD 0 0 ≤ b.1.getD 0 0 := by
  have horder : ((entries (Placed.optKey tables) ps).insertionSort fun a b => a.1 ≤ b.1).Pairwise
      fun a b => a.1 ≤ b.1 := pairwise_entries _
  have hcons : ∀ x ∈ (entries (Placed.optKey tables) ps).insertionSort fun a b => a.1 ≤ b.1,
      ∃ u rest, x.1 = u :: rest := by
    intro x hx
    obtain ⟨y, -, rfl⟩ := List.mem_map.mp ((List.perm_insertionSort _ _).mem_iff.mp hx)
    exact ⟨_, _, rfl⟩
  rw [optKeys_openedSymbols]
  refine horder.imp_of_mem fun {a b} ha hb hab => ?_
  obtain ⟨u, rest, hu⟩ := hcons a ha
  obtain ⟨u', rest', hu'⟩ := hcons b hb
  rw [hu, hu'] at hab ⊢
  rcases hab.lt_or_eq with hlt | heq
  · exact List.head_le_of_lt hlt
  · exact (List.cons.inj heq).1.le

theorem iterUnderlying_openedSymbols (tables : StringTables) {underlying : String}
    (hmem : Text.upper underlying ∈ tables .underlyingSymbol) :
    (openedSymbols tables recs ps).iterUnderlying underlying =
      .ok (slotsOf (fun p => (p.record tables).underlyingId =
        ((tables .underlyingSymbol).idxOf (Text.upper underlying) : ℕ)) ps) := by
  let c : ℤ := ((tables .underlyingSymbol).idxOf (Text.upper underlying) : ℕ)
  have hcode : (openedSymbols tables recs ps).code .underlyingSymbol (Text.upper underlying) =
      .ok c := by
    simp [MmapStore.code, openedSymbols, openedStore, hmem, c]
  have hrun := Bisect.takeWhile_drop_left (f := fun e : List ℤ × ℤ => e.1.getD 0 0)
    (pairwise_underlying tables recs ps) c
  have hperm := List.perm_insertionSort (fun a b : List ℤ × ℤ => a.1 ≤ b.1)
    (entries (Placed.optKey tables) ps)
  have hslots : (((openedSymbols tables recs ps).optKeys.filter fun e =>
      decide (e.1.getD 0 0 = c)).map Prod.snd).Perm
        (slotsOf (fun p => (p.record tables).underlyingId = c) ps) := by
    rw [optKeys_openedSymbols]
    refine ((hperm.filter _).map _).trans (.of_eq ?_)
    exact slots_entries (Placed.optKey tables) fun key => decide (key.getD 0 0 = c)
  rw [MmapStore.iterUnderlying, hcode, ok_bind, bisect_eq]
  dsimp only
  rw [hrun]
  refine congrArg Except.ok (List.Perm.eq_of_pairwise (fun a b _ _ => le_antisymm) ?_
    (pairwise_slotsOf _ ps) ((List.perm_insertionSort _ _).trans hslots))
  exact List.pairwise_insertionSort _ _

end Lookups

section Codes

variable {m : MmapStore} {cs : List DhanContract} {recs : List UInt8} {e : Encoding}
  {ps : List Placed} {name : StringTable} {x : String}

theorem code_eq_ok {k : ℤ} :
    m.code name x = .ok k ↔ x ∈ m.tables name ∧ k = ((m.tables name).idxOf x : ℕ) := by
  unfold MmapStore.code
  split <;> simp_all [eq_comm]

theorem mem_tables_iff (henc : encodeFrom 0 cs {} = .ok (recs, e)) (h : Laid 0 cs {} recs e ps)
    {f : DhanContract → String} (hf : ∀ p : Placed, p.text name = f p.contract) :
    x ∈ e.tables name ↔ ∃ c ∈ cs, f c = x := by
  constructor
  · intro hx
    obtain ⟨p, hp, htext⟩ := (mem_tables_encodeFrom henc hx).resolve_left List.not_mem_nil
    exact ⟨p.contract, hp, (hf p).symm.trans htext⟩
  · intro hx
    obtain ⟨c, hc, rfl⟩ := hx
    rw [← h.contracts] at hc
    obtain ⟨p, hp, rfl⟩ := List.mem_map.mp hc
    rw [← hf p]
    exact h.interned p hp name

theorem codeIn_eq_iff {tables : StringTables} {p : Placed} (h : Interned tables p)
    (name : StringTable) :
    name.codeIn (p.record tables) = ((tables name).idxOf x : ℕ) ↔ p.text name = x := by
  rw [Placed.codeIn_record, Nat.cast_inj]
  exact List.idxOf_inj (h name)

end Codes

section Scanning

variable {schemaId : String} {cs : List DhanContract} {recs : List UInt8} {e : Encoding}
  {ps : List Placed}

theorem scan_openedSymbols (h : Laid 0 cs {} recs e ps) (test : Fields → Bool) :
    (openedSymbols e.tables recs ps).scan test = slotsOf (fun p => test (p.fields e.tables)) ps :=
  scan_eq_slotsOf rfl (fun _ _ hk => fields_openedStore h hk) test

theorem scanned_security (h : Laid 0 cs {} recs e ps) {exchange segment id : String} :
    (openedSymbols e.tables recs ps).Scanned (.security exchange segment id) ↔
      exchange ∈ e.tables .exchange ∧ segment ∈ e.tables .exchangeSegment ∧
        (Text.parseInt id).isSome := by
  rw [OpenStore.Scanned, scan_openedSymbols h]
  constructor
  · intro hfound
    obtain ⟨k, hk, hfound⟩ := bind_eq_ok.mp hfound
    obtain ⟨k', hk', hfound⟩ := bind_eq_ok.mp hfound
    obtain ⟨n, hn, -⟩ := bind_eq_ok.mp hfound
    exact ⟨(code_eq_ok.mp hk).1, (code_eq_ok.mp hk').1,
      Option.isSome_iff_exists.mpr ⟨n, toInt_eq_ok.mp hn⟩⟩
  · intro hknown
    obtain ⟨hexchange, hsegment, hid⟩ := hknown
    obtain ⟨n, hn⟩ := Option.isSome_iff_exists.mp hid
    refine (ok_then (code_eq_ok.mpr ⟨hexchange, rfl⟩)).trans
      ((ok_then (code_eq_ok.mpr ⟨hsegment, rfl⟩)).trans ((ok_then (toInt_eq_ok.mpr hn)).trans ?_))
    rw [secKeys_openedSymbols, slotAt_entries]
    refine congrArg (fun slots => Except.ok slots.head?) (slotsOf_congr fun p hp => ?_)
    have hkey := secRow_hasKey (h.interned p hp) exchange segment n 0
    rw [hn]
    refine hkey.trans ?_
    simp only [Placed.hasKey, Placed.fields, Placed.text, Placed.record, recordOf,
      Option.some.injEq, eq_comm (a := n)]

theorem scanned_securityId (h : Laid 0 cs {} recs e ps) {id : String} :
    (openedSymbols e.tables recs ps).Scanned (.securityId id) ↔ (Text.parseInt id).isSome := by
  rw [OpenStore.Scanned, scan_openedSymbols h]
  constructor
  · intro hfound
    obtain ⟨slots, hslots, -⟩ := hfound
    obtain ⟨n, hn, -⟩ := bind_eq_ok.mp hslots
    exact Option.isSome_iff_exists.mpr ⟨n, toInt_eq_ok.mp hn⟩
  · intro hid
    obtain ⟨n, hn⟩ := Option.isSome_iff_exists.mp hid
    obtain ⟨slots, hslots, hperm⟩ :=
      slotsForSecurityId_openedSymbols e.tables recs ps (toInt_eq_ok.mpr hn)
    refine ⟨slots, hslots, hperm.trans (.of_eq (slotsOf_congr fun p _ => ?_))⟩
    simp only [hn, Placed.fields, Placed.record, recordOf, Option.some.injEq, eq_comm (a := n)]

theorem scanned_option (h : Laid 0 cs {} recs e ps) {underlying expiry optionType : String}
    {strike : ℤ} :
    (openedSymbols e.tables recs ps).Scanned (.option underlying expiry strike optionType) ↔
      Text.upper underlying ∈ e.tables .underlyingSymbol ∧ expiry ∈ e.tables .expiryDate ∧
        optionType ∈ e.tables .optionType := by
  rw [OpenStore.Scanned, scan_openedSymbols h]
  constructor
  · intro hfound
    obtain ⟨k, hk, hfound⟩ := bind_eq_ok.mp hfound
    obtain ⟨k', hk', hfound⟩ := bind_eq_ok.mp hfound
    obtain ⟨k'', hk'', -⟩ := bind_eq_ok.mp hfound
    exact ⟨(code_eq_ok.mp hk).1, (code_eq_ok.mp hk').1, (code_eq_ok.mp hk'').1⟩
  · intro hknown
    obtain ⟨hunderlying, hexpiry, htype⟩ := hknown
    refine (ok_then (code_eq_ok.mpr ⟨hunderlying, rfl⟩)).trans
      ((ok_then (code_eq_ok.mpr ⟨hexpiry, rfl⟩)).trans
        ((ok_then (code_eq_ok.mpr ⟨htype, rfl⟩)).trans ?_))
    rw [optKeys_openedSymbols, slotAt_entries]
    refine congrArg (fun slots => Except.ok slots.head?) (slotsOf_congr fun p hp => ?_)
    have hinterned := h.interned p hp
    refine decide_eq_decide.mpr ?_
    change [_, _, _, _] = [_, _, _, _] ↔ _
    simp only [List.cons.injEq, and_true]
    exact and_congr (codeIn_eq_iff hinterned .underlyingSymbol)
      (and_congr (codeIn_eq_iff hinterned .expiryDate)
        (and_congr .rfl (codeIn_eq_iff hinterned .optionType)))

theorem scanned_underlying (h : Laid 0 cs {} recs e ps) {underlying : String} :
    (openedSymbols e.tables recs ps).Scanned (.underlying underlying) ↔
      Text.upper underlying ∈ e.tables .underlyingSymbol := by
  rw [OpenStore.Scanned, scan_openedSymbols h]
  constructor
  · intro hfound
    obtain ⟨k, hk, -⟩ := bind_eq_ok.mp hfound
    exact (code_eq_ok.mp hk).1
  · intro hmem
    rw [iterUnderlying_openedSymbols e.tables hmem]
    refine congrArg Except.ok (slotsOf_congr fun p hp => ?_)
    exact decide_eq_decide.mpr (codeIn_eq_iff (h.interned p hp) .underlyingSymbol)

theorem scanned_openedSymbols (henc : encodeFrom 0 cs {} = .ok (recs, e))
    (h : Laid 0 cs {} recs e ps) (q : SlotQuery) :
    (openedSymbols e.tables recs ps).Scanned q ↔ q.Known cs := by
  have hknown {name : StringTable} {x : String} (f : DhanContract → String)
      (hf : ∀ p : Placed, p.text name = f p.contract) :
      x ∈ e.tables name ↔ ∃ c ∈ cs, f c = x := mem_tables_iff henc h hf
  cases q with
  | security exchange segment id =>
    rw [scanned_security h, hknown DhanContract.exchange fun _ => rfl,
      hknown DhanContract.exchangeSegment fun _ => rfl]
    rfl
  | securityId id => exact scanned_securityId h
  | option underlying expiry strike optionType =>
    rw [scanned_option h, hknown DhanContract.underlyingSymbol fun _ => rfl,
      hknown DhanContract.expiryDate fun _ => rfl, hknown DhanContract.optionType fun _ => rfl]
    rfl
  | symbol symbol =>
    rw [OpenStore.Scanned, scan_openedSymbols h]
    exact iff_of_true (slotForSymbol_openedSymbols e.tables recs ps symbol) trivial
  | symbols symbol =>
    rw [OpenStore.Scanned, scan_openedSymbols h]
    exact iff_of_true (slotsForSymbol_openedSymbols e.tables recs ps symbol) trivial
  | underlying underlying =>
    rw [scanned_underlying h, hknown DhanContract.underlyingSymbol fun _ => rfl]
    rfl

end Scanning

section Opening

variable {schemaId : String} {cs : List DhanContract} {recs : List UInt8} {e : Encoding}
  {ps : List Placed} {source : Source} {building frozen : Bool}

theorem open_symbols (h : Laid 0 cs {} recs e ps) :
    OpenStore.open_ (builtDir schemaId recs (pool ps) e cs.length source building frozen)
        (builtHeader schemaId recs (pool ps) e cs.length source) =
      .ok (openedSymbols e.tables recs ps) := by
  have hlen : cs.length = ps.length := by rw [← h.contracts, List.length_map]
  obtain ⟨sym, hsym, hsym'⟩ := h.sym
  rw [List.nil_append] at hsym'
  have hsyms := readRows_packed hsym
  rw [length_slotRows, ← hsym', ← hlen] at hsyms
  refine (ok_then (open_builtDir h)).trans ((ok_then hsyms).trans ?_)
  exact (ok_then (named_symbols h.chained 0 fun _ hp => hp)).trans rfl

theorem offset_of_chained {offset k : ℕ} {p : Placed} (h : Chained offset ps)
    (hk : ps[k]? = some p) : p.offset = offset + (pool (ps.take k)).length := by
  induction ps generalizing offset k with
  | nil => cases hk
  | cons q qs ih =>
    obtain ⟨hq, hqs⟩ := h
    cases k with
    | zero =>
      cases hk
      simpa [pool] using hq
    | succ k =>
      rw [ih hqs hk]
      simp [pool, Nat.add_assoc]

def Written (schemaId : String) (cs : List DhanContract) (m : OpenStore) : Prop :=
  ∃ v source r es s version dir h,
    Goes Root.apply (encodeVersion schemaId v cs source).run r es s (some (.ok version)) ∧
      s.dirs.get v = some dir ∧ validate schemaId dir = .ok h ∧ OpenStore.open_ dir h = .ok m

structure ReadsBack (cs : List DhanContract) (m : OpenStore) : Prop where
  count : m.count = cs.length
  fields : ∀ slot c, cs[slot]? = some c → ∃ p : Placed, p.contract = c ∧
    toInt c.securityId = .ok p.securityId ∧ underlyingIdOf c = .ok p.underlyingId ∧
    p.offset = (symbols (cs.take slot)).length ∧ m.fields slot = .ok (p.fields m.tables)

theorem readsBack_openedSymbols (h : Laid 0 cs {} recs e ps) :
    ReadsBack cs (openedSymbols e.tables recs ps) where
  count := by
    rw [← h.contracts, List.length_map]
    rfl
  fields := by
    intro slot c hc
    rw [← h.contracts, List.getElem?_map, Option.map_eq_some_iff] at hc
    obtain ⟨p, hp, rfl⟩ := hc
    have hmem := List.mem_of_getElem? hp
    refine ⟨p, rfl, h.securityId p hmem, h.underlyingId p hmem, ?_, fields_openedStore h hp⟩
    rw [offset_of_chained h.chained hp, ← h.contracts, ← List.map_take, symbols, pool,
      List.map_map]
    exact Nat.zero_add _

theorem open_of_encodeVersion {v version : String} {r s : Root} {es : List FsEffect}
    {dir : VersionDir} {hdr : VersionHeader}
    (hgo : Goes Root.apply (encodeVersion schemaId v cs source).run r es s (some (.ok version)))
    (hget : s.dirs.get v = some dir) (hvalid : validate schemaId dir = .ok hdr) :
    ∃ recs e ps, encodeFrom 0 cs {} = .ok (recs, e) ∧ Laid 0 cs {} recs e ps ∧
      OpenStore.open_ dir hdr = .ok (openedSymbols e.tables recs ps) := by
  obtain ⟨recs, e, henc, rfl⟩ := encodeVersion_returns hgo
  obtain ⟨ps, hl⟩ := laid_of_encodeFrom henc
  refine ⟨recs, e, ps, henc, hl, ?_⟩
  rw [Root.get_withDir, if_pos rfl] at hget
  cases hget
  have hread := readHeader_of_validate hvalid
  cases hread
  rw [laidDir, ← pool_of_laid hl]
  exact open_symbols hl

theorem laid_of_written {m : OpenStore} (h : Written schemaId cs m) :
    ∃ recs e ps, encodeFrom 0 cs {} = .ok (recs, e) ∧ Laid 0 cs {} recs e ps ∧
      m = openedSymbols e.tables recs ps := by
  obtain ⟨v, source, r, es, s, version, dir, hdr, hgo, hget, hvalid, hopen⟩ := h
  obtain ⟨recs, e, ps, henc, hl, hopened⟩ := open_of_encodeVersion hgo hget hvalid
  rw [hopened] at hopen
  exact ⟨recs, e, ps, henc, hl, (Except.ok.inj hopen).symm⟩

end Opening

/-- A written version reads back, and a lookup answers what a scan does exactly when it asks for
what some contract has. -/
theorem scanned_iff {schemaId : String} {cs : List DhanContract} {m : OpenStore}
    (h : Written schemaId cs m) : ReadsBack cs m ∧ ∀ q, m.Scanned q ↔ q.Known cs := by
  obtain ⟨recs, e, ps, henc, hl, rfl⟩ := laid_of_written h
  exact ⟨readsBack_openedSymbols hl, scanned_openedSymbols henc hl⟩

section Niftys

theorem written_of_encoded {readings : Readings} {schemaId : String} {now : ℚ} {text : MasterText}
    {d : Contracts} {m : MmapStore} (h : Encoded readings schemaId now text d m) :
    ∃ m, Written schemaId d.all m := by
  obtain ⟨v, source, r, es, s, version, dir, hdr, hgo, hget, hvalid, -⟩ := h.built
  obtain ⟨recs, e, ps, -, -, hopened⟩ := open_of_encodeVersion hgo hget hvalid
  exact ⟨_, v, source, r, es, s, version, dir, hdr, hgo, hget, hvalid, hopened⟩

set_option maxRecDepth 100000 in
theorem written_nifty :
    ∃ cs m, cs.map DhanContract.exchange = ["NSE"] ∧ Written "schema" cs m := by
  have hrun : (encodeOnce niftySetup.readings "schema" 0 niftyMaster).map (fun x =>
      decide (x.1.all.map DhanContract.exchange = ["NSE"])) = some true := by decide +kernel
  obtain ⟨⟨d, m⟩, hdm, hexchanges⟩ := Option.map_eq_some_iff.mp hrun
  obtain ⟨m', hm'⟩ := written_of_encoded (encoded_of_encodeOnce hdm)
  exact ⟨d.all, m', of_decide_eq_true hexchanges, hm'⟩

theorem scanned_iff_nifty :
    ∃ cs m, cs.map DhanContract.exchange = ["NSE"] ∧ Written "schema" cs m ∧ ReadsBack cs m ∧
      ∀ q, m.Scanned q ↔ q.Known cs := by
  obtain ⟨cs, m, hexchanges, hm⟩ := written_nifty
  exact ⟨cs, m, hexchanges, hm, scanned_iff hm⟩

/-- One contract of NSE: asked for one of MCX, the scan finds none and the lookup raises. -/
theorem not_scanned_mcx :
    ∃ cs m, Written "schema" cs m ∧ ¬ m.Scanned (.security "MCX" "MCX_FNO" "40687") := by
  obtain ⟨cs, m, hexchanges, hm⟩ := written_nifty
  obtain ⟨recs, e, ps, henc, hl, rfl⟩ := laid_of_written hm
  refine ⟨cs, _, hm, fun hscanned => ?_⟩
  obtain ⟨⟨c, hc, hmcx⟩, -⟩ := (scanned_openedSymbols henc hl _).mp hscanned
  have hmem := List.mem_map_of_mem (f := DhanContract.exchange) hc
  rw [hexchanges, List.mem_singleton, hmcx] at hmem
  exact absurd hmem (by decide)

end Niftys

end Trademetrix.Market
