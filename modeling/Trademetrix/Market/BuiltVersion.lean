import Trademetrix.Market.EncodedMaster

/-!
# The directory the writer leaves

The files of a finished version hold the packed rows behind the magic prefix,
and the header the sizes and checksums measured from them. Such a directory
passes `validate` and opens.
-/

namespace Trademetrix.Market

def written (recs strs : List UInt8) (e : Encoding) : Payload → List UInt8
  | .records => recs
  | .strings => strs
  | .sec => e.sec
  | .opt => e.opt
  | .sym => e.sym

def fileOf (recs strs : List UInt8) (e : Encoding) (p : Payload) : List UInt8 :=
  magic ++ written recs strs e p

variable {schemaId : String} {recs strs : List UInt8} {e : Encoding} {n : ℕ} {source : Source}

def builtHeader (schemaId : String) (recs strs : List UInt8) (e : Encoding) (n : ℕ)
    (source : Source) : VersionHeader :=
  writeHeader schemaId n e.tables (fun p => (fileOf recs strs e p).length)
    (fun p => crc32 (written recs strs e p)) source

def builtDir (schemaId : String) (recs strs : List UInt8) (e : Encoding) (n : ℕ)
    (source : Source) (building frozen : Bool) : VersionDir where
  building := building
  frozen := frozen
  payload p := some (fileOf recs strs e p)
  header := some (.json (builtHeader schemaId recs strs e n source))

theorem ensure_eq_ok {check : Prop} [Decidable check] : ensure check = .ok () ↔ check := by
  unfold ensure
  split <;> simp_all

theorem ensure_then {α : Type} {check : Prop} [Decidable check] {f : Unit → Except StoreError α}
    (h : check) : (ensure check >>= f) = f () :=
  ok_then (ensure_eq_ok.mpr h)

theorem crcOfPayload_fileOf (p : Payload) :
    crcOfPayload (fileOf recs strs e p) = .ok (crc32 (written recs strs e p)) := by
  rw [crcOfPayload, fileOf, List.take_left, List.drop_left, if_pos rfl]

theorem readHeader_of_validate {d : VersionDir} {hdr : VersionHeader}
    (h : validate schemaId d = .ok hdr) : readHeader d = .ok hdr := by
  obtain ⟨hdr', hread, h⟩ := bind_eq_ok.mp h
  iterate 15 obtain ⟨_, -, h⟩ := bind_eq_ok.mp h
  cases h
  exact hread

structure Measured (recs : List UInt8) (e : Encoding) (n : ℕ) : Prop where
  positive : 0 < n
  records : recs.length = n * record.size
  sec : e.sec.length = n * secIndex.size
  opt : e.opt.length = n * optIndex.size
  sym : e.sym.length = n * symIndex.size

variable {building frozen : Bool}

theorem validateIndex_of_length {d : VersionDir} {h : VersionHeader} {p : Payload} {s : Schema}
    (hs : 0 < s.size) (hlen : payloadLength d p = h.recordCount * s.size) :
    validateIndex d h p s = .ok () := by
  rw [validateIndex, hlen, ensure_then (Nat.mul_mod_left _ _)]
  exact ensure_eq_ok.mpr (Nat.mul_div_cancel _ hs)

theorem payloadLength_builtDir (p : Payload) :
    payloadLength (builtDir schemaId recs strs e n source building frozen) p =
      (written recs strs e p).length := by
  simp [payloadLength, builtDir, fileOf]

theorem validate_builtDir (h : Measured recs e n) :
    validate schemaId (builtDir schemaId recs strs e n source building frozen) =
      .ok (builtHeader schemaId recs strs e n source) := by
  have hfiles : Payload.all.forM (validateFile (builtDir schemaId recs strs e n source building frozen)
      (builtHeader schemaId recs strs e n source)) = .ok () := by
    refine forM_eq_ok.mpr fun p _ => ?_
    exact (ensure_then rfl).trans (ensure_eq_ok.mpr List.take_left)
  have hcrcs : Payload.all.forM (validateCrc (builtDir schemaId recs strs e n source building frozen)
      (builtHeader schemaId recs strs e n source)) = .ok () := by
    refine forM_eq_ok.mpr fun p _ => ?_
    exact (ok_then (crcOfPayload_fileOf p)).trans (ensure_eq_ok.mpr rfl)
  have hindex : ∀ p s, 0 < s.size → (written recs strs e p).length = n * s.size →
      validateIndex (builtDir schemaId recs strs e n source building frozen)
        (builtHeader schemaId recs strs e n source) p s = .ok () :=
    fun p _ hs hlen => validateIndex_of_length hs ((payloadLength_builtDir p).trans hlen)
  have hread : readHeader (builtDir schemaId recs strs e n source building frozen) =
      .ok (builtHeader schemaId recs strs e n source) := rfl
  refine (ok_then hread).trans ?_
  iterate 7 refine (ensure_then rfl).trans ?_
  refine (ensure_then h.positive).trans ((ok_then hfiles).trans ?_)
  refine (ok_then (hindex .sec secIndex (by decide) h.sec)).trans ?_
  refine (ok_then (hindex .opt optIndex (by decide) h.opt)).trans ?_
  refine (ok_then (hindex .sym symIndex (by decide) h.sym)).trans ?_
  refine (ensure_then ((payloadLength_builtDir .records).trans h.records)).trans ?_
  refine (ensure_then rfl).trans ((ok_then hcrcs).trans ?_)
  rfl

section Reading

theorem readRows_packed {s : Schema} {rows : List (List ℤ)} {bytes : List UInt8}
    (h : s.packAll rows = some bytes) : readRows s (magic ++ bytes) rows.length = .ok rows := by
  have hread := (Schema.packAll_eq_some h).2 magic
  have hmap : (List.range rows.length).mapM
      (fun k => s.unpackFrom (magic ++ bytes) (magic.length + k * s.size)) = some rows := by
    refine mapM_range_eq_some fun k hk => ?_
    exact hread k _ (List.getElem?_eq_getElem hk)
  rw [readRows, hmap]

theorem decodeUtf8_utf8 (s : String) : decodeUtf8 (utf8 s) = .ok s := by
  have hbytes : (⟨(utf8 s).toArray⟩ : ByteArray) = s.toByteArray := by
    simp [utf8]
  rw [decodeUtf8, hbytes, String.fromUTF8?, dif_pos s.isValidUTF8]
  rfl

theorem sliceText_symbol {ps : List Placed} (h : Chained 0 ps) {p : Placed} (hp : p ∈ ps) :
    sliceText (magic ++ pool ps) p.offset p.symbol.length = .ok p.contract.tradingSymbol := by
  have hdrop : (magic ++ pool ps).drop (magic.length + p.offset) = (pool ps).drop p.offset := by
    rw [List.drop_append, List.drop_of_length_le (Nat.le_add_right _ _), List.nil_append,
      Nat.add_sub_cancel_left]
  have hslice := symbol_of_pool h [] rfl hp
  rw [List.nil_append] at hslice
  rw [sliceText, Int.toNat_natCast, Int.toNat_natCast, hdrop, hslice]
  exact decodeUtf8_utf8 _

end Reading

section Opening

variable {cs : List DhanContract} {ps : List Placed}

theorem measured_of_laid (h : Laid 0 cs {} recs e ps) (hcs : cs ≠ []) :
    Measured recs e cs.length := by
  have hlen : ps.length = cs.length := by rw [← h.contracts, List.length_map]
  obtain ⟨sec, hsec, hsec'⟩ := h.sec
  obtain ⟨opt, hopt, hopt'⟩ := h.opt
  obtain ⟨sym, hsym, hsym'⟩ := h.sym
  have hrecs := (Schema.packAll_eq_some h.records).1
  have hsecs := (Schema.packAll_eq_some hsec).1
  have hopts := (Schema.packAll_eq_some hopt).1
  have hsyms := (Schema.packAll_eq_some hsym).1
  simp only [List.length_map, length_slotRows, hlen] at hrecs hsecs hopts hsyms
  exact {
    positive := List.length_pos_of_ne_nil hcs
    records := hrecs
    sec := by simp [hsec', hsecs]
    opt := by simp [hopt', hopts]
    sym := by simp [hsym', hsyms] }

def symbolsFrom : ℕ → List Placed → List (String × ℤ)
  | _, [] => []
  | slot, p :: ps => (p.contract.tradingSymbol, (slot : ℤ)) :: symbolsFrom (slot + 1) ps

def openedStore (tables : StringTables) (recs : List UInt8) (ps : List Placed) : MmapStore where
  count := ps.length
  tables := tables
  records := magic ++ recs
  strings := magic ++ pool ps
  secKeys := sortedIndex 3 (slotRows (Placed.secRow tables) 0 ps)
  optKeys := sortedIndex 4 (slotRows (Placed.optRow tables) 0 ps)
  symFirst := ((symbolsFrom 0 ps).insertionSort fun a b => a.1 ≤ b.1).foldl
    (fun first p => setDefault first p.1 p.2) []
  underlyings := distinctUnderlyings tables
    (ps.map fun p => Record.underlyingOf (p.record tables).values)

theorem named_symbols {all : List Placed} (h : Chained 0 all) (slot : ℕ)
    (hps : ∀ p ∈ ps, p ∈ all) :
    (slotRows Placed.symRow slot ps).mapM (fun row => do
      let text ← sliceText (magic ++ pool all) (row.getD 0 0) (row.getD 1 0)
      return (text, row.getD 2 0)) = .ok (symbolsFrom slot ps) := by
  induction ps generalizing slot with
  | nil => rfl
  | cons p ps ih =>
    have hrest := ih (slot + 1) fun q hq => hps q (List.mem_cons_of_mem _ hq)
    have htext := sliceText_symbol h (hps p List.mem_cons_self)
    rw [slotRows, List.mapM_cons]
    refine (ok_then ?_).trans ((ok_then hrest).trans rfl)
    exact (ok_then htext).trans rfl

theorem open_builtDir (h : Laid 0 cs {} recs e ps) :
    MmapStore.open_ (builtDir schemaId recs (pool ps) e cs.length source building frozen)
        (builtHeader schemaId recs (pool ps) e cs.length source) =
      .ok (openedStore e.tables recs ps) := by
  have hlen : cs.length = ps.length := by rw [← h.contracts, List.length_map]
  obtain ⟨sec, hsec, hsec'⟩ := h.sec
  obtain ⟨opt, hopt, hopt'⟩ := h.opt
  obtain ⟨sym, hsym, hsym'⟩ := h.sym
  rw [List.nil_append] at hsec' hopt' hsym'
  have hrecords := readRows_packed h.records
  have hsecs := readRows_packed hsec
  have hopts := readRows_packed hopt
  have hsyms := readRows_packed hsym
  rw [length_slotRows] at hsecs hopts hsyms
  rw [List.length_map] at hrecords
  rw [← hsec', ← hlen] at hsecs
  rw [← hopt', ← hlen] at hopts
  rw [← hsym', ← hlen] at hsyms
  rw [← hlen] at hrecords
  refine (ok_then hsecs).trans ((ok_then hopts).trans ((ok_then hsyms).trans ?_))
  refine (ok_then (named_symbols h.chained 0 fun _ hp => hp)).trans ((ok_then hrecords).trans ?_)
  simp only [openedStore, builtDir, builtHeader, writeHeader, fileOf, written, List.map_map, hlen,
    Option.getD_some, pure, Except.pure, Function.comp_def]

end Opening

end Trademetrix.Market
