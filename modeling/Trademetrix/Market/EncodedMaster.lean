import Trademetrix.Market.InstrumentFiles
import Trademetrix.Results

/-!
# What the writer lays out

A code once given stays, so every row of the files is the one the final string
tables give it: the files are the packed rows of the placed contracts, in order.
-/

namespace Trademetrix.Market

namespace Placed

def text (p : Placed) : StringTable → String
  | .exchange => p.contract.exchange
  | .exchangeSegment => p.contract.exchangeSegment
  | .instrumentType => p.contract.instrumentType
  | .instrumentFamily => p.contract.instrumentFamily
  | .optionType => p.contract.optionType
  | .instrumentStatus => p.contract.instrumentStatus
  | .source => p.contract.source
  | .expiryDate => p.contract.expiryDate
  | .underlyingSymbol => p.contract.underlyingSymbol

end Placed

def slotRows (f : Placed → ℕ → List ℤ) : ℕ → List Placed → List (List ℤ)
  | _, [] => []
  | slot, p :: ps => f p slot :: slotRows f (slot + 1) ps

theorem length_slotRows (f : Placed → ℕ → List ℤ) (slot : ℕ) (ps : List Placed) :
    (slotRows f slot ps).length = ps.length := by
  induction ps generalizing slot with
  | nil => rfl
  | cons p ps ih => simp [slotRows, ih]

section Interning

variable {tables : StringTables}

def Extends (t u : StringTables) : Prop := ∀ name, t name <+: u name

theorem Extends.refl (t : StringTables) : Extends t t := fun _ => List.prefix_rfl

theorem Extends.trans {t u v : StringTables} (h : Extends t u) (h' : Extends u v) : Extends t v :=
  fun name => (h name).trans (h' name)

theorem extends_internCode (name : StringTable) (value : String) :
    Extends tables (internCode tables name value).2 := by
  intro q
  rw [internCode]
  split
  · exact List.prefix_rfl
  · by_cases hq : q = name
    · subst hq
      simp
    · simp [hq]

theorem internCode_of_ne {name q : StringTable} (value : String) (h : q ≠ name) :
    (internCode tables name value).2 q = tables q := by
  rw [internCode]
  split
  · rfl
  · simp [h]

theorem mem_internCode (name : StringTable) (value : String) :
    value ∈ (internCode tables name value).2 name := by
  rw [internCode]
  split
  · assumption
  · simp

theorem Extends.mem {t u : StringTables} (h : Extends t u) {name : StringTable} {value : String}
    (hmem : value ∈ t name) : value ∈ u name :=
  (h name).subset hmem

theorem Extends.idxOf {t u : StringTables} (h : Extends t u) {name : StringTable} {value : String}
    (hmem : value ∈ t name) : (u name).idxOf value = (t name).idxOf value :=
  ((h name).idxOf_eq_of_mem hmem).symm

def Distinct (t : StringTables) : Prop := ∀ name, (t name).Nodup

theorem distinct_internCode (h : Distinct tables) (name : StringTable) (value : String) :
    Distinct (internCode tables name value).2 := by
  intro q
  rw [internCode]
  split
  · exact h q
  · next hnew =>
    by_cases hq : q = name
    · subst hq
      simp only [Function.update_self]
      exact List.nodup_append_comm.mp (List.nodup_cons.mpr ⟨hnew, h q⟩)
    · simpa [hq] using h q

theorem mem_of_internCode {name q : StringTable} {value x : String}
    (h : x ∈ (internCode tables name value).2 q) : x ∈ tables q ∨ (q = name ∧ x = value) := by
  by_cases hq : q = name
  · subst hq
    rw [internCode] at h
    split at h
    · exact .inl h
    · simpa using h
  · rw [internCode_of_ne value hq] at h
    exact .inl h

def Interned (tables : StringTables) (p : Placed) : Prop := ∀ name, p.text name ∈ tables name

def internStrings (p : Placed) (tables : StringTables) (names : List StringTable) : StringTables :=
  names.foldl (fun t name => (internCode t name (p.text name)).2) tables

theorem internContract_eq (p : Placed) :
    internContract tables p.contract = internStrings p tables
      [.exchange, .exchangeSegment, .instrumentType, .instrumentFamily, .optionType,
        .instrumentStatus, .source, .expiryDate, .underlyingSymbol] := rfl

variable (p : Placed) (names : List StringTable)

theorem extends_internStrings (tables : StringTables) :
    Extends tables (internStrings p tables names) := by
  induction names generalizing tables with
  | nil => exact .refl tables
  | cons name names ih => exact (extends_internCode name _).trans (ih _)

theorem distinct_internStrings (h : Distinct tables) : Distinct (internStrings p tables names) := by
  induction names generalizing tables with
  | nil => exact h
  | cons name names ih => exact ih (distinct_internCode h name _)

theorem mem_internStrings {name : StringTable} (h : name ∈ names) :
    p.text name ∈ internStrings p tables names name := by
  induction names generalizing tables with
  | nil => cases h
  | cons q names ih =>
    rcases List.mem_cons.mp h with rfl | h
    · exact (extends_internStrings p names _).mem (mem_internCode name _)
    · exact ih h

theorem mem_of_internStrings {name : StringTable} {x : String}
    (h : x ∈ internStrings p tables names name) : x ∈ tables name ∨ x = p.text name := by
  induction names generalizing tables with
  | nil => exact .inl h
  | cons q names ih =>
    rcases ih h with hmem | hown
    · rcases mem_of_internCode hmem with hold | ⟨rfl, hnew⟩
      · exact .inl hold
      · exact .inr hnew
    · exact .inr hown

theorem extends_internContract : Extends tables (internContract tables p.contract) := by
  rw [internContract_eq]
  exact extends_internStrings p _ tables

theorem distinct_internContract (h : Distinct tables) :
    Distinct (internContract tables p.contract) := by
  rw [internContract_eq]
  exact distinct_internStrings p _ h

theorem interned_internContract : Interned (internContract tables p.contract) p := by
  intro name
  rw [internContract_eq]
  exact mem_internStrings p _ (by cases name <;> decide)

theorem Interned.mono {t u : StringTables} {p : Placed} (h : Interned t p) (he : Extends t u) :
    Interned u p :=
  fun name => he.mem (h name)

theorem record_of_extends {t u : StringTables} {p : Placed} (h : Interned t p)
    (he : Extends t u) : p.record u = p.record t := by
  have hcode : ∀ name, (u name).idxOf (p.text name) = (t name).idxOf (p.text name) :=
    fun name => he.idxOf (h name)
  have h₁ := hcode .exchange
  have h₂ := hcode .exchangeSegment
  have h₃ := hcode .instrumentType
  have h₄ := hcode .instrumentFamily
  have h₅ := hcode .optionType
  have h₆ := hcode .instrumentStatus
  have h₇ := hcode .source
  have h₈ := hcode .expiryDate
  have h₉ := hcode .underlyingSymbol
  simp only [Placed.text] at h₁ h₂ h₃ h₄ h₅ h₆ h₇ h₈ h₉
  simp only [Placed.record, recordOf, h₁, h₂, h₃, h₄, h₅, h₆, h₇, h₈, h₉]

end Interning

/-- The loop of `encode_version` without the files: the bytes of the records from a slot on. -/
def encodeFrom : ℕ → List DhanContract → Encoding → Except StoreError (List UInt8 × Encoding)
  | _, [], e => return ([], e)
  | slot, c :: cs, e => do
    let (bytes, e) ← e.add slot c
    let (rest, e) ← encodeFrom (slot + 1) cs e
    return (bytes ++ rest, e)

def Chained : ℕ → List Placed → Prop
  | _, [] => True
  | offset, p :: ps => p.offset = offset ∧ Chained (offset + p.symbol.length) ps

def pool (ps : List Placed) : List UInt8 := (ps.map Placed.symbol).flatten

/-- The contracts as they are placed, and what the loop from `e` on makes of them. -/
structure Laid (slot : ℕ) (cs : List DhanContract) (e : Encoding) (bytes : List UInt8)
    (e' : Encoding) (ps : List Placed) : Prop where
  contracts : ps.map Placed.contract = cs
  securityId : ∀ p ∈ ps, toInt p.contract.securityId = .ok p.securityId
  underlyingId : ∀ p ∈ ps, underlyingIdOf p.contract = .ok p.underlyingId
  chained : Chained e.poolLen ps
  grown : Extends e.tables e'.tables
  interned : ∀ p ∈ ps, Interned e'.tables p
  distinct : Distinct e.tables → Distinct e'.tables
  records : record.packAll (ps.map fun p => (p.record e'.tables).values) = some bytes
  sec : ∃ b, secIndex.packAll (slotRows (Placed.secRow e'.tables) slot ps) = some b ∧
    e'.sec = e.sec ++ b
  opt : ∃ b, optIndex.packAll (slotRows (Placed.optRow e'.tables) slot ps) = some b ∧
    e'.opt = e.opt ++ b
  sym : ∃ b, symIndex.packAll (slotRows Placed.symRow slot ps) = some b ∧ e'.sym = e.sym ++ b

theorem toInt_eq_ok {s : String} {n : ℤ} : toInt s = .ok n ↔ Text.parseInt s = some n := by
  unfold toInt
  split <;> simp_all

theorem packRow_eq_ok {s : Schema} {row : List ℤ} {bytes : List UInt8} :
    packRow s row = .ok bytes ↔ s.pack row = some bytes := by
  unfold packRow
  split <;> simp_all

theorem add_eq_ok {e e' : Encoding} {slot : ℕ} {c : DhanContract} {bytes : List UInt8}
    (h : e.add slot c = .ok (bytes, e')) :
    ∃ p : Placed, p.contract = c ∧ p.offset = e.poolLen ∧
      toInt c.securityId = .ok p.securityId ∧ underlyingIdOf c = .ok p.underlyingId ∧
      e'.tables = internContract e.tables c ∧ e'.poolLen = e.poolLen + p.symbol.length ∧
      record.pack (p.record e'.tables).values = some bytes ∧
      (∃ b, secIndex.pack (p.secRow e'.tables slot) = some b ∧ e'.sec = e.sec ++ b) ∧
      (∃ b, optIndex.pack (p.optRow e'.tables slot) = some b ∧ e'.opt = e.opt ++ b) ∧
      ∃ b, symIndex.pack (p.symRow slot) = some b ∧ e'.sym = e.sym ++ b := by
  simp only [Encoding.add, bind_eq_ok, pure, Except.pure, Except.ok.injEq, Prod.mk.injEq,
    packRow_eq_ok] at h
  obtain ⟨sid, hsid, uid, huid, r, hr, sec, hsec, opt, hopt, sym, hsym, rfl, rfl⟩ := h
  refine ⟨⟨c, sid, uid, e.poolLen⟩, rfl, rfl, hsid, huid, ?_⟩
  dsimp only
  exact ⟨rfl, rfl, hr, ⟨sec, hsec, rfl⟩, ⟨opt, hopt, rfl⟩, sym, hsym, rfl⟩

theorem laid_of_encodeFrom {slot : ℕ} {cs : List DhanContract} {e e' : Encoding}
    {bytes : List UInt8} (h : encodeFrom slot cs e = .ok (bytes, e')) :
    ∃ ps, Laid slot cs e bytes e' ps := by
  induction cs generalizing slot e bytes with
  | nil =>
    cases h
    have hnone {P : Placed → Prop} : ∀ p ∈ ([] : List Placed), P p := List.forall_mem_nil _
    exact ⟨[], {
      contracts := rfl, securityId := hnone, underlyingId := hnone, chained := trivial
      grown := .refl _, interned := hnone, distinct := id, records := rfl
      sec := ⟨[], rfl, by simp⟩, opt := ⟨[], rfl, by simp⟩, sym := ⟨[], rfl, by simp⟩ }⟩
  | cons c cs ih =>
    simp only [encodeFrom, bind_eq_ok, pure, Except.pure, Except.ok.injEq, Prod.mk.injEq,
      Prod.exists] at h
    obtain ⟨first, e₁, hadd, rest, e₂, hrest, rfl, rfl⟩ := h
    obtain ⟨p, rfl, hoffset, hsid, huid, htables, hpool, hrecord, ⟨b₁, hb₁, hsec₁⟩, ⟨b₂, hb₂, hopt₁⟩,
      b₃, hb₃, hsym₁⟩ := add_eq_ok hadd
    obtain ⟨ps, hps⟩ := ih hrest
    have hinterned : Interned e₁.tables p := htables ▸ interned_internContract p
    have hsame := record_of_extends hinterned hps.grown
    obtain ⟨d₁, hd₁, hsec₂⟩ := hps.sec
    obtain ⟨d₂, hd₂, hopt₂⟩ := hps.opt
    obtain ⟨d₃, hd₃, hsym₂⟩ := hps.sym
    refine ⟨p :: ps, {
      contracts := by simp [hps.contracts]
      securityId := ?_, underlyingId := ?_
      chained := ⟨hoffset, hpool ▸ hps.chained⟩
      grown := .trans (htables ▸ extends_internContract p) hps.grown
      interned := ?_
      distinct := fun hd => hps.distinct (htables ▸ distinct_internContract p hd)
      records := ?_
      sec := ⟨b₁ ++ d₁, ?_, by rw [hsec₂, hsec₁, List.append_assoc]⟩
      opt := ⟨b₂ ++ d₂, ?_, by rw [hopt₂, hopt₁, List.append_assoc]⟩
      sym := ⟨b₃ ++ d₃, ?_, by rw [hsym₂, hsym₁, List.append_assoc]⟩ }⟩
    · exact List.forall_mem_cons.mpr ⟨hsid, hps.securityId⟩
    · exact List.forall_mem_cons.mpr ⟨huid, hps.underlyingId⟩
    · exact List.forall_mem_cons.mpr ⟨hinterned.mono hps.grown, hps.interned⟩
    · rw [List.map_cons, hsame]
      exact Schema.packAll_cons.mpr ⟨_, _, hrecord, hps.records, rfl⟩
    · have hrow : p.secRow e₂.tables slot = p.secRow e₁.tables slot := by
        rw [Placed.secRow, Placed.secRow, hsame]
      rw [slotRows, hrow]
      exact Schema.packAll_cons.mpr ⟨_, _, hb₁, hd₁, rfl⟩
    · have hrow : p.optRow e₂.tables slot = p.optRow e₁.tables slot := by
        rw [Placed.optRow, Placed.optRow, hsame]
      rw [slotRows, hrow]
      exact Schema.packAll_cons.mpr ⟨_, _, hb₂, hd₂, rfl⟩
    · rw [slotRows]
      exact Schema.packAll_cons.mpr ⟨_, _, hb₃, hd₃, rfl⟩

theorem mem_tables_encodeFrom {slot : ℕ} {cs : List DhanContract} {e e' : Encoding}
    {bytes : List UInt8} (h : encodeFrom slot cs e = .ok (bytes, e')) {name : StringTable}
    {x : String} (hx : x ∈ e'.tables name) :
    x ∈ e.tables name ∨ ∃ p : Placed, p.contract ∈ cs ∧ p.text name = x := by
  induction cs generalizing slot e bytes with
  | nil =>
    cases h
    exact .inl hx
  | cons c cs ih =>
    simp only [encodeFrom, bind_eq_ok, pure, Except.pure, Except.ok.injEq, Prod.mk.injEq,
      Prod.exists] at h
    obtain ⟨first, e₁, hadd, rest, e₂, hrest, rfl, rfl⟩ := h
    obtain ⟨p, rfl, -, -, -, htables, -⟩ := add_eq_ok hadd
    rcases ih hrest with hmem | ⟨q, hq, rfl⟩
    · rw [htables, internContract_eq] at hmem
      rcases mem_of_internStrings p _ hmem with hold | rfl
      · exact .inl hold
      · exact .inr ⟨p, List.mem_cons_self, rfl⟩
    · exact .inr ⟨q, List.mem_cons_of_mem _ hq, rfl⟩

theorem symbol_of_pool {ps : List Placed} {offset : ℕ} (h : Chained offset ps)
    (front : List UInt8) (hfront : front.length = offset) {p : Placed} (hp : p ∈ ps) :
    ((front ++ pool ps).drop p.offset).take p.symbol.length = p.symbol := by
  induction ps generalizing offset front with
  | nil => cases hp
  | cons q qs ih =>
    obtain ⟨hq, hqs⟩ := h
    rcases List.mem_cons.mp hp with rfl | hp
    · rw [hq, ← hfront, List.drop_left, pool, List.map_cons, List.flatten_cons, List.take_left]
    · have happend : front ++ pool (q :: qs) = (front ++ q.symbol) ++ pool qs := by
        simp [pool]
      rw [happend]
      exact ih hqs (front ++ q.symbol) (by simp [hfront]) hp

end Trademetrix.Market
