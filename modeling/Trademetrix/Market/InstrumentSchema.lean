import Mathlib.Data.List.GetD
import Trademetrix.Struct

/-!
# The binary schema of the stored instrument master

A schema is the list of its fields' types; `pack` lays a row of integers out
without padding and raises when one is out of the range of its type. Rows of
one schema follow each other in a file, and each is read back at its offset.
-/

namespace Trademetrix.Market

open Struct (bytesLE ofBytesLE)

inductive BinaryType
  | u8 | u16 | u32 | i32
  deriving DecidableEq

namespace BinaryType

def width : BinaryType → ℕ
  | u8 => 1
  | u16 => 2
  | u32 => 4
  | i32 => 4

def signed : BinaryType → Bool
  | i32 => true
  | _ => false

def modulus (t : BinaryType) : ℕ := 256 ^ t.width

def least (t : BinaryType) : ℤ := if t.signed then -(t.modulus / 2 : ℕ) else 0

def Holds (t : BinaryType) (v : ℤ) : Prop := t.least ≤ v ∧ v < t.least + t.modulus

instance (t : BinaryType) (v : ℤ) : Decidable (t.Holds v) := by unfold Holds; infer_instance

def pack (t : BinaryType) (v : ℤ) : Option (List UInt8) :=
  if t.Holds v then some (bytesLE t.width (v % t.modulus).toNat) else none

def unpack (t : BinaryType) (bs : List UInt8) : ℤ :=
  let n := ofBytesLE bs
  if (n : ℤ) < t.least + t.modulus then n else n - t.modulus

theorem modulus_pos (t : BinaryType) : (0 : ℤ) < t.modulus := by cases t <;> decide

theorem least_bounds (t : BinaryType) : t.least ≤ 0 ∧ 0 < t.least + t.modulus := by
  cases t <;> decide

theorem pack_eq_some {t : BinaryType} {v : ℤ} {bs : List UInt8} (h : t.pack v = some bs) :
    bs.length = t.width ∧ t.unpack bs = v := by
  rw [pack] at h
  split at h
  · next hv =>
    cases h
    obtain ⟨hlow, hhigh⟩ := hv
    have hpos := t.modulus_pos
    obtain ⟨hleast, htop⟩ := t.least_bounds
    have hmod : 0 ≤ v % t.modulus := Int.emod_nonneg v hpos.ne'
    have hlt : v % t.modulus < t.modulus := Int.emod_lt_of_pos v hpos
    have hread : ofBytesLE (bytesLE t.width (v % t.modulus).toNat) = (v % t.modulus).toNat := by
      apply Struct.ofBytesLE_bytesLE
      change _ < t.modulus
      omega
    refine ⟨Struct.length_bytesLE _ _, ?_⟩
    rw [unpack, hread, Int.toNat_of_nonneg hmod]
    -- a negative value is stored with the modulus added
    rcases lt_or_ge v 0 with hneg | hnonneg
    · have hv : v % t.modulus = v + t.modulus := by
        rw [← Int.add_emod_right]
        exact Int.emod_eq_of_lt (by omega) (by omega)
      rw [hv, if_neg (by omega)]
      omega
    · have hv : v % t.modulus = v := Int.emod_eq_of_lt hnonneg (by omega)
      rw [hv, if_pos hhigh]
  · cases h

theorem holds_of_pack {t : BinaryType} {v : ℤ} {bs : List UInt8} (h : t.pack v = some bs) :
    t.Holds v := by
  rw [pack] at h
  split at h
  · assumption
  · cases h

end BinaryType

abbrev Schema := List BinaryType

namespace Schema

def size (s : Schema) : ℕ := (s.map BinaryType.width).sum

/-- `none` when a value is out of range, which raises. -/
def pack : Schema → List ℤ → Option (List UInt8)
  | [], [] => some []
  | t :: ts, v :: vs => do
    let b ← t.pack v
    let bs ← pack ts vs
    return b ++ bs
  | _, _ => none

def unpack : Schema → List UInt8 → List ℤ
  | [], _ => []
  | t :: ts, bs => t.unpack (bs.take t.width) :: unpack ts (bs.drop t.width)

/-- The row at an offset; `none` when the buffer ends before it does, which raises. -/
def unpackFrom (s : Schema) (buffer : List UInt8) (offset : ℕ) : Option (List ℤ) :=
  if offset + s.size ≤ buffer.length then some (s.unpack (buffer.drop offset)) else none

theorem pack_eq_some {s : Schema} {vs : List ℤ} {bs : List UInt8} (h : s.pack vs = some bs)
    (more : List UInt8) : bs.length = s.size ∧ s.unpack (bs ++ more) = vs := by
  induction s generalizing vs bs with
  | nil =>
    cases vs with
    | nil =>
      cases h
      exact ⟨rfl, rfl⟩
    | cons v vs => cases h
  | cons t ts ih =>
    cases vs with
    | nil => cases h
    | cons v vs =>
      simp only [pack, Option.bind_eq_bind, Option.bind_eq_some_iff, Option.pure_def,
        Option.some.injEq] at h
      obtain ⟨b, hb, rest, hrest, rfl⟩ := h
      obtain ⟨hlen, hval⟩ := BinaryType.pack_eq_some hb
      obtain ⟨hlens, hvals⟩ := ih hrest
      refine ⟨by simp [size, hlen, hlens], ?_⟩
      have htake : (b ++ rest ++ more).take t.width = b := by
        rw [List.append_assoc, ← hlen, List.take_left]
      have hdrop : (b ++ rest ++ more).drop t.width = rest ++ more := by
        rw [List.append_assoc, ← hlen, List.drop_left]
      rw [unpack, htake, hdrop, hval, hvals]

def packAll (s : Schema) (rows : List (List ℤ)) : Option (List UInt8) :=
  (rows.mapM s.pack).map List.flatten

theorem packAll_cons {s : Schema} {row : List ℤ} {rows : List (List ℤ)} {bs : List UInt8} :
    s.packAll (row :: rows) = some bs ↔
      ∃ b rest, s.pack row = some b ∧ s.packAll rows = some rest ∧ bs = b ++ rest := by
  simp only [packAll, List.mapM_cons, Option.bind_eq_bind, Option.pure_def, Option.map_eq_some_iff,
    Option.bind_eq_some_iff, Option.some.injEq]
  constructor
  · rintro ⟨_, ⟨b, hb, bs', hrest, rfl⟩, rfl⟩
    exact ⟨b, bs'.flatten, hb, ⟨bs', hrest, rfl⟩, List.flatten_cons⟩
  · rintro ⟨b, _, hb, ⟨bs', hrest, rfl⟩, rfl⟩
    exact ⟨b :: bs', ⟨b, hb, bs', hrest, rfl⟩, List.flatten_cons⟩

theorem pack_of_packAll {s : Schema} {rows : List (List ℤ)} {bs : List UInt8}
    (h : s.packAll rows = some bs) {row : List ℤ} (hrow : row ∈ rows) : ∃ b, s.pack row = some b := by
  induction rows generalizing bs with
  | nil => cases hrow
  | cons first rows ih =>
    obtain ⟨b, rest, hb, hrest, -⟩ := packAll_cons.mp h
    rcases List.mem_cons.mp hrow with rfl | hrow
    · exact ⟨b, hb⟩
    · exact ih hrest hrow

theorem packAll_eq_some {s : Schema} {rows : List (List ℤ)} {bs : List UInt8}
    (h : s.packAll rows = some bs) :
    bs.length = rows.length * s.size ∧ ∀ (front : List UInt8) (k : ℕ) (row : List ℤ),
      rows[k]? = some row →
        s.unpackFrom (front ++ bs) (front.length + k * s.size) = some row := by
  induction rows generalizing bs with
  | nil =>
    cases h
    exact ⟨by simp, fun _ _ _ hrow => by simp at hrow⟩
  | cons row rows ih =>
    obtain ⟨b, rest, hb, hrest, rfl⟩ := packAll_cons.mp h
    obtain ⟨hlen, hval⟩ := pack_eq_some hb rest
    obtain ⟨hlens, hvals⟩ := ih hrest
    refine ⟨by simp only [List.length_append, hlen, hlens, List.length_cons]; ring, ?_⟩
    intro front k r hr
    cases k with
    | zero =>
      cases hr
      rw [unpackFrom, zero_mul, add_zero, List.drop_left, hval, if_pos]
      simp [hlen]
    | succ k =>
      have hshift : front.length + (k + 1) * s.size = (front ++ b).length + k * s.size := by
        rw [List.length_append, hlen]
        ring
      rw [hshift, ← List.append_assoc]
      exact hvals (front ++ b) k r hr

end Schema

/-- The fields of a record, in the order of `RECORD`. -/
structure Record where
  securityId : ℤ
  exchangeCode : ℤ
  exchangeSegmentCode : ℤ
  instrumentTypeCode : ℤ
  instrumentFamilyCode : ℤ
  optionTypeCode : ℤ
  instrumentStatusCode : ℤ
  sourceCode : ℤ
  lotSize : ℤ
  strikeScaled : ℤ
  tickScaled : ℤ
  expiryId : ℤ
  underlyingId : ℤ
  underlyingSecurityId : ℤ
  tradingSymbolOffset : ℤ
  tradingSymbolLength : ℤ
  deriving DecidableEq

def record : Schema :=
  [.u32, .u8, .u8, .u8, .u8, .u8, .u8, .u8, .u32, .i32, .i32, .u16, .u16, .u32, .u32, .u16]

def secIndex : Schema := [.u8, .u8, .u32, .u32]

def symIndex : Schema := [.u32, .u16, .u32]

/-- Underlying, expiry, scaled strike, option type code, slot. -/
def optIndex : Schema := [.u16, .u16, .i32, .u8, .u32]

example : record.size = 37 ∧ secIndex.size = 10 ∧ symIndex.size = 10 ∧ optIndex.size = 13 := by
  decide

def Record.values (x : Record) : List ℤ :=
  [x.securityId, x.exchangeCode, x.exchangeSegmentCode, x.instrumentTypeCode,
    x.instrumentFamilyCode, x.optionTypeCode, x.instrumentStatusCode, x.sourceCode, x.lotSize,
    x.strikeScaled, x.tickScaled, x.expiryId, x.underlyingId, x.underlyingSecurityId,
    x.tradingSymbolOffset, x.tradingSymbolLength]

/-- `dict(zip(names, raw))`. -/
def Record.ofValues : List ℤ → Option Record
  | [securityId, exchange, segment, type, family, optionType, status, source, lot, strike, tick,
      expiry, underlying, underlyingId, offset, length] =>
    some ⟨securityId, exchange, segment, type, family, optionType, status, source, lot, strike,
      tick, expiry, underlying, underlyingId, offset, length⟩
  | _ => none

@[simp] theorem Record.ofValues_values (x : Record) : Record.ofValues x.values = some x := rfl

end Trademetrix.Market
