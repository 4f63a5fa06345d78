import Mathlib.Data.List.Basic
import Mathlib.Tactic.NormNum
import Mathlib.Tactic.Ring

/-!
# Packed binary records

The little-endian formats of Python's `struct` module, without padding: a format
is a list of codes, its tuples are typed by it, `pack` lays a tuple out and
`unpack` reads one from exactly `calcsize` bytes. What is packed is read back.
-/

namespace Trademetrix.Struct

/-- The `w` low bytes of a number, least significant first. -/
def bytesLE : ℕ → ℕ → List UInt8
  | 0, _ => []
  | w + 1, n => UInt8.ofNat n :: bytesLE w (n / 256)

def ofBytesLE : List UInt8 → ℕ
  | [] => 0
  | b :: bs => b.toNat + 256 * ofBytesLE bs

@[simp] theorem length_bytesLE (w n : ℕ) : (bytesLE w n).length = w := by
  induction w generalizing n with
  | zero => rfl
  | succ w ih => simp [bytesLE, ih]

theorem ofBytesLE_bytesLE {w n : ℕ} (h : n < 256 ^ w) : ofBytesLE (bytesLE w n) = n := by
  induction w generalizing n with
  | zero =>
    have hn : n = 0 := by simpa using h
    rw [hn]
    rfl
  | succ w ih =>
    have hdiv : n / 256 < 256 ^ w := by
      rw [Nat.div_lt_iff_lt_mul (by norm_num)]
      rwa [pow_succ] at h
    simp only [bytesLE, ofBytesLE, ih hdiv, UInt8.toNat_ofNat']
    omega

/-- The format characters; `f` reads the bits of a single-precision float. -/
inductive Code
  | B
  | H
  | I
  | f
  | s (n : ℕ)

namespace Code

def size : Code → ℕ
  | B => 1
  | H => 2
  | I => 4
  | f => 4
  | s n => n

abbrev Val : Code → Type
  | B => UInt8
  | H => UInt16
  | I => UInt32
  | f => UInt32
  | s n => {bs : List UInt8 // bs.length = n}

def pack : (c : Code) → c.Val → List UInt8
  | B, v => [v]
  | H, v => bytesLE 2 v.toNat
  | I, v => bytesLE 4 v.toNat
  | f, v => bytesLE 4 v.toNat
  | s _, v => v.val

def unpack : (c : Code) → (bs : List UInt8) → bs.length = c.size → c.Val
  | B, bs, h => bs.head (List.ne_nil_of_length_pos (by rw [h]; exact Nat.one_pos))
  | H, bs, _ => UInt16.ofNat (ofBytesLE bs)
  | I, bs, _ => UInt32.ofNat (ofBytesLE bs)
  | f, bs, _ => UInt32.ofNat (ofBytesLE bs)
  | s _, bs, h => ⟨bs, h⟩

@[simp] theorem length_pack (c : Code) (v : c.Val) : (c.pack v).length = c.size := by
  cases c with
  | B => rfl
  | H | I | f => exact length_bytesLE _ _
  | s n => exact v.property

theorem unpack_pack (c : Code) (v : c.Val) : c.unpack (c.pack v) (length_pack c v) = v := by
  cases c with
  | B => rfl
  | H =>
    have hv : v.toNat < 256 ^ 2 := v.toNat_lt
    simp [unpack, pack, ofBytesLE_bytesLE hv]
  | I | f =>
    have hv : v.toNat < 256 ^ 4 := v.toNat_lt
    simp [unpack, pack, ofBytesLE_bytesLE hv]
  | s n => rfl

end Code

@[reducible] def Tuple : List Code → Type
  | [] => Unit
  | c :: cs => c.Val × Tuple cs

def calcsize (cs : List Code) : ℕ := (cs.map Code.size).sum

@[simp] theorem calcsize_nil : calcsize [] = 0 := rfl

@[simp] theorem calcsize_cons (c : Code) (cs : List Code) :
    calcsize (c :: cs) = c.size + calcsize cs := rfl

def pack : (cs : List Code) → Tuple cs → List UInt8
  | [], _ => []
  | c :: cs, t => c.pack t.1 ++ pack cs t.2

/-- `none` when the bytes are not exactly as many as the format takes, which raises. -/
def unpack : (cs : List Code) → List UInt8 → Option (Tuple cs)
  | [], [] => some ()
  | [], _ :: _ => none
  | c :: cs, bs =>
    if h : c.size ≤ bs.length then
      (unpack cs (bs.drop c.size)).map fun t =>
        (c.unpack (bs.take c.size) (List.length_take_of_le h), t)
    else none

@[simp] theorem length_pack (cs : List Code) (t : Tuple cs) : (pack cs t).length = calcsize cs := by
  induction cs with
  | nil => rfl
  | cons c cs ih => simp [pack, ih]

theorem unpack_pack (cs : List Code) (t : Tuple cs) : unpack cs (pack cs t) = some t := by
  induction cs with
  | nil => rfl
  | cons c cs ih =>
    obtain ⟨v, t⟩ := t
    have hle : c.size ≤ (pack (c :: cs) (v, t)).length := by simp
    have hdrop : (pack (c :: cs) (v, t)).drop c.size = pack cs t :=
      List.drop_left' (Code.length_pack c v)
    have htake : (pack (c :: cs) (v, t)).take c.size = c.pack v :=
      List.take_left' (Code.length_pack c v)
    rw [unpack, dif_pos hle, hdrop, ih t]
    simp only [Option.map_some, htake, Code.unpack_pack]

theorem unpack_take_pack (cs : List Code) (t : Tuple cs) (extra : List UInt8) :
    unpack cs ((pack cs t ++ extra).take (calcsize cs)) = some t := by
  rw [List.take_left' (length_pack cs t)]
  exact unpack_pack cs t

end Trademetrix.Struct
