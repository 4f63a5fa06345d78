import Mathlib.Data.Nat.Log
import Mathlib.Data.Rat.Floor
import Mathlib.Data.List.DropRight
import Mathlib.Data.List.Infix

/-!
# Text as Python computes it

Case mapping, stripping, substring tests and `%g` formatting, character by
character. The tables list the characters whose mapped form contains an ASCII
letter; the mapped form of any other character contains none and is left as it
is, which no test against an ASCII word can tell apart.
-/

namespace Trademetrix.Text

instance lawfulKey : LawfulBEq (String × String) := inferInstance

/-- `str.lower` of one character. -/
def lowerChar (c : Char) : List Char :=
  if 'A' ≤ c ∧ c ≤ 'Z' then [Char.ofNat (c.toNat + 32)]
  else if c.toNat = 0x212A then ['k']
  else if c.toNat = 0x0130 then ['i', Char.ofNat 0x0307]
  else [c]

/-- `str.upper` of one character. -/
def upperChar (c : Char) : List Char :=
  if 'a' ≤ c ∧ c ≤ 'z' then [Char.ofNat (c.toNat - 32)]
  else match c.toNat with
    | 0x00DF => ['S', 'S']
    | 0x0131 => ['I']
    | 0x017F => ['S']
    | 0x0149 => [Char.ofNat 0x02BC, 'N']
    | 0x01F0 => ['J', Char.ofNat 0x030C]
    | 0x1E96 => ['H', Char.ofNat 0x0331]
    | 0x1E97 => ['T', Char.ofNat 0x0308]
    | 0x1E98 => ['W', Char.ofNat 0x030A]
    | 0x1E99 => ['Y', Char.ofNat 0x030A]
    | 0x1E9A => ['A', Char.ofNat 0x02BE]
    | 0xFB00 => ['F', 'F']
    | 0xFB01 => ['F', 'I']
    | 0xFB02 => ['F', 'L']
    | 0xFB03 => ['F', 'F', 'I']
    | 0xFB04 => ['F', 'F', 'L']
    | 0xFB05 | 0xFB06 => ['S', 'T']
    | _ => [c]

def lower (s : String) : String := String.ofList (s.toList.flatMap lowerChar)

def upper (s : String) : String := String.ofList (s.toList.flatMap upperChar)

/-- `str.isspace` of one character. -/
def isSpace (c : Char) : Bool :=
  let n := c.toNat
  (9 ≤ n && n ≤ 13) || (28 ≤ n && n ≤ 32) || n == 0x85 || n == 0xA0 || n == 0x1680 ||
    (0x2000 ≤ n && n ≤ 0x200A) || n == 0x2028 || n == 0x2029 || n == 0x202F || n == 0x205F ||
    n == 0x3000

def strip (s : String) : String :=
  String.ofList (((s.toList.dropWhile isSpace).reverse.dropWhile isSpace).reverse)

theorem strip_strip (s : String) : strip (strip s) = strip s := by
  let middle := s.toList.dropWhile isSpace
  have hstrip : ∀ t, (strip t).toList = (t.toList.dropWhile isSpace).rdropWhile isSpace := by
    intro t
    rw [strip, String.toList_ofList]
    rfl
  -- what is left at the right is a front part of what has no blank at its left
  have hleft : (middle.rdropWhile isSpace).dropWhile isSpace = middle.rdropWhile isSpace := by
    rw [List.dropWhile_eq_self_iff]
    intro hpos
    have hmiddle := List.dropWhile_eq_self_iff.mp (List.dropWhile_idempotent isSpace s.toList)
    have hfront := List.rdropWhile_prefix isSpace middle
    rw [hfront.getElem hpos]
    exact hmiddle _
  apply String.toList_inj.mp
  rw [hstrip, hstrip, hleft, List.rdropWhile_idempotent]

/-- `needle in hay`. -/
def contains (hay needle : String) : Bool := decide (needle.toList <:+: hay.toList)

def startsWith (s start : String) : Bool := decide (start.toList <+: s.toList)

def decimalZeros : List ℕ :=
  [0x30, 0x660, 0x6F0, 0x7C0, 0x966, 0x9E6, 0xA66, 0xAE6, 0xB66, 0xBE6, 0xC66, 0xCE6, 0xD66, 0xDE6,
  0xE50, 0xED0, 0xF20, 0x1040, 0x1090, 0x17E0, 0x1810, 0x1946, 0x19D0, 0x1A80, 0x1A90, 0x1B50,
  0x1BB0, 0x1C40, 0x1C50, 0xA620, 0xA8D0, 0xA900, 0xA9D0, 0xA9F0, 0xAA50, 0xABF0, 0xFF10, 0x104A0,
  0x10D30, 0x11066, 0x110F0, 0x11136, 0x111D0, 0x112F0, 0x11450, 0x114D0, 0x11650, 0x116C0, 0x11730,
  0x118E0, 0x11950, 0x11C50, 0x11D50, 0x11DA0, 0x11F50, 0x16A60, 0x16AC0, 0x16B50, 0x1D7CE, 0x1D7D8,
  0x1D7E2, 0x1D7EC, 0x1D7F6, 0x1E140, 0x1E2F0, 0x1E4F0, 0x1E950, 0x1FBF0]

/-- The first and last of the other characters `str.isdigit` accepts. -/
def otherDigits : List (ℕ × ℕ) :=
  [(0xB2, 0xB3), (0xB9, 0xB9), (0x1369, 0x1371), (0x19DA, 0x19DA), (0x2070, 0x2070),
  (0x2074, 0x2079), (0x2080, 0x2089), (0x2460, 0x2468), (0x2474, 0x247C), (0x2488, 0x2490),
  (0x24EA, 0x24EA), (0x24F5, 0x24FD), (0x24FF, 0x24FF), (0x2776, 0x277E), (0x2780, 0x2788),
  (0x278A, 0x2792), (0x10A40, 0x10A43), (0x10E60, 0x10E68), (0x11052, 0x1105A), (0x1F100, 0x1F10A)]

/-- The value `int` reads a character as. -/
def decimal (c : Char) : Option ℕ :=
  (decimalZeros.find? fun z => decide (z ≤ c.toNat ∧ c.toNat < z + 10)).map (c.toNat - ·)

def isDigit (s : String) : Bool :=
  !s.isEmpty && s.toList.all fun c =>
    (decimal c).isSome || otherDigits.any fun r => decide (r.1 ≤ c.toNat ∧ c.toNat ≤ r.2)

def digitsOf : List Char → Option (List ℕ)
  | [] => none
  | [c] => (decimal c).map fun d => [d]
  | c :: '_' :: cs => do
    let d ← decimal c
    let ds ← digitsOf cs
    return d :: ds
  | c :: cs => do
    let d ← decimal c
    let ds ← digitsOf cs
    return d :: ds

/-- The most digits `int` reads. -/
def maxDigits : ℕ := 4300

def natOf (cs : List Char) : Option ℕ :=
  (digitsOf cs).bind fun ds =>
    if ds.length ≤ maxDigits then some (ds.foldl (fun n d => 10 * n + d) 0) else none

/-- `int(s)`; `none` is a `ValueError`. -/
def parseInt (s : String) : Option ℤ :=
  match (strip s).toList with
  | '-' :: cs => (natOf cs).map fun n => -(n : ℤ)
  | '+' :: cs => (natOf cs).map fun n => (n : ℤ)
  | cs => (natOf cs).map fun n => (n : ℤ)

/-- `int(s, 16)` of lower-case hexadecimal digits. -/
def parseHex (s : String) : Option ℕ :=
  s.toList.foldlM (fun n c =>
    if '0' ≤ c ∧ c ≤ '9' then some (16 * n + (c.toNat - 48))
    else if 'a' ≤ c ∧ c ≤ 'f' then some (16 * n + (c.toNat - 87))
    else none) 0

theorem decimal_digit {c : Char} (h : c.isDigit = true) : decimal c = some (c.toNat - 48) := by
  have hbounds : 48 ≤ c.toNat ∧ c.toNat < 48 + 10 := by
    simp only [Char.isDigit, Bool.and_eq_true, decide_eq_true_eq] at h
    have h1 : 48 ≤ c.toNat := h.1
    have h2 : c.toNat ≤ 57 := h.2
    omega
  simp [decimal, decimalZeros, hbounds]

theorem decimal_of_isDigit {c : Char} (h : c.isDigit = true) : (decimal c).isSome = true := by
  rw [decimal_digit h]
  rfl

theorem isDigit_toString (n : ℕ) : isDigit (toString n) = true := by
  have hlist : (toString n).toList = Nat.toDigits 10 n := Nat.toList_repr
  have hne : (toString n).isEmpty = false := by
    rw [← Bool.not_eq_true, String.isEmpty_iff]
    intro hempty
    rw [hempty] at hlist
    exact Nat.toDigits_ne_nil hlist.symm
  rw [isDigit, hne, hlist]
  simp only [Bool.not_false, Bool.true_and, List.all_eq_true]
  intro c hc
  have hdigit := Nat.isDigit_of_mem_toDigits (by decide) (by decide) hc
  rw [decimal_of_isDigit hdigit, Bool.true_or]

theorem startsWith_iff (s start : String) :
    startsWith s start = true ↔ start.toList <+: s.toList := by
  simp [startsWith]

theorem contains_iff (hay needle : String) :
    contains hay needle = true ↔ needle.toList <:+: hay.toList := by
  simp [contains]

@[simp] theorem toList_lower (s : String) : (lower s).toList = s.toList.flatMap lowerChar := by
  simp [lower]

theorem lower_append (s t : String) : lower (s ++ t) = lower s ++ lower t := by
  apply String.toList_inj.mp
  simp

theorem append_ne_empty {s : String} (h : s ≠ "") (t : String) : s ++ t ≠ "" := by
  intro he
  have hlist : s.toList ++ t.toList = [] := by rw [← String.toList_append, he, String.toList_empty]
  exact h (String.toList_inj.mp (by simpa using (List.append_eq_nil_iff.mp hlist).1))

theorem contains_append_left {s t needle : String} (h : contains s needle = true) :
    contains (s ++ t) needle = true := by
  rw [contains_iff] at h ⊢
  rw [String.toList_append]
  exact h.trans (List.prefix_append _ _).isInfix

/-- `repr` of a text without control characters. -/
def reprText (s : String) : String :=
  let quote : Char := if contains s "'" && !contains s "\"" then '"' else '\''
  let body := s.toList.flatMap fun c => if c = '\\' ∨ c = quote then ['\\', c] else [c]
  String.ofList (quote :: (body ++ [quote]))

/-- The decimal exponent of a positive rational: `10 ^ e ≤ a < 10 ^ (e + 1)`. -/
def decimalExponent (a : ℚ) : ℤ :=
  if 1 ≤ a then Nat.log 10 ⌊a⌋.toNat else -(Nat.clog 10 ⌈a⁻¹⌉.toNat)

def roundHalfEven (x : ℚ) : ℤ :=
  let f := ⌊x⌋
  let r := x - f
  if r < 1 / 2 then f
  else if 1 / 2 < r then f + 1
  else if f % 2 = 0 then f else f + 1

/-- `round(x, 2)`. -/
def round2 (x : ℚ) : ℚ := roundHalfEven (x * 100) / 100

def dropTrailingZeros (s : List Char) : List Char :=
  let t := (s.reverse.dropWhile (· = '0')).reverse
  match t.reverse with
  | '.' :: r => r.reverse
  | _ => t

/-- Digits of `m` with a point after the first `k` of them. -/
def pointed (digits : List Char) (k : ℕ) : List Char :=
  dropTrailingZeros (digits.take k ++ '.' :: digits.drop k)

/-- `f"{x:g}"`: six significant digits, without trailing zeros. -/
def formatG (x : ℚ) : String :=
  if x = 0 then "0"
  else
    let a := |x|
    let e₀ := decimalExponent a
    let m₀ := roundHalfEven (a * (10 : ℚ) ^ (5 - e₀))
    let e := if m₀ = 1000000 then e₀ + 1 else e₀
    let m := if m₀ = 1000000 then 100000 else m₀
    let digits := (toString m.toNat).toList
    let body :=
      if -4 ≤ e ∧ e < 6 then
        if 0 ≤ e then pointed digits (e.toNat + 1)
        else dropTrailingZeros ('0' :: '.' :: (List.replicate ((-e).toNat - 1) '0' ++ digits))
      else
        let k := e.natAbs
        let pad := if k < 10 then ['0'] else []
        pointed digits 1 ++ 'e' :: (if e < 0 then '-' else '+') :: (pad ++ (toString k).toList)
    String.ofList (if x < 0 then '-' :: body else body)

section Join

def pieces (c : Char) (ps : List String) : List (List Char) :=
  ps.flatMap fun s => s.toList.splitOn c

theorem splitOn_intercalate (c : Char) {ls : List (List Char)} (h : ls ≠ []) :
    ([c].intercalate ls).splitOn c = ls.flatMap (List.splitOn c) := by
  induction ls with
  | nil => exact absurd rfl h
  | cons l ls ih =>
    cases ls with
    | nil => simp
    | cons m ms =>
      rw [List.intercalate_cons_cons, List.append_assoc, List.singleton_append,
        List.splitOn_append_cons_self, ih (List.cons_ne_nil m ms)]
      rfl

theorem join_inj (c : Char) {ps qs : List String} (hp : ps ≠ []) (hq : qs ≠ []) :
    (String.singleton c).intercalate ps = (String.singleton c).intercalate qs ↔
      pieces c ps = pieces c qs := by
  have hlist : ∀ {rs : List String}, ((String.singleton c).intercalate rs).toList =
      [c].intercalate (rs.map String.toList) := by
    intro rs
    rw [String.toList_intercalate, String.toList_singleton]
  have hsplit : ∀ {rs : List String}, rs ≠ [] →
      ((String.singleton c).intercalate rs).toList.splitOn c = pieces c rs := by
    intro rs hrs
    rw [hlist, splitOn_intercalate c (by simpa using hrs), List.flatMap_map, pieces]
  constructor
  · intro h
    rw [← hsplit hp, ← hsplit hq, h]
  · intro h
    apply String.toList_inj.mp
    have hsame : ((String.singleton c).intercalate ps).toList.splitOn c =
        ((String.singleton c).intercalate qs).toList.splitOn c := by
      rw [hsplit hp, hsplit hq, h]
    have hback := congrArg ([c].intercalate ·) hsame
    simpa only [List.intercalate_splitOn] using hback

end Join

section Replace

/-- `str.replace` on characters, with how many of an occurrence are still to be passed. -/
def replaceGo (old new : List Char) : ℕ → List Char → List Char
  | _, [] => []
  | k + 1, _ :: cs => replaceGo old new k cs
  | 0, c :: cs =>
    if old <+: c :: cs then new ++ replaceGo old new (old.length - 1) cs
    else c :: replaceGo old new 0 cs

/-- `s.replace(old, new)` for a text `old` that is not empty. -/
def replace (s old new : String) : String := String.ofList (replaceGo old.toList new.toList 0 s.toList)

variable {old new o cs ds : List Char} {c : Char}

theorem not_prefix_of_not_mem (h : c ∉ ds) : ¬ o ++ [c] <+: ds := fun hfront =>
  h (hfront.mem (List.mem_append_right _ List.mem_cons_self))

theorem replaceGo_of_not_mem (h : c ∉ ds) : replaceGo (o ++ [c]) new 0 ds = ds := by
  induction ds with
  | nil => rfl
  | cons d ds ih =>
    rw [replaceGo, if_neg (not_prefix_of_not_mem h), ih fun hd => h (List.mem_cons_of_mem _ hd)]

theorem prefix_append_iff (h : c ∉ ds) : o ++ [c] <+: cs ++ ds ↔ o ++ [c] <+: cs := by
  refine ⟨fun hboth => ?_, fun hfront => hfront.trans (List.prefix_append _ _)⟩
  rcases List.prefix_or_prefix_of_prefix hboth (List.prefix_append cs ds) with hfront | ⟨rest, hrest⟩
  · exact hfront
  · rw [← hrest, List.prefix_append_right_inj] at hboth
    rcases List.eq_nil_or_concat rest with rfl | ⟨front, last, rfl⟩
    · rw [← hrest, List.append_nil]
    · rw [List.concat_eq_append] at hboth hrest
      rw [← List.append_assoc] at hrest
      have hlast : last = c := by simpa using (List.append_inj' hrest rfl).2
      exact absurd (hlast ▸ hboth) (not_prefix_of_not_mem h)

theorem replaceGo_append (h : c ∉ ds) {k : ℕ} (hk : k ≤ cs.length) :
    replaceGo (o ++ [c]) new k (cs ++ ds) = replaceGo (o ++ [c]) new k cs ++ ds := by
  induction cs generalizing k with
  | nil =>
    rw [Nat.le_zero.mp hk]
    exact replaceGo_of_not_mem h
  | cons d cs ih =>
    cases k with
    | succ k => exact ih (Nat.le_of_succ_le_succ hk)
    | zero =>
      have hsame : o ++ [c] <+: d :: (cs ++ ds) ↔ o ++ [c] <+: d :: cs := by
        rw [← List.cons_append]
        exact prefix_append_iff h
      rw [List.cons_append, replaceGo, replaceGo]
      by_cases hat : o ++ [c] <+: d :: cs
      · rw [if_pos hat, if_pos (hsame.mpr hat)]
        have hlen : (o ++ [c]).length - 1 ≤ cs.length := by
          have hle := hat.length_le
          rw [List.length_cons] at hle
          omega
        rw [ih hlen, List.append_assoc]
      · rw [if_neg hat, if_neg (mt hsame.mp hat), ih (Nat.zero_le _), List.cons_append]

end Replace

end Trademetrix.Text
