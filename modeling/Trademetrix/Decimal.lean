import Trademetrix.Text
import Mathlib.Algebra.Order.Floor.Ring
import Mathlib.Data.List.TakeWhile
import Mathlib.Algebra.Order.Field.Power
import Mathlib.Data.Sign.Basic
import Mathlib.Tactic.FieldSimp
import Mathlib.Tactic.Linarith
import Mathlib.Tactic.Positivity
import Mathlib.Tactic.Ring

/-!
# Numbers to six significant digits

What `%g` prints of a number is the number to six significant digits: reading the text
back gives that number, and two numbers print alike exactly when it is the same.
-/

namespace Trademetrix.Text

section Rounding

theorem decimalExponent_spec {a : ℚ} (ha : 0 < a) :
    (10 : ℚ) ^ decimalExponent a ≤ a ∧ a < 10 ^ (decimalExponent a + 1) := by
  unfold decimalExponent
  split
  · next h =>
    have hpos : ⌊a⌋.toNat ≠ 0 := by
      have hone : 1 ≤ ⌊a⌋ := Int.le_floor.mpr (by exact_mod_cast h)
      omega
    have hfloor : ((⌊a⌋.toNat : ℕ) : ℚ) = ⌊a⌋ := by
      have hnonneg : 0 ≤ ⌊a⌋ := Int.floor_nonneg.mpr ha.le
      exact_mod_cast Int.toNat_of_nonneg hnonneg
    constructor
    · have hle : ((10 ^ Nat.log 10 ⌊a⌋.toNat : ℕ) : ℚ) ≤ (⌊a⌋.toNat : ℕ) :=
        Nat.cast_le.mpr (Nat.pow_log_le_self 10 hpos)
      rw [hfloor] at hle
      rw [zpow_natCast]
      exact_mod_cast hle.trans (Int.floor_le a)
    · have hlt : ⌊a⌋.toNat + 1 ≤ 10 ^ (Nat.log 10 ⌊a⌋.toNat + 1) :=
        Nat.lt_pow_succ_log_self (by norm_num) _
      have hcast : (⌊a⌋ : ℚ) + 1 ≤ 10 ^ (Nat.log 10 ⌊a⌋.toNat + 1) := by
        rw [← hfloor]
        exact_mod_cast hlt
      have hnext : ((10 : ℚ) ^ ((Nat.log 10 ⌊a⌋.toNat : ℤ) + 1)) =
          10 ^ (Nat.log 10 ⌊a⌋.toNat + 1) := by
        exact_mod_cast zpow_natCast (10 : ℚ) (Nat.log 10 ⌊a⌋.toNat + 1)
      rw [hnext]
      exact (Int.lt_floor_add_one a).trans_le hcast
  · next h =>
    have hlt : a < 1 := not_le.mp h
    have hinv : 1 < a⁻¹ := (one_lt_inv₀ ha).mpr hlt
    have hceil : ((⌈a⁻¹⌉.toNat : ℕ) : ℚ) = ⌈a⁻¹⌉ := by
      have hnonneg : 0 ≤ ⌈a⁻¹⌉ := Int.ceil_nonneg (inv_pos.mpr ha).le
      exact_mod_cast Int.toNat_of_nonneg hnonneg
    have hbig : 1 < ⌈a⁻¹⌉.toNat := by
      have hone : 1 < ⌈a⁻¹⌉ := Int.lt_ceil.mpr (by exact_mod_cast hinv)
      omega
    constructor
    · have hle : ⌈a⁻¹⌉.toNat ≤ 10 ^ Nat.clog 10 ⌈a⁻¹⌉.toNat := Nat.le_pow_clog (by norm_num) _
      have hcast : a⁻¹ ≤ 10 ^ Nat.clog 10 ⌈a⁻¹⌉.toNat := by
        refine (Int.le_ceil a⁻¹).trans ?_
        rw [← hceil]
        exact_mod_cast hle
      rw [zpow_neg, zpow_natCast]
      exact inv_le_of_inv_le₀ ha hcast
    · have hpow : 10 ^ (Nat.clog 10 ⌈a⁻¹⌉.toNat - 1) < ⌈a⁻¹⌉.toNat :=
        Nat.pow_pred_clog_lt_self (by norm_num) hbig
      have hpos : 0 < Nat.clog 10 ⌈a⁻¹⌉.toNat := Nat.clog_pos (by norm_num) hbig
      have hcast : (10 : ℚ) ^ (Nat.clog 10 ⌈a⁻¹⌉.toNat - 1) < a⁻¹ := by
        have hz : ((10 ^ (Nat.clog 10 ⌈a⁻¹⌉.toNat - 1) : ℕ) : ℤ) < ⌈a⁻¹⌉ := by omega
        have hreal := Int.lt_ceil.mp hz
        push_cast at hreal
        exact hreal
      have hexp : -(Nat.clog 10 ⌈a⁻¹⌉.toNat : ℤ) + 1 =
          -((Nat.clog 10 ⌈a⁻¹⌉.toNat - 1 : ℕ) : ℤ) := by omega
      rw [hexp, zpow_neg, zpow_natCast]
      exact (lt_inv_comm₀ (by positivity) ha).mp hcast

theorem roundHalfEven_mem {x : ℚ} {m n : ℤ} (hm : (m : ℚ) ≤ x) (hn : x < n) :
    m ≤ roundHalfEven x ∧ roundHalfEven x ≤ n := by
  have hlow : m ≤ ⌊x⌋ := Int.le_floor.mpr hm
  have hhigh : ⌊x⌋ < n := Int.floor_lt.mpr hn
  unfold roundHalfEven
  simp only
  split_ifs <;> omega

@[simp] theorem roundHalfEven_intCast (n : ℤ) : roundHalfEven n = n := by
  simp [roundHalfEven]

theorem abs_roundHalfEven_sub_le (x : ℚ) : |(roundHalfEven x : ℚ) - x| ≤ 1 / 2 := by
  have hlo := Int.floor_le x
  have hhi := Int.lt_floor_add_one x
  unfold roundHalfEven
  dsimp only
  rw [abs_le]
  split
  · constructor <;> linarith
  · next h₁ =>
    split
    · push_cast
      constructor <;> linarith
    · next h₂ =>
      have heq : x - ⌊x⌋ = 1 / 2 := le_antisymm (not_lt.mp h₂) (not_lt.mp h₁)
      split
      · constructor <;> linarith
      · push_cast
        constructor <;> linarith

theorem abs_round2_sub_le (x : ℚ) : |round2 x - x| ≤ 1 / 200 := by
  have h := abs_le.mp (abs_roundHalfEven_sub_le (x * 100))
  unfold round2
  rw [abs_le]
  constructor <;> linarith [h.1, h.2]

theorem roundHalfEven_le_iff {x : ℚ} {n : ℤ} :
    roundHalfEven x ≤ n ↔ x < n + 1 / 2 ∨ x = n + 1 / 2 ∧ n % 2 = 0 := by
  have hlow := Int.floor_le x
  have hhigh := Int.lt_floor_add_one x
  unfold roundHalfEven
  dsimp only
  rcases lt_trichotomy ⌊x⌋ n with hlt | heq | hgt
  · have hcast : (⌊x⌋ : ℚ) + 1 ≤ n := by exact_mod_cast hlt
    refine iff_of_true ?_ (.inl (by linarith))
    split_ifs <;> omega
  · subst heq
    constructor
    · intro h
      by_cases hhalf : x - ⌊x⌋ < 1 / 2
      · exact .inl (by linarith)
      · rw [if_neg hhalf] at h
        by_cases hmore : 1 / 2 < x - ⌊x⌋
        · rw [if_pos hmore] at h
          omega
        · rw [if_neg hmore] at h
          refine .inr ⟨by linarith, ?_⟩
          by_contra hodd
          rw [if_neg hodd] at h
          omega
    · rintro (h | ⟨h, heven⟩)
      · rw [if_pos (by linarith)]
      · rw [if_neg (by linarith), if_neg (by linarith), if_pos heven]
  · have hcast : (n : ℚ) + 1 ≤ ⌊x⌋ := by exact_mod_cast hgt
    refine iff_of_false ?_ ?_
    · split_ifs <;> omega
    · rintro (h | ⟨h, -⟩) <;> linarith

theorem le_roundHalfEven_iff {x : ℚ} {n : ℤ} :
    n ≤ roundHalfEven x ↔ n - 1 / 2 < x ∨ x = n - 1 / 2 ∧ n % 2 = 0 := by
  have hbelow := roundHalfEven_le_iff (x := x) (n := n - 1)
  have hcast : ((n - 1 : ℤ) : ℚ) + 1 / 2 = n - 1 / 2 := by
    push_cast
    ring
  rw [hcast] at hbelow
  rw [← not_lt, Int.lt_iff_add_one_le, ← le_sub_iff_add_le, hbelow]
  constructor
  · intro h
    obtain ⟨hge, heq⟩ := not_or.mp h
    rcases lt_or_eq_of_le (not_lt.mp hge) with hlt | hx
    · exact .inl hlt
    · refine .inr ⟨hx.symm, ?_⟩
      have := not_and.mp heq hx.symm
      omega
  · rintro (h | ⟨h, heven⟩) (h' | ⟨h', heven'⟩)
    · linarith
    · linarith
    · linarith
    · omega

end Rounding

section Leading

/-- The six leading digits of a positive number and the exponent of the first of them,
after a carry. -/
def leading (a : ℚ) : ℤ × ℤ :=
  let e := decimalExponent a
  let m := roundHalfEven (a * (10 : ℚ) ^ (5 - e))
  (if m = 1000000 then 100000 else m, if m = 1000000 then e + 1 else e)

def sixDigits (x : ℚ) : ℚ :=
  let scale := (10 : ℚ) ^ (5 - decimalExponent |x|)
  let rounded := roundHalfEven (|x| * scale) / scale
  if x < 0 then -rounded else rounded

variable {a x y : ℚ}

theorem leading_mem (ha : 0 < a) : 100000 ≤ (leading a).1 ∧ (leading a).1 < 1000000 := by
  obtain ⟨hlow, hhigh⟩ := decimalExponent_spec ha
  have hscale : (0 : ℚ) < 10 ^ (5 - decimalExponent a) := by positivity
  have hfive : (10 : ℚ) ^ decimalExponent a * 10 ^ (5 - decimalExponent a) = 100000 := by
    rw [← zpow_add₀ (by norm_num), add_sub_cancel]
    norm_num
  have hsix : (10 : ℚ) ^ (decimalExponent a + 1) * 10 ^ (5 - decimalExponent a) = 1000000 := by
    rw [← zpow_add₀ (by norm_num), show decimalExponent a + 1 + (5 - decimalExponent a) = 6 by ring]
    norm_num
  obtain ⟨hm, hn⟩ := roundHalfEven_mem (m := 100000) (n := 1000000)
    (x := a * 10 ^ (5 - decimalExponent a))
    (by rw [Int.cast_ofNat, ← hfive]; exact mul_le_mul_of_nonneg_right hlow hscale.le)
    (by rw [Int.cast_ofNat, ← hsix]; exact mul_lt_mul_of_pos_right hhigh hscale)
  unfold leading
  simp only
  split_ifs <;> omega

theorem leading_value (a : ℚ) :
    ((leading a).1 : ℚ) * 10 ^ ((leading a).2 - 5) =
      roundHalfEven (a * (10 : ℚ) ^ (5 - decimalExponent a)) /
        (10 : ℚ) ^ (5 - decimalExponent a) := by
  have hinv : ((10 : ℚ) ^ (5 - decimalExponent a))⁻¹ = 10 ^ (decimalExponent a - 5) := by
    rw [← zpow_neg, neg_sub]
  rw [div_eq_mul_inv, hinv]
  unfold leading
  simp only
  split_ifs with h
  · rw [h, show decimalExponent a + 1 - 5 = 1 + (decimalExponent a - 5) by ring,
      zpow_add₀ (by norm_num : (10 : ℚ) ≠ 0)]
    push_cast
    ring
  · rfl

theorem sixDigits_eq (x : ℚ) :
    sixDigits x = if x < 0 then -((leading |x|).1 * (10 : ℚ) ^ ((leading |x|).2 - 5))
      else (leading |x|).1 * (10 : ℚ) ^ ((leading |x|).2 - 5) := by
  rw [leading_value]
  rfl

@[simp] theorem sixDigits_zero : sixDigits 0 = 0 := by
  simp [sixDigits, roundHalfEven]

theorem leading_unique {m n e f : ℤ} (hm : 100000 ≤ m ∧ m < 1000000)
    (hn : 100000 ≤ n ∧ n < 1000000)
    (h : (m : ℚ) * 10 ^ (e - 5) = n * 10 ^ (f - 5)) : m = n ∧ e = f := by
  have hle : ∀ {m n e f : ℤ}, 100000 ≤ m → n < 1000000 →
      (m : ℚ) * 10 ^ (e - 5) = n * 10 ^ (f - 5) → e ≤ f := by
    intro m n e f hm hn h
    by_contra hlt
    have hpow : (10 : ℚ) ^ (f - 5) * 10 ≤ 10 ^ (e - 5) := by
      rw [← zpow_add_one₀ (by norm_num)]
      exact zpow_le_zpow_right₀ (by norm_num) (by omega)
    have hf : (0 : ℚ) < 10 ^ (f - 5) := by positivity
    have hmq : (100000 : ℚ) ≤ m := by exact_mod_cast hm
    have hnq : (n : ℚ) < 1000000 := by exact_mod_cast hn
    nlinarith
  obtain rfl : e = f := le_antisymm (hle hm.1 hn.2 h) (hle hn.1 hm.2 h.symm)
  have hne : (10 : ℚ) ^ (e - 5) ≠ 0 := by positivity
  exact ⟨by exact_mod_cast mul_right_cancel₀ hne h, rfl⟩

theorem sixDigits_pos (hx : 0 < x) : 0 < sixDigits x := by
  have hm := leading_mem (abs_pos.mpr hx.ne')
  have hmq : (0 : ℚ) < (leading |x|).1 := by exact_mod_cast (by omega : 0 < (leading |x|).1)
  rw [sixDigits_eq, if_neg hx.le.not_gt]
  positivity

theorem sixDigits_neg (hx : x < 0) : sixDigits x < 0 := by
  have hm := leading_mem (abs_pos.mpr hx.ne)
  have hmq : (0 : ℚ) < (leading |x|).1 := by exact_mod_cast (by omega : 0 < (leading |x|).1)
  rw [sixDigits_eq, if_pos hx]
  have hpos : (0 : ℚ) < (leading |x|).1 * 10 ^ ((leading |x|).2 - 5) := by positivity
  exact neg_lt_zero.mpr hpos

theorem leading_of_sixDigits (h : sixDigits x = sixDigits y) :
    (x < 0 ↔ y < 0) ∧ (x = 0 ↔ y = 0) ∧ (x ≠ 0 → leading |x| = leading |y|) := by
  have hsame : ∀ {a b : ℚ}, 0 < a → 0 < b →
      ((leading a).1 : ℚ) * 10 ^ ((leading a).2 - 5) = (leading b).1 * 10 ^ ((leading b).2 - 5) →
        leading a = leading b := by
    intro a b ha hb hab
    obtain ⟨hm, he⟩ := leading_unique (leading_mem ha) (leading_mem hb) hab
    exact Prod.ext hm he
  rcases lt_trichotomy x 0 with hx | rfl | hx <;> rcases lt_trichotomy y 0 with hy | rfl | hy
  · rw [sixDigits_eq, sixDigits_eq, if_pos hx, if_pos hy] at h
    exact ⟨iff_of_true hx hy, iff_of_false hx.ne hy.ne,
      fun _ => hsame (abs_pos.mpr hx.ne) (abs_pos.mpr hy.ne) (neg_injective h)⟩
  · rw [sixDigits_zero] at h
    exact absurd h (sixDigits_neg hx).ne
  · exact absurd h ((sixDigits_neg hx).trans (sixDigits_pos hy)).ne
  · rw [sixDigits_zero] at h
    exact absurd h.symm (sixDigits_neg hy).ne
  · simp
  · rw [sixDigits_zero] at h
    exact absurd h.symm (sixDigits_pos hy).ne'
  · exact absurd h.symm ((sixDigits_neg hy).trans (sixDigits_pos hx)).ne
  · rw [sixDigits_zero] at h
    exact absurd h (sixDigits_pos hx).ne'
  · rw [sixDigits_eq, sixDigits_eq, if_neg hx.le.not_gt, if_neg hy.le.not_gt] at h
    exact ⟨iff_of_false hx.le.not_gt hy.le.not_gt, iff_of_false hx.ne' hy.ne',
      fun _ => hsame (abs_pos.mpr hx.ne') (abs_pos.mpr hy.ne') h⟩

end Leading

section Reading

/-- What `%g` prints of the leading digits `m` and the exponent `e`. -/
def layout (m : ℕ) (e : ℤ) : List Char :=
  let digits := Nat.toDigits 10 m
  if -4 ≤ e ∧ e < 6 then
    if 0 ≤ e then pointed digits (e.toNat + 1)
    else dropTrailingZeros ('0' :: '.' :: (List.replicate ((-e).toNat - 1) '0' ++ digits))
  else
    let k := e.natAbs
    let pad := if k < 10 then ['0'] else []
    pointed digits 1 ++ 'e' :: (if e < 0 then '-' else '+') :: (pad ++ Nat.toDigits 10 k)

theorem formatG_toList {x : ℚ} (hx : x ≠ 0) :
    (formatG x).toList = (if x < 0 then ['-'] else []) ++
      layout (leading |x|).1.toNat (leading |x|).2 := by
  have hdigits : ∀ n : ℕ, (toString n).toList = Nat.toDigits 10 n := fun n => Nat.toList_repr
  unfold formatG leading layout
  simp only [if_neg hx, String.toList_ofList, hdigits]
  split
  · rfl
  · rfl

def pointValue (cs : List Char) : ℚ :=
  let fraction := (cs.dropWhile (· ≠ '.')).tail
  Nat.ofDigitChars 10 (cs.takeWhile (· ≠ '.') ++ fraction) 0 / 10 ^ fraction.length

def exponentValue : List Char → ℤ
  | 'e' :: sign :: ds =>
    if sign = '-' then -(Nat.ofDigitChars 10 ds 0 : ℤ) else Nat.ofDigitChars 10 ds 0
  | _ => 0

def unsignedValue (cs : List Char) : ℚ :=
  pointValue (cs.takeWhile (· ≠ 'e')) * 10 ^ exponentValue (cs.dropWhile (· ≠ 'e'))

/-- The number a text as `%g` prints it stands for. -/
def readG (s : String) : ℚ :=
  if s.toList.head? = some '-' then -unsignedValue s.toList.tail else unsignedValue s.toList

def Digits (cs : List Char) : Prop := ∀ c ∈ cs, c.isDigit = true

theorem digits_toDigits (n : ℕ) : Digits (Nat.toDigits 10 n) :=
  fun _ hc => Nat.isDigit_of_mem_toDigits (by decide) (by decide) hc

theorem Digits.ne {cs : List Char} (h : Digits cs) {d : Char} (hd : d.isDigit = false) :
    ∀ c ∈ cs, c ≠ d := by
  rintro c hc rfl
  rw [h c hc] at hd
  cases hd

theorem dropTrailingZeros_zero (cs : List Char) :
    dropTrailingZeros (cs ++ ['0']) = dropTrailingZeros cs := by
  simp [dropTrailingZeros]

theorem dropTrailingZeros_point (cs : List Char) : dropTrailingZeros (cs ++ ['.']) = cs := by
  simp [dropTrailingZeros]

theorem dropTrailingZeros_other {c : Char} (cs : List Char) (hzero : c ≠ '0') (hpoint : c ≠ '.') :
    dropTrailingZeros (cs ++ [c]) = cs ++ [c] := by
  simp [dropTrailingZeros, hzero, hpoint]

theorem pointValue_digits {cs : List Char} (h : Digits cs) :
    pointValue cs = Nat.ofDigitChars 10 cs 0 := by
  have hne : ∀ c ∈ cs, (decide (c ≠ '.')) = true := by simpa using h.ne (by decide)
  unfold pointValue
  rw [List.dropWhile_eq_nil_iff.mpr hne, List.takeWhile_eq_self_iff.mpr hne]
  simp

theorem pointValue_point {whole fraction : List Char} (h : Digits whole) :
    pointValue (whole ++ '.' :: fraction) =
      Nat.ofDigitChars 10 (whole ++ fraction) 0 / 10 ^ fraction.length := by
  have hne : ∀ c ∈ whole, (decide (c ≠ '.')) = true := by simpa using h.ne (by decide)
  unfold pointValue
  rw [List.dropWhile_append_of_pos hne, List.takeWhile_append_of_pos hne]
  simp

theorem pointValue_dropTrailingZeros {whole fraction : List Char} (h : Digits whole)
    (hf : Digits fraction) :
    pointValue (dropTrailingZeros (whole ++ '.' :: fraction)) =
      Nat.ofDigitChars 10 (whole ++ fraction) 0 / 10 ^ fraction.length := by
  induction fraction using List.reverseRecOn with
  | nil => simp [dropTrailingZeros_point, pointValue_digits h]
  | append_singleton cs c ih =>
    have hcs : Digits cs := fun d hd => hf d (List.mem_append_left _ hd)
    rw [show whole ++ '.' :: (cs ++ [c]) = (whole ++ '.' :: cs) ++ [c] by simp]
    by_cases hc : c = '0'
    · subst hc
      have hzero : Nat.ofDigitChars 10 (whole ++ (cs ++ ['0'])) 0 =
          10 * Nat.ofDigitChars 10 (whole ++ cs) 0 := by
        rw [← List.append_assoc, Nat.ofDigitChars_append]
        exact Nat.ofDigitChars_replicate_zero (n := 1)
      rw [dropTrailingZeros_zero, ih hcs, hzero, List.length_append, List.length_singleton,
        pow_succ]
      push_cast
      field_simp
    · have hpoint : c ≠ '.' := hf.ne (by decide) c (by simp)
      rw [dropTrailingZeros_other _ hc hpoint]
      rw [show (whole ++ '.' :: cs) ++ [c] = whole ++ '.' :: (cs ++ [c]) by simp,
        pointValue_point h]

theorem mem_of_mem_dropTrailingZeros {c : Char} {cs : List Char}
    (h : c ∈ dropTrailingZeros cs) : c ∈ cs := by
  have hdrop : ∀ {d : Char}, d ∈ cs.reverse.dropWhile (· = '0') → d ∈ cs := fun hd =>
    List.mem_reverse.mp ((List.dropWhile_sublist _).mem hd)
  unfold dropTrailingZeros at h
  simp only [List.reverse_reverse] at h
  split at h
  · next r heq =>
    refine hdrop ?_
    rw [heq]
    exact List.mem_cons_of_mem _ (List.mem_reverse.mp h)
  · exact hdrop (List.mem_reverse.mp h)

theorem unsignedValue_plain {cs : List Char} (h : ∀ c ∈ cs, c ≠ 'e') :
    unsignedValue cs = pointValue cs := by
  have hne : ∀ c ∈ cs, (decide (c ≠ 'e')) = true := by simpa using h
  unfold unsignedValue
  rw [List.dropWhile_eq_nil_iff.mpr hne, List.takeWhile_eq_self_iff.mpr hne]
  simp [exponentValue]

theorem unsignedValue_exponent {cs rest : List Char} (h : ∀ c ∈ cs, c ≠ 'e') :
    unsignedValue (cs ++ 'e' :: rest) = pointValue cs * 10 ^ exponentValue ('e' :: rest) := by
  have hne : ∀ c ∈ cs, (decide (c ≠ 'e')) = true := by simpa using h
  unfold unsignedValue
  rw [List.dropWhile_append_of_pos hne, List.takeWhile_append_of_pos hne]
  simp

theorem length_toDigits {m : ℕ} (hm : 100000 ≤ m ∧ m < 1000000) :
    (Nat.toDigits 10 m).length = 6 := by
  have hle := (Nat.length_toDigits_le_iff (b := 10) (n := m) (k := 6) (by norm_num) (by norm_num)).mpr
    (by omega)
  have hgt := mt (Nat.length_toDigits_le_iff (b := 10) (n := m) (k := 5) (by norm_num) (by norm_num)).mp
    (by omega)
  omega

theorem pointValue_pointed {m k : ℕ} (hm : 100000 ≤ m ∧ m < 1000000) :
    pointValue (pointed (Nat.toDigits 10 m) k) = (m : ℚ) / 10 ^ (6 - k) ∧
      ∀ c ∈ pointed (Nat.toDigits 10 m) k, c ∈ Nat.toDigits 10 m ∨ c = '.' := by
  have hd := digits_toDigits m
  constructor
  · have hwhole : Digits ((Nat.toDigits 10 m).take k) :=
      fun c hc => hd c (List.mem_of_mem_take hc)
    have hfraction : Digits ((Nat.toDigits 10 m).drop k) :=
      fun c hc => hd c (List.mem_of_mem_drop hc)
    have hvalue := pointValue_dropTrailingZeros hwhole hfraction
    rw [List.take_append_drop, List.length_drop, length_toDigits hm,
      Nat.ofDigitChars_ten_toDigits] at hvalue
    exact hvalue
  · intro c hc
    have hmem := mem_of_mem_dropTrailingZeros hc
    simp only [List.mem_append, List.mem_cons] at hmem
    rcases hmem with h | h | h
    · exact .inl (List.mem_of_mem_take h)
    · exact .inr h
    · exact .inl (List.mem_of_mem_drop h)

theorem pointed_ne {m k : ℕ} (hm : 100000 ≤ m ∧ m < 1000000) {d : Char}
    (hd : d.isDigit = false) (hpoint : d ≠ '.') : ∀ c ∈ pointed (Nat.toDigits 10 m) k, c ≠ d := by
  intro c hc
  rcases (pointValue_pointed hm).2 c hc with h | rfl
  · exact (digits_toDigits m).ne hd c h
  · exact hpoint.symm

theorem exponentValue_printed (e : ℤ) :
    exponentValue ('e' :: (if e < 0 then '-' else '+') ::
      ((if e.natAbs < 10 then ['0'] else []) ++ Nat.toDigits 10 e.natAbs)) = e := by
  have hpad : Nat.ofDigitChars 10
      ((if e.natAbs < 10 then ['0'] else []) ++ Nat.toDigits 10 e.natAbs) 0 = e.natAbs := by
    rw [Nat.ofDigitChars_append]
    split <;> simp [Nat.ofDigitChars_cons, Nat.ofDigitChars_ten_toDigits]
  by_cases hneg : e < 0
  · rw [if_pos hneg]
    simp only [exponentValue, hpad, if_true]
    omega
  · rw [if_neg hneg]
    simp only [exponentValue, hpad, Char.reduceEq, if_false]
    omega

theorem unsignedValue_layout {m : ℕ} (e : ℤ) (hm : 100000 ≤ m ∧ m < 1000000) :
    unsignedValue (layout m e) = m * (10 : ℚ) ^ (e - 5) := by
  have hten : (10 : ℚ) ≠ 0 := by norm_num
  unfold layout
  simp only
  split
  · next hrange =>
    split
    · rw [unsignedValue_plain (pointed_ne hm (by decide) (by decide)), (pointValue_pointed hm).1,
        div_eq_mul_inv, ← zpow_natCast, ← zpow_neg]
      congr 2
      omega
    · have hdigits : Digits (List.replicate ((-e).toNat - 1) '0' ++ Nat.toDigits 10 m) := by
        intro c hc
        rcases List.mem_append.mp hc with h | h
        · rw [List.eq_of_mem_replicate h]
          decide
        · exact digits_toDigits m c h
      have hzero : Digits ['0'] := by simp [Digits]
      have hplain : ∀ c ∈ dropTrailingZeros ('0' :: '.' ::
          (List.replicate ((-e).toNat - 1) '0' ++ Nat.toDigits 10 m)), c ≠ 'e' := by
        intro c hc
        rcases List.mem_cons.mp (mem_of_mem_dropTrailingZeros hc) with rfl | h
        · decide
        · rcases List.mem_cons.mp h with rfl | h
          · decide
          · exact hdigits.ne (by decide) c h
      have hvalue := pointValue_dropTrailingZeros hzero hdigits
      simp only [List.cons_append, List.nil_append, List.length_append, List.length_replicate,
        length_toDigits hm, Nat.ofDigitChars_cons, Nat.ofDigitChars_append,
        Nat.ofDigitChars_replicate_zero, Nat.sub_self, Nat.mul_zero, Nat.add_zero,
        Nat.ofDigitChars_ten_toDigits] at hvalue
      rw [unsignedValue_plain hplain, hvalue, div_eq_mul_inv, ← zpow_natCast, ← zpow_neg]
      congr 2
      omega
  · rw [unsignedValue_exponent (pointed_ne hm (by decide) (by decide)), exponentValue_printed,
      (pointValue_pointed hm).1, zpow_sub₀ hten]
    norm_num
    ring

theorem layout_ne_minus {m : ℕ} (e : ℤ) (hm : 100000 ≤ m ∧ m < 1000000) :
    (layout m e).head? ≠ some '-' := by
  unfold layout
  simp only
  split
  · split
    · exact fun h => pointed_ne hm (by decide) (by decide) '-' (List.mem_of_head? h) rfl
    · intro h
      have hmem := mem_of_mem_dropTrailingZeros (List.mem_of_head? h)
      simp only [List.mem_cons, List.mem_append, List.mem_replicate, Char.reduceEq, false_or,
        and_false] at hmem
      exact (digits_toDigits m).ne (by decide) '-' hmem rfl
  · rw [List.head?_append]
    cases hhead : (pointed (Nat.toDigits 10 m) 1).head? with
    | none => simp
    | some c =>
      rintro ⟨⟩
      exact pointed_ne hm (by decide) (by decide) '-' (List.mem_of_head? hhead) rfl

theorem leading_toNat {x : ℚ} (hx : x ≠ 0) :
    (100000 ≤ (leading |x|).1.toNat ∧ (leading |x|).1.toNat < 1000000) ∧
      (((leading |x|).1.toNat : ℕ) : ℚ) = (leading |x|).1 := by
  have hm := leading_mem (abs_pos.mpr hx)
  refine ⟨by omega, ?_⟩
  exact_mod_cast Int.toNat_of_nonneg (by omega : 0 ≤ (leading |x|).1)

theorem readG_formatG (x : ℚ) : readG (formatG x) = sixDigits x := by
  by_cases hx : x = 0
  · subst hx
    have hzero : Digits ['0'] := by simp [Digits]
    have hvalue : unsignedValue ['0'] = 0 := by
      rw [unsignedValue_plain (hzero.ne (by decide)), pointValue_digits hzero]
      simp [Nat.ofDigitChars_cons]
    simpa [readG, formatG] using hvalue
  · obtain ⟨hm, hcast⟩ := leading_toNat hx
    have hvalue := unsignedValue_layout (leading |x|).2 hm
    rw [hcast] at hvalue
    unfold readG
    rw [formatG_toList hx, sixDigits_eq]
    by_cases hneg : x < 0
    · simp only [if_pos hneg, List.cons_append, List.nil_append, List.head?_cons, List.tail_cons,
        if_true, hvalue]
    · simp only [if_neg hneg, List.nil_append, if_neg (layout_ne_minus _ hm), hvalue]

theorem formatG_inj {x y : ℚ} : formatG x = formatG y ↔ sixDigits x = sixDigits y := by
  refine ⟨fun h => by rw [← readG_formatG, h, readG_formatG], fun h => ?_⟩
  obtain ⟨hneg, hzero, hleading⟩ := leading_of_sixDigits h
  by_cases hx : x = 0
  · rw [hx, hzero.mp hx]
  · apply String.toList_inj.mp
    rw [formatG_toList hx, formatG_toList fun hy => hx (hzero.mpr hy), hleading hx]
    simp only [hneg]

theorem formatG_ne_empty (x : ℚ) : formatG x ≠ "" := by
  intro h
  have hvalue : sixDigits x = 0 := by
    rw [← readG_formatG, h]
    simp [readG, unsignedValue, pointValue]
  have hsame : formatG x = formatG 0 := formatG_inj.mpr (by rw [hvalue, sixDigits_zero])
  rw [h] at hsame
  exact absurd hsame (by decide)

end Reading

section Integers

theorem toDigits_mul_pow {k : ℕ} (hk : 0 < k) (j : ℕ) :
    Nat.toDigits 10 (k * 10 ^ j) = Nat.toDigits 10 k ++ List.replicate j '0' := by
  induction j with
  | zero => simp
  | succ j ih =>
    have happ := Nat.toDigits_append_toDigits (b := 10) (n := k * 10 ^ j) (d := 0) (by norm_num)
      (by positivity) (by norm_num)
    rw [Nat.toDigits_zero, ih, Nat.add_zero, List.append_assoc, ← List.replicate_succ'] at happ
    rw [pow_succ, ← mul_assoc, mul_comm _ 10]
    exact happ.symm

theorem dropTrailingZeros_zeros (cs : List Char) (j : ℕ) :
    dropTrailingZeros (cs ++ '.' :: List.replicate j '0') = cs := by
  induction j with
  | zero => exact dropTrailingZeros_point cs
  | succ j ih =>
    rw [List.replicate_succ', show cs ++ '.' :: (List.replicate j '0' ++ ['0']) =
      (cs ++ '.' :: List.replicate j '0') ++ ['0'] by simp, dropTrailingZeros_zero, ih]

theorem length_toDigits_log {k : ℕ} (hk : 0 < k) :
    (Nat.toDigits 10 k).length = Nat.log 10 k + 1 := by
  have hle := (Nat.length_toDigits_le_iff (b := 10) (n := k) (k := Nat.log 10 k + 1) (by norm_num)
    (by omega)).mpr (Nat.lt_pow_succ_log_self (by norm_num) k)
  have hpow := Nat.pow_log_le_self 10 hk.ne'
  by_contra hne
  have hlog : 0 < Nat.log 10 k := by
    have hpos := Nat.length_toDigits_pos (b := 10) (n := k)
    omega
  have hlt := (Nat.length_toDigits_le_iff (b := 10) (n := k) (k := Nat.log 10 k) (by norm_num)
    hlog).mp (by omega)
  omega

theorem leading_natCast {k : ℕ} (hk : 0 < k) (hlt : k < 1000000) :
    leading k = (((k * 10 ^ (5 - Nat.log 10 k) : ℕ) : ℤ), (Nat.log 10 k : ℤ)) ∧
      Nat.log 10 k ≤ 5 := by
  have hlog : Nat.log 10 k ≤ 5 := by
    have hsix := Nat.log_lt_of_lt_pow (b := 10) (x := 6) hk.ne' (by omega)
    omega
  have hexp : decimalExponent k = Nat.log 10 k := by
    unfold decimalExponent
    rw [if_pos (by exact_mod_cast hk)]
    simp
  have hscaled : ((k : ℚ) * 10 ^ (5 - (Nat.log 10 k : ℤ))) =
      ((k * 10 ^ (5 - Nat.log 10 k) : ℕ) : ℤ) := by
    rw [show (5 : ℤ) - Nat.log 10 k = ((5 - Nat.log 10 k : ℕ) : ℤ) by omega, zpow_natCast]
    push_cast
    rfl
  have hbound : k * 10 ^ (5 - Nat.log 10 k) < 1000000 := by
    calc k * 10 ^ (5 - Nat.log 10 k)
        < 10 ^ (Nat.log 10 k + 1) * 10 ^ (5 - Nat.log 10 k) :=
          Nat.mul_lt_mul_of_pos_right (Nat.lt_pow_succ_log_self (by norm_num) k) (by positivity)
      _ = 10 ^ 6 := by rw [← pow_add]; congr 1; omega
      _ = 1000000 := by norm_num
  refine ⟨?_, hlog⟩
  unfold leading
  simp only [hexp, hscaled, roundHalfEven_intCast]
  rw [if_neg (by omega), if_neg (by omega)]

theorem formatG_natCast {k : ℕ} (hk : 0 < k) (hlt : k < 1000000) :
    layout (leading (k : ℚ)).1.toNat (leading (k : ℚ)).2 = Nat.toDigits 10 k := by
  obtain ⟨hleading, hlog⟩ := leading_natCast hk hlt
  rw [hleading]
  unfold layout
  simp only [Int.toNat_natCast]
  rw [if_pos (by omega), if_pos (by omega), toDigits_mul_pow hk]
  unfold pointed
  rw [← length_toDigits_log hk, List.take_left, List.drop_left, dropTrailingZeros_zeros]

theorem toList_toString (n : ℤ) :
    (toString n).toList = (if n < 0 then ['-'] else []) ++ Nat.toDigits 10 n.natAbs := by
  cases n with
  | ofNat k =>
    rw [if_neg (show ¬ Int.ofNat k < 0 from (Int.natCast_nonneg k).not_gt)]
    exact Nat.toList_repr
  | negSucc k =>
    rw [if_pos (Int.negSucc_lt_zero k)]
    have hrepr : toString (Int.negSucc k) = "-" ++ Nat.repr (k + 1) := rfl
    rw [hrepr, String.toList_append, Nat.toList_repr]
    rfl

theorem formatG_intCast {n : ℤ} (hn : |n| < 1000000) : formatG n = toString n := by
  by_cases hzero : n = 0
  · subst hzero
    decide
  · apply String.toList_inj.mp
    have hnat : n.natAbs < 1000000 := by
      rw [Int.abs_eq_natAbs] at hn
      exact_mod_cast hn
    have habs : |(n : ℚ)| = (n.natAbs : ℕ) := by
      rw [← Int.cast_abs, Int.abs_eq_natAbs, Int.cast_natCast]
    rw [formatG_toList (by exact_mod_cast hzero), toList_toString, habs,
      formatG_natCast (by omega) hnat]
    simp

theorem readG_toString (n : ℤ) : readG (toString n) = n := by
  have hd := digits_toDigits n.natAbs
  have hvalue : unsignedValue (Nat.toDigits 10 n.natAbs) = (n.natAbs : ℚ) := by
    rw [unsignedValue_plain (hd.ne (by decide)), pointValue_digits hd,
      Nat.ofDigitChars_ten_toDigits]
  unfold readG
  rw [toList_toString]
  by_cases hneg : n < 0
  · simp only [if_pos hneg, List.cons_append, List.nil_append, List.head?_cons, List.tail_cons,
      if_true, hvalue]
    rw [show (n.natAbs : ℚ) = ((n.natAbs : ℤ) : ℚ) from rfl, ← Int.cast_neg]
    congr 1
    omega
  · have hhead : (Nat.toDigits 10 n.natAbs).head? ≠ some '-' :=
      fun h => hd.ne (by decide) '-' (List.mem_of_head? h) rfl
    simp only [if_neg hneg, List.nil_append, if_neg hhead, hvalue]
    rw [show (n.natAbs : ℚ) = ((n.natAbs : ℤ) : ℚ) from rfl]
    congr 1
    omega

theorem sixDigits_intCast {n : ℤ} (hn : |n| < 1000000) : sixDigits n = n := by
  rw [← readG_formatG, formatG_intCast hn, readG_toString]

theorem sixDigits_lt {y : ℚ} (h : 'e' ∉ (formatG y).toList) : |sixDigits y| < 1000000 := by
  by_cases hy : y = 0
  · simp [hy]
  · have hm := leading_mem (abs_pos.mpr hy)
    have hexp : (leading |y|).2 < 6 := by
      by_contra hge
      rw [formatG_toList hy] at h
      refine h (List.mem_append_right _ ?_)
      unfold layout
      simp only
      rw [if_neg (by omega)]
      simp
    have hpow : (10 : ℚ) ^ ((leading |y|).2 - 5) ≤ 1 :=
      zpow_le_one_of_nonpos₀ (by norm_num) (by omega)
    have hmq : ((leading |y|).1 : ℚ) < 1000000 := by exact_mod_cast hm.2
    have hmpos : (0 : ℚ) ≤ (leading |y|).1 := by exact_mod_cast (by omega : 0 ≤ (leading |y|).1)
    have habs : |sixDigits y| = (leading |y|).1 * (10 : ℚ) ^ ((leading |y|).2 - 5) := by
      rw [sixDigits_eq]
      split
      · rw [abs_neg, abs_of_nonneg (by positivity)]
      · rw [abs_of_nonneg (by positivity)]
    rw [habs]
    calc ((leading |y|).1 : ℚ) * 10 ^ ((leading |y|).2 - 5)
        ≤ (leading |y|).1 * 1 := mul_le_mul_of_nonneg_left hpow hmpos
      _ < 1000000 := by rwa [mul_one]

theorem toString_eq_formatG {n : ℤ} {y : ℚ} :
    toString n = formatG y ↔ sixDigits y = n ∧ |n| < 1000000 := by
  constructor
  · intro h
    have hvalue : sixDigits y = n := by rw [← readG_formatG, ← h, readG_toString]
    refine ⟨hvalue, ?_⟩
    have hplain : 'e' ∉ (formatG y).toList := by
      rw [← h, toList_toString]
      intro hmem
      rcases List.mem_append.mp hmem with hmem | hmem
      · split at hmem <;> simp at hmem
      · exact (digits_toDigits _).ne (by decide) 'e' hmem rfl
    have hlt := sixDigits_lt hplain
    rw [hvalue] at hlt
    exact_mod_cast hlt
  · rintro ⟨hvalue, hn⟩
    rw [← formatG_intCast hn]
    exact formatG_inj.mpr (by rw [hvalue, sixDigits_intCast hn])

end Integers

section Reading

theorem digitsOf_digits {cs : List Char} (h : Digits cs) (hne : cs ≠ []) :
    digitsOf cs = some (cs.map fun c => c.toNat - 48) := by
  induction cs with
  | nil => exact absurd rfl hne
  | cons c cs ih =>
    have hc := decimal_digit (h c List.mem_cons_self)
    cases cs with
    | nil => simp [digitsOf, hc]
    | cons d ds =>
      have hrest : Digits (d :: ds) := fun x hx => h x (List.mem_cons_of_mem _ hx)
      have hd : d ≠ '_' := hrest.ne (by decide) d List.mem_cons_self
      rw [digitsOf, hc, ih hrest (List.cons_ne_nil d ds)]
      · rfl
      · exact nofun
      · intro cs' hcs
        exact hd (List.cons.inj hcs).1

theorem isSpace_digit {c : Char} (h : c.isDigit = true) : isSpace c = false := by
  have hbounds : 48 ≤ c.toNat ∧ c.toNat ≤ 57 := by
    simp only [Char.isDigit, Bool.and_eq_true, decide_eq_true_eq] at h
    exact ⟨h.1, h.2⟩
  simp [isSpace]
  omega

theorem dropWhile_digits {cs : List Char} (h : Digits cs) : cs.dropWhile isSpace = cs := by
  refine List.dropWhile_eq_self_iff.mpr fun hpos => ?_
  simpa using isSpace_digit (h _ (List.getElem_mem hpos))

theorem parseInt_toString {n : ℕ} (h : n < 10 ^ maxDigits) : parseInt (toString n) = some (n : ℤ) := by
  have hlist : (toString n).toList = Nat.toDigits 10 n := Nat.toList_repr
  have hd := digits_toDigits n
  have hrev : Digits (Nat.toDigits 10 n).reverse := fun c hc => hd c (List.mem_reverse.mp hc)
  have hstrip : (strip (toString n)).toList = Nat.toDigits 10 n := by
    rw [strip, String.toList_ofList, hlist, dropWhile_digits hd, dropWhile_digits hrev,
      List.reverse_reverse]
  have hlen : (Nat.toDigits 10 n).length ≤ maxDigits :=
    (Nat.length_toDigits_le_iff (by norm_num) (by decide)).mpr h
  have hnat : natOf (Nat.toDigits 10 n) = some n := by
    rw [natOf, digitsOf_digits hd Nat.toDigits_ne_nil, Option.bind_some, List.length_map, if_pos hlen,
      List.foldl_map]
    exact congrArg some Nat.ofDigitChars_ten_toDigits
  rw [parseInt, hstrip]
  split
  · next cs hcs => exact absurd rfl (hd.ne (by decide) '-' (hcs ▸ List.mem_cons_self))
  · next cs hcs => exact absurd rfl (hd.ne (by decide) '+' (hcs ▸ List.mem_cons_self))
  · rw [hnat]
    rfl

end Reading

end Trademetrix.Text
