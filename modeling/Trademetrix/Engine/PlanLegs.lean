import Mathlib.Tactic.Linarith
import Mathlib.Tactic.Ring
import Trademetrix.Decimal
import Trademetrix.Engine.StrategyCompiler
import Trademetrix.FirstLeast

/-!
# The legs of a plan

What a leg asks of its strike, and which strike its order gets. Offsets are cut
to integers, quotes that are missing count as 0, deltas with their sign, and legs
of one `leg_order` get the strike of the last of them.
-/

namespace Trademetrix.Engine

open Text (roundHalfEven)

section Quotes

def OptionQuote.quoted (q : OptionQuote) : Option ℚ := if q.ltp.getD 0 ≠ 0 then q.ltp else q.premium

theorem OptionQuote.price_eq (q : OptionQuote) : q.price = q.quoted.getD 0 := by
  unfold price quoted
  split <;> rfl

/-- What the strikes of a chain quote on a leg's side; a later row of a strike replaces an earlier
one. -/
def quotes (field : OptionQuote → Option ℚ) (chain : List ChainStrike)
    (optionType : Option OptionType) : Dict ℤ (Option ℚ) :=
  Dict.update [] (chain.map fun s => (s.strike, field (s.side optionType)))

theorem nodup_quotes (field : OptionQuote → Option ℚ) (chain : List ChainStrike)
    (optionType : Option OptionType) : ((quotes field chain optionType).map Prod.fst).Nodup :=
  by
  refine Dict.nodup_keys_update ?_ _
  exact List.nodup_nil

def readings (entries : Dict ℤ (Option ℚ)) : Dict ℤ ℚ := entries.map fun e => (e.1, e.2.getD 0)

theorem premia_eq (chain : List ChainStrike) (optionType : Option OptionType) :
    premia chain optionType = readings (quotes OptionQuote.quoted chain optionType) := by
  have hmap := Dict.update_map [] (fun q : Option ℚ => q.getD 0)
    (chain.map fun s => (s.strike, (s.side optionType).quoted))
  rw [List.map_map] at hmap
  simpa only [premia, readings, quotes, OptionQuote.price_eq, Function.comp_def, List.map_nil] using hmap

theorem deltas_eq (chain : List ChainStrike) (optionType : Option OptionType) :
    deltas chain optionType = readings (quotes OptionQuote.delta chain optionType) := by
  have hmap := Dict.update_map [] (fun q : Option ℚ => q.getD 0)
    (chain.map fun s => (s.strike, (s.side optionType).delta))
  rw [List.map_map] at hmap
  simpa only [deltas, readings, quotes, Function.comp_def, List.map_nil] using hmap

end Quotes

section Nearest

variable {entries : Dict ℤ (Option ℚ)} {far : ℚ → ℚ} {target : ℚ}

def Nearest (entries : Dict ℤ (Option ℚ)) (far : ℚ → ℚ) (strike : ℚ) : Prop :=
  ∃ k p, (k, some p) ∈ entries ∧ strike = k ∧ ∀ k' p', (k', some p') ∈ entries → far p ≤ far p'

/-- A strike that quotes nearest, whose quote with its sign is closer to the target than what is
read before it, 0 where there is no quote, and no farther from it than what is read after it. -/
def ReadsNearest (entries : Dict ℤ (Option ℚ)) (far : ℚ → ℚ) (target : ℚ) : Prop :=
  ∃ pre k p post, entries = pre ++ (k, some p) :: post ∧
    (∀ k' p', (k', some p') ∈ entries → far p ≤ far p') ∧
    (∀ e ∈ pre, |p - target| < |e.2.getD 0 - target|) ∧
    ∀ e ∈ post, |p - target| ≤ |e.2.getD 0 - target|

theorem closest_readings (entries : Dict ℤ (Option ℚ)) (target : ℚ) (k : ℤ) :
    closest (readings entries) target = some k ↔
      ∃ e, FirstLeast (fun e : ℤ × Option ℚ => |e.2.getD 0 - target|) entries e ∧ e.1 = k := by
  have hread : ∀ p : ℤ × ℚ,
      List.argmin (fun p : ℤ × ℚ => |p.2 - target|) (readings entries) = some p ↔
        ∃ e, FirstLeast (fun e : ℤ × Option ℚ => |e.2.getD 0 - target|) entries e ∧
          (e.1, e.2.getD 0) = p := fun p => argmin_eq_some.trans firstLeast_map
  unfold closest
  rw [Option.map_eq_some_iff]
  constructor
  · rintro ⟨p, hp, hk⟩
    obtain ⟨e, he, heq⟩ := (hread p).mp hp
    exact ⟨e, he, (congrArg Prod.fst heq).trans hk⟩
  · rintro ⟨e, he, hk⟩
    exact ⟨_, (hread _).mpr ⟨e, he, rfl⟩, hk⟩

theorem closest_eq_none : closest (readings entries) target = none ↔ entries = [] := by
  simp [closest, readings]

theorem nearest_closest_iff (hkeys : (entries.map Prod.fst).Nodup) (simulated : ℤ) :
    Nearest entries far ((closest (readings entries) target).getD simulated : ℤ) ↔
      ReadsNearest entries far target := by
  cases hclosest : closest (readings entries) target with
  | none =>
    obtain rfl := closest_eq_none.mp hclosest
    simp [Nearest, ReadsNearest]
  | some c =>
    obtain ⟨e, hleast, rfl⟩ := (closest_readings entries target c).mp hclosest
    rw [Option.getD_some]
    constructor
    · rintro ⟨k, p, hmem, hk, hnear⟩
      have hk' : e.1 = k := by exact_mod_cast hk
      have heq : e = (k, some p) := by
        have hget := Dict.get_of_mem hkeys hmem
        have hget' := Dict.get_of_mem hkeys (show (e.1, e.2) ∈ entries from hleast.mem)
        rw [hk', hget, Option.some.injEq] at hget'
        exact Prod.ext hk' hget'.symm
      obtain ⟨pre, post, hsplit, hpre, hpost⟩ := hleast
      rw [heq] at hsplit hpre hpost
      exact ⟨pre, k, p, post, hsplit, hnear, hpre, hpost⟩
    · rintro ⟨pre, k, p, post, hsplit, hnear, hpre, hpost⟩
      have hfirst : FirstLeast (fun e : ℤ × Option ℚ => |e.2.getD 0 - target|) entries (k, some p) :=
        ⟨pre, post, hsplit, hpre, hpost⟩
      have heq : (k, some p) = e := Option.some.inj (hfirst.argmin_eq.symm.trans hleast.argmin_eq)
      exact ⟨k, p, hfirst.mem, by rw [← heq], hnear⟩

end Nearest

section Criteria

def listedMultiples (chain : List ChainStrike) (interval : ℕ) : List ℤ :=
  (chain.map ChainStrike.strike).filter fun k => (interval : ℤ) ∣ k

def Criterion (symbol : String) (spot : ℚ) (chain : List ChainStrike) (leg : UserStrategyLeg)
    (strike : ℚ) : Prop :=
  match leg.strikeCriteria with
  | .atmOffset =>
    ∃ atm ∈ listedMultiples chain (strikeInterval symbol),
      (∀ k ∈ listedMultiples chain (strikeInterval symbol), |(atm : ℚ) - spot| ≤ |(k : ℚ) - spot|) ∧
        strike = atm + leg.strikeValue * strikeInterval symbol
  | .premiumClosest =>
    Nearest (quotes OptionQuote.quoted chain leg.optionType) (fun p => |p - leg.strikeValue|) strike
  | .premiumRange =>
    ∃ k p, (k, some p) ∈ quotes OptionQuote.quoted chain leg.optionType ∧ strike = k ∧
      leg.strikeValue ≤ p
  | .delta =>
    Nearest (quotes OptionQuote.delta chain leg.optionType) (fun p => |(|p|) - leg.strikeValue|) strike

/-- When a strike read off for a leg is one it asks for: the multiple nearest to the spot price is
listed and the offset whole, or the quotes are there and of the sign that is read. -/
def WellQuoted (symbol : String) (spot : ℚ) (chain : List ChainStrike) (leg : UserStrategyLeg) : Prop :=
  match leg.strikeCriteria with
  | .atmOffset =>
    roundToStrike spot (strikeInterval symbol) ∈ chain.map ChainStrike.strike ∧
      leg.strikeValue = truncate leg.strikeValue
  | .premiumClosest =>
    ReadsNearest (quotes OptionQuote.quoted chain leg.optionType) (fun p => |p - leg.strikeValue|)
      leg.strikeValue
  | .premiumRange =>
    ∃ k p, (k, some p) ∈ quotes OptionQuote.quoted chain leg.optionType ∧ leg.strikeValue ≤ p ∧
      (leg.strikeValue ≤ 0 →
        ∀ k', (k', none) ∈ quotes OptionQuote.quoted chain leg.optionType → k < k')
  | .delta =>
    ReadsNearest (quotes OptionQuote.delta chain leg.optionType) (fun p => |(|p|) - leg.strikeValue|)
      leg.strikeValue

theorem strikeInterval_pos (symbol : String) : 0 < strikeInterval symbol := by
  unfold strikeInterval
  cases hget : strikeIntervals.get symbol with
  | none => decide
  | some n =>
    have hmem := Dict.mem_of_get hget
    simp only [strikeIntervals, List.mem_cons, Prod.mk.injEq, List.not_mem_nil, or_false] at hmem
    rw [Option.getD_some]
    omega

theorem mem_listedMultiples {chain : List ChainStrike} {interval : ℕ} {k : ℤ} :
    k ∈ listedMultiples chain interval ↔ k ∈ chain.map ChainStrike.strike ∧ (interval : ℤ) ∣ k := by
  simp [listedMultiples]

theorem roundToStrike_nearest (price : ℚ) {interval : ℕ} (hpos : 0 < interval) {k : ℤ}
    (hk : (interval : ℤ) ∣ k) : |(roundToStrike price interval : ℚ) - price| ≤ |(k : ℚ) - price| := by
  obtain ⟨n, rfl⟩ := hk
  have hpos' : (0 : ℚ) < interval := by exact_mod_cast hpos
  have hscale : ∀ m : ℤ, ((m : ℚ) * interval - price) = (m - price / interval) * interval := by
    intro m
    field_simp
  have hround : |(roundHalfEven (price / interval) : ℚ) - price / interval| ≤
      |(n : ℚ) - price / interval| := by
    by_cases heq : n = roundHalfEven (price / interval)
    · rw [heq]
    · have hhalf := Text.abs_roundHalfEven_sub_le (price / interval)
      have hfar : (1 : ℚ) ≤ |(n : ℚ) - roundHalfEven (price / interval)| := by
        exact_mod_cast Int.one_le_abs (sub_ne_zero.mpr heq)
      have htri := abs_sub_le (n : ℚ) (price / interval) (roundHalfEven (price / interval))
      rw [abs_sub_comm (price / interval)] at htri
      linarith
  have hleft : (roundToStrike price interval : ℚ) - price =
      (roundHalfEven (price / interval) - price / interval) * interval := by
    rw [← hscale]
    simp [roundToStrike]
  have hright : (((interval : ℤ) * n : ℤ) : ℚ) - price = (n - price / interval) * interval := by
    rw [← hscale]
    push_cast
    ring
  rw [hleft, hright, abs_mul, abs_mul]
  exact mul_le_mul_of_nonneg_right hround (abs_nonneg _)

theorem dvd_roundToStrike (price : ℚ) (interval : ℕ) : (interval : ℤ) ∣ roundToStrike price interval :=
  ⟨roundHalfEven (price / interval), by rw [roundToStrike, mul_comm]⟩

theorem eq_truncate_of_sub {v : ℚ} {n : ℤ} (h : v - truncate v = n) : v = truncate v := by
  have hint : v = ((truncate v + n : ℤ) : ℚ) := by
    push_cast
    linarith
  have hcut : ∀ m : ℤ, truncate (m : ℚ) = m := fun m => by simp [truncate]
  rw [hint, hcut]

theorem offset_iff (chain : List ChainStrike) (spot v : ℚ) {interval : ℕ} (hpos : 0 < interval) :
    (∃ atm ∈ listedMultiples chain interval,
      (∀ k ∈ listedMultiples chain interval, |(atm : ℚ) - spot| ≤ |(k : ℚ) - spot|) ∧
        ((roundToStrike spot interval + truncate v * interval : ℤ) : ℚ) = atm + v * interval) ↔
      roundToStrike spot interval ∈ chain.map ChainStrike.strike ∧ v = truncate v := by
  have hpos' : (interval : ℚ) ≠ 0 := by exact_mod_cast hpos.ne'
  constructor
  · rintro ⟨atm, hatm, -, heq⟩
    obtain ⟨hlisted, m, rfl⟩ := mem_listedMultiples.mp hatm
    have hround := roundToStrike.eq_1 spot interval
    have hsub : v - truncate v = ((roundHalfEven (spot / interval) - m : ℤ) : ℚ) := by
      rw [hround] at heq
      push_cast at heq ⊢
      apply mul_right_cancel₀ hpos'
      linarith
    have hwhole := eq_truncate_of_sub hsub
    refine ⟨?_, hwhole⟩
    have hzero : ((roundHalfEven (spot / interval) - m : ℤ) : ℚ) = 0 := by
      rw [← hsub, sub_eq_zero]
      exact hwhole
    have hm : roundHalfEven (spot / interval) = m := sub_eq_zero.mp (by exact_mod_cast hzero)
    rw [hround, hm, mul_comm]
    exact hlisted
  · rintro ⟨hlisted, hwhole⟩
    refine ⟨_, mem_listedMultiples.mpr ⟨hlisted, dvd_roundToStrike spot interval⟩, ?_, ?_⟩
    · intro k hk
      exact roundToStrike_nearest spot hpos (mem_listedMultiples.mp hk).2
    · push_cast
      rw [← hwhole]

end Criteria

section Range

variable {entries : Dict ℤ (Option ℚ)} {least : ℚ}

def lowestInRange (values : Dict ℤ ℚ) (least : ℚ) : Option ℤ :=
  let sorted := values.insertionSort fun p q => p.1 ≤ q.1
  match sorted.find? fun p => least ≤ p.2 with
  | some p => some p.1
  | none => sorted.getLast?.map Prod.fst

theorem find?_sorted {values : Dict ℤ ℚ} {p : ℤ × ℚ}
    (h : (values.insertionSort fun p q => p.1 ≤ q.1).find? (fun p => least ≤ p.2) = some p) :
    p ∈ values ∧ least ≤ p.2 ∧ ∀ q ∈ values, least ≤ q.2 → p.1 ≤ q.1 := by
  obtain ⟨hle, pre, post, hsplit, hpre⟩ := List.find?_eq_some_iff_append.mp h
  have hmem : ∀ q, q ∈ values ↔ q ∈ pre ++ p :: post := by
    intro q
    rw [← hsplit]
    exact (List.mem_insertionSort _).symm
  have hsorted : (values.insertionSort fun p q => p.1 ≤ q.1).Pairwise fun p q => p.1 ≤ q.1 :=
    List.pairwise_insertionSort _ _
  rw [hsplit] at hsorted
  refine ⟨(hmem p).mpr (by simp), by simpa using hle, fun q hq hq' => ?_⟩
  rcases List.mem_append.mp ((hmem q).mp hq) with hq | hq
  · have hnot := hpre q hq
    simp [hq'] at hnot
  · rcases List.mem_cons.mp hq with rfl | hq
    · exact le_rfl
    · exact List.rel_of_pairwise_cons (List.pairwise_append.mp hsorted).2.1 hq

theorem getLast?_sorted {values : Dict ℤ ℚ} {p : ℤ × ℚ}
    (h : (values.insertionSort fun p q => p.1 ≤ q.1).getLast? = some p) :
    p ∈ values ∧ ∀ q ∈ values, q.1 ≤ p.1 := by
  obtain ⟨init, hsplit⟩ := List.getLast?_eq_some_iff.mp h
  have hmem : ∀ q, q ∈ values ↔ q ∈ init ++ [p] := by
    intro q
    rw [← hsplit]
    exact (List.mem_insertionSort _).symm
  have hsorted : (values.insertionSort fun p q => p.1 ≤ q.1).Pairwise fun p q => p.1 ≤ q.1 :=
    List.pairwise_insertionSort _ _
  rw [hsplit] at hsorted
  refine ⟨(hmem p).mpr (by simp), fun q hq => ?_⟩
  rcases List.mem_append.mp ((hmem q).mp hq) with hq | hq
  · exact (List.pairwise_append.mp hsorted).2.2 q hq p (by simp)
  · obtain rfl := List.mem_singleton.mp hq
    exact le_rfl

def InRange (values : Dict ℤ ℚ) (least : ℚ) (k : ℤ) : Prop :=
  (∃ p, (k, p) ∈ values ∧ least ≤ p ∧ ∀ q ∈ values, least ≤ q.2 → k ≤ q.1) ∨
    (∀ q ∈ values, q.2 < least) ∧ (∃ p, (k, p) ∈ values) ∧ ∀ q ∈ values, q.1 ≤ k

theorem lowestInRange_eq_none {values : Dict ℤ ℚ} : lowestInRange values least = none ↔ values = [] := by
  unfold lowestInRange
  dsimp only
  split
  · next p hfind =>
    have hmem := (find?_sorted hfind).1
    constructor
    · intro hsome
      cases hsome
    · intro hnil
      rw [hnil] at hmem
      cases hmem
  · rw [Option.map_eq_none_iff, List.getLast?_eq_none_iff, ← List.length_eq_zero_iff,
      List.length_insertionSort, List.length_eq_zero_iff]

theorem lowestInRange_eq_some {values : Dict ℤ ℚ} {k : ℤ} :
    lowestInRange values least = some k ↔ InRange values least k := by
  cases hpick : lowestInRange values least with
  | none =>
    rw [lowestInRange_eq_none] at hpick
    simp [hpick, InRange]
  | some c =>
    have hc : InRange values least c := by
      unfold lowestInRange at hpick
      dsimp only at hpick
      split at hpick
      · next p hfind =>
        obtain rfl := Option.some.inj hpick
        obtain ⟨hmem, hle, hleast⟩ := find?_sorted hfind
        exact .inl ⟨p.2, hmem, hle, hleast⟩
      · next hfind =>
        obtain ⟨p, hp, rfl⟩ := Option.map_eq_some_iff.mp hpick
        obtain ⟨hmem, hhigh⟩ := getLast?_sorted hp
        refine .inr ⟨fun q hq => ?_, ⟨p.2, hmem⟩, hhigh⟩
        have hnot := List.find?_eq_none.mp hfind q ((List.mem_insertionSort _).mpr hq)
        simpa using hnot
    rw [Option.some.injEq]
    constructor
    · rintro rfl
      exact hc
    · intro hk
      -- both are the lowest in range, or both the highest
      rcases hc with ⟨p, hp, hle, hlow⟩ | ⟨hout, ⟨p, hp⟩, hhigh⟩ <;>
        rcases hk with ⟨p', hp', hle', hlow'⟩ | ⟨hout', ⟨p', hp'⟩, hhigh'⟩
      · exact le_antisymm (hlow _ hp' hle') (hlow' _ hp hle)
      · exact absurd hle (not_le.mpr (hout' _ hp))
      · exact absurd hle' (not_le.mpr (hout _ hp'))
      · exact le_antisymm (hhigh' _ hp) (hhigh _ hp')

theorem quoted_lowestInRange_iff (hkeys : (entries.map Prod.fst).Nodup) (simulated : ℤ) :
    (∃ k p, (k, some p) ∈ entries ∧
      (((lowestInRange (readings entries) least).getD simulated : ℤ) : ℚ) = k ∧ least ≤ p) ↔
      ∃ k p, (k, some p) ∈ entries ∧ least ≤ p ∧
        (least ≤ 0 → ∀ k', (k', none) ∈ entries → k < k') := by
  have hread : ∀ {k q}, (k, q) ∈ entries → (k, q.getD 0) ∈ readings entries := fun hmem =>
    List.mem_map_of_mem hmem
  cases hpick : lowestInRange (readings entries) least with
  | none =>
    have hnil : entries = [] := List.map_eq_nil_iff.mp (lowestInRange_eq_none.mp hpick)
    simp [hnil]
  | some c =>
    rw [Option.getD_some]
    have hc := lowestInRange_eq_some.mp hpick
    constructor
    · rintro ⟨k, p, hmem, hk, hle⟩
      obtain rfl : c = k := by exact_mod_cast hk
      refine ⟨c, p, hmem, hle, fun hzero k' hmem' => ?_⟩
      have hlow : c ≤ k' := by
        rcases hc with ⟨-, -, -, hlow⟩ | ⟨hout, -, -⟩
        · exact hlow _ (hread hmem') hzero
        · exact absurd hle (not_le.mpr (hout _ (hread hmem)))
      refine lt_of_le_of_ne hlow fun heq => ?_
      rw [← heq] at hmem'
      have hget := Dict.get_of_mem hkeys hmem
      rw [Dict.get_of_mem hkeys hmem'] at hget
      cases hget
    · rintro ⟨k, p, hmem, hle, hbefore⟩
      rcases hc with ⟨r, hr, hle', hlow⟩ | ⟨hout, -, -⟩
      · obtain ⟨⟨c', q⟩, hq, heq⟩ := List.mem_map.mp hr
        obtain ⟨rfl, rfl⟩ := Prod.mk.inj heq
        cases q with
        | some p' => exact ⟨c', p', hq, rfl, hle'⟩
        | none =>
          have hck := hlow _ (hread hmem) hle
          have hkc := hbefore hle' c' hq
          exact absurd hck (not_le.mpr hkc)
      · exact absurd hle (not_le.mpr (hout _ (hread hmem)))

end Range

section Strikes

variable {symbol : String} {spot : ℚ} {chain : List ChainStrike} {leg : UserStrategyLeg}

theorem quotes_eq_nil {field : OptionQuote → Option ℚ} {optionType : Option OptionType} :
    quotes field chain optionType = [] ↔ chain = [] := by
  constructor
  · intro hnil
    cases chain with
    | nil => rfl
    | cons s rest =>
      have hkey : s.strike ∈ (quotes field (s :: rest) optionType).map Prod.fst :=
        (Dict.mem_keys_update _ _ _).mpr (.inr (by simp))
      rw [hnil] at hkey
      cases hkey
  · rintro rfl
    rfl

def simulatedStrike (symbol : String) (spot : ℚ) (leg : UserStrategyLeg) (steps : ℤ) : ℤ :=
  roundToStrike spot (strikeInterval symbol) +
    (if leg.optionType = some .ce then steps else -steps) * strikeInterval symbol

theorem resolveStrike_options (hoptions : leg.segment = .options) :
    resolveStrike symbol spot chain leg = .whole
      (match leg.strikeCriteria with
      | .atmOffset =>
        roundToStrike spot (strikeInterval symbol) + truncate leg.strikeValue * strikeInterval symbol
      | .premiumClosest =>
        (closest (readings (quotes OptionQuote.quoted chain leg.optionType)) leg.strikeValue).getD
          (simulatedStrike symbol spot leg 1)
      | .premiumRange =>
        (lowestInRange (readings (quotes OptionQuote.quoted chain leg.optionType)) leg.strikeValue).getD
          (simulatedStrike symbol spot leg 1)
      | .delta =>
        (closest (readings (quotes OptionQuote.delta chain leg.optionType)) leg.strikeValue).getD
          (simulatedStrike symbol spot leg 2)) := by
  have hsegment : leg.segment ≠ .futures := by
    rw [hoptions]
    decide
  unfold resolveStrike
  dsimp only
  rw [if_neg hsegment]
  cases leg.strikeCriteria with
  | atmOffset => rfl
  | premiumClosest => simp only [premia_eq, simulatedStrike]
  | premiumRange =>
    simp only [premia_eq, lowestInRange]
    cases hfind : ((readings (quotes OptionQuote.quoted chain leg.optionType)).insertionSort
        fun p q => p.1 ≤ q.1).find? fun p => leg.strikeValue ≤ p.2 with
    | none => rfl
    | some p => rfl
  | delta => simp only [deltas_eq, simulatedStrike]

theorem criterion_resolveStrike_iff (hoptions : leg.segment = .options) :
    Criterion symbol spot chain leg (resolveStrike symbol spot chain leg).value ↔
      WellQuoted symbol spot chain leg := by
  rw [resolveStrike_options hoptions]
  unfold Criterion WellQuoted Strike.value
  cases leg.strikeCriteria with
  | atmOffset => exact offset_iff chain spot leg.strikeValue (strikeInterval_pos symbol)
  | premiumClosest => exact nearest_closest_iff (nodup_quotes _ _ _) _
  | premiumRange => exact quoted_lowestInRange_iff (nodup_quotes _ _ _) _
  | delta => exact nearest_closest_iff (nodup_quotes _ _ _) _

theorem not_criterion_nil (strike : ℚ) : ¬ Criterion symbol spot [] leg strike := by
  intro h
  unfold Criterion at h
  cases hcriteria : leg.strikeCriteria with
  | atmOffset =>
    rw [hcriteria] at h
    obtain ⟨atm, hatm, -⟩ := h
    cases hatm
  | premiumClosest =>
    rw [hcriteria] at h
    obtain ⟨k, p, hmem, -⟩ := h
    cases hmem
  | premiumRange =>
    rw [hcriteria] at h
    obtain ⟨k, p, hmem, -⟩ := h
    cases hmem
  | delta =>
    rw [hcriteria] at h
    obtain ⟨k, p, hmem, -⟩ := h
    cases hmem

def Picks (symbol : String) (spot : ℚ) (chain : List ChainStrike) (leg : UserStrategyLeg)
    (strike : ℚ) : Prop :=
  match leg.segment with
  | .futures => strike = spot
  | .options =>
    match leg.strikeCriteria with
    | .atmOffset =>
      strike = roundToStrike spot (strikeInterval symbol) +
        truncate leg.strikeValue * strikeInterval symbol
    | .premiumClosest =>
      ∃ e, FirstLeast (fun e : ℤ × Option ℚ => |e.2.getD 0 - leg.strikeValue|)
        (quotes OptionQuote.quoted chain leg.optionType) e ∧ strike = e.1
    | .premiumRange =>
      ∃ k : ℤ, InRange (readings (quotes OptionQuote.quoted chain leg.optionType)) leg.strikeValue k ∧
        strike = k
    | .delta =>
      ∃ e, FirstLeast (fun e : ℤ × Option ℚ => |e.2.getD 0 - leg.strikeValue|)
        (quotes OptionQuote.delta chain leg.optionType) e ∧ strike = e.1

theorem picks_closest {entries : Dict ℤ (Option ℚ)} (hne : entries ≠ []) (target : ℚ)
    (simulated : ℤ) (strike : ℚ) :
    (∃ e, FirstLeast (fun e : ℤ × Option ℚ => |e.2.getD 0 - target|) entries e ∧ strike = e.1) ↔
      strike = (((closest (readings entries) target).getD simulated : ℤ) : ℚ) := by
  cases hclosest : closest (readings entries) target with
  | none => exact absurd (closest_eq_none.mp hclosest) hne
  | some c =>
    obtain ⟨e, hleast, rfl⟩ := (closest_readings entries target c).mp hclosest
    rw [Option.getD_some]
    constructor
    · rintro ⟨e', hleast', rfl⟩
      have heq : e' = e := Option.some.inj (hleast'.argmin_eq.symm.trans hleast.argmin_eq)
      rw [heq]
    · intro heq
      exact ⟨e, hleast, heq⟩

theorem picks_iff (hne : chain ≠ []) (strike : ℚ) :
    Picks symbol spot chain leg strike ↔ strike = (resolveStrike symbol spot chain leg).value := by
  have hquotes : ∀ field, quotes field chain leg.optionType ≠ [] := fun field h =>
    hne (quotes_eq_nil.mp h)
  unfold Picks
  cases hsegment : leg.segment with
  | futures => simp [resolveStrike, hsegment, Strike.value]
  | options =>
    rw [resolveStrike_options hsegment]
    unfold Strike.value
    cases leg.strikeCriteria with
    | atmOffset => simp
    | premiumClosest => exact picks_closest (hquotes _) _ _ _
    | premiumRange =>
      dsimp only
      cases hpick : lowestInRange (readings (quotes OptionQuote.quoted chain leg.optionType))
          leg.strikeValue with
      | none => exact absurd (List.map_eq_nil_iff.mp (lowestInRange_eq_none.mp hpick)) (hquotes _)
      | some c =>
        rw [Option.getD_some]
        constructor
        · rintro ⟨k, hk, rfl⟩
          rw [← lowestInRange_eq_some, hpick] at hk
          rw [Option.some.inj hk]
        · intro heq
          exact ⟨c, lowestInRange_eq_some.mp hpick, heq⟩
    | delta => exact picks_closest (hquotes _) _ _ _

end Strikes

section Plans

def SameRule (a b : UserStrategyLeg) : Prop :=
  a.segment = b.segment ∧ a.optionType = b.optionType ∧ a.strikeCriteria = b.strikeCriteria ∧
    a.strikeValue = b.strikeValue

/-- The leg whose strike the legs of a `leg_order` get. -/
def lastOf (legs : List UserStrategyLeg) (order : ℤ) : Option UserStrategyLeg :=
  (legs.filter fun leg => leg.legOrder = order).getLast?

/-- The chain is quoted as a leg is read, or the last leg of its `leg_order` happens to pick a
strike that this one asks for. -/
def LegRead (symbol : String) (spot : ℚ) (chain : List ChainStrike) (legs : List UserStrategyLeg)
    (leg : UserStrategyLeg) : Prop :=
  ∃ last ∈ lastOf legs leg.legOrder,
    (SameRule last leg ∧ WellQuoted symbol spot chain leg) ∨
      (¬ SameRule last leg ∧
        ∃ strike, Picks symbol spot chain last strike ∧ Criterion symbol spot chain leg strike)

structure Realises (strategy : UserStrategy) (market : MarketData) (leg : UserStrategyLeg)
    (order : NormalizedOrder) : Prop where
  quantity : order.quantity = leg.lots * market.lotSize.getD 0
  side : order.side = match leg.position with
    | .buy => .buy
    | .sell => .sell
  optionType : order.optionType = leg.optionType
  strike : leg.segment = .options → ∃ strike ∈ order.strikePrice,
    Criterion strategy.indexSymbol market.spot (market.chain.getD []) leg strike

theorem resolveStrike_congr {a b : UserStrategyLeg} (h : SameRule a b) (symbol : String) (spot : ℚ)
    (chain : List ChainStrike) : resolveStrike symbol spot chain a = resolveStrike symbol spot chain b := by
  obtain ⟨hsegment, hoptionType, hcriteria, hvalue⟩ := h
  unfold resolveStrike
  rw [hsegment, hoptionType, hcriteria, hvalue]

theorem get_resolveStrikes (legs : List UserStrategyLeg) (symbol : String) (spot : ℚ)
    (chain : List ChainStrike) (order : ℤ) :
    (resolveStrikes legs symbol spot chain).get order =
      (lastOf legs order).map (resolveStrike symbol spot chain) :=
  Dict.get_update_filter legs UserStrategyLeg.legOrder (resolveStrike symbol spot chain) order

theorem exists_lastOf {legs : List UserStrategyLeg} {leg : UserStrategyLeg} (hleg : leg ∈ legs) :
    ∃ last, lastOf legs leg.legOrder = some last := by
  cases hlast : lastOf legs leg.legOrder with
  | some last => exact ⟨last, rfl⟩
  | none =>
    have hmem : leg ∈ legs.filter fun l => l.legOrder = leg.legOrder := by simpa using hleg
    rw [lastOf, List.getLast?_eq_none_iff] at hlast
    rw [hlast] at hmem
    cases hmem

theorem legRead_iff {symbol : String} {spot : ℚ} {chain : List ChainStrike}
    {legs : List UserStrategyLeg} {leg last : UserStrategyLeg} (hoptions : leg.segment = .options)
    (hlast : lastOf legs leg.legOrder = some last) :
    Criterion symbol spot chain leg (resolveStrike symbol spot chain last).value ↔
      LegRead symbol spot chain legs leg := by
  have hread : LegRead symbol spot chain legs leg ↔
      (SameRule last leg ∧ WellQuoted symbol spot chain leg) ∨
        (¬ SameRule last leg ∧
          ∃ strike, Picks symbol spot chain last strike ∧ Criterion symbol spot chain leg strike) := by
    unfold LegRead
    rw [hlast]
    simp only [Option.mem_def, Option.some.injEq, exists_eq_left']
  rw [hread]
  by_cases hsame : SameRule last leg
  · rw [resolveStrike_congr hsame, criterion_resolveStrike_iff hoptions]
    simp [hsame]
  · cases chain with
    | nil => simp [not_criterion_nil, hsame]
    | cons s rest =>
      have hpicks := @picks_iff symbol spot (s :: rest) last (List.cons_ne_nil s rest)
      simp [hpicks, hsame]

variable {floatRepr : ℚ → String} {strategy : UserStrategy} {market : MarketData}
  {plan : ExecutionPlan}

theorem realises_legOrder_iff {leg : UserStrategyLeg} (hleg : leg ∈ strategy.legs) :
    Realises strategy market leg
        (legOrder floatRepr strategy market (market.lotSize.getD 0)
          (((resolveStrikes strategy.legs strategy.indexSymbol market.spot
            (market.chain.getD [])).get leg.legOrder).getD (.spot market.spot)) leg) ↔
      (leg.segment = .options →
        LegRead strategy.indexSymbol market.spot (market.chain.getD []) strategy.legs leg) := by
  obtain ⟨last, hlast⟩ := exists_lastOf hleg
  rw [get_resolveStrikes, hlast, Option.map_some, Option.getD_some]
  constructor
  · intro hreal hoptions
    obtain ⟨strike, hstrike, hcriterion⟩ := hreal.strike hoptions
    have heq : (resolveStrike strategy.indexSymbol market.spot (market.chain.getD []) last).value =
        strike := by simpa [legOrder, hoptions] using hstrike
    rw [← legRead_iff hoptions hlast, heq]
    exact hcriterion
  · intro hread
    refine ⟨rfl, ?_, rfl, fun hoptions => ?_⟩
    · cases hposition : leg.position <;> simp [legOrder, hposition]
    · exact ⟨_, by simp [legOrder, hoptions], (legRead_iff hoptions hlast).mpr (hread hoptions)⟩

/-- Every order of a plan realises its leg exactly when every option leg is read as it is meant. -/
theorem realised_iff (h : compileUserStrategy floatRepr strategy market = .ok plan) :
    List.Forall₂ (Realises strategy market) strategy.legs plan.orders ↔
      ∀ leg ∈ strategy.legs, leg.segment = .options →
        LegRead strategy.indexSymbol market.spot (market.chain.getD []) strategy.legs leg := by
  obtain ⟨-, horders⟩ := compileUserStrategy_spec h
  rw [horders, List.forall₂_map_right_iff, List.forall₂_same]
  exact forall₂_congr fun leg hleg => realises_legOrder_iff hleg

section Straddle

def offsetLeg (order : ℤ) (optionType : OptionType) (offset : ℚ) : UserStrategyLeg where
  legOrder := order
  segment := .options
  position := .sell
  optionType := some optionType
  expiry := .weekly
  strikeCriteria := .atmOffset
  strikeValue := offset

def niftyStrategy (legs : List UserStrategyLeg) : UserStrategy where
  id := "s1"
  name := "Short strangle"
  indexSymbol := "NIFTY"
  entryTime := "09:20"
  exitTime := "15:15"
  legs := legs

def niftyMarket : MarketData where
  today := ⟨739878⟩
  spot := 25000
  chain := some [{ strike := 24950 }, { strike := 25000 }, { strike := 25050 }]
  lotSize := some 75

theorem roundToStrike_nifty : roundToStrike 25000 (strikeInterval "NIFTY") = 25000 := by decide +kernel

/-- A straddle with a `leg_order` for each leg. -/
theorem realised_iff_straddle :
    ∃ plan, compileUserStrategy (fun _ => "") (niftyStrategy [offsetLeg 1 .ce 0, offsetLeg 2 .pe 0])
        niftyMarket = .ok plan ∧
      List.Forall₂ (Realises (niftyStrategy [offsetLeg 1 .ce 0, offsetLeg 2 .pe 0]) niftyMarket)
        [offsetLeg 1 .ce 0, offsetLeg 2 .pe 0] plan.orders := by
  refine ⟨_, rfl, (realised_iff rfl).mpr fun leg hleg _ => ?_⟩
  have hlast : lastOf [offsetLeg 1 .ce 0, offsetLeg 2 .pe 0] leg.legOrder = some leg := by
    rcases List.mem_pair.mp hleg with rfl | rfl <;> rfl
  refine ⟨leg, hlast, .inl ⟨⟨rfl, rfl, rfl, rfl⟩, ?_⟩⟩
  have hquoted : ∀ optionType order,
      WellQuoted "NIFTY" 25000 (niftyMarket.chain.getD []) (offsetLeg order optionType 0) := by
    intro optionType order
    refine ⟨?_, by simp [offsetLeg, truncate]⟩
    rw [roundToStrike_nifty]
    decide
  rcases List.mem_pair.mp hleg with rfl | rfl
  · exact hquoted _ _
  · exact hquoted _ _

/-- A strangle whose legs share a `leg_order`: the call gets the strike of the put. -/
theorem strangle_not_realised :
    ¬ ∀ (timeOf : String → Option ℕ) (floatRepr : ℚ → String) (strategy : UserStrategy)
        (market : MarketData) (plan : ExecutionPlan),
      validateUserStrategy timeOf strategy = .ok () →
      compileUserStrategy floatRepr strategy market = .ok plan →
      List.Forall₂ (Realises strategy market) strategy.legs plan.orders := by
  intro h
  have hall := h (fun t => if t = "09:20" then some 33600 else some 54900) (fun _ => "")
    (niftyStrategy [offsetLeg 1 .ce 1, offsetLeg 1 .pe (-1)]) niftyMarket _ (by decide) rfl
  have hcall := (realises_legOrder_iff (List.mem_cons_self)).mp (List.forall₂_cons.mp hall).1 rfl
  obtain ⟨last, hlast, hread⟩ := hcall
  obtain rfl : offsetLeg 1 .pe (-1) = last := Option.some.inj hlast
  rcases hread with ⟨hsame, -⟩ | ⟨-, strike, hpicks, atm, hatm, -, hstrike⟩
  · exact absurd hsame.2.1 (by decide)
  · -- 24950 would be one step above a listed strike
    have hput : strike = ((25000 + truncate (-1) * strikeInterval "NIFTY" : ℤ) : ℚ) := by
      have hround := congrArg (fun k : ℤ => (k : ℚ)) roundToStrike_nifty
      push_cast at hround ⊢
      rw [← hround]
      exact hpicks
    have hinterval : strikeInterval "NIFTY" = 50 := rfl
    have hcall : strike = ((atm + 1 * 50 : ℤ) : ℚ) := by
      have hoffset : strike = (atm : ℚ) + 1 * (strikeInterval "NIFTY" : ℚ) := hstrike
      rw [hoffset, hinterval]
      push_cast
      ring
    have hstep : 25000 + truncate (-1) * strikeInterval "NIFTY" = atm + 1 * 50 := by
      exact_mod_cast hput.symm.trans hcall
    have hlisted := (mem_listedMultiples.mp hatm).1
    have hvalue : truncate (-1) * strikeInterval "NIFTY" = -50 := by decide
    have hatm' : atm = 24900 := by omega
    rw [hatm'] at hlisted
    exact absurd hlisted (by decide)

end Straddle

end Plans

end Trademetrix.Engine
