import Mathlib.Algebra.Order.BigOperators.Group.List
import Mathlib.Algebra.Order.Field.Basic
import Mathlib.Algebra.Order.Field.Rat
import Mathlib.Tactic.FieldSimp
import Mathlib.Tactic.Linarith
import Mathlib.Tactic.Positivity
import Mathlib.Tactic.Ring

/-!
# The indicators of the buyer strategies

Averages of prices, the volume-weighted price, the true range and the directional
index, over the candles of a window. Floats are rationals.
-/

namespace Trademetrix.Strategies

structure Candle where
  symbol : String := ""
  exchange : String := "NSE"
  interval : String := ""
  openPrice : ℚ
  high : ℚ
  low : ℚ
  close : ℚ
  volume : ℤ := 0
  timestamp : ℤ
  oi : ℤ := 0
  deriving DecidableEq

def Candle.time (c : Candle) : ℤ := c.timestamp % (24 * 60 * 60 * 1000000)

def ema (values : List ℚ) (period : ℕ) : ℚ :=
  if values.length < period then values.getLast?.getD 0
  else
    let multiplier : ℚ := 2 / (period + 1)
    (values.drop period).foldl (fun result v => (v - result) * multiplier + result)
      ((values.take period).sum / period)

def sma (values : List ℚ) (period : ℕ) : ℚ :=
  if values.length < period ∨ period < 1 then values.getLast?.getD 0
  else (values.drop (values.length - period)).sum / period

def vwap (bars : List (ℚ × ℚ)) : ℚ :=
  let pv := (bars.map fun b => b.1 * b.2).sum
  let vol := (bars.map Prod.snd).sum
  if vol ≠ 0 then pv / vol else 0

def pairs (candles : List Candle) : List (Candle × Candle) := candles.zip candles.tail

def trueRange (prev c : Candle) : ℚ :=
  max (max (c.high - c.low) |c.high - prev.close|) |c.low - prev.close|

def plusDm (prev c : Candle) : ℚ :=
  let upMove := c.high - prev.high
  let downMove := prev.low - c.low
  if downMove < upMove ∧ 0 < upMove then upMove else 0

def minusDm (prev c : Candle) : ℚ :=
  let upMove := c.high - prev.high
  let downMove := prev.low - c.low
  if upMove < downMove ∧ 0 < downMove then downMove else 0

def atr (candles : List Candle) (period : ℕ) : ℚ :=
  if candles.length < period + 1 then 0
  else
    let trs := (pairs candles).map fun p => trueRange p.1 p.2
    if trs = [] then 0 else sma trs (min period trs.length)

/-- The mean of the last `period` values. -/
def lastMean (values : List ℚ) (period : ℕ) : ℚ :=
  (values.drop (values.length - period)).sum / period

def dx (plusDi minusDi : ℚ) : ℚ :=
  if 0 < plusDi + minusDi then |plusDi - minusDi| / (plusDi + minusDi) * 100 else 0

def adx (candles : List Candle) (period : ℕ) : ℚ :=
  if candles.length < period + 1 then 0
  else
    let avgTr := lastMean ((pairs candles).map fun p => trueRange p.1 p.2) period
    if avgTr ≤ 0 then 0
    else
      dx (100 * lastMean ((pairs candles).map fun p => plusDm p.1 p.2) period / avgTr)
        (100 * lastMean ((pairs candles).map fun p => minusDm p.1 p.2) period / avgTr)

def supertrend (candles : List Candle) (period : ℕ) (multiplier : ℚ) : ℚ × Bool :=
  if candles.length < period + 1 then (0, true)
  else
    let atrVal := atr candles period
    if atrVal ≤ 0 then (0, true)
    else match candles.reverse with
      | last :: prev :: _ =>
        ((last.high + last.low) / 2 + multiplier * atrVal, prev.close < last.close)
      | _ => (0, true)

section Ranges

variable {lo hi : ℚ} {values : List ℚ} {period : ℕ}

def Within (lo hi : ℚ) (values : List ℚ) : Prop := ∀ v ∈ values, lo ≤ v ∧ v ≤ hi

theorem Within.sublist {us : List ℚ} (h : Within lo hi values) (hsub : us.Sublist values) :
    Within lo hi us :=
  fun v hv => h v (hsub.subset hv)

theorem Within.sum (h : Within lo hi values) :
    values.length * lo ≤ values.sum ∧ values.sum ≤ values.length * hi := by
  induction values with
  | nil => simp
  | cons v vs ih =>
    obtain ⟨hlo, hhi⟩ := h v List.mem_cons_self
    obtain ⟨ihlo, ihhi⟩ := ih (h.sublist (List.sublist_cons_self v vs))
    rw [List.sum_cons, List.length_cons]
    push_cast
    constructor <;> linarith

theorem Within.mean (h : Within lo hi values) (hne : values ≠ []) :
    lo ≤ values.sum / values.length ∧ values.sum / values.length ≤ hi := by
  have hpos : (0 : ℚ) < values.length := by exact_mod_cast List.length_pos_of_ne_nil hne
  obtain ⟨hlo, hhi⟩ := h.sum
  constructor
  · rw [le_div_iff₀ hpos]
    linarith
  · rw [div_le_iff₀ hpos]
    linarith

theorem Within.getLast (h : Within lo hi values) (hne : values ≠ []) :
    lo ≤ values.getLast?.getD 0 ∧ values.getLast?.getD 0 ≤ hi := by
  rw [List.getLast?_eq_some_getLast hne, Option.getD_some]
  exact h _ (List.getLast_mem hne)

theorem smooth_mem {multiplier result v : ℚ} (hm : 0 ≤ multiplier) (hm' : multiplier ≤ 1)
    (hr : lo ≤ result ∧ result ≤ hi) (hv : lo ≤ v ∧ v ≤ hi) :
    lo ≤ (v - result) * multiplier + result ∧ (v - result) * multiplier + result ≤ hi := by
  have hconvex : (v - result) * multiplier + result = multiplier * v + (1 - multiplier) * result := by
    ring
  have hrest : 0 ≤ 1 - multiplier := sub_nonneg.mpr hm'
  rw [hconvex]
  constructor
  · calc lo = multiplier * lo + (1 - multiplier) * lo := by ring
      _ ≤ multiplier * v + (1 - multiplier) * result :=
        add_le_add (mul_le_mul_of_nonneg_left hv.1 hm) (mul_le_mul_of_nonneg_left hr.1 hrest)
  · calc multiplier * v + (1 - multiplier) * result
        ≤ multiplier * hi + (1 - multiplier) * hi :=
        add_le_add (mul_le_mul_of_nonneg_left hv.2 hm) (mul_le_mul_of_nonneg_left hr.2 hrest)
      _ = hi := by ring

theorem Within.smooth {multiplier result : ℚ} (hm : 0 ≤ multiplier) (hm' : multiplier ≤ 1)
    (hr : lo ≤ result ∧ result ≤ hi) (h : Within lo hi values) :
    lo ≤ values.foldl (fun result v => (v - result) * multiplier + result) result ∧
      values.foldl (fun result v => (v - result) * multiplier + result) result ≤ hi := by
  induction values generalizing result with
  | nil => exact hr
  | cons v vs ih =>
    have hnext := smooth_mem hm hm' hr (h v List.mem_cons_self)
    exact ih hnext (h.sublist (List.sublist_cons_self v vs))

theorem ema_mem (h : Within lo hi values) (hne : values ≠ []) (hperiod : 0 < period) :
    lo ≤ ema values period ∧ ema values period ≤ hi := by
  unfold ema
  split
  · exact h.getLast hne
  · next hlen =>
    have htake : (values.take period).length = period := List.length_take_of_le (not_lt.mp hlen)
    have hmean := (h.sublist (List.take_sublist period values)).mean fun hnil => by
      rw [hnil, List.length_nil] at htake
      omega
    rw [htake] at hmean
    have hpos : (0 : ℚ) < period + 1 := by positivity
    refine Within.smooth (by positivity) ?_ hmean (h.sublist (List.drop_sublist period values))
    rw [div_le_one hpos]
    have hone : (1 : ℚ) ≤ period := by exact_mod_cast hperiod
    linarith

theorem sma_mem (h : Within lo hi values) (hne : values ≠ []) :
    lo ≤ sma values period ∧ sma values period ≤ hi := by
  unfold sma
  split
  · exact h.getLast hne
  · next hlen =>
    have hdrop : (values.drop (values.length - period)).length = period := by
      rw [List.length_drop]
      omega
    have hmean := (h.sublist (List.drop_sublist (values.length - period) values)).mean fun hnil => by
      rw [hnil, List.length_nil] at hdrop
      omega
    rwa [hdrop] at hmean

theorem weighted_mem {bars : List (ℚ × ℚ)} (h : ∀ b ∈ bars, lo ≤ b.1 ∧ b.1 ≤ hi)
    (hvol : ∀ b ∈ bars, 0 ≤ b.2) :
    lo * (bars.map Prod.snd).sum ≤ (bars.map fun b => b.1 * b.2).sum ∧
      (bars.map fun b => b.1 * b.2).sum ≤ hi * (bars.map Prod.snd).sum := by
  induction bars with
  | nil => simp
  | cons b bs ih =>
    obtain ⟨hlo, hhi⟩ := h b List.mem_cons_self
    have hb := hvol b List.mem_cons_self
    obtain ⟨ihlo, ihhi⟩ := ih (fun x hx => h x (List.mem_cons_of_mem _ hx))
      fun x hx => hvol x (List.mem_cons_of_mem _ hx)
    simp only [List.map_cons, List.sum_cons, mul_add]
    exact ⟨add_le_add (mul_le_mul_of_nonneg_right hlo hb) ihlo,
      add_le_add (mul_le_mul_of_nonneg_right hhi hb) ihhi⟩

theorem vwap_mem {bars : List (ℚ × ℚ)} (h : ∀ b ∈ bars, lo ≤ b.1 ∧ b.1 ≤ hi)
    (hvol : ∀ b ∈ bars, 0 ≤ b.2) (hne : (bars.map Prod.snd).sum ≠ 0) :
    lo ≤ vwap bars ∧ vwap bars ≤ hi := by
  have hpos : 0 < (bars.map Prod.snd).sum :=
    lt_of_le_of_ne (List.sum_nonneg fun v hv => by
      obtain ⟨b, hb, rfl⟩ := List.mem_map.mp hv
      exact hvol b hb) hne.symm
  obtain ⟨hlo, hhi⟩ := weighted_mem h hvol
  rw [vwap, if_pos hne]
  exact ⟨(le_div_iff₀ hpos).mpr hlo, (div_le_iff₀ hpos).mpr hhi⟩

theorem lastMean_nonneg (h : ∀ v ∈ values, 0 ≤ v) : 0 ≤ lastMean values period :=
  div_nonneg (List.sum_nonneg fun v hv => h v (List.mem_of_mem_drop hv)) (Nat.cast_nonneg period)

theorem plusDm_nonneg (prev c : Candle) : 0 ≤ plusDm prev c := by
  dsimp only [plusDm]
  split
  · next h => exact h.2.le
  · exact le_refl 0

theorem minusDm_nonneg (prev c : Candle) : 0 ≤ minusDm prev c := by
  dsimp only [minusDm]
  split
  · next h => exact h.2.le
  · exact le_refl 0

theorem dx_mem {plusDi minusDi : ℚ} (hplus : 0 ≤ plusDi) (hminus : 0 ≤ minusDi) :
    0 ≤ dx plusDi minusDi ∧ dx plusDi minusDi ≤ 100 := by
  unfold dx
  split
  · next hsum =>
    have habs : |plusDi - minusDi| ≤ plusDi + minusDi :=
      abs_le.mpr ⟨by linarith, by linarith⟩
    have hle := (div_le_one hsum).mpr habs
    refine ⟨by positivity, ?_⟩
    linarith
  · norm_num

theorem adx_mem (candles : List Candle) (period : ℕ) :
    0 ≤ adx candles period ∧ adx candles period ≤ 100 := by
  have hmean : ∀ f : Candle → Candle → ℚ, (∀ prev c, 0 ≤ f prev c) →
      0 ≤ 100 * lastMean ((pairs candles).map fun p => f p.1 p.2) period := by
    intro f hf
    refine mul_nonneg (by norm_num) (lastMean_nonneg fun v hv => ?_)
    obtain ⟨p, -, rfl⟩ := List.mem_map.mp hv
    exact hf p.1 p.2
  dsimp only [adx]
  split
  · norm_num
  split
  · norm_num
  · next htr =>
    have havg := (not_le.mp htr).le
    exact dx_mem (div_nonneg (hmean plusDm plusDm_nonneg) havg)
      (div_nonneg (hmean minusDm minusDm_nonneg) havg)

end Ranges

end Trademetrix.Strategies
