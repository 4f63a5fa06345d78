import Mathlib.Data.Rat.Init
import Mathlib.Tactic.Linarith
import Trademetrix.Run
import Trademetrix.Risk.OrderRate

/-!
# The token bucket of a broker

A bucket is refilled whole once a window has passed since its last refill, whenever its
tokens were spent. A window that starts before a refill then holds the grants of two periods.
-/

namespace Trademetrix.RateLimiter

open Sliding (Bounded Forgets window)

/-- An entry of `BROKER_RATE_LIMITS`. -/
structure Limits where
  calls : ℕ
  window : ℚ
  calls_pos : 0 < calls := by decide
  window_pos : 0 < window := by norm_num

def brokerRateLimits : Dict String Limits :=
  [("fyers", { calls := 50, window := 60 }), ("zerodha", { calls := 50, window := 60 }),
    ("dhan", { calls := 100, window := 60 }), ("angelone", { calls := 50, window := 60 }),
    ("upstox", { calls := 100, window := 60 }), ("fivepaisa", { calls := 30, window := 60 }),
    ("aliceblue", { calls := 30, window := 60 }), ("finvasia", { calls := 50, window := 60 }),
    ("flattrade", { calls := 50, window := 60 }), ("kotakneo", { calls := 50, window := 60 }),
    ("lemonn", { calls := 30, window := 60 }), ("paper", { calls := 1000, window := 60 })]

def limitsOf (broker : String) : Limits :=
  (brokerRateLimits.get broker).getD { calls := 30, window := 60 }

structure TokenBucket (limits : Limits) where
  tokens : ℕ
  refillAt : ℚ

/-- An `acquire` that has the lock: the time it reads, and the time it reads after its sleep
should it have to wait; it is cancelled in the sleep when there is none. -/
structure Acquire where
  now : ℚ
  woken : Option ℚ

structure Grant where
  time : ℚ
  waited : ℚ
  deriving DecidableEq

def TokenBucket.init (limits : Limits) (start : ℚ) : TokenBucket limits := ⟨limits.calls, start⟩

section Bucket

variable {limits : Limits}

def TokenBucket.refilled (b : TokenBucket limits) (now : ℚ) : TokenBucket limits :=
  if limits.window ≤ now - b.refillAt then ⟨limits.calls, now⟩ else b

def TokenBucket.acquire (b : TokenBucket limits) (c : Acquire) :
    TokenBucket limits × Option Grant :=
  let fresh := b.refilled c.now
  if 0 < fresh.tokens then ({ fresh with tokens := fresh.tokens - 1 }, some ⟨c.now, 0⟩)
  else
    match c.woken with
    | none => (fresh, none)
    | some woken =>
      (⟨limits.calls - 1, woken⟩, some ⟨woken, limits.window - (c.now - b.refillAt)⟩)

def granted : TokenBucket limits → List Acquire → List ℚ
  | _, [] => []
  | b, c :: cs => ((b.acquire c).2.map Grant.time).toList ++ granted (b.acquire c).1 cs

end Bucket

structure Meter (limits : Limits) where
  bucket : TokenBucket limits
  before : List ℚ
  since : List ℚ
  clock : ℚ

namespace Meter

variable {limits : Limits} (m : Meter limits) (c : Acquire)

def grants : List ℚ := m.before ++ m.since

def refilled (now : ℚ) : Meter limits :=
  if limits.window ≤ now - m.bucket.refillAt then
    ⟨m.bucket.refilled now, m.grants, [], now⟩
  else { m with clock := now }

def step : Meter limits :=
  let fresh := m.refilled c.now
  if 0 < fresh.bucket.tokens then
    ⟨(m.bucket.acquire c).1, fresh.before, fresh.since ++ [c.now], c.now⟩
  else
    match c.woken with
    | none => fresh
    | some woken => ⟨(m.bucket.acquire c).1, fresh.grants, [woken], woken⟩

def InTime : Prop := m.clock ≤ c.now ∧ ∀ woken ∈ c.woken, c.now ≤ woken

def old (limits : Limits) (now t : ℚ) : Prop := t + limits.window ≤ now

instance : DecidableRel (old limits) :=
  fun now t => inferInstanceAs (Decidable (t + limits.window ≤ now))

def carried (now : ℚ) : ℕ := (window (old limits) now m.before).length

/-- The next grant, if there is one, finds fewer grants of earlier periods less than a window
old than there are tokens left. -/
def Room : Prop :=
  let fresh := m.refilled c.now
  if 0 < fresh.bucket.tokens then fresh.carried c.now < fresh.bucket.tokens
  else
    ∀ woken ∈ c.woken, (window (old limits) woken fresh.grants).length < limits.calls

instance : Decidable (m.Room c) := by
  unfold Room
  infer_instance

structure Metered : Prop where
  count : m.bucket.tokens + m.since.length = limits.calls
  since : ∀ t ∈ m.since, m.bucket.refillAt ≤ t
  past : ∀ t ∈ m.grants, t ≤ m.clock
  opened : m.bucket.refillAt ≤ m.clock

variable {m c} {start now t : ℚ}

theorem old_forgets : Forgets (old limits) := fun _ _ _ hle hgone => le_trans hgone hle

theorem not_old_self : ¬ old limits now now := by
  have hpos := limits.window_pos
  unfold old
  linarith

theorem refilled_bucket : (m.refilled now).bucket = m.bucket.refilled now := by
  unfold refilled TokenBucket.refilled
  split_ifs <;> rfl

theorem refilled_grants : (m.refilled now).grants = m.grants := by
  unfold refilled
  split_ifs
  · exact List.append_nil _
  · rfl

theorem refilled_clock : (m.refilled now).clock = now := by
  unfold refilled
  split_ifs <;> rfl

theorem acquire_open (hfull : 0 < (m.refilled c.now).bucket.tokens) :
    m.bucket.acquire c =
      ({ (m.refilled c.now).bucket with tokens := (m.refilled c.now).bucket.tokens - 1 },
        some ⟨c.now, 0⟩) := by
  rw [refilled_bucket] at hfull ⊢
  exact if_pos hfull

theorem acquire_cancelled (hempty : (m.refilled c.now).bucket.tokens = 0)
    (hw : c.woken = none) : m.bucket.acquire c = ((m.refilled c.now).bucket, none) := by
  rw [refilled_bucket] at hempty ⊢
  unfold TokenBucket.acquire
  simp only [hempty, hw, lt_irrefl, if_false]

theorem acquire_woken {woken : ℚ} (hempty : (m.refilled c.now).bucket.tokens = 0)
    (hw : c.woken = some woken) :
    m.bucket.acquire c =
      (⟨limits.calls - 1, woken⟩,
        some ⟨woken, limits.window - (c.now - m.bucket.refillAt)⟩) := by
  rw [refilled_bucket] at hempty
  unfold TokenBucket.acquire
  simp only [hempty, hw, lt_irrefl, if_false]

theorem step_open (hfull : 0 < (m.refilled c.now).bucket.tokens) :
    m.step c =
      ⟨⟨(m.refilled c.now).bucket.tokens - 1, (m.refilled c.now).bucket.refillAt⟩,
        (m.refilled c.now).before, (m.refilled c.now).since ++ [c.now], c.now⟩ := by
  unfold step
  simp only [acquire_open hfull, hfull, if_true]

theorem step_cancelled (hempty : (m.refilled c.now).bucket.tokens = 0) (hw : c.woken = none) :
    m.step c = m.refilled c.now := by
  unfold step
  simp only [hempty, hw, lt_irrefl, if_false]

theorem step_woken {woken : ℚ} (hempty : (m.refilled c.now).bucket.tokens = 0)
    (hw : c.woken = some woken) :
    m.step c = ⟨⟨limits.calls - 1, woken⟩, (m.refilled c.now).grants, [woken], woken⟩ := by
  unfold step
  simp only [acquire_woken hempty hw, hempty, hw, lt_irrefl, if_false]

theorem step_bucket : (m.step c).bucket = (m.bucket.acquire c).1 := by
  rcases Nat.eq_zero_or_pos (m.refilled c.now).bucket.tokens with hempty | hfull
  · cases hw : c.woken with
    | none => rw [step_cancelled hempty hw, acquire_cancelled hempty hw]
    | some woken => rw [step_woken hempty hw, acquire_woken hempty hw]
  · rw [step_open hfull, acquire_open hfull]

theorem step_grants :
    (m.step c).grants = m.grants ++ ((m.bucket.acquire c).2.map Grant.time).toList := by
  have hsame : (m.refilled c.now).grants = m.grants := refilled_grants
  rcases Nat.eq_zero_or_pos (m.refilled c.now).bucket.tokens with hempty | hfull
  · cases hw : c.woken with
    | none =>
      rw [step_cancelled hempty hw, acquire_cancelled hempty hw, hsame]
      exact (List.append_nil _).symm
    | some woken =>
      rw [step_woken hempty hw, acquire_woken hempty hw, hsame]
      rfl
  · rw [step_open hfull, acquire_open hfull, ← hsame]
    exact (List.append_assoc _ _ _).symm

namespace Metered

variable (h : m.Metered)
include h

theorem refilled (hle : m.clock ≤ now) : (m.refilled now).Metered := by
  constructor
  · rw [refilled_bucket]
    unfold Meter.refilled TokenBucket.refilled
    split_ifs
    · exact Nat.add_zero _
    · exact h.count
  · rw [refilled_bucket]
    unfold Meter.refilled TokenBucket.refilled
    split_ifs
    · exact fun t ht => absurd ht List.not_mem_nil
    · exact h.since
  · rw [refilled_grants, refilled_clock]
    exact fun t ht => le_trans (h.past t ht) hle
  · rw [refilled_bucket, refilled_clock]
    unfold TokenBucket.refilled
    split_ifs
    · exact le_refl _
    · exact le_trans h.opened hle

theorem not_old_since (ht : t ∈ (m.refilled now).since) : ¬ old limits now t := by
  unfold Meter.refilled at ht
  split_ifs at ht with hover
  · exact absurd ht List.not_mem_nil
  · have hge := h.since t ht
    unfold old
    intro hgone
    exact hover (by linarith)

theorem window_length (hle : m.clock ≤ now) :
    (window (old limits) now m.grants).length + (m.refilled now).bucket.tokens =
      (m.refilled now).carried now + limits.calls := by
  have hr := h.refilled hle
  have hsince : window (old limits) now (m.refilled now).since = (m.refilled now).since :=
    Sliding.window_eq_self fun t ht =>
      ⟨le_of_le_of_eq (hr.past t (List.mem_append_right _ ht)) refilled_clock,
        h.not_old_since ht⟩
  have hboth : window (old limits) now m.grants =
      window (old limits) now (m.refilled now).before ++ (m.refilled now).since := by
    rw [← refilled_grants, grants, Sliding.window_append, hsince]
  rw [hboth, List.length_append, carried, ← hr.count]
  omega

theorem step (hc : m.InTime c) : (m.step c).Metered := by
  have hr := h.refilled hc.1
  rcases Nat.eq_zero_or_pos (m.refilled c.now).bucket.tokens with hempty | hfull
  · cases hw : c.woken with
    | none => exact (step_cancelled hempty hw).symm ▸ hr
    | some woken =>
      rw [step_woken hempty hw]
      constructor
      · exact Nat.sub_add_cancel limits.calls_pos
      · exact fun t ht => le_of_eq (List.mem_singleton.mp ht).symm
      · intro t ht
        rcases List.mem_append.mp ht with hearlier | hnew
        · have hnow : t ≤ c.now := le_of_le_of_eq (hr.past t hearlier) refilled_clock
          exact le_trans hnow (hc.2 woken hw)
        · exact le_of_eq (List.mem_singleton.mp hnew)
      · exact le_refl _
  · have hopened := le_of_le_of_eq hr.opened refilled_clock
    rw [step_open hfull]
    constructor
    · have hcount := hr.count
      dsimp only
      rw [List.length_append, List.length_singleton]
      omega
    · intro t ht
      rcases List.mem_append.mp ht with hearlier | hnew
      · exact hr.since t hearlier
      · exact le_of_le_of_eq hopened (List.mem_singleton.mp hnew).symm
    · intro t ht
      rw [grants, ← List.append_assoc] at ht
      rcases List.mem_append.mp ht with hearlier | hnew
      · exact le_of_le_of_eq (hr.past t hearlier) refilled_clock
      · exact le_of_eq (List.mem_singleton.mp hnew)
    · exact hopened

theorem bounded_step (hc : m.InTime c) :
    Bounded (old limits) limits.calls (m.step c).grants ↔
      Bounded (old limits) limits.calls m.grants ∧ m.Room c := by
  have hpast : ∀ t ∈ m.grants, t ≤ c.now := fun t ht => le_trans (h.past t ht) hc.1
  have hsame : (m.refilled c.now).grants = m.grants := refilled_grants
  rw [step_grants]
  unfold Room
  dsimp only
  rcases Nat.eq_zero_or_pos (m.refilled c.now).bucket.tokens with hempty | hfull
  · rw [if_neg (by omega)]
    cases hw : c.woken with
    | none =>
      rw [acquire_cancelled hempty hw]
      simp
    | some woken =>
      have hearlier : ∀ t ∈ m.grants, t ≤ woken := fun t ht =>
        le_trans (hpast t ht) (hc.2 woken hw)
      rw [acquire_woken hempty hw, hsame]
      simpa using Sliding.bounded_snoc old_forgets not_old_self hearlier
  · rw [if_pos hfull, acquire_open hfull]
    have hlen := h.window_length hc.1
    have hroom : (window (old limits) c.now m.grants).length < limits.calls ↔
        (m.refilled c.now).carried c.now < (m.refilled c.now).bucket.tokens := by omega
    rw [← hroom]
    exact Sliding.bounded_snoc old_forgets not_old_self hpast

end Metered

theorem bounded_run {cs : List Acquire} (h : m.Metered) (hcs : Along step InTime m cs) :
    Bounded (old limits) limits.calls (m.grants ++ granted m.bucket cs) ↔
      Bounded (old limits) limits.calls m.grants ∧ Along step Room m cs := by
  induction cs generalizing m with
  | nil => simp [granted]
  | cons c cs ih =>
    rw [granted, ← List.append_assoc, ← step_grants, ← step_bucket, ih (h.step hcs.1) hcs.2,
      h.bounded_step hcs.1, Along.cons, and_assoc]

def init (limits : Limits) (start : ℚ) : Meter limits := ⟨.init limits start, [], [], start⟩

theorem init_metered : (init limits start).Metered where
  count := Nat.add_zero _
  since _ ht := absurd ht List.not_mem_nil
  past _ ht := absurd ht List.not_mem_nil
  opened := le_refl _

theorem granted_bounded_iff {cs : List Acquire} (hcs : Along step InTime (init limits start) cs) :
    Bounded (old limits) limits.calls (granted (.init limits start) cs) ↔
      Along step Room (init limits start) cs :=
  (bounded_run init_metered hcs).trans (and_iff_right Sliding.bounded_nil)

end Meter

open Execution (ExecutionRequest)
open OrderRate (Evaluation approvals evaluations)
open RiskRules (RiskConfig)

/-- The two limits on the rate of orders hold of every window exactly when the rule's queue can
hold as many orders as its limit, or no more came, and every grant of the bucket has room
beside the grants that the last refill forgot. -/
theorem order_rates_bounded_iff {limit : ℕ} (hlimit : 1 ≤ limit) {configs : String → RiskConfig}
    {user : String} (hconfig : (configs user).maxOrdersPerMinute = limit) {es : List Evaluation}
    (hes : (es.map Evaluation.now).Pairwise (· ≤ ·)) (broker : String) (start : ℚ)
    {cs : List Acquire}
    (hcs : Along Meter.step Meter.InTime (Meter.init (limitsOf broker) start) cs) :
    (Bounded OrderRate.old limit (approvals configs user {} es) ∧
        Bounded (Meter.old (limitsOf broker)) (limitsOf broker).calls
          (granted (.init (limitsOf broker) start) cs)) ↔
      (limit ≤ 200 ∨ Bounded OrderRate.old limit (evaluations user es)) ∧
        Along Meter.step Meter.Room (Meter.init (limitsOf broker) start) cs :=
  and_congr (OrderRate.approvals_bounded_iff hlimit hconfig hes)
    (Meter.granted_bounded_iff hcs)

def marketOrder : ExecutionRequest :=
  { userId := "u1", broker := "dhan", symbol := "NIFTY", side := "BUY", quantity := 50 }

theorem order_rates_bounded_default :
    (Bounded OrderRate.old 30 (approvals (fun _ => {}) "u1" {} [⟨0, 1, marketOrder⟩]) ∧
        Bounded (Meter.old (limitsOf "fyers")) (limitsOf "fyers").calls
          (granted (.init (limitsOf "fyers") 0) [⟨5, none⟩])) ↔
      (30 ≤ 200 ∨ Bounded OrderRate.old 30 (evaluations "u1" [⟨0, 1, marketOrder⟩])) ∧
        Along Meter.step Meter.Room (Meter.init (limitsOf "fyers") 0) [⟨5, none⟩] :=
  order_rates_bounded_iff (by decide) rfl (List.pairwise_singleton _ _) "fyers" 0
    ⟨⟨by decide, fun _ h => absurd h (Option.not_mem_none _)⟩, trivial⟩

/-- With a limit of 201, 202 orders of one moment are approved; and a bucket of 30 calls a
minute grants 60 between the second before and the second after the end of its window. -/
theorem order_rates_exceeded :
    ¬ Bounded OrderRate.old 201 (approvals (fun _ => { maxOrdersPerMinute := 201 }) "u1" {}
        (List.replicate 202 ⟨0, 1, marketOrder⟩)) ∧
      ¬ Bounded (Meter.old (limitsOf "new")) (limitsOf "new").calls
        (granted (.init (limitsOf "new") 0)
          (List.replicate 30 ⟨59, none⟩ ++ List.replicate 30 ⟨60, none⟩)) := by
  constructor
  · rw [OrderRate.approvals_of_large (by decide) rfl (Nat.zero_le _)]
    intro h
    have hsame := OrderRate.evaluations_replicate (e := ⟨0, 1, marketOrder⟩) 202
    exact absurd (Sliding.le_of_replicate OrderRate.not_old_self (hsame ▸ h)) (by decide)
  · intro h
    exact absurd (h 60) (by decide +kernel)

end Trademetrix.RateLimiter
