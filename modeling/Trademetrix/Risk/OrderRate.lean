import Mathlib.Algebra.Order.Ring.Nat
import Trademetrix.Sliding
import Trademetrix.Risk.Rules

/-!
# The rate of approved orders

`MaxOrdersPerMinuteRule` keeps the times of a user's approved orders in a queue of at most
200. A limit up to that is kept in every window of a minute; a higher one is never reached.
-/

namespace Trademetrix.OrderRate

open Execution (ExecutionRequest)
open Oms (Time seconds)
open RiskRules (RiskConfig Memory Stamp lastMinute pushBounded maxOrdersPerMinute)
open Sliding (Bounded Forgets window)

/-- One evaluation of the rule; `order` numbers the logical order. -/
structure Evaluation where
  now : Time
  order : ℕ
  req : ExecutionRequest
  deriving DecidableEq

def old (now t : Time) : Prop := t + seconds 60 < now

instance : DecidableRel old := fun now t => inferInstanceAs (Decidable (t + seconds 60 < now))

variable (configs : String → RiskConfig) (user : String)

def evaluate (m : Memory) (e : Evaluation) : RiskRules.RiskRuleResult × Memory :=
  maxOrdersPerMinute m e.order e.now e.req (configs e.req.userId)

def approves (m : Memory) (e : Evaluation) : Prop :=
  (evaluate configs m e).1.decision = .approved ∧ e.req.userId = user

instance (m : Memory) (e : Evaluation) : Decidable (approves configs user m e) :=
  inferInstanceAs (Decidable (_ ∧ _))

def approvals : Memory → List Evaluation → List Time
  | _, [] => []
  | m, e :: es =>
    (if approves configs user m e then [e.now] else []) ++ approvals (evaluate configs m e).2 es

def evaluations (es : List Evaluation) : List Time :=
  (es.filter fun e => e.req.userId = user).map Evaluation.now

variable {configs user} {limit : ℕ} {m : Memory} {e : Evaluation} {es : List Evaluation}
  {done : List Time} {clock now : Time} {stamps : List Stamp} {t : Stamp}

theorem old_forgets : Forgets old := fun _ _ _ hle hgone => lt_of_lt_of_le hgone hle

theorem not_old_self : ¬ old now now := not_lt_of_ge (Nat.le_add_right _ _)

theorem evaluations_cons :
    evaluations user (e :: es) =
      (if e.req.userId = user then [e.now] else []) ++ evaluations user es := by
  unfold evaluations
  rw [List.filter_cons]
  by_cases hu : e.req.userId = user
  · simp [hu]
  · simp [hu]

theorem evaluations_replicate (n : ℕ) :
    evaluations e.req.userId (List.replicate n e) = List.replicate n e.now := by
  unfold evaluations
  rw [List.filter_replicate, if_pos (decide_eq_true rfl), List.map_replicate]

theorem evaluate_other (hu : e.req.userId ≠ user) :
    (evaluate configs m e).2.orderTimestamps user = m.orderTimestamps user := by
  unfold evaluate maxOrdersPerMinute
  split_ifs
  · rfl
  · dsimp only
    split_ifs <;> exact Function.update_of_ne (Ne.symm hu) _ _

section Own

variable (hlimit : 1 ≤ limit) (hconfig : (configs user).maxOrdersPerMinute = limit)
  (hu : e.req.userId = user)

include hlimit hconfig hu

theorem evaluate_full (hfull : limit ≤ (lastMinute (m.orderTimestamps user) e.now).length) :
    ¬ approves configs user m e ∧
      (evaluate configs m e).2.orderTimestamps user =
        lastMinute (m.orderTimestamps user) e.now := by
  subst hu
  have hpos : ¬ (configs e.req.userId).maxOrdersPerMinute ≤ 0 := by omega
  have hge : (configs e.req.userId).maxOrdersPerMinute ≤
      ((lastMinute (m.orderTimestamps e.req.userId) e.now).length : ℤ) := by omega
  simp [approves, evaluate, maxOrdersPerMinute, hpos, hge]

theorem evaluate_room (hroom : (lastMinute (m.orderTimestamps user) e.now).length < limit) :
    approves configs user m e ∧
      (evaluate configs m e).2.orderTimestamps user =
        pushBounded (lastMinute (m.orderTimestamps user) e.now) ⟨e.now, e.order⟩ := by
  subst hu
  have hpos : ¬ (configs e.req.userId).maxOrdersPerMinute ≤ 0 := by omega
  have hlt : ¬ (configs e.req.userId).maxOrdersPerMinute ≤
      ((lastMinute (m.orderTimestamps e.req.userId) e.now).length : ℤ) := by omega
  simp [approves, evaluate, maxOrdersPerMinute, hpos, hlt]

end Own

theorem pushBounded_length : (pushBounded stamps t).length ≤ 200 := by
  unfold pushBounded
  rw [List.length_drop]
  omega

theorem pushBounded_eq (h : stamps.length < 200) : pushBounded stamps t = stamps ++ [t] := by
  unfold pushBounded
  have hzero : (stamps ++ [t]).length - 200 = 0 := by
    rw [List.length_append, List.length_singleton]
    omega
  rw [hzero, List.drop_zero]

theorem lastMinute_length : (lastMinute stamps now).length ≤ stamps.length :=
  (List.dropWhile_sublist _).length_le

theorem approvals_of_large (hlimit : 200 < limit)
    (hconfig : (configs user).maxOrdersPerMinute = limit)
    (hq : (m.orderTimestamps user).length ≤ 200) :
    approvals configs user m es = evaluations user es := by
  induction es generalizing m with
  | nil => rfl
  | cons e es ih =>
    rw [approvals, evaluations_cons]
    by_cases hu : e.req.userId = user
    · have hroom : (lastMinute (m.orderTimestamps user) e.now).length < limit := by
        have hle : (lastMinute (m.orderTimestamps user) e.now).length ≤ _ := lastMinute_length
        omega
      obtain ⟨hyes, hnext⟩ := evaluate_room (m := m) (by omega) hconfig hu hroom
      rw [if_pos hyes, if_pos hu, ih (hnext ▸ pushBounded_length)]
    · rw [if_neg fun hyes => hu hyes.2, if_neg hu, ih ((evaluate_other hu).symm ▸ hq)]

structure Recalls (limit : ℕ) (done : List Time) (stamps : List Stamp) (clock : Time) : Prop where
  kept : ∃ gone, done = gone ++ stamps.map Stamp.time ∧ ∀ t ∈ gone, old clock t
  sorted : (stamps.map Stamp.time).Pairwise (· ≤ ·)
  past : ∀ t ∈ done, t ≤ clock
  bounded : Bounded old limit done

theorem not_old_of_mem_lastMinute (hsorted : (stamps.map Stamp.time).Pairwise (· ≤ ·))
    (hmem : t ∈ lastMinute stamps now) : ¬ old now t.time := by
  induction stamps with
  | nil => exact absurd hmem List.not_mem_nil
  | cons s stamps ih =>
    rw [List.map_cons, List.pairwise_cons] at hsorted
    rw [lastMinute, List.dropWhile_cons] at hmem
    split_ifs at hmem with hs
    · exact ih hsorted.2 hmem
    · rcases List.mem_cons.mp hmem with rfl | htail
      · exact fun hold => hs (decide_eq_true hold)
      · have hle := hsorted.1 t.time (List.mem_map_of_mem htail)
        exact fun hold =>
          hs (decide_eq_true (lt_of_le_of_lt (Nat.add_le_add_right hle _) hold))

namespace Recalls

variable (h : Recalls limit done stamps clock)

theorem nil : Recalls limit [] [] clock where
  kept := ⟨[], rfl, fun _ hmem => absurd hmem List.not_mem_nil⟩
  sorted := List.Pairwise.nil
  past _ hmem := absurd hmem List.not_mem_nil
  bounded := Sliding.bounded_nil

include h in
theorem later (hle : clock ≤ now) : Recalls limit done (lastMinute stamps now) now where
  kept := by
    obtain ⟨gone, rfl, hgone⟩ := h.kept
    refine ⟨gone ++ (stamps.takeWhile fun t => t.time + seconds 60 < now).map Stamp.time, ?_, ?_⟩
    · rw [List.append_assoc, ← List.map_append, lastMinute, List.takeWhile_append_dropWhile]
    · intro t hmem
      rcases List.mem_append.mp hmem with hfar | hnear
      · exact old_forgets clock now t hle (hgone t hfar)
      · obtain ⟨s, hs, rfl⟩ := List.mem_map.mp hnear
        exact of_decide_eq_true (List.all_eq_true.mp List.all_takeWhile s hs)
  sorted := h.sorted.sublist ((List.dropWhile_sublist _).map _)
  past t hmem := le_trans (h.past t hmem) hle
  bounded := h.bounded

include h in
theorem window_eq (hle : clock ≤ now) :
    window old now done = (lastMinute stamps now).map Stamp.time := by
  have hl := h.later hle
  obtain ⟨gone, heq, hgone⟩ := hl.kept
  rw [heq, Sliding.window_append, Sliding.window_eq_nil fun t hmem _ => hgone t hmem,
    List.nil_append]
  refine Sliding.window_eq_self fun t hmem => ⟨hl.past t (heq ▸ List.mem_append_right _ hmem), ?_⟩
  obtain ⟨s, hs, rfl⟩ := List.mem_map.mp hmem
  exact not_old_of_mem_lastMinute h.sorted hs

include h in
theorem push (hcap : limit ≤ 200) (hle : clock ≤ now)
    (hroom : (lastMinute stamps now).length < limit) {order : ℕ} :
    Recalls limit (done ++ [now]) (pushBounded (lastMinute stamps now) ⟨now, order⟩) now := by
  have hl := h.later hle
  rw [pushBounded_eq (by omega)]
  constructor
  · obtain ⟨gone, heq, hgone⟩ := hl.kept
    exact ⟨gone, by rw [heq, List.map_append, List.append_assoc]; rfl, hgone⟩
  · rw [List.map_append, List.pairwise_append]
    refine ⟨hl.sorted, List.pairwise_singleton _ _, fun t hmem s hs => ?_⟩
    obtain ⟨gone, heq, -⟩ := hl.kept
    rw [List.map_singleton, List.mem_singleton] at hs
    exact hs ▸ hl.past t (heq ▸ List.mem_append_right _ hmem)
  · intro t hmem
    rcases List.mem_append.mp hmem with hdone | hnow
    · exact hl.past t hdone
    · exact le_of_eq (List.mem_singleton.mp hnow)
  · rw [Sliding.bounded_snoc old_forgets not_old_self hl.past, h.window_eq hle, List.length_map]
    exact ⟨h.bounded, hroom⟩

end Recalls

theorem approvals_bounded (hlimit : 1 ≤ limit) (hcap : limit ≤ 200)
    (hconfig : (configs user).maxOrdersPerMinute = limit)
    (h : Recalls limit done (m.orderTimestamps user) clock)
    (hsorted : (clock :: es.map Evaluation.now).Pairwise (· ≤ ·)) :
    Bounded old limit (done ++ approvals configs user m es) := by
  induction es generalizing m done clock with
  | nil => simpa [approvals] using h.bounded
  | cons e es ih =>
    rw [List.map_cons, List.pairwise_cons] at hsorted
    have hle : clock ≤ e.now := hsorted.1 _ List.mem_cons_self
    rw [approvals, ← List.append_assoc]
    refine ih ?_ hsorted.2
    by_cases hu : e.req.userId = user
    · rcases Nat.lt_or_ge (lastMinute (m.orderTimestamps user) e.now).length limit with hroom | hfull
      · obtain ⟨hyes, hnext⟩ := evaluate_room (m := m) hlimit hconfig hu hroom
        rw [if_pos hyes, hnext]
        exact h.push hcap hle hroom
      · obtain ⟨hno, hnext⟩ := evaluate_full (m := m) hlimit hconfig hu hfull
        rw [if_neg hno, hnext, List.append_nil]
        exact h.later hle
    · rw [if_neg fun hyes => hu hyes.2, evaluate_other hu, List.append_nil]
      exact { h with
        kept := h.kept.imp fun gone hg => ⟨hg.1, fun t ht => old_forgets _ _ t hle (hg.2 t ht)⟩
        past := fun t ht => le_trans (h.past t ht) hle }

theorem approvals_bounded_iff (hlimit : 1 ≤ limit)
    (hconfig : (configs user).maxOrdersPerMinute = limit)
    (hsorted : (es.map Evaluation.now).Pairwise (· ≤ ·)) :
    Bounded old limit (approvals configs user {} es) ↔
      limit ≤ 200 ∨ Bounded old limit (evaluations user es) := by
  rcases Nat.lt_or_ge 200 limit with hlarge | hcap
  · rw [approvals_of_large hlarge hconfig (Nat.zero_le _)]
    exact ⟨Or.inr, fun h => h.resolve_left (by omega)⟩
  · refine ⟨fun _ => Or.inl hcap, fun _ => ?_⟩
    have hnone : Recalls limit [] (({} : Memory).orderTimestamps user) 0 := Recalls.nil
    exact approvals_bounded hlimit hcap hconfig hnone
      (List.pairwise_cons.mpr ⟨fun _ _ => Nat.zero_le _, hsorted⟩)

end Trademetrix.OrderRate
