import Mathlib.Data.List.TakeWhile
import Trademetrix.Risk.OrderRate

/-!
# What a rejected order leaves behind

`RiskManager.evaluate` goes through its rules until one rejects. The rules that remember write
as they approve, before the rules behind them have looked at the order.
-/

namespace Trademetrix.RejectedOrders

open Execution (ExecutionRequest)
open Oms (Time intentFingerprint seconds)
open RiskRules (Memory RiskConfig RiskDecision RiskRuleResult RiskRuleType Stamp Texts dedupKey
  duplicateOrder inWindow lastMinute maxOrdersPerMinute pushBounded recognised recordIntent
  riskRules tradeCooldown trimmed)

/-- One order before the rules: the time each of them reads, and what the rules without a memory
answer or raise. -/
structure Evaluation where
  order : ℕ
  req : ExecutionRequest
  config : RiskConfig
  allowWarning : Bool := true
  clock : RiskRuleType → Time
  reply : RiskRuleType → Except String RiskRuleResult

structure RiskEvalResult where
  decision : RiskDecision := .approved
  results : List (RiskRuleType × RiskRuleResult) := []
  warnings : List String := []

/-- `_build_message`. -/
def RiskEvalResult.message (r : RiskEvalResult) : String :=
  if r.decision = .approved then "All risk checks passed"
  else
    match r.results.find? fun p => p.2.decision = .rejected with
    | some p => p.2.reason
    | none =>
      match r.results.find? fun p => p.2.decision = .warning with
      | some p => p.2.reason
      | none => "Risk check completed"

section Manager

variable (texts : Texts) (e : Evaluation)

/-- `rule.evaluate`, with the memory it leaves. -/
def ruleEvaluate (m : Memory) (r : RiskRuleType) : Except String RiskRuleResult × Memory :=
  match r with
  | .tradeCooldown =>
    let result := tradeCooldown texts m e.order (e.clock r) e.req e.config
    (.ok result.1, result.2)
  | .maxOrdersPerMinute =>
    let result := maxOrdersPerMinute m e.order (e.clock r) e.req e.config
    (.ok result.1, result.2)
  | .duplicateOrder =>
    let result := duplicateOrder texts m e.order (e.clock r) e.req
    (.ok result.1, result.2)
  | _ => (e.reply r, m)

def noted : Except String RiskRuleResult → RiskRuleResult
  | .ok result => result
  | .error error => { decision := .rejected, reason := s!"Rule evaluation error: {error}" }

def loop : List RiskRuleType → RiskEvalResult → Memory → RiskEvalResult × Memory
  | [], s, m => (s, m)
  | r :: rs, s, m =>
    let result := noted (ruleEvaluate texts e m r).1
    let m' := (ruleEvaluate texts e m r).2
    let results := s.results ++ [(r, result)]
    match result.decision with
    | .rejected => ({ s with decision := .rejected, results := results }, m')
    | .warning =>
      let decision :=
        if e.allowWarning = false ∧ s.decision = .approved then .warning else s.decision
      loop rs
        { decision := decision, results := results, warnings := s.warnings ++ [result.reason] } m'
    | .approved => loop rs { s with results := results } m'

/-- `evaluate` over a list of rules; a dry run takes rules of its own. -/
def evaluate (rules : List RiskRuleType) (dryRun : Bool) (m : Memory) : RiskEvalResult × Memory :=
  if dryRun then ((loop texts e rules {} {}).1, m) else loop texts e rules {} m

end Manager

section Frame

variable (texts : Texts) (e : Evaluation)

def SameFor (r : RiskRuleType) (m m' : Memory) : Prop :=
  match r with
  | .tradeCooldown => m.lastTradeTime = m'.lastTradeTime
  | .maxOrdersPerMinute => m.orderTimestamps = m'.orderTimestamps
  | .duplicateOrder => m.recentOrders = m'.recentOrders ∧ m.intents = m'.intents
  | _ => True

def rejects (m : Memory) (r : RiskRuleType) : Prop :=
  (noted (ruleEvaluate texts e m r).1).decision = .rejected

instance (m : Memory) (r : RiskRuleType) : Decidable (rejects texts e m r) :=
  inferInstanceAs (Decidable (_ = _))

def evaluated (m : Memory) : List RiskRuleType → List RiskRuleType
  | [] => []
  | r :: rs => if rejects texts e m r then [r] else r :: evaluated m rs

variable {texts e} {m m' : Memory} {r r' : RiskRuleType} {rules : List RiskRuleType}

theorem SameFor.refl (r : RiskRuleType) (m : Memory) : SameFor r m m := by
  cases r <;> first | exact trivial | exact rfl | exact ⟨rfl, rfl⟩

theorem SameFor.symm (h : SameFor r m m') : SameFor r m' m := by
  cases r <;> first | exact trivial | exact Eq.symm h | exact ⟨h.1.symm, h.2.symm⟩

theorem SameFor.trans {m'' : Memory} (h : SameFor r m m') (h' : SameFor r m' m'') :
    SameFor r m m'' := by
  cases r <;> first | exact trivial | exact Eq.trans h h' | exact ⟨h.1.trans h'.1, h.2.trans h'.2⟩

section Rules

variable {order : ℕ} {now : Time} {req : ExecutionRequest} {config : RiskConfig}

theorem tradeCooldown_congr (h : m.lastTradeTime = m'.lastTradeTime) :
    (tradeCooldown texts m order now req config).1 =
        (tradeCooldown texts m' order now req config).1 ∧
      (tradeCooldown texts m order now req config).2.lastTradeTime =
        (tradeCooldown texts m' order now req config).2.lastTradeTime := by
  unfold tradeCooldown RiskRules.lastTrade
  rw [h]
  split_ifs
  · exact ⟨rfl, h⟩
  · dsimp only
    split_ifs
    · exact ⟨rfl, h⟩
    · exact ⟨rfl, rfl⟩

theorem tradeCooldown_frame :
    (tradeCooldown texts m order now req config).2.orderTimestamps = m.orderTimestamps ∧
      (tradeCooldown texts m order now req config).2.recentOrders = m.recentOrders ∧
      (tradeCooldown texts m order now req config).2.intents = m.intents := by
  unfold tradeCooldown
  split_ifs
  · exact ⟨rfl, rfl, rfl⟩
  · dsimp only
    split_ifs <;> exact ⟨rfl, rfl, rfl⟩

theorem maxOrdersPerMinute_congr (h : m.orderTimestamps = m'.orderTimestamps) :
    (maxOrdersPerMinute m order now req config).1 =
        (maxOrdersPerMinute m' order now req config).1 ∧
      (maxOrdersPerMinute m order now req config).2.orderTimestamps =
        (maxOrdersPerMinute m' order now req config).2.orderTimestamps := by
  unfold maxOrdersPerMinute
  rw [h]
  split_ifs
  · exact ⟨rfl, h⟩
  · dsimp only
    split_ifs <;> exact ⟨rfl, rfl⟩

theorem maxOrdersPerMinute_frame :
    (maxOrdersPerMinute m order now req config).2.lastTradeTime = m.lastTradeTime ∧
      (maxOrdersPerMinute m order now req config).2.recentOrders = m.recentOrders ∧
      (maxOrdersPerMinute m order now req config).2.intents = m.intents := by
  unfold maxOrdersPerMinute
  split_ifs
  · exact ⟨rfl, rfl, rfl⟩
  · dsimp only
    split_ifs <;> exact ⟨rfl, rfl, rfl⟩

theorem duplicateOrder_congr (hrecent : m.recentOrders = m'.recentOrders)
    (hintents : m.intents = m'.intents) :
    (duplicateOrder texts m order now req).1 = (duplicateOrder texts m' order now req).1 ∧
      (duplicateOrder texts m order now req).2.recentOrders =
        (duplicateOrder texts m' order now req).2.recentOrders ∧
      (duplicateOrder texts m order now req).2.intents =
        (duplicateOrder texts m' order now req).2.intents := by
  have hrec : recognised texts m req = recognised texts m' req := by
    unfold recognised
    rw [hintents]
  have hrecord : RiskRules.recordIntent texts m req = RiskRules.recordIntent texts m' req := by
    unfold RiskRules.recordIntent
    rw [hintents]
  unfold duplicateOrder
  rw [hrecent, hrec, hrecord, hintents]
  split_ifs
  · exact ⟨rfl, hrecent, hintents⟩
  · exact ⟨rfl, rfl, rfl⟩
  · dsimp only
    split_ifs <;> exact ⟨rfl, rfl, rfl⟩

theorem duplicateOrder_frame :
    (duplicateOrder texts m order now req).2.lastTradeTime = m.lastTradeTime ∧
      (duplicateOrder texts m order now req).2.orderTimestamps = m.orderTimestamps := by
  unfold duplicateOrder
  split_ifs
  · exact ⟨rfl, rfl⟩
  · exact ⟨rfl, rfl⟩
  · dsimp only
    split_ifs <;> exact ⟨rfl, rfl⟩

end Rules

theorem ruleEvaluate_congr (h : SameFor r m m') :
    (ruleEvaluate texts e m r).1 = (ruleEvaluate texts e m' r).1 ∧
      SameFor r (ruleEvaluate texts e m r).2 (ruleEvaluate texts e m' r).2 := by
  cases r with
  | tradeCooldown => exact ⟨congrArg Except.ok (tradeCooldown_congr h).1, (tradeCooldown_congr h).2⟩
  | maxOrdersPerMinute =>
    exact ⟨congrArg Except.ok (maxOrdersPerMinute_congr h).1, (maxOrdersPerMinute_congr h).2⟩
  | duplicateOrder =>
    exact ⟨congrArg Except.ok (duplicateOrder_congr h.1 h.2).1, (duplicateOrder_congr h.1 h.2).2⟩
  | _ => exact ⟨rfl, trivial⟩

theorem ruleEvaluate_frame (h : r ≠ r') : SameFor r' m (ruleEvaluate texts e m r).2 := by
  cases r with
  | tradeCooldown =>
    obtain ⟨hstamps, hrecent, hintents⟩ :
        (ruleEvaluate texts e m .tradeCooldown).2.orderTimestamps = m.orderTimestamps ∧
          (ruleEvaluate texts e m .tradeCooldown).2.recentOrders = m.recentOrders ∧
            (ruleEvaluate texts e m .tradeCooldown).2.intents = m.intents := tradeCooldown_frame
    cases r' <;> first
      | exact absurd rfl h
      | exact trivial
      | exact hstamps.symm
      | exact ⟨hrecent.symm, hintents.symm⟩
  | maxOrdersPerMinute =>
    obtain ⟨hlast, hrecent, hintents⟩ :
        (ruleEvaluate texts e m .maxOrdersPerMinute).2.lastTradeTime = m.lastTradeTime ∧
          (ruleEvaluate texts e m .maxOrdersPerMinute).2.recentOrders = m.recentOrders ∧
            (ruleEvaluate texts e m .maxOrdersPerMinute).2.intents = m.intents :=
      maxOrdersPerMinute_frame
    cases r' <;> first
      | exact absurd rfl h
      | exact trivial
      | exact hlast.symm
      | exact ⟨hrecent.symm, hintents.symm⟩
  | duplicateOrder =>
    obtain ⟨hlast, hstamps⟩ :
        (ruleEvaluate texts e m .duplicateOrder).2.lastTradeTime = m.lastTradeTime ∧
          (ruleEvaluate texts e m .duplicateOrder).2.orderTimestamps = m.orderTimestamps :=
      duplicateOrder_frame
    cases r' <;> first
      | exact absurd rfl h
      | exact trivial
      | exact hlast.symm
      | exact hstamps.symm
  | _ => exact SameFor.refl r' m

theorem rejects_congr (h : SameFor r m m') : rejects texts e m r ↔ rejects texts e m' r := by
  unfold rejects
  rw [(ruleEvaluate_congr h).1]

theorem evaluated_congr (h : ∀ r ∈ rules, SameFor r m m') :
    evaluated texts e m rules = evaluated texts e m' rules := by
  induction rules with
  | nil => rfl
  | cons r rs ih =>
    have hrest := ih fun q hq => h q (List.mem_cons_of_mem _ hq)
    simp only [evaluated, rejects_congr (h r List.mem_cons_self), hrest]

theorem loop_of_rejects (h : rejects texts e m r) (s : RiskEvalResult) :
    (loop texts e (r :: rules) s m).1.decision = .rejected ∧
      (loop texts e (r :: rules) s m).2 = (ruleEvaluate texts e m r).2 := by
  unfold rejects at h
  rw [loop]
  simp only [h, and_self]

theorem loop_of_not_rejects (h : ¬ rejects texts e m r) {s : RiskEvalResult}
    (hs : s.decision ≠ .rejected) :
    ∃ s' : RiskEvalResult, s'.decision ≠ .rejected ∧
      loop texts e (r :: rules) s m = loop texts e rules s' (ruleEvaluate texts e m r).2 := by
  unfold rejects at h
  rw [loop]
  cases hd : (noted (ruleEvaluate texts e m r).1).decision with
  | rejected => exact absurd hd h
  | approved =>
    refine ⟨_, ?_, rfl⟩
    exact hs
  | warning =>
    refine ⟨_, ?_, rfl⟩
    dsimp only
    split_ifs
    · decide
    · exact hs

theorem mem_of_mem_evaluated (h : r ∈ evaluated texts e m rules) : r ∈ rules := by
  induction rules with
  | nil => exact h
  | cons q rs ih =>
    rw [evaluated] at h
    split_ifs at h
    · rw [List.mem_singleton.mp h]
      exact List.mem_cons_self
    · rcases List.mem_cons.mp h with rfl | htail
      · exact List.mem_cons_self
      · exact List.mem_cons_of_mem _ (ih htail)

theorem sameFor_rest (hnodup : (r' :: rules).Nodup) :
    ∀ r ∈ rules, SameFor r m (ruleEvaluate texts e m r').2 :=
  fun _ hr => ruleEvaluate_frame fun heq => (List.nodup_cons.mp hnodup).1 (heq ▸ hr)

theorem loop_fields (hnodup : rules.Nodup) {s : RiskEvalResult} (hs : s.decision ≠ .rejected)
    (r : RiskRuleType) :
    SameFor r
      (if r ∈ evaluated texts e m rules then (ruleEvaluate texts e m r).2 else m)
      (loop texts e rules s m).2 := by
  induction rules generalizing s m with
  | nil => exact SameFor.refl r m
  | cons q rs ih =>
    have hrest : ∀ r ∈ rs, SameFor r m (ruleEvaluate texts e m q).2 := sameFor_rest hnodup
    by_cases hrej : rejects texts e m q
    · rw [(loop_of_rejects hrej s).2, evaluated, if_pos hrej]
      by_cases hrq : r = q
      · rw [if_pos (List.mem_singleton.mpr hrq), hrq]
        exact SameFor.refl q _
      · rw [if_neg fun hmem => hrq (List.mem_singleton.mp hmem)]
        exact ruleEvaluate_frame (Ne.symm hrq)
    · obtain ⟨s', hs', hloop⟩ : ∃ s' : RiskEvalResult, s'.decision ≠ .rejected ∧
          loop texts e (q :: rs) s m = loop texts e rs s' (ruleEvaluate texts e m q).2 :=
        loop_of_not_rejects hrej hs
      have hlater := ih (m := (ruleEvaluate texts e m q).2) (List.nodup_cons.mp hnodup).2 hs'
      rw [← evaluated_congr hrest] at hlater
      rw [hloop, evaluated, if_neg hrej]
      by_cases hrq : r = q
      · subst hrq
        rw [if_neg fun hmem => (List.nodup_cons.mp hnodup).1 (mem_of_mem_evaluated hmem)] at hlater
        rw [if_pos List.mem_cons_self]
        exact hlater
      · have hframe : SameFor r m (ruleEvaluate texts e m q).2 := ruleEvaluate_frame (Ne.symm hrq)
        by_cases hmem : r ∈ evaluated texts e m rs
        · rw [if_pos hmem] at hlater
          rw [if_pos (List.mem_cons_of_mem _ hmem)]
          exact (ruleEvaluate_congr hframe).2.trans hlater
        · rw [if_neg hmem] at hlater
          rw [if_neg fun hcons => (List.mem_cons.mp hcons).elim hrq hmem]
          exact hframe.trans hlater

theorem loop_decision (hnodup : rules.Nodup) {s : RiskEvalResult} (hs : s.decision ≠ .rejected) :
    (loop texts e rules s m).1.decision = .rejected ↔ ∃ r ∈ rules, rejects texts e m r := by
  induction rules generalizing s m with
  | nil => exact ⟨fun h => absurd h hs, fun ⟨_, hr, _⟩ => absurd hr List.not_mem_nil⟩
  | cons q rs ih =>
    rw [List.exists_mem_cons_iff]
    by_cases hrej : rejects texts e m q
    · exact iff_of_true (loop_of_rejects hrej s).1 (.inl hrej)
    · obtain ⟨s', hs', hloop⟩ : ∃ s' : RiskEvalResult, s'.decision ≠ .rejected ∧
          loop texts e (q :: rs) s m = loop texts e rs s' (ruleEvaluate texts e m q).2 :=
        loop_of_not_rejects hrej hs
      have hrest : ∀ r ∈ rs, SameFor r m (ruleEvaluate texts e m q).2 := sameFor_rest hnodup
      rw [hloop, ih (List.nodup_cons.mp hnodup).2 hs', or_iff_right hrej]
      exact exists_congr fun r => and_congr_right fun hr => (rejects_congr (hrest r hr)).symm

end Frame

section Unchanged

variable (texts : Texts) (e : Evaluation)

/-- What a rule reads from its evaluation on. An entry that has left the window is never read
again. -/
def ReadsSame (m m' : Memory) : RiskRuleType → Prop
  | .tradeCooldown =>
    ∀ key, (m.lastTradeTime key).map Stamp.time = (m'.lastTradeTime key).map Stamp.time
  | .maxOrdersPerMinute => ∀ user, ∀ now ≥ e.clock .maxOrdersPerMinute,
    (lastMinute (m.orderTimestamps user) now).map Stamp.time =
      (lastMinute (m'.orderTimestamps user) now).map Stamp.time
  | .duplicateOrder => m.intents = m'.intents ∧ ∀ user, ∀ now ≥ e.clock .duplicateOrder,
    (inWindow (m.recentOrders user) now).map (fun p => (p.1, p.2.time)) =
      (inWindow (m'.recentOrders user) now).map fun p => (p.1, p.2.time)
  | _ => True

def Unchanged (m m' : Memory) : Prop := ∀ r, ReadsSame e m m' r

def Quiet (m : Memory) : RiskRuleType → Prop
  | .tradeCooldown =>
    e.config.tradeCooldownSeconds ≤ 0 ∨ e.req.isPaper = true ∨ rejects texts e m .tradeCooldown
  | .maxOrdersPerMinute =>
    e.config.maxOrdersPerMinute ≤ 0 ∨ rejects texts e m .maxOrdersPerMinute ∨
      (lastMinute (m.orderTimestamps e.req.userId) (e.clock .maxOrdersPerMinute)).map Stamp.time =
        List.replicate 200 (e.clock .maxOrdersPerMinute)
  | .duplicateOrder =>
    e.req.isPaper = true ∨ recognised texts m e.req = true ∨
      Text.strip e.req.executionRequestId = "" ∧ rejects texts e m .duplicateOrder
  | _ => True

instance (m : Memory) (r : RiskRuleType) : Decidable (Quiet texts e m r) := by
  unfold Quiet
  cases r <;> exact inferInstance

end Unchanged

section Windows

variable {stamps : List Stamp} {now later : Time} {t : Stamp}

theorem lastMinute_times : (lastMinute stamps now).map Stamp.time =
    (stamps.map Stamp.time).dropWhile fun t => t + seconds 60 < now := by
  rw [List.dropWhile_map]
  rfl

theorem lastMinute_lastMinute (hle : now ≤ later) :
    lastMinute (lastMinute stamps now) later = lastMinute stamps later := by
  induction stamps with
  | nil => rfl
  | cons t stamps ih =>
    by_cases hold : t.time + seconds 60 < now
    · have hnow : lastMinute (t :: stamps) now = lastMinute stamps now :=
        List.dropWhile_cons_of_pos (decide_eq_true hold)
      have hlater : lastMinute (t :: stamps) later = lastMinute stamps later :=
        List.dropWhile_cons_of_pos (decide_eq_true (lt_of_lt_of_le hold hle))
      rw [hnow, hlater, ih]
    · have hnow : lastMinute (t :: stamps) now = t :: stamps :=
        List.dropWhile_cons_of_neg (by simpa using hold)
      rw [hnow]

theorem inWindow_inWindow {d : Dict String Stamp} (hle : now ≤ later) :
    inWindow (inWindow d now) later = inWindow d later := by
  unfold inWindow
  rw [List.filter_filter]
  refine List.filter_congr fun p _ => ?_
  by_cases hold : p.2.time + seconds 60 < now
  · simp [hold, lt_of_lt_of_le hold hle]
  · simp [hold]

theorem eq_replicate_of_shift {α : Type} {x a : α} {l : List α} (h : l ++ [a] = x :: l) :
    x :: l = List.replicate (l.length + 1) a := by
  induction l generalizing x with
  | nil =>
    rw [← h]
    rfl
  | cons y l ih =>
    obtain ⟨hyx, hrest⟩ := List.cons_eq_cons.mp h
    have hall := ih hrest
    have hya : y = a := (List.cons_eq_cons.mp (hall.trans List.replicate_succ)).1
    rw [List.length_cons, List.replicate_succ, ← hall, ← hyx, hya]

theorem pushBounded_length : (pushBounded stamps t).length = min (stamps.length + 1) 200 := by
  unfold pushBounded
  rw [List.length_drop, List.length_append, List.length_singleton]
  omega

theorem pushBounded_full {s : Stamp} (h : stamps.length = 199) :
    pushBounded (s :: stamps) t = stamps ++ [t] := by
  have hone : (s :: stamps ++ [t]).length - 200 = 1 := by
    rw [List.length_append, List.length_cons, List.length_singleton]
    omega
  rw [pushBounded, hone]
  rfl

theorem lastMinute_eq_self_of_times (h : ∀ a ∈ stamps, a.time = now) :
    lastMinute stamps now = stamps := by
  refine List.dropWhile_eq_self_iff.mpr fun hl hold => ?_
  have hlt := of_decide_eq_true hold
  rw [h _ (List.getElem_mem hl)] at hlt
  exact absurd hlt (not_lt_of_ge (Nat.le_add_right _ _))

theorem pushBounded_eq_self_iff (hfresh : lastMinute stamps now = stamps) (ht : t.time = now) :
    (lastMinute (pushBounded stamps t) now).map Stamp.time = stamps.map Stamp.time ↔
      stamps.map Stamp.time = List.replicate 200 now := by
  have hsublist : (lastMinute (pushBounded stamps t) now).length ≤ (pushBounded stamps t).length :=
    (List.dropWhile_sublist _).length_le
  rw [pushBounded_length] at hsublist
  constructor
  · intro h
    have hlength := congrArg List.length h
    rw [List.length_map, List.length_map] at hlength
    cases stamps with
    | nil =>
      have hkeep : lastMinute [t] now = [t] :=
        lastMinute_eq_self_of_times fun a ha => List.mem_singleton.mp ha ▸ ht
      rw [OrderRate.pushBounded_eq (by decide), List.nil_append, hkeep] at hlength
      cases hlength
    | cons s rest =>
      rw [List.length_cons] at hlength hsublist
      rcases Nat.lt_or_ge rest.length 199 with hroom | hfull
      · have hpush : pushBounded (s :: rest) t = s :: (rest ++ [t]) :=
          OrderRate.pushBounded_eq (Nat.succ_lt_succ hroom)
        have hs := List.dropWhile_eq_self_iff.mp hfresh (Nat.zero_lt_succ _)
        have hkeep : lastMinute (s :: (rest ++ [t])) now = s :: (rest ++ [t]) :=
          List.dropWhile_cons_of_neg hs
        rw [hpush, hkeep, List.length_cons, List.length_append, List.length_singleton] at hlength
        omega
      · have hrest : rest.length = 199 := by omega
        rw [pushBounded_full hrest] at h hlength
        have hkeep : lastMinute (rest ++ [t]) now = rest ++ [t] := by
          refine (List.dropWhile_suffix _).eq_of_length ?_
          rw [List.length_append, List.length_singleton]
          exact hlength
        rw [hkeep, List.map_append, List.map_singleton, List.map_cons, ht] at h
        rw [List.map_cons, eq_replicate_of_shift h, List.length_map, hrest]
  · intro h
    have hlength := congrArg List.length h
    rw [List.length_map, List.length_replicate] at hlength
    have htimes : ∀ a ∈ stamps, a.time = now := fun a ha =>
      List.eq_of_mem_replicate (h ▸ List.mem_map_of_mem ha)
    cases stamps with
    | nil => cases hlength
    | cons s rest =>
      have hrest : rest.length = 199 := Nat.succ.inj hlength
      have hall : ∀ a ∈ rest ++ [t], a.time = now := fun a ha =>
        (List.mem_append.mp ha).elim (fun hr => htimes a (List.mem_cons_of_mem _ hr))
          fun hn => List.mem_singleton.mp hn ▸ ht
      rw [pushBounded_full hrest, lastMinute_eq_self_of_times hall, h]
      refine List.eq_replicate_iff.mpr ⟨by simp [hrest], fun a ha => ?_⟩
      obtain ⟨b, hb, rfl⟩ := List.mem_map.mp ha
      exact hall b hb

end Windows

section Quiet

variable {texts : Texts} {e : Evaluation} {m : Memory} {r : RiskRuleType}

theorem ReadsSame.refl (r : RiskRuleType) (m : Memory) : ReadsSame e m m r := by
  cases r <;> first | exact trivial | exact fun _ => rfl | exact fun _ _ _ => rfl |
    exact ⟨rfl, fun _ _ _ => rfl⟩

theorem readsSame_congr {m' m'' : Memory} (h : SameFor r m' m'') :
    ReadsSame e m m' r ↔ ReadsSame e m m'' r := by
  cases r with
  | tradeCooldown => simp only [ReadsSame, show m'.lastTradeTime = m''.lastTradeTime from h]
  | maxOrdersPerMinute =>
    simp only [ReadsSame, show m'.orderTimestamps = m''.orderTimestamps from h]
  | duplicateOrder => simp only [ReadsSame, h.1, h.2]
  | _ => exact Iff.rfl

theorem tradeCooldown_readsSame :
    ReadsSame e m (ruleEvaluate texts e m .tradeCooldown).2 .tradeCooldown ↔
      Quiet texts e m .tradeCooldown := by
  by_cases hoff : e.config.tradeCooldownSeconds ≤ 0 ∨ e.req.isPaper = true
  · have hm : (ruleEvaluate texts e m .tradeCooldown).2 = m := by
      simp only [ruleEvaluate, tradeCooldown, if_pos hoff]
    rw [hm]
    exact iff_of_true (ReadsSame.refl _ m) (hoff.imp_right .inl)
  · by_cases hearly : (e.clock .tradeCooldown : ℤ) - RiskRules.lastTrade m e.req <
        e.config.tradeCooldownSeconds * 1000000
    · have hm : (ruleEvaluate texts e m .tradeCooldown).2 = m := by
        simp only [ruleEvaluate, tradeCooldown, if_neg hoff, if_pos hearly]
      have hrej : rejects texts e m .tradeCooldown := by
        simp only [rejects, ruleEvaluate, tradeCooldown, if_neg hoff, if_pos hearly, noted]
      rw [hm]
      exact iff_of_true (ReadsSame.refl _ m) (.inr (.inr hrej))
    · have hrej : ¬ rejects texts e m .tradeCooldown := by
        simp [rejects, ruleEvaluate, tradeCooldown, if_neg hoff, if_neg hearly, noted]
      refine iff_of_false (fun h => ?_) (not_or.mpr ⟨fun hs => hoff (.inl hs),
        not_or.mpr ⟨fun hp => hoff (.inr hp), hrej⟩⟩)
      have hkey := h (RiskRules.cooldownKey e.req)
      simp only [ruleEvaluate, tradeCooldown, if_neg hoff, if_neg hearly, Function.update_self,
        Option.map_some] at hkey
      -- the last trade would be at the time of this one, which the rule rejects
      have hlast : RiskRules.lastTrade m e.req = e.clock .tradeCooldown := by
        obtain ⟨t, ht, htime⟩ := Option.map_eq_some_iff.mp hkey
        rw [RiskRules.lastTrade, ht]
        exact htime
      rw [hlast] at hearly
      omega

theorem maxOrdersPerMinute_readsSame :
    ReadsSame e m (ruleEvaluate texts e m .maxOrdersPerMinute).2 .maxOrdersPerMinute ↔
      Quiet texts e m .maxOrdersPerMinute := by
  by_cases hoff : e.config.maxOrdersPerMinute ≤ 0
  · have hm : (ruleEvaluate texts e m .maxOrdersPerMinute).2 = m := by
      simp only [ruleEvaluate, maxOrdersPerMinute, if_pos hoff]
    rw [hm]
    exact iff_of_true (ReadsSame.refl _ m) (.inl hoff)
  · by_cases hfull : e.config.maxOrdersPerMinute ≤
        (lastMinute (m.orderTimestamps e.req.userId) (e.clock .maxOrdersPerMinute)).length
    · have hrej : rejects texts e m .maxOrdersPerMinute := by
        simp only [rejects, ruleEvaluate, maxOrdersPerMinute, if_neg hoff, if_pos hfull, noted]
      refine iff_of_true (fun user now hnow => ?_) (.inr (.inl hrej))
      simp only [ruleEvaluate, maxOrdersPerMinute, if_neg hoff, if_pos hfull]
      by_cases huser : user = e.req.userId
      · rw [huser, Function.update_self, lastMinute_lastMinute hnow]
      · rw [Function.update_of_ne huser]
    · have hrej : ¬ rejects texts e m .maxOrdersPerMinute := by
        simp [rejects, ruleEvaluate, maxOrdersPerMinute, if_neg hoff, if_neg hfull, noted]
      have hfresh : lastMinute (lastMinute (m.orderTimestamps e.req.userId)
          (e.clock .maxOrdersPerMinute)) (e.clock .maxOrdersPerMinute) =
            lastMinute (m.orderTimestamps e.req.userId) (e.clock .maxOrdersPerMinute) :=
        lastMinute_lastMinute (le_refl _)
      have hpush := pushBounded_eq_self_iff (t := ⟨e.clock .maxOrdersPerMinute, e.order⟩) hfresh rfl
      have hquiet : Quiet texts e m .maxOrdersPerMinute ↔
          (lastMinute (m.orderTimestamps e.req.userId)
            (e.clock .maxOrdersPerMinute)).map Stamp.time =
              List.replicate 200 (e.clock .maxOrdersPerMinute) := by
        rw [Quiet, or_iff_right hoff, or_iff_right hrej]
      rw [hquiet, ← hpush]
      simp only [ReadsSame, ruleEvaluate, maxOrdersPerMinute, if_neg hoff, if_neg hfull]
      constructor
      · intro h
        have huser := h e.req.userId _ (le_refl _)
        rw [Function.update_self] at huser
        exact huser.symm
      · intro h user now hnow
        by_cases huser : user = e.req.userId
        · rw [huser, Function.update_self, ← lastMinute_lastMinute hnow, lastMinute_times,
            ← h, ← lastMinute_times, lastMinute_lastMinute hnow]
        · rw [Function.update_of_ne huser]

theorem recordIntent_eq_iff (hsha : ∀ s, (texts.sha256 s).length = 64)
    {req : ExecutionRequest} (hnew : ¬ recognised texts m req = true) :
    recordIntent texts m req = m.intents req.userId ↔ Text.strip req.executionRequestId = "" := by
  constructor
  · intro h
    by_contra hid
    simp only [recordIntent, if_neg hid, trimmed] at h
    have hkeys := congrArg List.length (Dict.keys_set (m.intents req.userId)
      (Text.strip req.executionRequestId) (intentFingerprint texts.sha256 req))
    rw [List.length_map] at hkeys
    split_ifs at h with hlarge
    · have hlength := congrArg List.length h
      rw [List.length_drop] at hlength
      split_ifs at hkeys
      · rw [List.length_map] at hkeys
        omega
      · rw [List.length_append, List.length_map, List.length_singleton] at hkeys
        omega
    · have hget : (m.intents req.userId).get (Text.strip req.executionRequestId) =
          some (intentFingerprint texts.sha256 req) := by
        rw [← h, Dict.get_set, if_pos rfl]
      refine hnew ?_
      simp [recognised, hid, hget, Oms.sameIntent_iff, Oms.intentFingerprint_ne_empty hsha]
  · intro h
    simp only [recordIntent, if_pos h]

theorem duplicateOrder_readsSame (hsha : ∀ s, (texts.sha256 s).length = 64) :
    ReadsSame e m (ruleEvaluate texts e m .duplicateOrder).2 .duplicateOrder ↔
      Quiet texts e m .duplicateOrder := by
  by_cases hpaper : e.req.isPaper = true
  · have hm : (ruleEvaluate texts e m .duplicateOrder).2 = m := by
      simp only [ruleEvaluate, duplicateOrder, if_pos hpaper]
    rw [hm]
    exact iff_of_true (ReadsSame.refl _ m) (.inl hpaper)
  have hpruned (user : String) (now : Time) (hnow : now ≥ e.clock .duplicateOrder) :
      inWindow (m.recentOrders user) now = inWindow (Function.update m.recentOrders e.req.userId
        (inWindow (m.recentOrders e.req.userId) (e.clock .duplicateOrder)) user) now := by
    by_cases huser : user = e.req.userId
    · rw [huser, Function.update_self, inWindow_inWindow hnow]
    · rw [Function.update_of_ne huser]
  by_cases hknown : recognised texts m e.req = true
  · refine iff_of_true ⟨?_, fun user now hnow => ?_⟩ (.inr (.inl hknown))
    · simp only [ruleEvaluate, duplicateOrder, if_neg hpaper, if_pos hknown]
    · simp only [ruleEvaluate, duplicateOrder, if_neg hpaper, if_pos hknown]
      rw [hpruned user now hnow]
  have hquiet : Quiet texts e m .duplicateOrder ↔
      Text.strip e.req.executionRequestId = "" ∧ rejects texts e m .duplicateOrder := by
    rw [Quiet, or_iff_right hpaper, or_iff_right hknown]
  rw [hquiet]
  by_cases hkey : ((inWindow (m.recentOrders e.req.userId) (e.clock .duplicateOrder)).any
      fun p => p.1 = dedupKey texts e.req) = true
  · have hrej : rejects texts e m .duplicateOrder := by
      simp only [rejects, ruleEvaluate, duplicateOrder, if_neg hpaper, if_neg hknown, if_pos hkey,
        noted]
    rw [and_iff_left hrej, ← recordIntent_eq_iff hsha hknown]
    simp only [ReadsSame, ruleEvaluate, duplicateOrder, if_neg hpaper, if_neg hknown, if_pos hkey]
    constructor
    · intro h
      have hintents := congrFun h.1 e.req.userId
      rw [Function.update_self] at hintents
      exact hintents.symm
    · intro h
      refine ⟨?_, fun user now hnow => by rw [← hpruned user now hnow]⟩
      rw [h, Function.update_eq_self]
  · have hrej : ¬ rejects texts e m .duplicateOrder := by
      simp [rejects, ruleEvaluate, duplicateOrder, if_neg hpaper, if_neg hknown, if_neg hkey, noted]
    refine iff_of_false (fun h => ?_) fun h => hrej h.2
    have hrecent := h.2 e.req.userId _ (le_refl _)
    simp only [ruleEvaluate, duplicateOrder, if_neg hpaper, if_neg hknown, if_neg hkey,
      Function.update_self] at hrecent
    -- the key of the order is the last entry of the new table, and in no entry of the old one
    have hset : (inWindow (m.recentOrders e.req.userId) (e.clock .duplicateOrder)).set
        (dedupKey texts e.req) ⟨e.clock .duplicateOrder, e.order⟩ =
          inWindow (m.recentOrders e.req.userId) (e.clock .duplicateOrder) ++
            [(dedupKey texts e.req, ⟨e.clock .duplicateOrder, e.order⟩)] := by
      rw [Dict.set, if_neg hkey]
    have hlast : (dedupKey texts e.req, (⟨e.clock .duplicateOrder, e.order⟩ : Stamp)) ∈
        inWindow (trimmed ((inWindow (m.recentOrders e.req.userId)
          (e.clock .duplicateOrder)).set (dedupKey texts e.req)
            ⟨e.clock .duplicateOrder, e.order⟩)) (e.clock .duplicateOrder) := by
      refine List.mem_filter.mpr ⟨?_, by simp⟩
      rw [hset, trimmed]
      split_ifs with hlarge
      · rw [List.length_append, List.length_singleton] at hlarge
        rw [List.drop_append_of_le_length (by omega)]
        exact List.mem_append_right _ (List.mem_singleton_self _)
      · exact List.mem_append_right _ (List.mem_singleton_self _)
    have hmem := List.mem_map_of_mem (f := fun p => (p.1, p.2.time)) hlast
    rw [← hrecent] at hmem
    obtain ⟨p, hp, heq⟩ := List.mem_map.mp hmem
    exact hkey (List.any_eq_true.mpr ⟨p, hp, decide_eq_true (congrArg Prod.fst heq)⟩)

theorem ruleEvaluate_readsSame (hsha : ∀ s, (texts.sha256 s).length = 64) :
    ReadsSame e m (ruleEvaluate texts e m r).2 r ↔ Quiet texts e m r := by
  cases r with
  | tradeCooldown => exact tradeCooldown_readsSame
  | maxOrdersPerMinute => exact maxOrdersPerMinute_readsSame
  | duplicateOrder => exact duplicateOrder_readsSame hsha
  | _ => exact iff_of_true trivial trivial

theorem loop_unchanged (hsha : ∀ s, (texts.sha256 s).length = 64) {rules : List RiskRuleType}
    (hnodup : rules.Nodup) {s : RiskEvalResult} (hs : s.decision ≠ .rejected) :
    Unchanged e m (loop texts e rules s m).2 ↔
      ∀ r ∈ evaluated texts e m rules, Quiet texts e m r := by
  refine forall_congr' fun r => ?_
  have hfields : SameFor r
      (if r ∈ evaluated texts e m rules then (ruleEvaluate texts e m r).2 else m)
      (loop texts e rules s m).2 := loop_fields hnodup hs r
  rw [← readsSame_congr hfields]
  by_cases hmem : r ∈ evaluated texts e m rules
  · rw [if_pos hmem, ruleEvaluate_readsSame hsha, imp_iff_right hmem]
  · rw [if_neg hmem]
    exact iff_of_true (ReadsSame.refl r m) fun h => absurd h hmem

/-- A rejected order leaves what the rules read unchanged exactly in a dry run, or when every
rule up to the one that rejects is quiet. -/
theorem evaluate_unchanged_iff (texts : Texts) (hsha : ∀ s, (texts.sha256 s).length = 64)
    (e : Evaluation) (m : Memory) {rules : List RiskRuleType} (hnodup : rules.Nodup)
    (dryRun : Bool) :
    ((evaluate texts e rules dryRun m).1.decision = .rejected →
        Unchanged e m (evaluate texts e rules dryRun m).2) ↔
      (dryRun = true ∨ ((∃ r ∈ rules, rejects texts e m r) →
        ∀ r ∈ evaluated texts e m rules, Quiet texts e m r)) := by
  have hstart : ({} : RiskEvalResult).decision ≠ .rejected := by decide
  cases dryRun with
  | true => exact iff_of_true (fun _ r => ReadsSame.refl r m) (.inl rfl)
  | false =>
    have hfalse : ¬ false = true := by decide
    simp only [evaluate, if_neg hfalse, or_iff_right hfalse]
    rw [loop_decision hnodup hstart, loop_unchanged hsha hnodup hstart]

end Quiet

def digest : String := "f6dc557d1ee3d3024cf8a9a2bf0b6c68bd4a8a14c2e3721115a2cb10ede513ef"

theorem length_digest : digest.length = 64 := by decide

def capitalTexts : Texts where
  sha256 _ := digest
  str _ := "3.0"

def buyOrder (t : ℕ) (reply : RiskRuleType → Except String RiskRuleResult) : Evaluation where
  order := t
  req := { userId := "u1", broker := "dhan", symbol := "NIFTY", side := "BUY", quantity := 50 }
  config := {}
  clock _ := seconds t
  reply := reply

def overCapital : Evaluation := buyOrder 1000 fun r =>
  if r = .maxCapital then
    .ok { decision := .rejected, reason := "Capital usage 9000.00 exceeds limit 5000.00." }
  else .ok {}

theorem evaluate_unchanged_iff_overCapital :
    ((evaluate capitalTexts overCapital riskRules false {}).1.decision = .rejected →
        Unchanged overCapital {} (evaluate capitalTexts overCapital riskRules false {}).2) ↔
      (false = true ∨ ((∃ r ∈ riskRules, rejects capitalTexts overCapital {} r) →
        ∀ r ∈ evaluated capitalTexts overCapital {} riskRules,
          Quiet capitalTexts overCapital {} r)) :=
  evaluate_unchanged_iff capitalTexts (fun _ => length_digest) overCapital {} (by decide) false

/-- The cooldown that a rejected order started refuses a valid order two seconds later. -/
theorem overCapital_starts_cooldown :
    ¬ ((evaluate capitalTexts overCapital riskRules false {}).1.decision = .rejected →
        Unchanged overCapital {} (evaluate capitalTexts overCapital riskRules false {}).2) ∧
      (evaluate capitalTexts (buyOrder 1002 fun _ => .ok {}) riskRules false {}).1.message =
        "All risk checks passed" ∧
      (evaluate capitalTexts (buyOrder 1002 fun _ => .ok {}) riskRules false
          (evaluate capitalTexts overCapital riskRules false {}).2).1.message =
        "Trade cooldown active for NIFTY. Wait 3.0s." := by
  refine ⟨fun h => ?_, by decide, by decide⟩
  have hcooldown := h (by decide) .tradeCooldown "u1:dhan:NIFTY"
  exact absurd hcooldown (by decide)

end Trademetrix.RejectedOrders
