import Trademetrix.StrategyRuntime.Workers
import Mathlib.Tactic.Linarith

/-!
# The daily trade limit

An order goes out only while the counter is below `max_daily_trades`. The counter
keeps up with the orders of its date while evaluations do not overlap, every
order is answered by a success that the worker's last candle lets it count, tick
orders find the counter at their date, and the counter is never turned to a date
that already has orders.
-/

namespace Trademetrix.StrategyRuntime.Workers

open Trademetrix.Async
open Contract (Stays)

/-- What call `n` may do. -/
def Guarantee (spec : StrategySpec) (n : ℕ) (s : Desk) : Effect → Prop
  | .locked m _ => m = n ∧ s.evaluating.get n = none
  | .unlocked m _ => m = n ∧ s.unanswered.get n = none
  | .dated m _ => m = n ∧ s.evaluating.get n = some none
  | .submitted m trigger date =>
    m = n ∧ s.unanswered.get n = none ∧
      s.evaluating.get n = some (if trigger = .candle then some date else none) ∧
      (0 < spec.maxDailyTrades → s.stats.dailyTrades < spec.maxDailyTrades)
  | .placed m _ | .unplaced m | .cancelled m => m = n
  | .crash => False
  | _ => True

def Effect.plain : Effect → Bool
  | .locked _ _ | .unlocked _ _ | .dated _ _ | .submitted _ _ _ | .placed _ _ | .unplaced _
  | .cancelled _ | .crash => false
  | _ => true

/-- What call `n` is in the middle of. -/
def Desk.Inside (n : ℕ) (x : Option (Option String)) (y : Option String) (s : Desk) : Prop :=
  s.evaluating.get n = x ∧ s.unanswered.get n = y

def contract (spec : StrategySpec) : Contract Desk Effect (Option ℕ) where
  rely a s t := ∀ n, a = some n →
    t.evaluating.get n = s.evaluating.get n ∧ t.unanswered.get n = s.unanswered.get n
  guar a s e := ∃ n, a = some n ∧ Guarantee spec n s e
  idle a s := ∀ n, a = some n → s.Inside n none none

variable {spec : StrategySpec} {s : Desk} {e : Effect} {n m w : ℕ}

theorem guarantee_of_plain (h : e.plain = true) : Guarantee spec n s e := by
  cases e with
  | locked | unlocked | dated | submitted | placed | unplaced | cancelled | crash => cases h
  | _ => trivial

theorem apply_of_plain (h : e.plain = true) :
    (s.apply e).evaluating = s.evaluating ∧ (s.apply e).unanswered = s.unanswered ∧
      (s.apply e).submitted = s.submitted ∧
      (s.apply e).stats.dailyTradesDate = s.stats.dailyTradesDate ∧
      (s.apply e).stats.dailyTrades = s.stats.dailyTrades := by
  cases e with
  | locked | unlocked | dated | submitted | placed | unplaced | cancelled | crash => cases h
  | _ => exact ⟨rfl, rfl, rfl, rfl, rfl⟩

theorem apply_of_ne (hmn : m ≠ n) (h : Guarantee spec n s e) :
    (s.apply e).evaluating.get m = s.evaluating.get m ∧
      (s.apply e).unanswered.get m = s.unanswered.get m := by
  by_cases hp : e.plain = true
  · obtain ⟨he, hu, -⟩ := apply_of_plain (s := s) hp
    rw [he, hu]
    exact ⟨rfl, rfl⟩
  cases e with
  | locked k v | dated k d | submitted k t d =>
    obtain ⟨rfl, -⟩ := h
    constructor <;> simp [Desk.apply, Desk.modify, Dict.get_set, hmn]
  | unlocked k v =>
    obtain ⟨rfl, -⟩ := h
    constructor <;> simp [Desk.apply, Desk.modify, Dict.get_pop, hmn]
  | placed k v | unplaced k | cancelled k =>
    cases h
    constructor <;> simp [Desk.apply, Dict.get_pop, hmn]
  | crash => exact h.elim
  | _ => exact absurd rfl hp

section Texts

variable {α : Type} {x : Option (Option String)} {y : Option String}

/-- The text leaves call `n` in the middle of what it was in the middle of. -/
abbrev Keeps (spec : StrategySpec) (n : ℕ) (x : Option (Option String)) (p : Call α) : Prop :=
  (contract spec).Stays (system spec) (some n) (Desk.Inside n x none) p

theorem Keeps.emit (he : e.plain = true) : Keeps spec n x (Proc.emit e : Call Unit) := by
  refine Stays.emit fun s h => ⟨⟨n, rfl, guarantee_of_plain he⟩, ?_⟩
  obtain ⟨hev, hun, -⟩ := apply_of_plain (s := s) he
  exact ⟨hev ▸ h.1, hun ▸ h.2⟩

theorem Keeps.wait (i : Await) : Keeps spec n x (Proc.wait i : Call (Reply i)) :=
  Stays.wait (fun _ _ hs ht => ⟨(ht n rfl).1.trans hs.1, (ht n rfl).2.trans hs.2⟩) i

theorem Keeps.withWorker {k : Worker → Call Unit} (h : ∀ st, Keeps spec n x (k st)) :
    Keeps spec n x (withWorker w k) := by
  refine Stays.bind Stays.look fun s => ?_
  cases s.workers.get w with
  | none => exact Stays.pure ()
  | some st => exact h st

theorem withinLimits_lt {worker : Worker} {order : Order}
    (h : withinLimits spec s worker order = true) (hmax : 0 < spec.maxDailyTrades) :
    s.stats.dailyTrades < spec.maxDailyTrades := by
  by_contra hge
  unfold withinLimits at h
  rw [if_pos ⟨hmax, not_lt.mp hge⟩] at h
  cases h

theorem submitOrder_spec {trigger : Trigger} {date : String}
    (hx : x = some (if trigger = .candle then some date else none)) (h : s.Inside n x none)
    (hlt : 0 < spec.maxDailyTrades → s.stats.dailyTrades < spec.maxDailyTrades) :
    (contract spec).Does (system spec) (some n) (fun _ t => t.Inside n x none)
      (submitOrder n w trigger date) s := by
  have hout : (s.apply (.submitted n trigger date)).Inside n x (some date) :=
    ⟨h.1, by simp [Desk.apply, Dict.get_set]⟩
  refine Contract.Does.of_emit ⟨n, rfl, rfl, h.2, hx ▸ h.1, hlt⟩ ?_
  refine Contract.Does.of_wait fun answer t ht _ => ?_
  have ht' : t.Inside n x (some date) := ⟨(ht n rfl).1.trans hout.1, (ht n rfl).2.trans hout.2⟩
  cases answer with
  | cancelled | raised | refused | placed =>
    refine Contract.Does.of_emit ⟨n, rfl, rfl⟩ (Contract.Does.pure ⟨ht'.1, ?_⟩)
    simp [system, Desk.apply, Dict.get_pop]

theorem tryOrder_admits {trigger : Trigger} {date : String} {allowed : Bool} {worker : Worker}
    {order : Order} (hx : x = some (if trigger = .candle then some date else none))
    (h : s.Inside n x none) :
    (contract spec).Does (system spec) (some n) (fun _ t => t.Inside n x none)
      (bif allowed && withinLimits spec s worker order
        then submitOrder n w trigger date else rejectOrder) s := by
  cases hok : allowed && withinLimits spec s worker order with
  | true =>
    simp only [Bool.and_eq_true] at hok
    exact submitOrder_spec hx h (withinLimits_lt hok.2)
  | false => exact Stays.bind (Keeps.emit rfl) (fun _ => Stays.pure _) s h

theorem Keeps.tryOrder {trigger : Trigger} {date : String}
    (hx : x = some (if trigger = .candle then some date else none)) (order : Order) :
    Keeps spec n x (tryOrder spec n w trigger date order) := by
  refine Stays.bind (Keeps.wait .ordersAllowed) fun allowed => ?_
  cases allowed with
  | none => exact Stays.pure _
  | some allowed =>
    intro s h
    refine Contract.Does.of_look ?_
    cases s.workers.get w with
    | none => exact h
    | some worker =>
      dsimp only
      refine Contract.Does.bind (tryOrder_admits hx h) fun alive t ht => ?_
      split
      · exact Stays.bind (Keeps.wait .io) (fun _ => Stays.pure _) t ht
      · exact ht

theorem Keeps.executeOrders {trigger : Trigger} {date : String}
    (hx : x = some (if trigger = .candle then some date else none)) (orders : List Order) :
    Keeps spec n x (executeOrders spec n w trigger date orders) := by
  induction orders with
  | nil => exact Stays.pure _
  | cons order orders ih =>
    refine Stays.bind (Keeps.tryOrder hx order) fun alive => ?_
    split
    · exact ih
    · exact Stays.pure _

theorem unlock_spec {b : α} (h : s.Inside n x none) :
    (contract spec).Does (system spec) (some n) (fun _ t => t.Inside n none none)
      (do Proc.emit (.unlocked n w); pure b) s := by
  refine Contract.Does.of_emit ⟨n, rfl, rfl, h.2⟩ (Contract.Does.pure ⟨?_, h.2⟩)
  simp [system, Desk.apply, Dict.get_pop]

theorem lock_spec {f : Call α} (h : s.Inside n none none)
    (hf : ∀ t : Desk, t.Inside n (some none) none →
      (contract spec).Does (system spec) (some n) (fun _ t => t.Inside n none none) f t) :
    (contract spec).Does (system spec) (some n) (fun _ t => t.Inside n none none)
      (do Proc.wait (Await.evalLock w); Proc.emit (.locked n w); f) s := by
  refine Contract.Does.bind (Keeps.wait (.evalLock w) s h) fun _ t ht => ?_
  refine Contract.Does.of_emit ⟨n, rfl, rfl, ht.1⟩ (hf _ ⟨?_, ht.2⟩)
  simp [system, Desk.apply, Dict.get_set]

theorem Keeps.evaluateTick (tick : Tick) : Keeps spec n none (evaluateTick spec n w tick) := by
  intro s h
  refine lock_spec h fun t ht => ?_
  refine Contract.Does.of_look ?_
  split
  · refine Contract.Does.bind (Keeps.wait .strategy t ht) fun signal u hu => ?_
    cases signal with
    | cancelled | raised => exact unlock_spec hu
    | orders orders =>
      exact Contract.Does.bind (Keeps.executeOrders rfl orders u hu) fun _ v hv => unlock_spec hv
  · exact unlock_spec ht

theorem Keeps.evaluate (candle : Candle) (execute : Bool) :
    Keeps spec n none (evaluate spec n w candle execute) := by
  intro s h
  refine lock_spec h fun t ht => ?_
  refine Contract.Does.of_look ?_
  split
  · refine Contract.Does.bind (Keeps.wait .strategy t ht) fun signal u hu => ?_
    cases signal with
    | cancelled | raised => exact unlock_spec hu
    | orders orders =>
      refine Contract.Does.of_emit ⟨n, rfl, rfl, hu.1⟩ ?_
      have hdated : ((system spec).apply (.dated n candle.date) u).Inside n
          (some (some candle.date)) none :=
        ⟨by simp [system, Desk.apply, Dict.get_set], hu.2⟩
      split
      · exact Contract.Does.bind (Keeps.executeOrders rfl orders _ hdated)
          fun _ v hv => unlock_spec hv
      · exact unlock_spec hdated
  · exact unlock_spec ht

theorem Keeps.handleCandle (candle : Candle) : Keeps spec n none (handleCandle spec n w candle) := by
  refine Keeps.withWorker fun worker => ?_
  split
  · exact Stays.pure _
  refine Stays.bind (Keeps.emit rfl) fun _ => Stays.bind (Keeps.emit rfl) fun _ => ?_
  split
  · exact Stays.bind (Keeps.evaluate candle true) fun _ => Stays.pure _
  · exact Stays.pure _

theorem Keeps.processTick (tick : Tick) (closed : Option Candle) :
    Keeps spec n none (processTick spec n w tick closed) := by
  refine Keeps.withWorker fun worker => Stays.bind ?_ fun alive => ?_
  · cases decide (spec.trigger = .everyTick) && worker.evaluationAllowed with
    | true => exact Keeps.evaluateTick tick
    | false => exact Stays.pure _
  · split
    · exact Stays.bind (Keeps.emit rfl) fun _ => Keeps.handleCandle _
    · exact Stays.pure _

theorem Keeps.timeTick : Keeps spec n none (timeTick spec n w) := by
  refine Keeps.withWorker fun worker => ?_
  split
  · exact Stays.pure _
  · exact Keeps.handleCandle _

theorem Keeps.warmupCandles (tf : String) (candles : List Candle) :
    Keeps spec n none (warmupCandles spec n w tf candles) := by
  induction candles with
  | nil => exact Stays.pure _
  | cons candle candles ih =>
    refine Stays.bind (Keeps.withWorker fun worker => ?_) fun _ => ih
    split
    · exact Stays.pure _
    refine Stays.bind (Keeps.emit rfl) fun _ => ?_
    split
    · exact Stays.bind (Keeps.evaluate candle false) fun _ => Stays.pure _
    · exact Stays.pure _

theorem Keeps.warmupFrames (tfs : List String) :
    Keeps spec n none (warmupFrames spec n w tfs) := by
  induction tfs with
  | nil => exact Stays.pure _
  | cons tf tfs ih =>
    refine Stays.bind (Keeps.wait .history) fun candles => ?_
    exact Stays.bind (Keeps.warmupCandles tf candles) fun _ => ih

theorem Keeps.start : Keeps spec n none (start spec n w) := by
  unfold Workers.start
  refine Stays.bind Stays.look fun s => ?_
  split
  · exact Stays.pure _
  refine Stays.bind (Keeps.emit rfl) fun _ => ?_
  split
  · refine Stays.bind (Keeps.wait .seenIds) fun ids => Stays.bind (Keeps.emit rfl) fun _ => ?_
    exact Stays.bind (Keeps.warmupFrames _) fun _ => Keeps.emit rfl
  · exact Keeps.emit rfl

theorem Keeps.run (ev : Event) : Keeps spec n none (ev.run spec n) := by
  cases ev with
  | start w => exact Keeps.start
  | tick w t closed => exact Keeps.processTick t closed
  | timeTick w => exact Keeps.timeTick

end Texts

theorem contract_sound : (contract spec).Sound (system spec) where
  trans _ _ _ _ h h' n hn := ⟨(h' n hn).1.trans (h n hn).1, (h' n hn).2.trans (h n hn).2⟩
  refl _ _ _ _ := ⟨rfl, rfl⟩
  idle _ _ _ h hidle n hn :=
    ⟨(h n hn).1.trans (hidle n hn).1, (h n hn).2.trans (hidle n hn).2⟩
  others a b s e hab := by
    rintro ⟨n, rfl, hg⟩ m rfl
    refine apply_of_ne ?_ hg
    rintro rfl
    simpa [system] using hab rfl
  env a s e he n _ := by
    have hplain : e.plain = true := by
      cases e <;> first | rfl | cases he
    obtain ⟨hev, hun, -⟩ := apply_of_plain (s := s) hplain
    exact ⟨congrArg (Dict.get · n) hev, congrArg (Dict.get · n) hun⟩
  code c s hidle := by
    obtain ⟨n, ev⟩ := c
    refine Contract.Does.mono (Keeps.run ev s (hidle n rfl)) fun _ t ht => ?_
    rintro m hm
    cases hm
    exact ht

/-- Each effect of a run is one a call may carry out, one from outside or the end of
the process. -/
def Granted (spec : StrategySpec) (s : Desk) (e : Effect) : Prop :=
  (∃ n, Guarantee spec n s e) ∨ e = .crash

structure Desk.Fresh (s : Desk) : Prop where
  date : s.stats.dailyTradesDate = none
  trades : s.stats.dailyTrades = 0
  evaluating : s.evaluating = []
  unanswered : s.unanswered = []
  submitted : s.submitted = []

theorem run_granted (h₀ : s.Fresh) {es : List Effect} {P : Pool Desk Effect Reply (Option ℕ)}
    (h : (system spec).Life .crash ⟨s, []⟩ es P) :
    Legal Desk.apply (Granted spec) s es ∧ P.state = replay Desk.apply s es := by
  have hstart : (contract spec).Holds (system spec) ⟨s, []⟩ := by
    refine ⟨by simp, by simp, .nil, fun a _ n _ => ?_⟩
    simp [Desk.Inside, h₀.evaluating, h₀.unanswered, Dict.get]
  have hcrash : ∀ s a, (system spec).blocks a a = false → (contract spec).idle a s →
      ∀ b, (contract spec).idle b ((system spec).apply .crash s) := by
    intro s a _ _ b n _
    simp [system, Desk.Inside, Desk.apply, Dict.get]
  have hlegal := Contract.Life.legal contract_sound hcrash (a := none) (by simp [system]) hstart h
  refine ⟨hlegal.1.mono ?_, hlegal.2.2⟩
  rintro s e ((⟨a, n, -, hg⟩ | henv) | rfl)
  · exact .inl ⟨n, hg⟩
  · refine .inl ⟨0, guarantee_of_plain ?_⟩
    cases e <;> first | rfl | cases henv
  · exact .inr rfl

/-- One evaluation at a time; the counter turned only to a date without orders; tick
orders with the counter at their date; and each order answered by a success that counts. -/
def Careful (s : Desk) : Effect → Prop
  | .locked _ _ => s.evaluating = []
  | .dated _ date => s.stats.dailyTradesDate = some date ∨ date ∉ s.submitted
  | .submitted _ .tick date => s.stats.dailyTradesDate = some date
  | .placed _ w =>
    ∃ c ∈ (s.workers.get w).bind Worker.lastCandle, s.stats.dailyTradesDate = some c.date
  | .unplaced _ | .cancelled _ => False
  | _ => True

instance (s : Desk) : ∀ e, Decidable (Careful s e)
  | .locked _ _ => inferInstanceAs (Decidable (s.evaluating = []))
  | .dated _ date => inferInstanceAs (Decidable (_ = some date ∨ date ∉ s.submitted))
  | .submitted _ .tick date => inferInstanceAs (Decidable (s.stats.dailyTradesDate = some date))
  | .submitted _ .candle _ => isTrue trivial
  | .placed _ w => inferInstanceAs (Decidable (∃ c ∈ (s.workers.get w).bind Worker.lastCandle, _))
  | .unplaced _ | .cancelled _ => isFalse id
  | .created _ | .allowed _ _ | .dropped _ | .priced _ _ | .positions _ | .loadedSeen _ _
  | .saw _ _ _ | .lastCandle _ _ | .mtfCandle _ _ | .mtfReset _ | .unlocked _ _ | .rejected
  | .crash => isTrue trivial

/-- The counter is at most one behind the orders of its date, and only while one of
them is unanswered. -/
structure Counted (spec : StrategySpec) (s : Desk) : Prop where
  one : ∀ n m, s.evaluating.get n ≠ none → s.evaluating.get m ≠ none → n = m
  inside : ∀ n, s.unanswered.get n ≠ none → s.evaluating.get n ≠ none
  dated : ∀ n d, s.evaluating.get n = some (some d) → s.stats.dailyTradesDate = some d
  trades : 0 ≤ s.stats.dailyTrades
  counted : ∀ d, s.stats.dailyTradesDate = some d → (s.submitted.count d : ℤ) ≤ s.stats.dailyTrades ∨
    (s.submitted.count d : ℤ) ≤ s.stats.dailyTrades + 1 ∧ ∃ n, s.unanswered.get n = some d
  bounded : ∀ d, (s.submitted.count d : ℤ) ≤ spec.maxDailyTrades

theorem Desk.Fresh.counted (h : s.Fresh) (hmax : 0 < spec.maxDailyTrades) : Counted spec s where
  one n m hn := absurd (by simp [h.evaluating, Dict.get]) hn
  inside n hn := absurd (by simp [h.unanswered, Dict.get]) hn
  dated n d hn := by simp [h.evaluating, Dict.get] at hn
  trades := h.trades.ge
  counted d hd := by simp [h.date] at hd
  bounded d := by simpa [h.submitted] using hmax.le

theorem Counted.no_unanswered (hs : Counted spec s) (he : s.evaluating.get n ≠ none)
    (hu : s.unanswered.get n = none) (m : ℕ) : s.unanswered.get m = none := by
  by_contra hm
  have hnm : n = m := hs.one n m he (hs.inside m hm)
  rw [← hnm] at hm
  exact hm hu

theorem counted_submitted {trigger : Trigger} {date : String} (hmax : 0 < spec.maxDailyTrades)
    (hs : Counted spec s) (hg : Guarantee spec n s (.submitted n trigger date))
    (hcareful : Careful s (.submitted n trigger date)) :
    Counted spec (s.apply (.submitted n trigger date)) := by
  obtain ⟨-, hu, he, hlt⟩ := hg
  have hdate : s.stats.dailyTradesDate = some date := by
    cases trigger with
    | tick => exact hcareful
    | candle => exact hs.dated n date (by simpa using he)
  have hcount : (s.submitted.count date : ℤ) ≤ s.stats.dailyTrades := by
    rcases hs.counted date hdate with h | ⟨-, m, hm⟩
    · exact h
    · rw [hs.no_unanswered (by simp [he]) hu m] at hm
      cases hm
  refine ⟨hs.one, fun m hm => ?_, hs.dated, hs.trades, fun d hd => ?_, fun d => ?_⟩
  · by_cases hmn : m = n
    · subst hmn
      simp [Desk.apply, he]
    · refine hs.inside m ?_
      simpa [Desk.apply, Dict.get_set, hmn] using hm
  · have hd' : d = date := by simpa [Desk.apply, hdate, eq_comm] using hd
    subst hd'
    refine .inr ⟨?_, n, by simp [Desk.apply, Dict.get_set]⟩
    simp only [Desk.apply, List.count_cons_self]
    push_cast
    linarith
  · by_cases hd : d = date
    · subst hd
      have := hlt hmax
      simp only [Desk.apply, List.count_cons_self]
      push_cast
      omega
    · simpa [Desk.apply, List.count_cons, Ne.symm hd] using hs.bounded d

theorem counted_dated {date : String} (hs : Counted spec s)
    (hg : Guarantee spec n s (.dated n date)) (hcareful : Careful s (.dated n date)) :
    Counted spec (s.apply (.dated n date)) := by
  obtain ⟨-, he⟩ := hg
  have hkeys : ∀ m, (s.apply (.dated n date)).evaluating.get m ≠ none →
      s.evaluating.get m ≠ none := by
    intro m hm
    by_cases hmn : m = n
    · simp [hmn, he]
    · simpa [Desk.apply, Dict.get_set, hmn] using hm
  have hstats : (s.apply (.dated n date)).stats = Desk.dateStats s.stats date := rfl
  have hdate : (Desk.dateStats s.stats date).dailyTradesDate = some date := by
    unfold Desk.dateStats
    split
    · assumption
    · rfl
  refine ⟨fun k m hk hm => hs.one k m (hkeys k hk) (hkeys m hm), fun m hm => ?_, fun m d hm => ?_,
    ?_, fun d hd => ?_, hs.bounded⟩
  · by_cases hmn : m = n
    · simp [hmn, Desk.apply, Dict.get_set]
    · have hin := hs.inside m hm
      simpa [Desk.apply, Dict.get_set, hmn] using hin
  · have hmn : m = n := hs.one m n (hkeys m (by simp [hm])) (by simp [he])
    have hd : d = date := by simpa [hmn, Desk.apply, Dict.get_set, eq_comm] using hm
    rw [hstats, hd, hdate]
  · rw [hstats]
    unfold Desk.dateStats
    split
    · exact hs.trades
    · exact le_rfl
  · have hd' : d = date := by simpa [hstats, hdate, eq_comm] using hd
    subst hd'
    by_cases hsame : s.stats.dailyTradesDate = some d
    · have hkeep : Desk.dateStats s.stats d = s.stats := by simp [Desk.dateStats, hsame]
      rw [hstats, hkeep]
      exact hs.counted d hsame
    · have hnone : d ∉ s.submitted := hcareful.resolve_left hsame
      left
      change (s.submitted.count d : ℤ) ≤ (Desk.dateStats s.stats d).dailyTrades
      simp [Desk.dateStats, hsame, List.count_eq_zero_of_not_mem hnone]

theorem counted_placed (hs : Counted spec s) (hcareful : Careful s (.placed n w)) :
    Counted spec (s.apply (.placed n w)) := by
  obtain ⟨c, hc, hdate⟩ := hcareful
  have hstats : (s.apply (.placed n w)).stats =
      { s.stats with
        ordersPlaced := s.stats.ordersPlaced + 1, dailyTrades := s.stats.dailyTrades + 1 } := by
    simp only [Option.mem_def] at hc
    simp [Desk.apply, Desk.placeStats, hc, hdate]
  refine ⟨hs.one, fun m hm => ?_, fun m d hm => ?_, ?_, fun d hd => ?_, hs.bounded⟩
  · refine hs.inside m ?_
    by_cases hmn : m = n
    · simp [hmn, Desk.apply, Dict.get_pop] at hm
    · simpa [Desk.apply, Dict.get_pop, hmn] using hm
  · rw [hstats]
    exact hs.dated m d hm
  · rw [hstats]
    have := hs.trades
    dsimp only
    omega
  · rw [hstats] at hd ⊢
    left
    change (s.submitted.count d : ℤ) ≤ s.stats.dailyTrades + 1
    rcases hs.counted d hd with h | h
    · omega
    · exact h.1

theorem counted_step (hmax : 0 < spec.maxDailyTrades) (hs : Counted spec s)
    (hgranted : Granted spec s e) (hcareful : Careful s e) : Counted spec (s.apply e) := by
  rcases hgranted with ⟨n, hg⟩ | rfl
  · by_cases hp : e.plain = true
    · obtain ⟨he, hu, hsub, hd, ht⟩ := apply_of_plain (s := s) hp
      refine ⟨?_, ?_, ?_, ?_, ?_, ?_⟩
      · rw [he]
        exact hs.one
      · rw [he, hu]
        exact hs.inside
      · rw [he, hd]
        exact hs.dated
      · rw [ht]
        exact hs.trades
      · rw [hd, ht, hu, hsub]
        exact hs.counted
      · rw [hsub]
        exact hs.bounded
    cases e with
    | locked m w =>
      obtain ⟨rfl, -⟩ := hg
      have hnone : ∀ k, s.evaluating.get k = none := by
        intro k
        rw [show s.evaluating = [] from hcareful]
        rfl
      have honly : ∀ k, (s.apply (.locked m w)).evaluating.get k ≠ none → k = m := by
        intro k hk
        by_contra hkm
        exact hk (by simp [Desk.apply, Dict.get_set, hkm, hnone])
      refine ⟨fun k l hk hl => (honly k hk).trans (honly l hl).symm, fun k hk => ?_, fun k d hk => ?_,
        hs.trades, hs.counted, hs.bounded⟩
      · exact absurd (hnone k) (hs.inside k hk)
      · have hkm := honly k (by simp [hk])
        simp [hkm, Desk.apply, Dict.get_set] at hk
    | unlocked m w =>
      obtain ⟨rfl, hu⟩ := hg
      have hother : ∀ k x, (s.apply (.unlocked m w)).evaluating.get k = some x →
          s.evaluating.get k = some x := by
        intro k x hk
        simp only [Desk.apply, Dict.get_pop] at hk
        split at hk
        · cases hk
        · exact hk
      have hkeys : ∀ k, (s.apply (.unlocked m w)).evaluating.get k ≠ none →
          s.evaluating.get k ≠ none := by
        intro k hk
        obtain ⟨x, hx⟩ := Option.ne_none_iff_exists'.mp hk
        simp [hother k x hx]
      refine ⟨fun k l hk hl => hs.one k l (hkeys k hk) (hkeys l hl), fun k hk => ?_,
        fun k d hk => hs.dated k d (hother k _ hk), hs.trades, hs.counted, hs.bounded⟩
      have hkm : k ≠ m := by
        rintro rfl
        exact hk hu
      have hin := hs.inside k hk
      simpa [Desk.apply, Dict.get_pop, hkm] using hin
    | dated m date =>
      obtain ⟨rfl, he⟩ := hg
      exact counted_dated hs ⟨rfl, he⟩ hcareful
    | submitted m trigger date =>
      obtain ⟨rfl, hrest⟩ := hg
      exact counted_submitted hmax hs ⟨rfl, hrest⟩ hcareful
    | placed m w => exact counted_placed hs hcareful
    | unplaced | cancelled => exact hcareful.elim
    | crash => exact hg.elim
    | _ => exact absurd rfl hp
  · refine ⟨fun k l hk => absurd rfl hk, fun k hk => absurd rfl hk, fun k d hk => ?_, le_rfl,
      fun d hd => ?_, hs.bounded⟩
    · cases hk
    · cases hd

def onceADay (trigger : StrategyTrigger) : StrategySpec where
  strategyId := "s1"
  userId := "u1"
  interval := "15m"
  timeframes := ["15m"]
  mode := "paper"
  isPaper := true
  broker := "paper"
  confirmed := true
  trigger := trigger
  warmup := false
  maxPositions := 0
  maxRiskPerTrade := 0
  maxDailyTrades := 1

def exampleDesk : Desk := ⟨⟨none, 0, 0, 0⟩, [], [], [], [], []⟩

theorem exampleDesk_fresh : exampleDesk.Fresh := ⟨rfl, rfl, rfl, rfl, rfl⟩

def exampleReply : (i : Await) → Reply i
  | .evalLock _ => ()
  | .strategy => .orders [⟨"NIFTY", "BUY", 75⟩]
  | .ordersAllowed => some true
  | .executeOrder => .placed
  | .seenIds => []
  | .history => []
  | .io => some ()

/-- A call from its first step to its end, `k` awaits later. -/
def callThrough (ev : Event) (k : ℕ) : List (Action Effect Reply (ℕ × Event)) :=
  .start (0, ev) :: List.replicate k (.resume 0 exampleReply)

end Trademetrix.StrategyRuntime.Workers
