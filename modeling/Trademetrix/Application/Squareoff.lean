import Mathlib.Data.String.Basic
import Trademetrix.Cron
import Trademetrix.Engine.Models

/-!
# The square-off scheduler

`SquareoffService._squareoff_loop`: a pass reads the clock once, goes through
the enabled configurations and squares a user off if the day is one of his and
the minute of the pass is his time; the mark of user, time and day is set before
that. What a user's run raises is caught. The clock is the server's.
-/

namespace Trademetrix.Application

open Engine
open Execution (OrderResult)

section Days

/-- An element of a list of days: an integer, a text, or something `int` refuses. -/
inductive DayItem
  | int (n : ℤ)
  | text (s : String)
  | other

/-- What the `days` column returns. -/
inductive DaysColumn
  | null
  | list (items : List DayItem)
  | text (s : String)
  | other

def defaultDays : List ℤ := [0, 1, 2, 3, 4]

def DayItem.int? : DayItem → Option ℤ
  | int n => some n
  | text s => Text.parseInt s
  | other => none

/-- `str.strip(chars)`. -/
def stripChars (chars s : List Char) : List Char :=
  (((s.dropWhile (· ∈ chars)).reverse).dropWhile (· ∈ chars)).reverse

def orDefault (days : List ℤ) : List ℤ := if days = [] then defaultDays else days

def coerceDays : DaysColumn → List ℤ
  | .null | .other => defaultDays
  | .list items => orDefault (items.filterMap DayItem.int?)
  | .text s =>
    let bare := stripChars ['[', ']', '{', '}'] (Text.strip s).toList
    let text := (Text.strip (String.ofList bare)).toList
    if text = [] then defaultDays
    else orDefault ((text.splitOn ',').filterMap fun part => Text.parseInt (String.ofList part))

end Days

structure SquareoffRow where
  userId : String
  squareoffTime : Option String
  days : DaysColumn

def SquareoffRow.time (row : SquareoffRow) : String := row.squareoffTime.getD "15:15"

structure SquareoffConfigs where
  rows : List SquareoffRow
  nodup : (rows.map SquareoffRow.userId).Nodup

structure Position where
  symbol : String
  exchange : Option Exchange
  product : String
  quantity : ℤ
  instrumentType : InstrumentType
  strikePrice : Option ℚ := none
  expiryDate : Option String := none
  optionType : Option OptionType := none

inductive Read (α : Type)
  | found (a : α)
  | missing
  | failed

/-- What the run for a user finds: his profile, his broker, the positions (or what the engine
raises), and the replies to the orders, in turn. -/
structure UserRun where
  user : Read Unit := .found ()
  creds : Read String := .found "fyers"
  positions : Except String (List Position)
  replies : ℕ → Except String OrderResult := fun _ => .error ""

def squareoffOrder (pos : Position) : NormalizedOrder where
  symbol := pos.symbol
  exchange := pos.exchange.getD .nse
  side := if 0 < pos.quantity then .sell else .buy
  orderType := .market
  product := .intraday
  quantity := |pos.quantity|
  price := 0
  instrumentType := pos.instrumentType
  strikePrice := pos.strikePrice
  expiryDate := pos.expiryDate
  optionType := pos.optionType
  source := "squareoff"

/-- The orders that are sent, from the `i`th on, and whether one raises. -/
def sendOrders (replies : ℕ → Except String OrderResult) :
    ℕ → List NormalizedOrder → List NormalizedOrder × Bool
  | _, [] => ([], false)
  | i, order :: orders =>
    match replies i with
    | .error _ => ([order], true)
    | .ok _ =>
      let (sent, raised) := sendOrders replies (i + 1) orders
      (order :: sent, raised)

def runSquareoffForUser (r : UserRun) : List NormalizedOrder × Bool :=
  match r.user with
  | .missing | .failed => ([], false)
  | .found _ =>
    match r.creds with
    | .missing | .failed => ([], false)
    | .found _ =>
      match r.positions with
      | .error _ => ([], true)
      | .ok positions =>
        let intraday := positions.filter fun p => decide (p.product = "INTRADAY" ∨ p.product = "MIS")
        sendOrders r.replies 0 (intraday.map squareoffOrder)

structure SquareoffPass where
  now : Cron.Moment
  reads : Bool := true
  runs : String → UserRun

structure SquareoffAttempt where
  userId : String
  now : Cron.Moment
  run : UserRun

structure SquareoffScheduler where
  fired : List (String × String × Day) := []
  attempts : List SquareoffAttempt := []

/-- `date.weekday()`: Monday is 0. -/
def weekdayOf (d : Day) : ℤ := ((d.weekday + 6) % 7 : ℕ)

def SquareoffRow.Configured (row : SquareoffRow) (d : Day) : Prop := weekdayOf d ∈ coerceDays row.days

instance (row : SquareoffRow) (d : Day) : Decidable (row.Configured d) :=
  inferInstanceAs (Decidable (_ ∈ _))

namespace SquareoffScheduler

def checkConfig (p : SquareoffPass) (w : SquareoffScheduler) (row : SquareoffRow) : SquareoffScheduler :=
  if row.Configured p.now.day ∧ row.time = p.now.clockText then
    let fireKey := (row.userId, row.time, p.now.day)
    if fireKey ∈ w.fired then w
    else
      { fired := fireKey :: w.fired
        attempts := w.attempts ++ [⟨row.userId, p.now, p.runs row.userId⟩] }
  else w

def pass (configs : SquareoffConfigs) (w : SquareoffScheduler) (p : SquareoffPass) :
    SquareoffScheduler :=
  (if p.reads then configs.rows else []).foldl (checkConfig p) w

def run (configs : SquareoffConfigs) (ps : List SquareoffPass) : SquareoffScheduler :=
  ps.foldl (pass configs) {}

def attemptsFor (w : SquareoffScheduler) (userId : String) : List SquareoffAttempt :=
  w.attempts.filter fun a => decide (a.userId = userId)

end SquareoffScheduler

end Trademetrix.Application

namespace Trademetrix.Application

open Engine

def UserRun.FailedBefore (r : UserRun) : Prop :=
  (runSquareoffForUser r).1 = [] ∧
    (r.user = .failed ∨ r.creds = .failed ∨ (runSquareoffForUser r).2)

def AtOrAfter (now : Cron.Moment) (time : String) : Prop := ¬ now.clockText < time

def Spans (ps : List SquareoffPass) (d : Day) : Prop :=
  (∃ p ∈ ps, p.now.day.index ≤ d.index) ∧ ∃ p ∈ ps, d.index < p.now.day.index

open SquareoffScheduler

/-- On each of his days a user gets an attempt, and as long as none has come to the orders another
one in each pass from his time on; another one follows only such a failure, and none is early. -/
structure SquaredDaily (configs : SquareoffConfigs) (ps : List SquareoffPass) : Prop where
  reached : ∀ row ∈ configs.rows, ∀ d, row.Configured d → Spans ps d →
    ∃ a ∈ (run configs ps).attemptsFor row.userId, a.now.day = d
  retried : ∀ row ∈ configs.rows, ∀ before p after, ps = before ++ p :: after → p.reads →
    row.Configured p.now.day → AtOrAfter p.now row.time →
      (∃ a ∈ (run configs before).attemptsFor row.userId,
          a.now.day = p.now.day ∧ ¬ a.run.FailedBefore) ∨
        ((run configs before).attemptsFor row.userId).length <
          ((run configs (before ++ [p])).attemptsFor row.userId).length
  once : ∀ row ∈ configs.rows,
    ((run configs ps).attemptsFor row.userId).Pairwise fun a b =>
      a.now.day = b.now.day → a.run.FailedBefore
  timely : ∀ row ∈ configs.rows, ∀ a ∈ (run configs ps).attemptsFor row.userId,
    row.Configured a.now.day ∧ AtOrAfter a.now row.time

def InMinute (row : SquareoffRow) (p : SquareoffPass) : Prop :=
  p.reads ∧ row.Configured p.now.day ∧ row.time = p.now.clockText

instance (row : SquareoffRow) (p : SquareoffPass) : Decidable (InMinute row p) :=
  inferInstanceAs (Decidable (_ ∧ _))

def NoneOn (row : SquareoffRow) (ps : List SquareoffPass) (d : Day) : Prop :=
  ∀ p ∈ ps, InMinute row p → p.now.day ≠ d

instance (row : SquareoffRow) (ps : List SquareoffPass) (d : Day) : Decidable (NoneOn row ps d) :=
  inferInstanceAs (Decidable (∀ p ∈ ps, InMinute row p → p.now.day ≠ d))

/-- The run of a user is in time: on each of his days a pass is in his minute, and a pass of the day
from his time on is the first of these or comes after one whose run does not fail before the orders. -/
structure InTime (row : SquareoffRow) (ps : List SquareoffPass) : Prop where
  met : ∀ d, row.Configured d → Spans ps d → ∃ p ∈ ps, InMinute row p ∧ p.now.day = d
  kept : ∀ before p after, ps = before ++ p :: after → p.reads → row.Configured p.now.day →
    AtOrAfter p.now row.time →
      (∃ earlier q rest, before = earlier ++ q :: rest ∧ InMinute row q ∧ q.now.day = p.now.day ∧
          NoneOn row earlier p.now.day ∧ ¬ (q.runs row.userId).FailedBefore) ∨
        InMinute row p ∧ NoneOn row before p.now.day

section Pass

variable {configs : SquareoffConfigs} {row : SquareoffRow} {p : SquareoffPass} {w : SquareoffScheduler}

theorem foldl_checkConfig_of_notMem {rows : List SquareoffRow}
    (h : row.userId ∉ rows.map SquareoffRow.userId) (w : SquareoffScheduler) (key : String × Day) :
    ((row.userId, key) ∈ (rows.foldl (checkConfig p) w).fired ↔ (row.userId, key) ∈ w.fired) ∧
      (rows.foldl (checkConfig p) w).attemptsFor row.userId = w.attemptsFor row.userId := by
  induction rows generalizing w with
  | nil => exact ⟨Iff.rfl, rfl⟩
  | cons other rows ih =>
    rw [List.map_cons, List.mem_cons, not_or] at h
    obtain ⟨hne, hrest⟩ := h
    obtain ⟨hfired, hattempts⟩ := ih hrest (checkConfig p w other)
    rw [List.foldl_cons, hfired, hattempts, checkConfig]
    split
    · dsimp only
      split
      · exact ⟨Iff.rfl, rfl⟩
      · simp [attemptsFor, hne, Ne.symm hne]
    · exact ⟨Iff.rfl, rfl⟩

theorem pass_spec (hrow : row ∈ configs.rows) (w : SquareoffScheduler) (d : Day) :
    ((row.userId, row.time, d) ∈ (SquareoffScheduler.pass configs w p).fired ↔
        (row.userId, row.time, d) ∈ w.fired ∨ InMinute row p ∧ p.now.day = d) ∧
      (SquareoffScheduler.pass configs w p).attemptsFor row.userId = w.attemptsFor row.userId ++
        if InMinute row p ∧ (row.userId, row.time, p.now.day) ∉ w.fired then
          [⟨row.userId, p.now, p.runs row.userId⟩] else [] := by
  cases hreads : p.reads with
  | false => simp [SquareoffScheduler.pass, hreads, InMinute]
  | true =>
    obtain ⟨before, after, hrows⟩ := List.append_of_mem hrow
    have hnodup := configs.nodup
    rw [hrows, List.map_append, List.map_cons, List.nodup_append] at hnodup
    obtain ⟨-, hafter, hdisjoint⟩ := hnodup
    have hbefore : row.userId ∉ before.map SquareoffRow.userId := fun h =>
      hdisjoint _ h _ List.mem_cons_self rfl
    have hafter' : row.userId ∉ after.map SquareoffRow.userId := (List.nodup_cons.mp hafter).1
    have hpass : SquareoffScheduler.pass configs w p =
        after.foldl (checkConfig p) (checkConfig p (before.foldl (checkConfig p) w) row) := by
      rw [SquareoffScheduler.pass, hreads, if_pos rfl, hrows, List.foldl_append, List.foldl_cons]
    have hmark := fun d => (foldl_checkConfig_of_notMem (p := p) hbefore w (row.time, d)).1
    have hkept := (foldl_checkConfig_of_notMem (p := p) hbefore w (row.time, d)).2
    obtain ⟨hfired, hattempts⟩ := foldl_checkConfig_of_notMem (p := p) hafter'
      (checkConfig p (before.foldl (checkConfig p) w) row) (row.time, d)
    rw [hpass, hfired, hattempts, checkConfig]
    by_cases hminute : row.Configured p.now.day ∧ row.time = p.now.clockText
    · have hin : InMinute row p := ⟨hreads, hminute⟩
      rw [if_pos hminute]
      dsimp only
      by_cases hset : (row.userId, row.time, p.now.day) ∈ w.fired
      · rw [if_pos ((hmark _).mpr hset), if_neg fun h => h.2 hset, hkept, List.append_nil, hmark]
        exact ⟨⟨.inl, fun h => h.elim id fun h => h.2 ▸ hset⟩, rfl⟩
      · rw [if_neg fun h => hset ((hmark _).mp h), if_pos ⟨hin, hset⟩, List.mem_cons, hmark]
        constructor
        · rw [or_comm, Prod.mk.injEq, Prod.mk.injEq]
          exact or_congr_right ⟨fun h => ⟨hin, h.2.2.symm⟩, fun h => ⟨rfl, rfl, h.2.symm⟩⟩
        · rw [← hkept]
          simp [attemptsFor]
    · have hout : ¬ InMinute row p := fun h => hminute h.2
      rw [if_neg hminute, if_neg fun h => hout h.1, hkept, List.append_nil, hmark]
      exact ⟨⟨.inl, fun h => h.resolve_right fun h => hout h.1⟩, rfl⟩

end Pass

section Run

variable {configs : SquareoffConfigs} {row : SquareoffRow} {ps : List SquareoffPass} {p : SquareoffPass}

def attemptIn (row : SquareoffRow) (p : SquareoffPass) : SquareoffAttempt :=
  ⟨row.userId, p.now, p.runs row.userId⟩

theorem run_concat (ps : List SquareoffPass) (p : SquareoffPass) :
    run configs (ps ++ [p]) = SquareoffScheduler.pass configs (run configs ps) p := List.foldl_concat _ _ _ _

theorem noneOn_concat {d : Day} :
    NoneOn row (ps ++ [p]) d ↔ NoneOn row ps d ∧ (InMinute row p → p.now.day ≠ d) := by
  simp [NoneOn, or_imp, forall_and]

theorem mem_fired_run (hrow : row ∈ configs.rows) (ps : List SquareoffPass) (d : Day) :
    (row.userId, row.time, d) ∈ (run configs ps).fired ↔ ¬ NoneOn row ps d := by
  induction ps using List.reverseRecOn with
  | nil => simp [run, NoneOn]
  | append_singleton ps p ih =>
    rw [run_concat, (pass_spec hrow _ d).1, ih, noneOn_concat, not_and_or]
    refine or_congr_right ?_
    simp

theorem attempts_concat (hrow : row ∈ configs.rows) (ps : List SquareoffPass) (p : SquareoffPass) :
    (run configs (ps ++ [p])).attemptsFor row.userId = (run configs ps).attemptsFor row.userId ++
      if InMinute row p ∧ NoneOn row ps p.now.day then [attemptIn row p] else [] := by
  rw [run_concat, (pass_spec hrow _ p.now.day).2]
  simp only [mem_fired_run hrow, not_not, attemptIn]

theorem mem_attempts (hrow : row ∈ configs.rows) (ps : List SquareoffPass) (a : SquareoffAttempt) :
    a ∈ (run configs ps).attemptsFor row.userId ↔
      ∃ earlier q rest, ps = earlier ++ q :: rest ∧ InMinute row q ∧
        NoneOn row earlier q.now.day ∧ a = attemptIn row q := by
  induction ps using List.reverseRecOn with
  | nil => simp [run, attemptsFor]
  | append_singleton ps p ih =>
    rw [attempts_concat hrow, List.mem_append, ih]
    constructor
    · rintro (⟨earlier, q, rest, rfl, h⟩ | ha)
      · exact ⟨earlier, q, rest ++ [p], by simp, h⟩
      · split at ha
        · next hfirst => exact ⟨ps, p, [], rfl, hfirst.1, hfirst.2, List.mem_singleton.mp ha⟩
        · cases ha
    · rintro ⟨earlier, q, rest, hps, hminute, hnone, ha⟩
      rcases List.eq_nil_or_concat rest with rfl | ⟨rest, r, rfl⟩
      · obtain ⟨rfl, hq⟩ := List.append_inj' hps rfl
        obtain rfl := List.singleton_inj.mp hq
        rw [if_pos ⟨hminute, hnone⟩]
        exact .inr (List.mem_singleton.mpr ha)
      · rw [List.concat_eq_append, ← List.cons_append, ← List.append_assoc] at hps
        exact .inl ⟨earlier, q, rest, (List.append_inj' hps rfl).1, hminute, hnone, ha⟩

theorem exists_first {d : Day} (h : ¬ NoneOn row ps d) :
    ∃ earlier q rest, ps = earlier ++ q :: rest ∧ InMinute row q ∧ q.now.day = d ∧
      NoneOn row earlier d := by
  induction ps using List.reverseRecOn with
  | nil => exact absurd (fun p hp => absurd hp List.not_mem_nil) h
  | append_singleton ps p ih =>
    by_cases hnone : NoneOn row ps d
    · rw [noneOn_concat, not_and] at h
      have hp := h hnone
      rw [Classical.not_imp, not_not] at hp
      exact ⟨ps, p, [], rfl, hp.1, hp.2, hnone⟩
    · obtain ⟨earlier, q, rest, hps, hrest⟩ := ih hnone
      exact ⟨earlier, q, rest ++ [p], by rw [hps]; simp, hrest⟩

theorem attempts_pairwise (hrow : row ∈ configs.rows) (ps : List SquareoffPass) :
    ((run configs ps).attemptsFor row.userId).Pairwise fun a b => a.now.day ≠ b.now.day := by
  induction ps using List.reverseRecOn with
  | nil => exact List.Pairwise.nil
  | append_singleton ps p ih =>
    rw [attempts_concat hrow, List.pairwise_append]
    refine ⟨ih, ?_, fun a ha b hb => ?_⟩
    · split
      · exact List.pairwise_singleton _ _
      · exact List.Pairwise.nil
    · split at hb
      · next hfirst =>
        rw [List.mem_singleton.mp hb]
        obtain ⟨earlier, q, rest, rfl, hminute, -, rfl⟩ := (mem_attempts hrow ps a).mp ha
        exact hfirst.2 q (by simp) hminute
      · cases hb

end Run

/-- Every user is squared off daily exactly when the run is in time for every user. -/
theorem squaredDaily_iff (configs : SquareoffConfigs) (ps : List SquareoffPass) :
    SquaredDaily configs ps ↔ ∀ row ∈ configs.rows, InTime row ps := by
  constructor
  · intro h row hrow
    refine ⟨fun d hd hspan => ?_, fun before p after hps hreads hd htime => ?_⟩
    · obtain ⟨a, ha, hday⟩ := h.reached row hrow d hd hspan
      obtain ⟨earlier, q, rest, rfl, hminute, -, rfl⟩ := (mem_attempts hrow ps a).mp ha
      exact ⟨q, by simp, hminute, hday⟩
    · rcases h.retried row hrow before p after hps hreads hd htime with ⟨a, ha, hday, hrun⟩ | hlength
      · obtain ⟨earlier, q, rest, rfl, hminute, hnone, rfl⟩ := (mem_attempts hrow before a).mp ha
        have hnone' : NoneOn row earlier p.now.day := by
          rw [← hday]
          exact hnone
        exact .inl ⟨earlier, q, rest, rfl, hminute, hday, hnone', hrun⟩
      · rw [attempts_concat hrow] at hlength
        split at hlength
        · next hfirst => exact .inr hfirst
        · simp at hlength
  · intro h
    refine ⟨?_, ?_, ?_, ?_⟩
    · intro row hrow d hd hspan
      obtain ⟨p, hp, hminute, hday⟩ := (h row hrow).met d hd hspan
      obtain ⟨earlier, q, rest, hps, hq, hqday, hnone⟩ :=
        exists_first fun hnone : NoneOn row ps d => hnone p hp hminute hday
      refine ⟨attemptIn row q, (mem_attempts hrow ps _).mpr
        ⟨earlier, q, rest, hps, hq, ?_, rfl⟩, hqday⟩
      rwa [hqday]
    · intro row hrow before p after hps hreads hd htime
      rcases (h row hrow).kept before p after hps hreads hd htime with
        ⟨earlier, q, rest, hbefore, hq, hqday, hnone, hrun⟩ | hfirst
      · refine .inl ⟨attemptIn row q, (mem_attempts hrow before _).mpr
          ⟨earlier, q, rest, hbefore, hq, ?_, rfl⟩, hqday, hrun⟩
        rwa [hqday]
      · rw [attempts_concat hrow, if_pos hfirst]
        exact .inr (by simp)
    · intro row hrow
      exact (attempts_pairwise hrow ps).imp fun hne heq => absurd heq hne
    · intro row hrow a ha
      obtain ⟨earlier, q, rest, -, hminute, -, rfl⟩ := (mem_attempts hrow ps a).mp ha
      refine ⟨hminute.2.1, ?_⟩
      rw [AtOrAfter, hminute.2.2]
      exact lt_irrefl _

section Example

def oneUser : SquareoffRow := ⟨"u1", some "15:15", .list [.int 0, .int 1, .int 2, .int 3, .int 4]⟩

def oneUserConfigs : SquareoffConfigs := ⟨[oneUser], by decide⟩

def mondayPass (minutes : ℕ) : SquareoffPass where
  now := ⟨730427 * 1440 + minutes⟩
  runs _ := { positions := .error "session expired" }

/-- A pass at 15:14 that is followed by one at 15:17 leaves the user out, and a run that raises in
the first pass of the minute is not made again in the second. -/
theorem oneUser_not_squaredOff :
    ¬ SquaredDaily oneUserConfigs [mondayPass 914, mondayPass 917, mondayPass 1440] ∧
      ¬ SquaredDaily oneUserConfigs [mondayPass 915, mondayPass 915] := by
  refine ⟨fun h => ?_, fun h => ?_⟩
  · have hspan : Spans [mondayPass 914, mondayPass 917, mondayPass 1440] ⟨730427⟩ :=
      ⟨⟨_, List.mem_cons_self, by decide⟩, mondayPass 1440, by simp, by decide⟩
    obtain ⟨a, ha, -⟩ := h.reached oneUser (List.mem_singleton_self _) ⟨730427⟩ (by decide) hspan
    have hnone : (run oneUserConfigs [mondayPass 914, mondayPass 917, mondayPass 1440]).attemptsFor
        oneUser.userId = [] := List.length_eq_zero_iff.mp (by decide)
    rw [hnone] at ha
    cases ha
  · rcases h.retried oneUser (List.mem_singleton_self _) [mondayPass 915] (mondayPass 915) [] rfl rfl
      (by decide) (by rw [AtOrAfter]; decide) with ⟨a, ha, -, hrun⟩ | hlength
    · obtain ⟨earlier, q, rest, hps, -, -, rfl⟩ :=
        (mem_attempts (List.mem_singleton_self oneUser) [mondayPass 915] a).mp ha
      have hq : q ∈ [mondayPass 915] := by rw [hps]; simp
      rw [List.mem_singleton.mp hq] at hrun
      exact hrun ⟨rfl, .inr (.inr rfl)⟩
    · revert hlength
      decide

end Example

end Trademetrix.Application
