import Trademetrix.Calendar

/-!
# Five-field schedules

A minute is counted from midnight of the calendar's first day. A schedule gives
the minute, hour, day of the month, month and day of the week by lists of
values, ranges and steps; where both day fields are restricted, a day that
matches one of them is enough.
-/

namespace Trademetrix.Cron

def minutesPerDay : ℕ := 1440

structure Moment where
  index : ℕ
  deriving DecidableEq

namespace Moment

variable (m : Moment)

def day : Day := ⟨m.index / minutesPerDay⟩

def timeOfDay : ℕ := m.index % minutesPerDay

def hour : ℕ := m.timeOfDay / 60

def minute : ℕ := m.timeOfDay % 60

/-- `strftime("%H:%M")`. -/
def clockText : String :=
  let two (n : ℕ) := (if n < 10 then "0" else "") ++ toString n
  two m.hour ++ ":" ++ two m.minute

end Moment

/-- The values `first`, `first + step`, and so on up to `last`. -/
structure Item where
  first : ℕ
  last : ℕ
  step : ℕ
  step_pos : 0 < step

def Item.Has (i : Item) (v : ℕ) : Prop := i.first ≤ v ∧ v ≤ i.last ∧ (v - i.first) % i.step = 0

instance (i : Item) (v : ℕ) : Decidable (i.Has v) := inferInstanceAs (Decidable (_ ∧ _))

structure Field where
  items : List Item
  star : Bool

def Field.Has (f : Field) (v : ℕ) : Prop := ∃ i ∈ f.items, i.Has v

instance (f : Field) (v : ℕ) : Decidable (f.Has v) := inferInstanceAs (Decidable (∃ i ∈ f.items, i.Has v))

structure Schedule where
  minute : Field
  hour : Field
  dayOfMonth : Field
  month : Field
  dayOfWeek : Field

namespace Schedule

variable (s : Schedule) (m : Moment)

def OnWeekday : Prop := s.dayOfWeek.Has m.day.weekday ∨ m.day.weekday = 0 ∧ s.dayOfWeek.Has 7

def OnDay : Prop :=
  if s.dayOfMonth.star ∨ s.dayOfWeek.star then s.dayOfMonth.Has m.day.dayOfMonth ∧ s.OnWeekday m
  else s.dayOfMonth.Has m.day.dayOfMonth ∨ s.OnWeekday m

def Matches : Prop :=
  s.minute.Has m.minute ∧ s.hour.Has m.hour ∧ s.month.Has m.day.month ∧ s.OnDay m

instance : Decidable (s.OnWeekday m) := inferInstanceAs (Decidable (_ ∨ _))

instance : Decidable (s.OnDay m) :=
  inferInstanceAs (Decidable (if s.dayOfMonth.star ∨ s.dayOfWeek.star then _ ∧ _ else _ ∨ _))

instance : Decidable (s.Matches m) := inferInstanceAs (Decidable (_ ∧ _))

end Schedule

def number (cs : List Char) : Option ℕ :=
  if cs ≠ [] ∧ cs.length ≤ 4 ∧ cs.all Char.isDigit then
    some (cs.foldl (fun n c => 10 * n + (c.toNat - '0'.toNat)) 0)
  else none

/-- `*`, `a` or `a-b` with values from `low` to `high`; before a step, `a` runs to the end. -/
def range (low high : ℕ) (stepped : Bool) (cs : List Char) : Option (ℕ × ℕ) :=
  if cs = ['*'] then some (low, high)
  else
    match cs.splitOn '-' with
    | [a] => do
      let first ← number a
      let last := if stepped then high else first
      if low ≤ first ∧ first ≤ high then some (first, last) else none
    | [a, b] => do
      let first ← number a
      let last ← number b
      if low ≤ first ∧ first ≤ last ∧ last ≤ high then some (first, last) else none
    | _ => none

def item (low high : ℕ) (cs : List Char) : Option Item :=
  match cs.splitOn '/' with
  | [r] => (range low high false r).map fun p => ⟨p.1, p.2, 1, Nat.one_pos⟩
  | [r, s] => do
    let p ← range low high true r
    let step ← number s
    if h : 0 < step then some ⟨p.1, p.2, step, h⟩ else none
  | _ => none

def field (low high : ℕ) (cs : List Char) : Option Field :=
  ((cs.splitOn ',').mapM (item low high)).map fun items => ⟨items, cs.head? = some '*'⟩

/-- The schedule that five words describe; `none` where they are malformed. -/
def schedule : List (List Char) → Option Schedule
  | [minute, hour, dayOfMonth, month, dayOfWeek] => do
    return {
      minute := ← field 0 59 minute
      hour := ← field 0 23 hour
      dayOfMonth := ← field 1 31 dayOfMonth
      month := ← field 1 12 month
      dayOfWeek := ← field 0 7 dayOfWeek }
  | _ => none

def Matches (words : List (List Char)) (m : Moment) : Prop := ∃ s ∈ schedule words, s.Matches m

instance (words : List (List Char)) (m : Moment) : Decidable (Matches words m) :=
  inferInstanceAs (Decidable (∃ s ∈ schedule words, s.Matches m))

end Trademetrix.Cron
