import Trademetrix.Risk.LegControls

/-!
# Limits and records of a leg over any interleaving

The counter keeps up with the re-entries of its day, and the flag with the exits, while the
commands on the cache are carried out, exit orders succeed, the calls on one leg do not overlap,
and neither a cancellation nor the expiry of a key takes away what is still needed.
-/

namespace Trademetrix.LegCalls

open Async
open Contract (Stays)
open Oms (Time seconds)

def Desk.reentriesToday (s : Desk) (leg : Leg) : ℕ := s.reentriesOn leg (Desk.day s.clock)

/-- A re-entry is within the limits of the day, no leg is squared off again before it is
re-entered, and a leg is recorded as squared off exactly when its exit order succeeded. -/
def Law (s : Desk) : LegEffect → Prop
  | .enters _ leg _ limit success =>
    success = true → (s.reentriesToday leg : ℤ) < min limit maxReentries
  | .exits _ leg success => success = true → s.out leg = false
  | .marks _ _ success arrives => arrives = true → success = true
  | .audits _ (.timeSquareOff leg _ _ success) => s.isSquaredOff leg = true ↔ success = true
  | _ => True

def Guarantee (n : ℕ) (s : Desk) : LegEffect → Prop
  | .closes m _ => m = n ∧ s.inside.get n = none
  | .exits m leg _ => m = n ∧ s.inside.get n = some (leg, .closing)
  | .marks m leg success _ => m = n ∧ s.inside.get n = some (leg, .exited success)
  | .reopens m _ _ _ => m = n ∧ s.inside.get n = none
  | .enters m leg count limit _ =>
    m = n ∧ s.inside.get n = some (leg, .entering count limit) ∧ count < limit ∧
      count < maxReentries
  | .counts m leg count success _ => m = n ∧ s.inside.get n = some (leg, .entered count success)
  | .audits m (.timeSquareOff leg _ _ success) =>
    m = n ∧ s.inside.get n = some (leg, .marked success)
  | .audits m _ => m = n ∧ s.inside.get n = none
  | .tick _ => False
  | _ => True

def contract : Contract Desk LegEffect ℕ where
  rely n s t := t.inside.get n = s.inside.get n
  guar := Guarantee
  idle n s := s.inside.get n = none

variable {s t : Desk} {e : LegEffect} {n m : ℕ} {leg : Leg} {x : Option (Leg × Phase)}

theorem apply_of_ne (hmn : m ≠ n) (h : Guarantee n s e) :
    (s.apply e).inside.get m = s.inside.get m := by
  cases e with
  | closes k | exits k | marks k | reopens k | enters k =>
    obtain ⟨rfl, -⟩ := h
    simp [Desk.apply, Dict.get_set, hmn]
  | counts k =>
    obtain ⟨rfl, -⟩ := h
    simp [Desk.apply, Dict.get_pop, hmn]
  | audits k entry =>
    have hk : k = n := by
      cases entry <;> exact h.1
    subst hk
    simp [Desk.apply, Dict.get_pop, hmn]
  | clears | unmarks | returns | tick => rfl

section Texts

variable {α : Type}

/-- The text leaves call `n` in the middle of what it was in the middle of. -/
abbrev Keeps (n : ℕ) (x : Option (Leg × Phase)) (p : Call α) : Prop :=
  contract.Stays system n (fun s => s.inside.get n = x) p

/-- The text takes call `n` from the middle of one thing to that of another. -/
abbrev Moves (n : ℕ) (x y : Option (Leg × Phase)) (p : Call α) : Prop :=
  ∀ s : Desk, s.inside.get n = x → contract.Does system n (fun _ t => t.inside.get n = y) p s

theorem Moves.bind {β : Type} {y z : Option (Leg × Phase)} {p : Call α} {f : α → Call β}
    (hp : Moves n x y p) (hf : ∀ a, Moves n y z (f a)) : Moves n x z (p >>= f) :=
  fun s h => Contract.Does.bind (hp s h) fun a t ht => hf a t ht

theorem Moves.set (phase : Phase) (hg : ∀ s : Desk, s.inside.get n = x → Guarantee n s e)
    (hset : ∀ s : Desk, (s.apply e).inside = s.inside.set n (leg, phase)) :
    Moves n x (some (leg, phase)) (Proc.emit e : Call Unit) := by
  refine fun s h => ⟨hg s h, ?_⟩
  change (s.apply e).inside.get n = _
  rw [hset, Dict.get_set, if_pos rfl]

theorem Moves.pop (hg : ∀ s : Desk, s.inside.get n = x → Guarantee n s e)
    (hpop : ∀ s : Desk, (s.apply e).inside = s.inside.pop n) :
    Moves n x none (Proc.emit e : Call Unit) := by
  refine fun s h => ⟨hg s h, ?_⟩
  change (s.apply e).inside.get n = _
  rw [hpop, Dict.get_pop, if_pos rfl]

theorem Keeps.wait (i : Await) : Keeps n x (Proc.wait i : Call (Reply i)) :=
  Stays.wait (fun _ _ hs ht => Eq.trans ht hs) i

theorem Keeps.cacheGet (get : Desk → α) (default : α) : Keeps n x (cacheGet get default) := by
  refine Stays.bind (Keeps.wait .request) fun arrives => ?_
  cases arrives with
  | false => exact Stays.pure _
  | true =>
    refine Stays.bind Stays.look fun s => Stays.bind (Keeps.wait .reply) fun answered => ?_
    cases answered with
    | false => exact Stays.pure _
    | true => exact Stays.pure _

theorem Keeps.executeLegControl (source : String) (order : Engine.NormalizedOrder) :
    Keeps n x (executeLegControl source order) := by
  refine Stays.bind (Keeps.wait (.executeOrder source order)) fun reply => ?_
  cases reply with
  | ok result => exact Stays.pure _
  | error message => exact Stays.pure _

theorem Keeps.cacheDelete (hg : ∀ s, Guarantee n s e)
    (hsame : ∀ s : Desk, (s.apply e).inside = s.inside) : Keeps n x (cacheDelete e) := by
  refine Stays.bind (Keeps.wait .request) fun arrives => ?_
  cases arrives with
  | false => exact Stays.pure _
  | true =>
    have hemit : Keeps n x (Proc.emit e : Call Unit) := Stays.emit fun s h => ⟨hg s, by
      change (s.apply e).inside.get n = x
      rw [hsame, h]⟩
    exact Stays.bind hemit fun _ => Stays.bind (Keeps.wait .reply) fun _ => Stays.pure _

theorem markSquaredOff_moves {success : Bool} : Moves n (some (leg, .exited success))
    (some (leg, .marked success)) (markSquaredOff n leg success) := by
  refine Moves.bind (Keeps.wait .request) fun arrives => ?_
  refine Moves.bind (Moves.set (.marked success) (fun s h => ⟨rfl, h⟩) fun _ => rfl) fun _ => ?_
  exact Stays.bind (Keeps.wait .reply) fun _ => Stays.pure _

theorem setReentryCount_moves {count : ℤ} {success : Bool} :
    Moves n (some (leg, .entered count success)) none (setReentryCount n leg count success) := by
  refine Moves.bind (Keeps.wait .request) fun arrives => ?_
  refine Moves.bind (Moves.pop (fun s h => ⟨rfl, h⟩) fun _ => rfl) fun _ => ?_
  exact Stays.bind (Keeps.wait .reply) fun _ => Stays.pure _

theorem squareOffLeg_keeps (userId strategyId : String) (info : LegInfo) :
    Keeps n none (squareOffLeg n userId strategyId info) := by
  refine Stays.bind (Keeps.cacheGet _ _) fun squaredOff => ?_
  cases squaredOff with
  | true => exact Stays.pure _
  | false =>
    refine Moves.bind (Moves.set .closing (fun s h => ⟨rfl, h⟩) fun _ => rfl) fun _ => ?_
    refine Moves.bind (Keeps.executeLegControl _ _) fun result => ?_
    refine Moves.bind (Moves.set (.exited result.success) (fun s h => ⟨rfl, h⟩) fun _ => rfl)
      fun _ => ?_
    refine Moves.bind markSquaredOff_moves fun _ => ?_
    exact Moves.bind (Moves.pop (fun s h => ⟨rfl, h⟩) fun _ => rfl) fun _ => Stays.pure _

theorem handleSquareOff_keeps (userId strategyId : String) (legs : List LegInfo) :
    Keeps n none (handleSquareOff n userId strategyId legs) := by
  induction legs with
  | nil => exact Stays.pure _
  | cons info legs ih =>
    exact Stays.bind (squareOffLeg_keeps _ _ _) fun _ => Stays.bind ih fun _ => Stays.pure _

theorem reenter_keeps {r : Reentry} {count : ℤ} (hlimit : count < r.maxReentries)
    (hcap : count < maxReentries) : Keeps n none (reenter n r count) := by
  refine Moves.bind (Moves.set (.entering count r.maxReentries) (fun s h => ⟨rfl, h⟩)
    fun _ => rfl) fun _ => ?_
  refine Moves.bind (Keeps.executeLegControl _ _) fun result => ?_
  refine Moves.bind (Moves.set (.entered count result.success)
    (fun s h => ⟨rfl, h, hlimit, hcap⟩) fun _ => rfl) fun _ => ?_
  refine Moves.bind setReentryCount_moves fun _ => ?_
  exact Moves.bind (Moves.pop (fun s h => ⟨rfl, h⟩) fun _ => rfl) fun _ => Stays.pure _

theorem handleReentry_keeps (r : Reentry) : Keeps n none (handleReentry n r) := by
  refine Stays.bind (Keeps.wait (.capabilities r.userId)) fun allowed => ?_
  cases allowed with
  | none => exact Stays.pure _
  | some allowed =>
    cases allowed with
    | false => exact Stays.pure _
    | true =>
      refine Stays.bind (Keeps.cacheGet _ _) fun count => ?_
      split_ifs with hlimit hcap
      · exact Stays.pure _
      · exact Stays.pure _
      · cases r.shouldReenter with
        | none => exact Stays.pure _
        | some wanted =>
          cases wanted with
          | false => exact Stays.pure _
          | true => exact reenter_keeps (not_le.mp hlimit) (not_le.mp hcap)

theorem deleteKeys_keeps (userId strategyId : String) (legOrders : List ℤ) :
    Keeps n x (deleteKeys userId strategyId legOrders) := by
  induction legOrders with
  | nil => exact Stays.pure _
  | cons legOrder rest ih =>
    refine Stays.bind (Keeps.cacheDelete (fun _ => trivial) fun _ => rfl) fun _ => ?_
    exact Stays.bind (Keeps.cacheDelete (fun _ => trivial) fun _ => rfl) fun _ => ih

theorem cancelPendingReentries_keeps (userId strategyId reason : String) :
    Keeps n none (cancelPendingReentries n userId strategyId reason) := by
  refine Moves.bind (deleteKeys_keeps userId strategyId _) fun _ => ?_
  exact Moves.pop (fun s h => ⟨rfl, h⟩) fun _ => rfl

theorem Keeps.returns {p : Call α} (hp : Keeps n x p) (answer : α → Answer) :
    Keeps n x (do let a ← p; Proc.emit (.returns n (answer a))) :=
  Stays.bind hp fun _ => Stays.emit fun _ h => ⟨trivial, h⟩

theorem run_keeps (c : LegCall) : Keeps n none (c.run n) := by
  cases c with
  | squareOff userId strategyId legs => exact (handleSquareOff_keeps _ _ _).returns _
  | reentry r => exact (handleReentry_keeps r).returns _
  | cancel userId strategyId reason => exact (cancelPendingReentries_keeps _ _ _).returns _
  | deactivate strategyId reason =>
    refine Keeps.returns ?_ _
    refine Stays.bind (Keeps.wait (.strategyRow strategyId)) fun row => ?_
    cases row with
    | none => exact Stays.pure _
    | some userId => exact cancelPendingReentries_keeps _ _ _

end Texts

theorem contract_sound : contract.Sound system where
  trans _ _ _ _ h h' := h'.trans h
  refl _ _ := rfl
  idle _ _ _ h hidle := h.trans hidle
  others a b s e hab h := by
    refine apply_of_ne (fun heq => ?_) h
    simpa [system] using hab heq
  env a s e he := by
    cases e <;> first | rfl | cases he
  code c s hidle := run_keeps c.2 s hidle

def Free (s : Desk) (leg : Leg) : Prop := ∀ p ∈ s.inside, p.2.1 ≠ leg

/-- Commands on the cache are carried out, exit orders succeed, the calls on one leg do not
overlap, a cancellation finds nothing that is still needed, and a leg that is out is looked at
before its flag expires. -/
def Careful (s : Desk) : LegEffect → Prop
  | .closes _ leg =>
    Free s leg ∧ s.isSquaredOff leg = false ∧ (s.out leg = true → ∀ t ∈ s.flags leg, s.clock < t)
  | .exits _ _ success => success = true
  | .marks _ _ _ arrives => arrives = true
  | .audits _ (.timeSquareOff leg _ _ _) => ∀ t ∈ s.flags leg, s.clock < t
  | .reopens _ leg count _ => Free s leg ∧ s.countAt leg s.clock ≤ count
  | .counts _ _ _ success arrives => success = true → arrives = true
  | .clears leg => s.reentriesToday leg = 0
  | .unmarks leg => s.out leg = false
  | _ => True

def Phase.Fits (s : Desk) (leg : Leg) : Phase → Prop
  | .closing => s.out leg = false
  | .exited success | .marked success => success = true ∧ s.out leg = true
  | .entering count _ => 0 ≤ count ∧ (s.reentriesToday leg : ℤ) ≤ count
  | .entered count success =>
    0 ≤ count ∧ (s.reentriesToday leg : ℤ) ≤ count + if success then 1 else 0

def Counted (s : Desk) (leg : Leg) : Prop :=
  ∀ t, s.clock ≤ t → Desk.day t = Desk.day s.clock → (s.reentriesToday leg : ℤ) ≤ s.countAt leg t

structure Kept (s : Desk) : Prop where
  one : ∀ n m leg x y, s.inside.get n = some (leg, x) → s.inside.get m = some (leg, y) → n = m
  past : ∀ p ∈ s.reentries, p.2 ≤ s.clock
  nonneg : ∀ leg, ∀ x ∈ s.counts leg, 0 ≤ x.1
  fits : ∀ n leg phase, s.inside.get n = some (leg, phase) → phase.Fits s leg
  counted : ∀ leg, (∀ n count, s.inside.get n ≠ some (leg, .entered count true)) → Counted s leg
  flagged : ∀ leg, s.out leg = true → (∀ n success, s.inside.get n ≠ some (leg, .exited success)) →
    s.flags leg ≠ none

structure Desk.Fresh (s : Desk) : Prop where
  counts : ∀ leg, s.counts leg = none
  inside : s.inside = []
  reentries : s.reentries = []
  out : ∀ leg, s.out leg = false

theorem Desk.Fresh.kept (h : s.Fresh) : Kept s where
  one n m leg x y hn := by simp [h.inside, Dict.get] at hn
  past p hp := by simp [h.reentries] at hp
  nonneg leg x hx := by simp [h.counts] at hx
  fits n leg phase hn := by simp [h.inside, Dict.get] at hn
  counted leg _ t _ _ := by
    simp [Desk.reentriesToday, Desk.reentriesOn, h.reentries, Desk.countAt, h.counts]
  flagged leg hout := by simp [h.out] at hout

structure SameLeg (s t : Desk) (leg : Leg) : Prop where
  counts : t.counts leg = s.counts leg
  flags : t.flags leg = s.flags leg
  out : t.out leg = s.out leg
  reentries : ∀ d, t.reentriesOn leg d = s.reentriesOn leg d

section Frame

variable {phase : Phase} (hclock : t.clock = s.clock) (hsame : SameLeg s t leg)
include hclock hsame

theorem SameLeg.today : t.reentriesToday leg = s.reentriesToday leg := by
  unfold Desk.reentriesToday
  rw [hclock, hsame.reentries]

theorem SameLeg.fits (h : phase.Fits s leg) : phase.Fits t leg := by
  have htoday := hsame.today hclock
  cases phase <;> simpa only [Phase.Fits, htoday, hsame.out] using h

theorem SameLeg.counted (h : Counted s leg) : Counted t leg := by
  intro u hu hday
  rw [hclock] at hu hday
  rw [hsame.today hclock, Desk.countAt, hsame.counts]
  exact h u hu hday

end Frame

theorem Kept.move (hk : Kept s) {y : Option Phase}
    (hget : ∀ m, t.inside.get m = if m = n then y.map (Prod.mk leg) else s.inside.get m)
    (hleg : ∀ m p, s.inside.get m = some p → (p.1 = leg ↔ m = n))
    (hclock : t.clock = s.clock) (hother : ∀ l, l ≠ leg → SameLeg s t l)
    (hpast : ∀ p ∈ t.reentries, p.2 ≤ t.clock) (hnonneg : ∀ x ∈ t.counts leg, 0 ≤ x.1)
    (hfits : ∀ phase ∈ y, phase.Fits t leg)
    (hcounted : (∀ count, y ≠ some (.entered count true)) → Counted t leg)
    (hflagged : t.out leg = true → (∀ success, y ≠ some (.exited success)) → t.flags leg ≠ none) :
    Kept t := by
  have hself : t.inside.get n = y.map (Prod.mk leg) := by rw [hget, if_pos rfl]
  have hrest (m : ℕ) (hm : m ≠ n) : t.inside.get m = s.inside.get m := by rw [hget, if_neg hm]
  -- who is on which leg afterwards
  have hleg' (m : ℕ) (p : Leg × Phase) (hp : t.inside.get m = some p) : p.1 = leg ↔ m = n := by
    by_cases hm : m = n
    · subst hm
      rw [hself] at hp
      obtain ⟨x, -, rfl⟩ := Option.map_eq_some_iff.mp hp
      exact iff_of_true rfl rfl
    · rw [hrest m hm] at hp
      exact hleg m p hp
  refine ⟨fun m k l x z hm hk' => ?_, hpast, fun l x hx => ?_, fun m l phase hm => ?_,
    fun l hl => ?_, fun l hout hl => ?_⟩
  · by_cases hl : l = leg
    · rw [(hleg' m _ hm).mp hl, (hleg' k _ hk').mp hl]
    · have hmn : m ≠ n := fun h => hl ((hleg' m _ hm).mpr h)
      have hkn : k ≠ n := fun h => hl ((hleg' k _ hk').mpr h)
      rw [hrest m hmn] at hm
      rw [hrest k hkn] at hk'
      exact hk.one m k l x z hm hk'
  · by_cases hl : l = leg
    · subst hl
      exact hnonneg x hx
    · rw [(hother l hl).counts] at hx
      exact hk.nonneg l x hx
  · by_cases hl : l = leg
    · subst hl
      rw [(hleg' m _ hm).mp rfl, hself] at hm
      obtain ⟨x, hx, heq⟩ := Option.map_eq_some_iff.mp hm
      cases heq
      exact hfits _ hx
    · have hmn : m ≠ n := fun h => hl ((hleg' m _ hm).mpr h)
      rw [hrest m hmn] at hm
      exact (hother l hl).fits hclock (hk.fits m l phase hm)
  · by_cases hleq : l = leg
    · subst hleq
      refine hcounted fun count hy => hl n count ?_
      rw [hself, hy]
      rfl
    · refine (hother l hleq).counted hclock (hk.counted l fun m count hm => ?_)
      have hmn : m ≠ n := fun h => hleq ((hleg m _ hm).mpr h)
      exact hl m count ((hrest m hmn).trans hm)
  · by_cases hleq : l = leg
    · subst hleq
      refine hflagged hout fun success hy => hl n success ?_
      rw [hself, hy]
      rfl
    · rw [(hother l hleq).flags]
      rw [(hother l hleq).out] at hout
      refine hk.flagged l hout fun m success hm => ?_
      have hmn : m ≠ n := fun h => hleq ((hleg m _ hm).mpr h)
      exact hl m success ((hrest m hmn).trans hm)

theorem Free.leg_iff (hfree : Free s leg) (hn : s.inside.get n = none) (m : ℕ)
    (p : Leg × Phase) (hp : s.inside.get m = some p) : p.1 = leg ↔ m = n := by
  refine iff_of_false (hfree _ (Dict.mem_of_get hp)) fun h => ?_
  rw [h, hn] at hp
  cases hp

theorem Free.not_inside (hfree : Free s leg) (phase : Phase) :
    s.inside.get m ≠ some (leg, phase) :=
  fun hm => hfree _ (Dict.mem_of_get hm) rfl

section Steps

variable {phase : Phase} (hk : Kept s)
include hk

theorem Kept.leg_iff (hn : s.inside.get n = some (leg, phase)) (m : ℕ) (p : Leg × Phase)
    (hp : s.inside.get m = some p) : p.1 = leg ↔ m = n := by
  constructor
  · rintro rfl
    exact hk.one m n _ _ _ hp hn
  · rintro rfl
    rw [hn] at hp
    cases hp
    rfl

theorem Kept.phase_eq (hn : s.inside.get n = some (leg, phase)) {y : Phase}
    (hm : s.inside.get m = some (leg, y)) : y = phase := by
  have hmn : m = n := hk.one m n _ _ _ hm hn
  rw [hmn, hn] at hm
  cases hm
  rfl

theorem kept_closes (hg : Guarantee n s (.closes n leg)) (hc : Careful s (.closes n leg)) :
    Kept (s.apply (.closes n leg)) := by
  obtain ⟨hfree, hflag, hlasts⟩ := hc
  have hin : s.out leg = false := by
    by_contra hout
    rw [Bool.not_eq_false] at hout
    obtain ⟨t, ht⟩ := Option.ne_none_iff_exists'.mp
      (hk.flagged leg hout fun _ _ => hfree.not_inside _)
    have hlive : s.isSquaredOff leg = true := by
      simp only [Desk.isSquaredOff, ht, Option.any_some, decide_eq_true_eq]
      exact hlasts hout t ht
    rw [hflag] at hlive
    cases hlive
  refine hk.move (y := some .closing) (fun m => Dict.get_set _ _ _ _) (hfree.leg_iff hg.2) rfl
    (fun l _ => ⟨rfl, rfl, rfl, fun _ => rfl⟩) hk.past (hk.nonneg leg) ?_ ?_ ?_
  · rintro phase ⟨⟩
    exact hin
  · exact fun _ => hk.counted leg fun _ _ => hfree.not_inside _
  · exact fun hout _ => hk.flagged leg hout fun _ _ => hfree.not_inside _

theorem kept_exits (hg : Guarantee n s (.exits n leg true)) :
    s.out leg = false ∧ Kept (s.apply (.exits n leg true)) := by
  have hin : s.out leg = false := hk.fits n leg .closing hg.2
  refine ⟨hin, hk.move (y := some (.exited true))
    (fun m => Dict.get_set _ _ _ _) (hk.leg_iff hg.2) rfl (fun l hl => ⟨rfl, rfl, ?_, fun _ => rfl⟩)
    hk.past (hk.nonneg leg) ?_ ?_ ?_⟩
  · exact Function.update_of_ne hl _ _
  · rintro phase ⟨⟩
    exact ⟨rfl, Function.update_self _ _ _⟩
  · refine fun _ => hk.counted leg fun m count hm => ?_
    cases hk.phase_eq hg.2 hm
  · exact fun _ hne => absurd rfl (hne true)

theorem kept_marks {success : Bool} (hg : Guarantee n s (.marks n leg success true)) :
    success = true ∧ Kept (s.apply (.marks n leg success true)) := by
  obtain ⟨hsuccess, hout⟩ : success = true ∧ s.out leg = true := hk.fits n leg _ hg.2
  refine ⟨hsuccess, hk.move (y := some (.marked success))
    (fun m => Dict.get_set _ _ _ _) (hk.leg_iff hg.2) rfl (fun l hl => ⟨rfl, ?_, rfl, fun _ => rfl⟩)
    hk.past (hk.nonneg leg) ?_ ?_ ?_⟩
  · exact Function.update_of_ne hl _ _
  · rintro phase ⟨⟩
    exact ⟨hsuccess, hout⟩
  · refine fun _ => hk.counted leg fun m count hm => ?_
    cases hk.phase_eq hg.2 hm
  · intro _ _ hnone
    simp [Desk.apply] at hnone

theorem kept_noted {success : Bool} {symbol side : Option String}
    (hg : Guarantee n s (.audits n (.timeSquareOff leg symbol side success)))
    (hc : Careful s (.audits n (.timeSquareOff leg symbol side success))) :
    (s.isSquaredOff leg = true ↔ success = true) ∧
      Kept (s.apply (.audits n (.timeSquareOff leg symbol side success))) := by
  obtain ⟨hsuccess, hout⟩ : success = true ∧ s.out leg = true := hk.fits n leg _ hg.2
  have hflag : s.flags leg ≠ none := by
    refine hk.flagged leg hout fun m success hm => ?_
    cases hk.phase_eq hg.2 hm
  have hlive : s.isSquaredOff leg = true := by
    obtain ⟨t, ht⟩ := Option.ne_none_iff_exists'.mp hflag
    simp only [Desk.isSquaredOff, ht, Option.any_some, decide_eq_true_eq]
    exact hc t ht
  refine ⟨iff_of_true hlive hsuccess, hk.move (y := none)
    (fun m => Dict.get_pop _ _ _) (hk.leg_iff hg.2) rfl (fun l _ => ⟨rfl, rfl, rfl, fun _ => rfl⟩)
    hk.past (hk.nonneg leg) ?_ ?_ ?_⟩
  · rintro phase ⟨⟩
  · refine fun _ => hk.counted leg fun m count hm => ?_
    cases hk.phase_eq hg.2 hm
  · exact fun _ _ => hflag

theorem countAt_nonneg (t : Time) : 0 ≤ s.countAt leg t := by
  unfold Desk.countAt
  cases hx : (s.counts leg).filter fun x => t < x.2 with
  | none => exact le_refl _
  | some x => exact hk.nonneg leg x (Option.mem_filter_iff.mp hx).1

theorem kept_reopens {count limit : ℤ} (hg : Guarantee n s (.reopens n leg count limit))
    (hc : Careful s (.reopens n leg count limit)) :
    Kept (s.apply (.reopens n leg count limit)) := by
  obtain ⟨hfree, hread⟩ := hc
  have hcounted : Counted s leg := hk.counted leg fun _ _ => hfree.not_inside _
  refine hk.move (y := some (.entering count limit)) (fun m => Dict.get_set _ _ _ _)
    (hfree.leg_iff hg.2) rfl (fun l _ => ⟨rfl, rfl, rfl, fun _ => rfl⟩) hk.past (hk.nonneg leg)
    ?_ (fun _ => hcounted) ?_
  · rintro phase ⟨⟩
    exact ⟨le_trans (countAt_nonneg hk _) hread, le_trans (hcounted _ (le_refl _) rfl) hread⟩
  · exact fun hout _ => hk.flagged leg hout fun _ _ => hfree.not_inside _

omit hk in
theorem reentriesToday_enters {count limit : ℤ} {success : Bool} :
    (s.apply (.enters n leg count limit success)).reentriesToday leg =
      s.reentriesToday leg + if success then 1 else 0 := by
  cases success with
  | false => rfl
  | true => simp [Desk.reentriesToday, Desk.reentriesOn, Desk.apply, List.countP_append]

theorem kept_enters {count limit : ℤ} {success : Bool}
    (hg : Guarantee n s (.enters n leg count limit success)) :
    (s.reentriesToday leg : ℤ) < min limit maxReentries ∧
      Kept (s.apply (.enters n leg count limit success)) := by
  obtain ⟨-, hn, hlimit, hcap⟩ := hg
  obtain ⟨hnonneg, htoday⟩ : 0 ≤ count ∧ (s.reentriesToday leg : ℤ) ≤ count :=
    hk.fits n leg _ hn
  refine ⟨lt_min (lt_of_le_of_lt htoday hlimit) (lt_of_le_of_lt htoday hcap), ?_⟩
  refine hk.move (y := some (.entered count success))
    (fun m => Dict.get_set _ _ _ _) (hk.leg_iff hn) rfl (fun l hl => ⟨rfl, rfl, ?_, fun d => ?_⟩) ?_
    (hk.nonneg leg) ?_ ?_ ?_
  · cases success with
    | false => rfl
    | true => exact Function.update_of_ne hl _ _
  · cases success with
    | false => rfl
    | true => simp [Desk.apply, Desk.reentriesOn, List.countP_append, Ne.symm hl]
  · cases success with
    | false => exact hk.past
    | true =>
      intro p hp
      rcases List.mem_append.mp hp with hold | hnew
      · exact hk.past p hold
      · exact le_of_eq (congrArg Prod.snd (List.mem_singleton.mp hnew))
  · rintro phase ⟨⟩
    refine ⟨hnonneg, ?_⟩
    rw [reentriesToday_enters]
    cases success with
    | false => simpa using htoday
    | true => simpa using htoday
  · intro hne
    cases success with
    | true => exact absurd rfl (hne count)
    | false =>
      refine hk.counted leg fun m c hm => ?_
      cases hk.phase_eq hn hm
  · intro hout _
    cases success with
    | true =>
      have hfalse : Function.update s.out leg false leg = true := hout
      rw [Function.update_self] at hfalse
      cases hfalse
    | false =>
      refine hk.flagged leg hout fun m c hm => ?_
      cases hk.phase_eq hn hm

omit hk in
theorem lt_of_day_eq {t u : ℕ} (h : Desk.day t = Desk.day u) : t < u + seconds 86400 := by
  unfold Desk.day seconds at h
  unfold seconds
  omega

theorem kept_counts {count : ℤ} {success arrives : Bool}
    (hg : Guarantee n s (.counts n leg count success arrives))
    (hc : success = true → arrives = true) :
    Kept (s.apply (.counts n leg count success arrives)) := by
  obtain ⟨-, hn⟩ := hg
  obtain ⟨hnonneg, htoday⟩ : 0 ≤ count ∧
      (s.reentriesToday leg : ℤ) ≤ count + if success then 1 else 0 := hk.fits n leg _ hn
  refine hk.move (y := none) (fun m => Dict.get_pop _ _ _) (hk.leg_iff hn) rfl
    (fun l hl => ⟨?_, rfl, rfl, fun _ => rfl⟩) hk.past ?_ ?_ ?_ ?_
  · cases arrives with
    | false => rfl
    | true => exact Function.update_of_ne hl _ _
  · cases arrives with
    | false => exact hk.nonneg leg
    | true =>
      intro x hx
      have hwritten : Function.update s.counts leg (some (count + 1, s.clock + seconds 86400)) leg =
          some x := hx
      rw [Function.update_self] at hwritten
      cases hwritten
      omega
  · rintro phase ⟨⟩
  · intro _
    cases arrives with
    | true =>
      intro t _ hday
      have hlasts : t < s.clock + seconds 86400 := lt_of_day_eq hday
      have hlive : (s.apply (.counts n leg count success true)).countAt leg t = count + 1 := by
        simp [Desk.apply, Desk.countAt, Option.filter, hlasts]
      rw [hlive]
      refine le_trans htoday ?_
      split_ifs
      · exact le_refl _
      · omega
    | false =>
      have hfailed : success = false := by
        by_contra hne
        exact absurd (hc (by simpa using hne)) (by decide)
      refine hk.counted leg fun m c hm => ?_
      have hphase := hk.phase_eq hn hm
      rw [hfailed] at hphase
      cases hphase
  · intro hout _
    refine hk.flagged leg hout fun m c hm => ?_
    cases hk.phase_eq hn hm

theorem kept_clears (hc : s.reentriesToday leg = 0) : Kept (s.apply (.clears leg)) where
  one := hk.one
  past := hk.past
  nonneg l x hx := by
    by_cases hl : l = leg
    · simp [Desk.apply, hl] at hx
    · have hx' : x ∈ Function.update s.counts leg none l := hx
      rw [Function.update_of_ne hl] at hx'
      exact hk.nonneg l x hx'
  fits n l phase hn := by
    have hfits := hk.fits n l phase hn
    cases phase <;> exact hfits
  counted l hl t ht hday := by
    by_cases heq : l = leg
    · subst heq
      have hzero : (s.apply (.clears l)).countAt l t = 0 := by simp [Desk.apply, Desk.countAt]
      have htoday : (s.apply (.clears l)).reentriesToday l = 0 := hc
      rw [hzero, htoday]
      exact le_refl 0
    · have hsame : (s.apply (.clears leg)).countAt l t = s.countAt l t := by
        simp [Desk.apply, Desk.countAt, heq]
      rw [hsame]
      exact hk.counted l hl t ht hday
  flagged := hk.flagged

theorem kept_unmarks (hc : s.out leg = false) : Kept (s.apply (.unmarks leg)) where
  one := hk.one
  past := hk.past
  nonneg := hk.nonneg
  fits n l phase hn := by
    have hfits := hk.fits n l phase hn
    cases phase <;> exact hfits
  counted l hl := hk.counted l hl
  flagged l hout hl := by
    have hne : l ≠ leg := by
      rintro rfl
      have hout' : s.out l = true := hout
      rw [hc] at hout'
      cases hout'
    have hsame : (s.apply (.unmarks leg)).flags l = s.flags l := Function.update_of_ne hne _ _
    rw [hsame]
    exact hk.flagged l hout hl

theorem reentriesToday_tick {now : Time} (hle : s.clock ≤ now) (leg : Leg) :
    (s.apply (.tick now)).reentriesToday leg = s.reentriesToday leg ∧
        Desk.day now = Desk.day s.clock ∨
      (s.apply (.tick now)).reentriesToday leg = 0 := by
  by_cases hday : Desk.day now = Desk.day s.clock
  · left
    unfold Desk.reentriesToday
    exact ⟨congrArg (s.reentriesOn leg) hday, hday⟩
  · right
    refine List.countP_eq_zero.mpr fun p hp hin => ?_
    have hpast : Desk.day p.2 ≤ Desk.day s.clock :=
      Nat.div_le_div_right (Nat.add_le_add_right (hk.past p hp) _)
    have hnow : Desk.day s.clock ≤ Desk.day now :=
      Nat.div_le_div_right (Nat.add_le_add_right hle _)
    have hsame : Desk.day p.2 = Desk.day now := (of_decide_eq_true hin).2
    omega

theorem kept_tick {now : Time} (hle : s.clock ≤ now) : Kept (s.apply (.tick now)) where
  one := hk.one
  past p hp := le_trans (hk.past p hp) hle
  nonneg := hk.nonneg
  fits n l phase hn := by
    have hfits := hk.fits n l phase hn
    have htoday : (s.apply (.tick now)).reentriesToday l ≤ s.reentriesToday l := by
      rcases reentriesToday_tick hk hle l with ⟨h, -⟩ | h
      · exact h.le
      · omega
    cases phase with
    | closing | exited | marked => exact hfits
    | entering count limit => exact ⟨hfits.1, le_trans (by exact_mod_cast htoday) hfits.2⟩
    | entered count success => exact ⟨hfits.1, le_trans (by exact_mod_cast htoday) hfits.2⟩
  counted l hl t ht hday := by
    rcases reentriesToday_tick hk hle l with ⟨h, hsame⟩ | h
    · rw [h]
      exact hk.counted l hl t (le_trans hle ht) (hday.trans hsame)
    · rw [h]
      exact countAt_nonneg hk t
  flagged := hk.flagged

end Steps

theorem apply_audits {entry : Audit} (hn : s.inside.get n = none) :
    s.apply (.audits n entry) = s := by
  have habsent : ∀ p ∈ s.inside, p.1 ≠ n := fun p hp heq =>
    Dict.get_eq_none.mp hn (List.mem_map.mpr ⟨p, hp, heq⟩)
  simp only [Desk.apply, Dict.pop_of_forall_ne habsent]

theorem kept_step (hk : Kept s) (h : contract.Allowed system s e) (hc : Careful s e) :
    Law s e ∧ Kept (s.apply e) := by
  rcases h with ⟨k, hg⟩ | henv
  · cases e with
    | closes n leg =>
      obtain rfl : n = k := hg.1
      exact ⟨trivial, kept_closes hk hg hc⟩
    | exits n leg success =>
      obtain rfl : n = k := hg.1
      obtain rfl : success = true := hc
      exact ⟨fun _ => (kept_exits hk hg).1, (kept_exits hk hg).2⟩
    | marks n leg success arrives =>
      obtain rfl : n = k := hg.1
      obtain rfl : arrives = true := hc
      exact ⟨fun _ => (kept_marks hk hg).1, (kept_marks hk hg).2⟩
    | reopens n leg count limit =>
      obtain rfl : n = k := hg.1
      exact ⟨trivial, kept_reopens hk hg hc⟩
    | enters n leg count limit success =>
      obtain rfl : n = k := hg.1
      obtain ⟨hwithin, hnext⟩ := kept_enters hk hg
      exact ⟨fun _ => hwithin, hnext⟩
    | counts n leg count success arrives =>
      obtain rfl : n = k := hg.1
      exact ⟨trivial, kept_counts hk hg hc⟩
    | clears leg => exact ⟨trivial, kept_clears hk hc⟩
    | unmarks leg => exact ⟨trivial, kept_unmarks hk hc⟩
    | audits n entry =>
      cases entry with
      | timeSquareOff leg symbol side success =>
        obtain rfl : n = k := hg.1
        exact kept_noted hk hg hc
      | reEntry | reentriesCancelled =>
        obtain ⟨rfl, hn⟩ := hg
        exact ⟨trivial, (apply_audits hn).symm ▸ hk⟩
    | returns n answer => exact ⟨trivial, hk⟩
    | tick now => exact hg.elim
  · cases e with
    | tick now => exact ⟨trivial, kept_tick hk (of_decide_eq_true henv)⟩
    | _ => cases henv

/-- In every run whose steps are careful the legs keep their limits and their records. -/
theorem leg_calls_lawful (h₀ : s.Fresh) {es : List LegEffect}
    {P : Pool Desk LegEffect Reply ℕ} (hrun : system.Run ⟨s, []⟩ es P)
    (hcareful : Legal Desk.apply Careful s es) : Legal Desk.apply Law s es := by
  have hstart : contract.Holds system ⟨s, []⟩ := by
    refine ⟨by simp, by simp, .nil, fun n _ => ?_⟩
    change s.inside.get n = none
    rw [h₀.inside]
    rfl
  have hallowed : Legal Desk.apply (contract.Allowed system) s es :=
    (Contract.Run.legal contract_sound hstart hrun).1
  have hsteps : Legal Desk.apply
      (fun s e => Kept s ∧ contract.Allowed system s e ∧ Careful s e) s es :=
    Legal.with_invariant (I := Kept) (fun _ _ hk he => (kept_step hk he.1 he.2).2)
      (hallowed.and hcareful) h₀.kept
  exact hsteps.mono fun s e he => (kept_step he.1 he.2.1 he.2.2).1

instance (s : Desk) (leg : Leg) : Decidable (Free s leg) :=
  inferInstanceAs (Decidable (∀ p ∈ s.inside, _))

instance (s : Desk) : ∀ e, Decidable (Careful s e)
  | .closes _ leg => inferInstanceAs (Decidable (Free s leg ∧ _ = _ ∧ (_ → ∀ t ∈ s.flags leg, _)))
  | .exits _ _ _ | .marks _ _ _ _ => inferInstanceAs (Decidable (_ = true))
  | .audits _ (.timeSquareOff leg _ _ _) => inferInstanceAs (Decidable (∀ t ∈ s.flags leg, _))
  | .reopens _ leg _ _ => inferInstanceAs (Decidable (Free s leg ∧ _ ≤ _))
  | .counts _ _ _ _ _ => inferInstanceAs (Decidable (_ = true → _ = true))
  | .clears leg => inferInstanceAs (Decidable (s.reentriesToday leg = 0))
  | .unmarks leg => inferInstanceAs (Decidable (s.out leg = false))
  | .enters _ _ _ _ _ | .audits _ (.reEntry _ _ _ _ _ _) | .audits _ (.reentriesCancelled _ _ _)
  | .returns _ _ | .tick _ => isTrue trivial

instance (s : Desk) : ∀ e, Decidable (Law s e)
  | .enters _ leg _ _ _ => inferInstanceAs (Decidable (_ = true → (s.reentriesToday leg : ℤ) < _))
  | .exits _ leg _ => inferInstanceAs (Decidable (_ = true → s.out leg = false))
  | .marks _ _ _ _ => inferInstanceAs (Decidable (_ = true → _ = true))
  | .audits _ (.timeSquareOff leg _ _ _) =>
    inferInstanceAs (Decidable (s.isSquaredOff leg = true ↔ _ = true))
  | .closes _ _ | .reopens _ _ _ _ | .counts _ _ _ _ _ | .clears _ | .unmarks _
  | .audits _ (.reEntry _ _ _ _ _ _) | .audits _ (.reentriesCancelled _ _ _)
  | .returns _ _ | .tick _ => isTrue trivial

def answers (success : Bool) : (i : Await) → Reply i
  | .capabilities _ => some true
  | .request => true
  | .reply => true
  | .executeOrder _ _ => .ok ⟨success, if success then "" else "Kill switch active"⟩
  | .strategyRow _ => some "u1"

/-- A call alone from its first step to its end, `k` awaits later. -/
def callThrough (c : LegCall) (success : Bool) (k : ℕ) :
    List (Action LegEffect Reply (ℕ × LegCall)) :=
  .start (0, c) :: List.replicate k (.resume 0 (answers success))

def firstLeg : Leg := ⟨"u1", "s1", 1⟩

def squareOffFirst : LegCall :=
  .squareOff "u1" "s1" [⟨1, some "NIFTY24000CE", some "buy", some 65⟩]

def reenterFirst : LegCall :=
  .reentry
    { userId := "u1", strategyId := "s1", legOrder := 1, reentryMode := "RE_ASAP"
      entryPrice := 100, currentPrice := 105, side := "buy", symbol := "NIFTY24000CE"
      quantity := 65 }

/-- Four re-entries one after the other, of which the last finds the counter at its limit, and a
square-off. -/
theorem leg_calls_lawful_day : ∃ es P, system.Run ⟨{}, []⟩ es P ∧
    P.state.reentriesToday firstLeg = 3 ∧ P.state.isSquaredOff firstLeg = true ∧
      Legal Desk.apply Law {} es := by
  obtain ⟨es, P, hrun, hcount, hflag, hcareful⟩ := System.exists_run system ⟨{}, []⟩
    (callThrough reenterFirst true 6 ++ callThrough reenterFirst true 6 ++
      callThrough reenterFirst true 6 ++ callThrough reenterFirst true 3 ++
        callThrough squareOffFirst true 5)
    (p := fun es P => P.state.reentriesToday firstLeg = 3 ∧
      P.state.isSquaredOff firstLeg = true ∧ Legal Desk.apply Careful {} es) (by decide)
  have hfresh : ({} : Desk).Fresh := ⟨fun _ => rfl, rfl, rfl, fun _ => rfl⟩
  exact ⟨es, P, hrun, hcount, hflag, leg_calls_lawful hfresh hrun hcareful⟩

/-- A square-off that the gate refuses is recorded; a leg is squared off again after a
cancellation; and four re-entries that overlap all go out. -/
theorem leg_calls_unlawful :
    (∃ es P, system.Run ⟨{}, []⟩ es P ∧ ¬ Legal Desk.apply Law {} es ∧
        P.state.isSquaredOff firstLeg = true ∧ P.state.out firstLeg = false) ∧
      (∃ es P, system.Run ⟨{}, []⟩ es P ∧ ¬ Legal Desk.apply Law {} es ∧
        P.state.reentries = []) ∧
      ∃ es P, system.Run ⟨{}, []⟩ es P ∧ ¬ Legal Desk.apply Law {} es ∧
        P.state.reentriesToday firstLeg = 4 := by
  refine ⟨?_, ?_, ?_⟩
  · exact System.exists_run system ⟨{}, []⟩ (callThrough squareOffFirst false 5) (by decide)
  · exact System.exists_run system ⟨{}, []⟩
      (callThrough squareOffFirst true 5 ++ callThrough (.deactivate "s1" "kill_switch") true 25 ++
        callThrough squareOffFirst true 5) (by decide)
  · exact System.exists_run system ⟨{}, []⟩
      ([0, 1, 2, 3].map (fun n => .start (n, reenterFirst)) ++
        [0, 1, 2, 3].flatMap (fun n => List.replicate 3 (.resume n (answers true))) ++
          List.replicate 12 (.resume 0 (answers true))) (by decide)

end Trademetrix.LegCalls
