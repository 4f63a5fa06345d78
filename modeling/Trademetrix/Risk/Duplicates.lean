import Trademetrix.Run
import Trademetrix.Risk.OrderRate

/-!
# Duplicate orders over a history

`DuplicateOrderRule` records the intent of an order before it decides on it, and recognises an
order by that record alone. An order that is presented again is approved whether it was approved
the first time or refused.
-/

namespace Trademetrix.Duplicates

open Execution (ExecutionRequest)
open Oms (Time intentFingerprint sameIntent seconds)
open OrderRate (Evaluation)
open RiskRules (Memory Stamp Texts dedupKey duplicateOrder inWindow recognised recordIntent trimmed)

structure Refusal where
  order : Evaluation
  window : Evaluation
  deriving DecidableEq

/-- The memory of the rule beside its history: the orders at their first approval, and those
refused. -/
structure History where
  memory : Memory := {}
  firsts : List Evaluation := []
  refused : List Refusal := []
  clock : Time := 0

section Rule

variable (texts : Texts) (h : History) (e : Evaluation)

def SameOrder (r r' : ExecutionRequest) : Prop :=
  r.userId = r'.userId ∧ Text.strip r.executionRequestId ≠ "" ∧
    Text.strip r.executionRequestId = Text.strip r'.executionRequestId ∧
      intentFingerprint texts.sha256 r = intentFingerprint texts.sha256 r'

instance (r r' : ExecutionRequest) : Decidable (SameOrder texts r r') :=
  inferInstanceAs (Decidable (_ ∧ _))

def SameKey (r r' : ExecutionRequest) : Prop :=
  r.userId = r'.userId ∧ dedupKey texts r = dedupKey texts r'

instance (r r' : ExecutionRequest) : Decidable (SameKey texts r r') :=
  inferInstanceAs (Decidable (_ ∧ _))

def Lasts (g : Evaluation) (now : Time) : Prop := now ≤ g.now + seconds 60

instance (g : Evaluation) (now : Time) : Decidable (Lasts g now) :=
  inferInstanceAs (Decidable (_ ≤ _))

def approves : Bool := (duplicateOrder texts h.memory e.order e.now e.req).1.decision = .approved

def ApprovedBefore : Prop := ∃ f ∈ h.firsts, SameOrder texts f.req e.req

instance : Decidable (ApprovedBefore texts h e) :=
  inferInstanceAs (Decidable (∃ f ∈ h.firsts, _))

def History.step : History where
  memory := (duplicateOrder texts h.memory e.order e.now e.req).2
  clock := e.now
  firsts :=
    if e.req.isPaper = false ∧ approves texts h e ∧ ¬ ApprovedBefore texts h e then
      h.firsts ++ [e]
    else h.firsts
  refused :=
    if approves texts h e then h.refused
    else
      h.refused ++ (h.firsts.filter fun g => SameKey texts g.req e.req ∧ Lasts g e.now).map
        fun g => ⟨e, g⟩

/-- One logical order is approved for a key while its window lasts; an approved order is approved
again, and a refused one is not in the window it was refused in. -/
structure Law : Prop where
  once : approves texts h e = true → ¬ ApprovedBefore texts h e →
    ∀ g ∈ h.firsts, SameKey texts g.req e.req → ¬ Lasts g e.now
  again : ApprovedBefore texts h e → approves texts h e = true
  never : ∀ r ∈ h.refused, SameOrder texts r.order.req e.req → Lasts r.window e.now →
    approves texts h e = false

def live : Dict String Stamp := inWindow (h.memory.recentOrders e.req.userId) e.now

/-- The rule recognises the orders it approved and no others, has room for a new key, and an
order it refused comes back with its key while the window lasts. -/
structure Careful : Prop where
  recognised_iff : recognised texts h.memory e.req = true ↔ ApprovedBefore texts h e
  room : recognised texts h.memory e.req = false → (∀ p ∈ live h e, p.1 ≠ dedupKey texts e.req) →
    (live h e).length < 100
  sameKey : recognised texts h.memory e.req = false → ∀ r ∈ h.refused,
    SameOrder texts r.order.req e.req → Lasts r.window e.now →
      dedupKey texts r.order.req = dedupKey texts e.req

end Rule

section Outcomes

variable {texts : Texts} {m : Memory} (order : ℕ) (now : Time) {req : ExecutionRequest}
  (hlive : req.isPaper = false)
include hlive

theorem duplicateOrder_recognised (hr : recognised texts m req = true) :
    (duplicateOrder texts m order now req).1.decision = .approved ∧
      (duplicateOrder texts m order now req).2.recentOrders =
        Function.update m.recentOrders req.userId (inWindow (m.recentOrders req.userId) now) := by
  unfold duplicateOrder
  rw [if_neg (by rw [hlive]; decide)]
  simp only [hr, if_true, and_self]

theorem duplicateOrder_refused (hr : recognised texts m req = false)
    (hkey : ∃ p ∈ inWindow (m.recentOrders req.userId) now, p.1 = dedupKey texts req) :
    (duplicateOrder texts m order now req).1.decision = .rejected ∧
      (duplicateOrder texts m order now req).2.recentOrders =
        Function.update m.recentOrders req.userId (inWindow (m.recentOrders req.userId) now) := by
  have hany : ((inWindow (m.recentOrders req.userId) now).any
      fun p => decide (p.1 = dedupKey texts req)) = true := by
    simpa using hkey
  unfold duplicateOrder
  rw [if_neg (by rw [hlive]; decide)]
  simp only [hr, hany, Bool.false_eq_true, if_false, if_true, and_self]

theorem duplicateOrder_approved (hr : recognised texts m req = false)
    (hkey : ∀ p ∈ inWindow (m.recentOrders req.userId) now, p.1 ≠ dedupKey texts req)
    (hroom : (inWindow (m.recentOrders req.userId) now).length < 100) :
    (duplicateOrder texts m order now req).1.decision = .approved ∧
      (duplicateOrder texts m order now req).2.recentOrders =
        Function.update m.recentOrders req.userId
          (inWindow (m.recentOrders req.userId) now ++ [(dedupKey texts req, ⟨now, order⟩)]) := by
  have hany : ((inWindow (m.recentOrders req.userId) now).any
      fun p => decide (p.1 = dedupKey texts req)) = false := by
    simpa using hkey
  have htrim : trimmed ((inWindow (m.recentOrders req.userId) now).set (dedupKey texts req)
      ⟨now, order⟩) =
        inWindow (m.recentOrders req.userId) now ++ [(dedupKey texts req, ⟨now, order⟩)] := by
    rw [Dict.set, hany, if_neg (by decide), trimmed, if_neg]
    rw [List.length_append, List.length_singleton]
    omega
  unfold duplicateOrder
  rw [if_neg (by rw [hlive]; decide)]
  simp only [hr, hany, htrim, Bool.false_eq_true, if_false, and_self]

end Outcomes

structure Kept (texts : Texts) (h : History) : Prop where
  table : ∀ g ∈ h.firsts, Lasts g h.clock →
    ∃ p ∈ h.memory.recentOrders g.req.userId, p.1 = dedupKey texts g.req ∧ g.now ≤ p.2.time
  past : ∀ g ∈ h.firsts, g.now ≤ h.clock
  windows : ∀ r ∈ h.refused, r.window ∈ h.firsts ∧ SameKey texts r.window.req r.order.req
  ended : ∀ r ∈ h.refused, ∀ f ∈ h.firsts, SameOrder texts r.order.req f.req →
    ¬ Lasts r.window f.now

section Step

variable {texts : Texts} {h : History} {e g : Evaluation} {now : Time}

theorem Lasts.earlier {now' : Time} (hg : Lasts g now') (hle : now ≤ now') : Lasts g now :=
  le_trans hle hg

theorem SameOrder.symm {r r' : ExecutionRequest} (hr : SameOrder texts r r') :
    SameOrder texts r' r :=
  ⟨hr.1.symm, hr.2.2.1 ▸ hr.2.1, hr.2.2.1.symm, hr.2.2.2.symm⟩

theorem SameOrder.trans {r r' r'' : ExecutionRequest} (hr : SameOrder texts r r')
    (hr' : SameOrder texts r' r'') : SameOrder texts r r'' :=
  ⟨hr.1.trans hr'.1, hr.2.1, hr.2.2.1.trans hr'.2.2.1, hr.2.2.2.trans hr'.2.2.2⟩

theorem approves_eq_true : approves texts h e = true ↔
    (duplicateOrder texts h.memory e.order e.now e.req).1.decision = .approved :=
  decide_eq_true_iff

theorem Kept.mem_live (hk : Kept texts h) (hle : h.clock ≤ e.now) (hg : g ∈ h.firsts)
    (huser : g.req.userId = e.req.userId) (hlasts : Lasts g e.now) :
    ∃ p ∈ live h e, p.1 = dedupKey texts g.req ∧ g.now ≤ p.2.time := by
  obtain ⟨p, hp, hkey, htime⟩ := hk.table g hg (hlasts.earlier hle)
  have hin : ¬ p.2.time + seconds 60 < e.now :=
    not_lt.mpr (le_trans hlasts (Nat.add_le_add_right htime _))
  refine ⟨p, List.mem_filter.mpr ⟨huser ▸ hp, ?_⟩, hkey, htime⟩
  simpa using hin

theorem mem_firsts_step (hg : g ∈ (h.step texts e).firsts) :
    g ∈ h.firsts ∨ g = e ∧ approves texts h e = true ∧ ¬ ApprovedBefore texts h e := by
  unfold History.step at hg
  dsimp only at hg
  split_ifs at hg with hfirst
  · rcases List.mem_append.mp hg with hold | hnew
    · exact .inl hold
    · exact .inr ⟨List.mem_singleton.mp hnew, hfirst.2⟩
  · exact .inl hg

theorem firsts_step (hg : g ∈ h.firsts) : g ∈ (h.step texts e).firsts := by
  unfold History.step
  dsimp only
  split_ifs
  · exact List.mem_append_left _ hg
  · exact hg

theorem mem_refused_step {r : Refusal} (hr : r ∈ (h.step texts e).refused) :
    r ∈ h.refused ∨ approves texts h e = false ∧ r.order = e ∧ r.window ∈ h.firsts ∧
      SameKey texts r.window.req e.req := by
  unfold History.step at hr
  dsimp only at hr
  split_ifs at hr with happroved
  · exact .inl hr
  · rcases List.mem_append.mp hr with hold | hnew
    · exact .inl hold
    · obtain ⟨g, hg, rfl⟩ := List.mem_map.mp hnew
      obtain ⟨hmem, hwindow⟩ := List.mem_filter.mp hg
      exact .inr ⟨by simpa using happroved, rfl, hmem, (of_decide_eq_true hwindow).1⟩

section Live

variable (hk : Kept texts h) (hc : Careful texts h e) (hle : h.clock ≤ e.now)
  (hpaper : e.req.isPaper = false)
include hk hle hpaper

theorem refused_of_lasts (hr : recognised texts h.memory e.req = false) (hg : g ∈ h.firsts)
    (hkey : SameKey texts g.req e.req) (hlasts : Lasts g e.now) : approves texts h e = false := by
  obtain ⟨p, hp, hpkey, -⟩ := hk.mem_live hle hg hkey.1 hlasts
  have hrefused := (duplicateOrder_refused e.order e.now hpaper hr
    ⟨p, hp, hpkey.trans hkey.2⟩).1
  exact decide_eq_false (by rw [hrefused]; decide)

include hc

theorem law_of_careful : Law texts h e where
  once happroved hnew g hg hkey hlasts := by
    have hr : recognised texts h.memory e.req = false := by
      rw [← Bool.not_eq_true, hc.recognised_iff]
      exact hnew
    rw [refused_of_lasts hk hle hpaper hr hg hkey hlasts] at happroved
    exact absurd happroved (by decide)
  again hbefore :=
    approves_eq_true.mpr (duplicateOrder_recognised e.order e.now hpaper
      (hc.recognised_iff.mpr hbefore)).1
  never r hr hsame hlasts := by
    obtain ⟨hwindow, hkey⟩ := hk.windows r hr
    cases hrec : recognised texts h.memory e.req with
    | true =>
      obtain ⟨f, hf, hfe⟩ := hc.recognised_iff.mp hrec
      have hlate := hlasts.earlier (le_trans (hk.past f hf) hle)
      exact absurd hlate (hk.ended r hr f hf (hsame.trans hfe.symm))
    | false =>
      have hsamekey := hc.sameKey hrec r hr hsame hlasts
      exact refused_of_lasts hk hle hpaper hrec hwindow
        ⟨hkey.1.trans hsame.1, hkey.2.trans hsamekey⟩ hlasts

omit hk hle in
theorem step_table : ∃ added : Dict String Stamp,
    (h.step texts e).memory.recentOrders =
        Function.update h.memory.recentOrders e.req.userId (live h e ++ added) ∧
      (approves texts h e = true → ¬ ApprovedBefore texts h e →
        ∃ p ∈ added, p.1 = dedupKey texts e.req ∧ e.now ≤ p.2.time) := by
  cases hr : recognised texts h.memory e.req with
  | true =>
    have htable := (duplicateOrder_recognised e.order e.now hpaper hr).2
    refine ⟨[], ?_, fun _ hnew => absurd (hc.recognised_iff.mp hr) hnew⟩
    rw [List.append_nil]
    exact htable
  | false =>
    by_cases hkey : ∃ p ∈ live h e, p.1 = dedupKey texts e.req
    · obtain ⟨hdecision, htable⟩ := duplicateOrder_refused e.order e.now hpaper hr hkey
      refine ⟨[], ?_, fun happroved _ => ?_⟩
      · rw [List.append_nil]
        exact htable
      · rw [approves_eq_true, hdecision] at happroved
        exact absurd happroved (by decide)
    · have hfree : ∀ p ∈ live h e, p.1 ≠ dedupKey texts e.req := fun p hp heq => hkey ⟨p, hp, heq⟩
      have htable := (duplicateOrder_approved e.order e.now hpaper hr hfree
        (hc.room hr hfree)).2
      exact ⟨_, htable, fun _ _ => ⟨_, List.mem_singleton_self _, rfl, le_refl _⟩⟩

theorem kept_step : Kept texts (h.step texts e) := by
  have hlaw := law_of_careful hk hc hle hpaper
  constructor
  · intro g hg hlasts
    obtain ⟨added, htable, hadded⟩ := step_table hc hpaper
    rw [htable]
    rcases mem_firsts_step hg with hold | ⟨rfl, happroved, hnew⟩
    · by_cases huser : g.req.userId = e.req.userId
      · obtain ⟨p, hp, hfacts⟩ := hk.mem_live hle hold huser hlasts
        rw [huser, Function.update_self]
        exact ⟨p, List.mem_append_left _ hp, hfacts⟩
      · rw [Function.update_of_ne huser]
        exact hk.table g hold (Lasts.earlier hlasts hle)
    · obtain ⟨p, hp, hfacts⟩ := hadded happroved hnew
      rw [Function.update_self]
      exact ⟨p, List.mem_append_right _ hp, hfacts⟩
  · intro g hg
    rcases mem_firsts_step hg with hold | ⟨rfl, -⟩
    · exact le_trans (hk.past g hold) hle
    · exact le_refl _
  · intro r hr
    rcases mem_refused_step hr with hold | ⟨-, rfl, hwindow, hkey⟩
    · exact ⟨firsts_step (hk.windows r hold).1, (hk.windows r hold).2⟩
    · exact ⟨firsts_step hwindow, hkey⟩
  · intro r hr f hf hsame
    rcases mem_refused_step hr with hold | ⟨hrefused, rfl, -, -⟩
    · rcases mem_firsts_step hf with hfold | ⟨rfl, happroved, -⟩
      · exact hk.ended r hold f hfold hsame
      · intro hlasts
        rw [hlaw.never r hold hsame hlasts] at happroved
        exact absurd happroved (by decide)
    · rcases mem_firsts_step hf with hfold | ⟨-, happroved, -⟩
      · rw [hlaw.again ⟨f, hfold, hsame.symm⟩] at hrefused
        exact absurd hrefused (by decide)
      · rw [hrefused] at happroved
        exact absurd happroved (by decide)

end Live

theorem duplicateOrder_paper {m : Memory} {order : ℕ} {req : ExecutionRequest}
    (hpaper : req.isPaper = true) : duplicateOrder texts m order now req = ({}, m) :=
  if_pos hpaper

theorem kept_step_paper (hk : Kept texts h) (hle : h.clock ≤ e.now)
    (hpaper : e.req.isPaper = true) : Kept texts (h.step texts e) := by
  have happroved : approves texts h e = true := by
    rw [approves_eq_true, duplicateOrder_paper hpaper]
  have hstep : h.step texts e = { h with clock := e.now } := by
    unfold History.step
    rw [duplicateOrder_paper hpaper, if_pos happroved, if_neg fun hfirst => ?_]
    rw [hpaper] at hfirst
    exact absurd hfirst.1 (by decide)
  rw [hstep]
  exact
    { table := fun g hg hlasts => hk.table g hg (hlasts.earlier hle)
      past := fun g hg => le_trans (hk.past g hg) hle
      windows := hk.windows
      ended := hk.ended }

end Step

def Lawful (texts : Texts) (h : History) (e : Evaluation) : Prop :=
  e.req.isPaper = false → Law texts h e

/-- Over every run of evaluations whose steps are careful the rule keeps its law. -/
theorem duplicate_orders_lawful (texts : Texts) {es : List Evaluation}
    (htime : Along (History.step texts) (fun h e => h.clock ≤ e.now) {} es)
    (hcareful : Along (History.step texts)
      (fun h e => e.req.isPaper = false → Careful texts h e) {} es) :
    Along (History.step texts) (Lawful texts) {} es := by
  have hstart : Kept texts {} :=
    ⟨fun _ hg => absurd hg List.not_mem_nil, fun _ hg => absurd hg List.not_mem_nil,
      fun _ hr => absurd hr List.not_mem_nil, fun _ hr => absurd hr List.not_mem_nil⟩
  refine (htime.and hcareful).mono_of_invariant (fun h e hk ⟨hle, hc⟩ => ?_) hstart
  cases hpaper : e.req.isPaper with
  | true =>
    refine ⟨fun hlive => ?_, kept_step_paper hk hle hpaper⟩
    rw [hpaper] at hlive
    exact absurd hlive (by decide)
  | false =>
    exact ⟨fun _ => law_of_careful hk (hc hpaper) hle hpaper, kept_step hk (hc hpaper) hle hpaper⟩

def buyOrder (id : String) : ExecutionRequest :=
  { userId := "u1", broker := "dhan", symbol := "NIFTY", side := "BUY", quantity := 50,
    executionRequestId := id }

def buyTexts : Texts where
  sha256 _ := "f6dc557d1ee3d3024cf8a9a2bf0b6c68bd4a8a14c2e3721115a2cb10ede513ef"
  str _ := "0.0"

def presented (t order : ℕ) (id : String) : Evaluation := ⟨seconds t, order, buyOrder id⟩

theorem duplicate_orders_lawful_again :
    Along (History.step buyTexts) (Lawful buyTexts) {} [presented 1 1 "o1", presented 2 1 "o1"] :=
  duplicate_orders_lawful buyTexts (by decide)
    ⟨fun _ => ⟨by decide, fun _ _ => by decide, fun _ _ hr => by cases hr⟩,
      fun _ => ⟨by decide, fun _ _ => by decide, fun _ r hr => by
        have hnone : (History.step buyTexts {} (presented 1 1 "o1")).refused = [] := by
          decide
        rw [hnone] at hr
        cases hr⟩, trivial⟩

/-- The second order of a window is refused and recorded; presented again, it is approved. -/
theorem refused_order_approved :
    approves buyTexts (History.step buyTexts {} (presented 1 1 "o1")) (presented 2 2 "o2") = false ∧
      ¬ Along (History.step buyTexts) (Lawful buyTexts) {}
        [presented 1 1 "o1", presented 2 2 "o2", presented 3 2 "o2"] := by
  refine ⟨by decide, fun h => ?_⟩
  have hlaw := (h.2.2.1 rfl).never ⟨presented 2 2 "o2", presented 1 1 "o1"⟩ (by decide)
    (by decide) (by decide)
  exact absurd hlaw (by decide)

end Trademetrix.Duplicates
