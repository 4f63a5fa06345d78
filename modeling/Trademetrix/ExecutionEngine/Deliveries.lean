import Mathlib.Algebra.BigOperators.Group.Multiset.Basic
import Mathlib.Algebra.Order.Group.Multiset
import Mathlib.Tactic.Abel
import Trademetrix.ExecutionEngine.Events
import Trademetrix.Run

/-!
# What the bus delivers

Every published event is owed to each of its handlers. It is delivered to them or
still on its way as long as no turn ends early, no awaitable is dropped and
nothing is handed to a queue that is not read.
-/

namespace Trademetrix.ExecutionEngine

variable {H : Type} {subs : Subscribers H}

def TurnEnd.left : TurnEnd H → List H
  | .waits rest => rest
  | _ => []

namespace Subscribers

def RaisesLast (subs : Subscribers H) (event : BusEvent) : List H → Prop
  | [] => True
  | h :: hs => (subs.reply h event = .raises → hs = []) ∧ RaisesLast subs event hs

theorem dispatch_append {event : BusEvent} {hs : List H} (h : subs.RaisesLast event hs) :
    (subs.dispatch event hs).1 ++ (subs.dispatch event hs).2.left = hs := by
  induction hs with
  | nil => rfl
  | cons g hs ih =>
    unfold dispatch
    cases hreply : subs.reply g event with
    | raises => simp [h.1 hreply, TurnEnd.left]
    | returns => exact congrArg (g :: ·) (ih h.2)
    | awaits suspends fails =>
      cases suspends with
      | true => rfl
      | false => exact congrArg (g :: ·) (ih h.2)

theorem exists_raises {event : BusEvent} {hs : List H}
    (h : (subs.dispatch event hs).2 = .raised) : ∃ g ∈ hs, subs.reply g event = .raises := by
  induction hs with
  | nil => cases h
  | cons g hs ih =>
    unfold dispatch at h
    cases hreply : subs.reply g event with
    | raises => exact ⟨g, List.mem_cons_self, hreply⟩
    | returns =>
      rw [hreply] at h
      obtain ⟨f, hf, hraises⟩ := ih h
      exact ⟨f, List.mem_cons_of_mem _ hf, hraises⟩
    | awaits suspends fails =>
      rw [hreply] at h
      cases suspends with
      | true => cases h
      | false =>
        obtain ⟨f, hf, hraises⟩ := ih h
        exact ⟨f, List.mem_cons_of_mem _ hf, hraises⟩

theorem dispatchInline_perm {event : BusEvent} {loop : Bool} {hs : List H}
    (h : loop = true ∨ ∀ g ∈ hs, ∀ s f, subs.reply g event ≠ .awaits s f) :
    ((subs.dispatchInline event loop hs).1 ++ (subs.dispatchInline event loop hs).2).Perm hs := by
  induction hs with
  | nil => exact .nil
  | cons g hs ih =>
    have ih := ih (h.imp_right fun hall f hf => hall f (List.mem_cons_of_mem _ hf))
    unfold dispatchInline
    cases hreply : subs.reply g event with
    | returns => exact ih.cons g
    | raises => exact ih.cons g
    | awaits suspends fails =>
      rcases h with rfl | hall
      · exact List.perm_middle.trans (ih.cons g)
      · exact absurd hreply (hall g List.mem_cons_self suspends fails)

end Subscribers

def deliveries (subs : Subscribers H) (event : BusEvent) : Multiset (BusEvent × H) :=
  withEach event (subs.handlersOf event)

def allDeliveries (subs : Subscribers H) (events : List BusEvent) : Multiset (BusEvent × H) :=
  (events.map (deliveries subs)).sum

@[simp] theorem allDeliveries_nil : allDeliveries subs [] = 0 := rfl

@[simp] theorem allDeliveries_cons (event : BusEvent) (events : List BusEvent) :
    allDeliveries subs (event :: events) = deliveries subs event + allDeliveries subs events := by
  simp [allDeliveries]

@[simp] theorem allDeliveries_append (events more : List BusEvent) :
    allDeliveries subs (events ++ more) = allDeliveries subs events + allDeliveries subs more := by
  simp [allDeliveries]

theorem coe_withEach_append (event : BusEvent) (hs gs : List H) :
    (withEach event (hs ++ gs) : Multiset (BusEvent × H)) =
      (withEach event hs : Multiset (BusEvent × H)) + withEach event gs := by
  simp [withEach]

def currentLeft : Option (BusEvent × List H) → Multiset (BusEvent × H)
  | some (event, hs) => withEach event hs
  | none => 0

def Dispatcher.left (subs : Subscribers H) (d : Dispatcher H) : Multiset (BusEvent × H) :=
  currentLeft d.current + allDeliveries subs d.queue

def Phase.left (subs : Subscribers H) : Phase H → Multiset (BusEvent × H)
  | .off => 0
  | .running d => d.left subs + allDeliveries subs d.scheduled
  | .cancelling d => d.left subs + allDeliveries subs d.scheduled
  | .draining current pending => currentLeft current + allDeliveries subs pending

/-- The same after a call of `stop`, without what other threads have handed over since. -/
def Phase.leftAtStop (subs : Subscribers H) : Phase H → Multiset (BusEvent × H)
  | .cancelling d => d.left subs
  | .draining current pending => currentLeft current + allDeliveries subs pending
  | _ => 0

namespace Bus

/-- Every delivery that is owed was made or is on its way, once; and so is every one that was owed
when `stop` was called, without counting what came later. -/
structure Kept (subs : Subscribers H) (b : Bus H) : Prop where
  all : allDeliveries subs b.published =
    b.delivered + b.tasks + b.oldTasks + b.phase.left subs
  before : allDeliveries subs b.before ≤ b.delivered + b.oldTasks + b.phase.leftAtStop subs

/-- A call of `stop` returns here, and the events that were published before it. -/
def returning (b : Bus H) : Act → Option (List BusEvent)
  | .stop =>
    match b.phase with
    | .running _ => none
    | _ => some b.published
  | .drain =>
    match b.phase with
    | .draining none [] => some b.before
    | _ => none
  | _ => none

/-- The step loses no delivery, and a `stop` that returns has made those of the events before it. -/
def Delivers (subs : Subscribers H) (b : Bus H) (a : Act) : Prop :=
  allDeliveries subs (b.step subs a).published =
      (b.step subs a).delivered + (b.step subs a).tasks + (b.step subs a).oldTasks +
        (b.step subs a).phase.left subs ∧
    ∀ events ∈ b.returning a, allDeliveries subs events ≤ ((b.step subs a).delivered : Multiset _)

/-- What a step is to meet: a bus that does not run gets no awaitable without a loop; other threads
hand over to a queue that is read; a handler that raises is the last one, while the queue is
drained of the last event; a dispatcher is not cancelled with handlers to go; `stop` is not
called while it is under way, and returns when no task is left that waited before. -/
def Careful (subs : Subscribers H) (b : Bus H) : Act → Prop
  | .publish event uuid onLoop =>
    match b.phase with
    | .running _ => True
    | _ => onLoop = true ∨ ∀ h ∈ subs.handlersOf event, ∀ s f,
        subs.reply h (b.finalize event uuid).2 ≠ .awaits s f
  | .handOver =>
    match b.phase with
    | .running _ => True
    | .cancelling _ => True
    | _ => b.handing = []
  | .turn =>
    match b.phase with
    | .running d => ∀ at' ∈ next subs d.current d.queue, subs.RaisesLast at'.1 at'.2
    | _ => True
  | .start =>
    match b.phase with
    | .off => True
    | .running _ => True
    | _ => False
  | .stop =>
    match b.phase with
    | .running _ => True
    | .off => b.tasks = [] ∧ b.oldTasks = []
    | _ => False
  | .cancelled =>
    match b.phase with
    | .cancelling d => d.scheduled = [] ∧ currentLeft d.current = 0
    | _ => True
  | .drain =>
    match b.phase with
    | .draining current pending =>
      (∀ at' ∈ next subs current pending, subs.RaisesLast at'.1 at'.2 ∧
        ((∃ h ∈ at'.2, subs.reply h at'.1 = .raises) → afterNext current pending = [])) ∧
      (next subs current pending = none → b.oldTasks = [])
    | _ => True
  | .callbacks => True
  | .runTask => True

theorem le_of_more {x d o l : Multiset (BusEvent × H)} (c : Multiset (BusEvent × H))
    (h : x ≤ d + o + l) : x ≤ d + c + o + l := by
  rw [add_right_comm d c o, add_right_comm (d + o) c l]
  exact h.trans (Multiset.le_add_right _ _)

theorem left_of_next {current : Option (BusEvent × List H)} {queue : List BusEvent}
    {event : BusEvent} {hs : List H} (h : next subs current queue = some (event, hs)) :
    currentLeft current + allDeliveries subs queue =
      (withEach event hs : Multiset (BusEvent × H)) +
        allDeliveries subs (afterNext current queue) := by
  cases current with
  | some at' =>
    cases h
    rfl
  | none =>
    cases queue with
    | nil => cases h
    | cons e queue =>
      cases h
      simp [currentLeft, afterNext, deliveries]

theorem next_eq_none {current : Option (BusEvent × List H)} {queue : List BusEvent} :
    next subs current queue = none ↔ current = none ∧ queue = [] := by
  cases current <;> cases queue <;> simp [next]

theorem currentLeft_waiting (event : BusEvent) (turnEnd : TurnEnd H) :
    currentLeft (waiting event turnEnd) = (withEach event turnEnd.left : Multiset (BusEvent × H)) := by
  cases turnEnd <;> rfl

theorem withEach_dispatch {event : BusEvent} {hs : List H} (h : subs.RaisesLast event hs) :
    (withEach event hs : Multiset (BusEvent × H)) =
      (withEach event (subs.dispatch event hs).1 : Multiset (BusEvent × H)) +
        currentLeft (waiting event (subs.dispatch event hs).2) := by
  rw [currentLeft_waiting, ← coe_withEach_append, Subscribers.dispatch_append h]

theorem left_turn {current : Option (BusEvent × List H)} {queue : List BusEvent}
    {event : BusEvent} {hs : List H} (hnext : next subs current queue = some (event, hs))
    (h : subs.RaisesLast event hs) :
    currentLeft current + allDeliveries subs queue =
      (withEach event (subs.dispatch event hs).1 : Multiset (BusEvent × H)) +
        (currentLeft (waiting event (subs.dispatch event hs).2) +
          allDeliveries subs (afterNext current queue)) := by
  rw [left_of_next hnext, withEach_dispatch h, add_assoc]

theorem kept_turn {b : Bus H} (h : Kept subs b) (hc : Careful subs b .turn) :
    Kept subs (b.turn subs) := by
  unfold turn
  cases hphase : b.phase with
  | running d =>
    unfold Careful at hc
    rw [hphase] at hc
    dsimp only at hc ⊢
    cases hnext : next subs d.current d.queue with
    | none => exact h
    | some at' =>
      obtain ⟨event, hs⟩ := at'
      have hall := h.all
      have hbefore := h.before
      have hleft := left_turn hnext (hc _ hnext)
      rw [hphase] at hall hbefore
      simp only [Phase.left, Phase.leftAtStop, Dispatcher.left, add_zero, hleft] at hall hbefore
      refine ⟨?_, ?_⟩
      · simp only [Phase.left, Dispatcher.left, ← Multiset.coe_add]
        rw [hall]
        abel
      · simp only [Phase.leftAtStop, ← Multiset.coe_add]
        exact le_of_more _ (by simpa using hbefore)
  | _ => exact h

theorem kept_drain {b : Bus H} (h : Kept subs b) (hc : Careful subs b .drain) :
    Kept subs (b.drain subs) := by
  unfold drain
  cases hphase : b.phase with
  | draining current pending =>
    unfold Careful at hc
    rw [hphase] at hc
    dsimp only at hc ⊢
    obtain ⟨hcareful, -⟩ := hc
    have hall := h.all
    have hbefore := h.before
    rw [hphase] at hall hbefore
    cases hnext : next subs current pending with
    | none =>
      obtain ⟨rfl, rfl⟩ := next_eq_none.mp hnext
      exact ⟨hall, hbefore⟩
    | some at' =>
      obtain ⟨event, hs⟩ := at'
      obtain ⟨hlast, hrest⟩ := hcareful _ hnext
      have hleft := left_turn hnext hlast
      simp only [Phase.left, Phase.leftAtStop, hleft] at hall hbefore
      have hgone : (subs.dispatch event hs).2 = .raised →
          currentLeft (waiting event (subs.dispatch event hs).2) +
            allDeliveries subs (afterNext current pending) = 0 := by
        intro hraised
        rw [hraised, hrest (Subscribers.exists_raises hraised)]
        rfl
      dsimp only
      cases hend : (subs.dispatch event hs).2 with
      | raised =>
        rw [hgone hend] at hall hbefore
        refine ⟨?_, ?_⟩
        · simp only [Phase.left, ← Multiset.coe_add]
          rw [hall]
          abel
        · simp only [Phase.leftAtStop, ← Multiset.coe_add]
          refine hbefore.trans (le_of_eq ?_)
          abel
      | done =>
        rw [hend] at hall hbefore
        refine ⟨?_, ?_⟩
        · simp only [Phase.left, ← Multiset.coe_add]
          rw [hall]
          abel
        · simp only [Phase.leftAtStop, ← Multiset.coe_add]
          refine hbefore.trans (le_of_eq ?_)
          abel
      | waits rest =>
        rw [hend] at hall hbefore
        refine ⟨?_, ?_⟩
        · simp only [Phase.left, ← Multiset.coe_add]
          rw [hall]
          abel
        · simp only [Phase.leftAtStop, ← Multiset.coe_add]
          refine hbefore.trans (le_of_eq ?_)
          abel
  | _ => exact h

theorem handlersOf_finalize (b : Bus H) (event : BusEvent) (uuid : String) :
    subs.handlersOf (b.finalize event uuid).2 = subs.handlersOf event := by
  unfold finalize
  split <;> rfl

theorem finalize_frame (b : Bus H) (event : BusEvent) (uuid : String) :
    (b.finalize event uuid).1.phase = b.phase ∧ (b.finalize event uuid).1.tasks = b.tasks ∧
      (b.finalize event uuid).1.oldTasks = b.oldTasks ∧
      (b.finalize event uuid).1.published = b.published ∧
      (b.finalize event uuid).1.before = b.before ∧
      (b.finalize event uuid).1.delivered = b.delivered := by
  unfold finalize
  split <;> exact ⟨rfl, rfl, rfl, rfl, rfl, rfl⟩

theorem kept_finalize {b : Bus H} (h : Kept subs b) (event : BusEvent) (uuid : String) :
    Kept subs (b.finalize event uuid).1 := by
  obtain ⟨hphase, htasks, hold, hpublished, hbefore, hdelivered⟩ := finalize_frame b event uuid
  refine ⟨?_, ?_⟩
  · rw [hphase, htasks, hold, hpublished, hdelivered]
    exact h.all
  · rw [hphase, hold, hbefore, hdelivered]
    exact h.before

theorem kept_inline {b : Bus H} (h : Kept subs b) (event : BusEvent) {loop : Bool}
    (hc : loop = true ∨ ∀ g ∈ subs.handlersOf event, ∀ s f, subs.reply g event ≠ .awaits s f) :
    Kept subs (b.inline subs event loop) := by
  have hperm := Subscribers.dispatchInline_perm hc
  have hturn : deliveries subs event =
      (withEach event (subs.dispatchInline event loop (subs.handlersOf event)).1 :
        Multiset (BusEvent × H)) +
      withEach event (subs.dispatchInline event loop (subs.handlersOf event)).2 := by
    rw [← coe_withEach_append]
    exact Multiset.coe_eq_coe.mpr (hperm.symm.map _)
  refine ⟨?_, ?_⟩
  · simp only [inline, allDeliveries_append, allDeliveries_cons, allDeliveries_nil, h.all, hturn,
      ← Multiset.coe_add]
    abel
  · simp only [inline, ← Multiset.coe_add]
    exact le_of_more _ h.before

theorem kept_enqueue {b : Bus H} (h : Kept subs b) {d : Dispatcher H}
    (hphase : b.phase = .running d) (event : BusEvent) :
    Kept subs { b with
      phase := .running { d with queue := d.queue ++ [event] }
      published := b.published ++ [event] } := by
  have hall := h.all
  have hbefore := h.before
  rw [hphase] at hall hbefore
  refine ⟨?_, hbefore⟩
  simp only [Phase.left, Dispatcher.left, allDeliveries_append, allDeliveries_cons,
    allDeliveries_nil] at hall ⊢
  rw [hall]
  abel

theorem kept_publish {b : Bus H} (h : Kept subs b) {event : BusEvent} {uuid : String}
    {onLoop : Bool} (hc : Careful subs b (.publish event uuid onLoop)) :
    Kept subs (b.publish subs event uuid onLoop) := by
  have hkept := kept_finalize h event uuid
  obtain ⟨hphase, -⟩ := finalize_frame b event uuid
  have hinline (hawaits : onLoop = true ∨ ∀ g ∈ subs.handlersOf event, ∀ s f,
      subs.reply g (b.finalize event uuid).2 ≠ .awaits s f) :
      Kept subs ((b.finalize event uuid).1.inline subs (b.finalize event uuid).2 onLoop) := by
    rw [← handlersOf_finalize b event uuid] at hawaits
    exact kept_inline hkept _ hawaits
  unfold publish
  unfold Careful at hc
  dsimp only at hc ⊢
  cases hp : b.phase with
  | running d =>
    rw [hp] at hphase
    rw [hphase]
    cases onLoop with
    | true => exact kept_enqueue hkept hphase _
    | false =>
      have hall := hkept.all
      have hbefore := hkept.before
      rw [hphase] at hall hbefore
      exact ⟨hall, hbefore⟩
  | off =>
    rw [hp] at hphase hc
    rw [hphase]
    exact hinline hc
  | cancelling d =>
    rw [hp] at hphase hc
    rw [hphase]
    exact hinline hc
  | draining current pending =>
    rw [hp] at hphase hc
    rw [hphase]
    exact hinline hc

theorem kept_handOver {b : Bus H} (h : Kept subs b) (hc : Careful subs b .handOver) :
    Kept subs b.handOver := by
  unfold handOver
  cases hhanding : b.handing with
  | nil => exact h
  | cons event handing =>
    have hall := h.all
    have hbefore := h.before
    unfold Careful at hc
    cases hphase : b.phase with
    | running d =>
      rw [hphase] at hall hbefore
      refine ⟨?_, hbefore⟩
      simp only [Phase.left, Dispatcher.left, allDeliveries_append, allDeliveries_cons,
        allDeliveries_nil] at hall ⊢
      rw [hall]
      abel
    | cancelling d =>
      rw [hphase] at hall hbefore
      refine ⟨?_, hbefore⟩
      simp only [Phase.left, Dispatcher.left, allDeliveries_append, allDeliveries_cons,
        allDeliveries_nil] at hall ⊢
      rw [hall]
      abel
    | off =>
      rw [hphase] at hc
      exact absurd (hhanding.symm.trans hc) (List.cons_ne_nil _ _)
    | draining current pending =>
      rw [hphase] at hc
      exact absurd (hhanding.symm.trans hc) (List.cons_ne_nil _ _)

theorem left_runCallbacks (d : Dispatcher H) :
    (Dispatcher.runCallbacks d).left subs = d.left subs + allDeliveries subs d.scheduled := by
  simp only [Dispatcher.runCallbacks, Dispatcher.left, allDeliveries_append, add_assoc]

theorem kept_callbacks {b : Bus H} (h : Kept subs b) : Kept subs b.callbacks := by
  have hall := h.all
  have hbefore := h.before
  unfold callbacks
  cases hphase : b.phase with
  | running d =>
    rw [hphase] at hall hbefore
    refine ⟨?_, hbefore⟩
    simp only [Phase.left, left_runCallbacks] at hall ⊢
    rw [hall]
    simp [Dispatcher.runCallbacks]
  | cancelling d =>
    rw [hphase] at hall hbefore
    refine ⟨?_, ?_⟩
    · simp only [Phase.left, left_runCallbacks] at hall ⊢
      rw [hall]
      simp [Dispatcher.runCallbacks]
    · simp only [Phase.leftAtStop, left_runCallbacks] at hbefore ⊢
      rw [← add_assoc]
      exact hbefore.trans (Multiset.le_add_right _ _)
  | off => exact h
  | draining current pending => exact h

theorem kept_runTask {b : Bus H} (h : Kept subs b) : Kept subs b.runTask := by
  have hall := h.all
  have hbefore := h.before
  unfold runTask
  cases hold : b.oldTasks with
  | cons t oldTasks =>
    rw [hold, ← Multiset.cons_coe, ← Multiset.singleton_add] at hall hbefore
    refine ⟨?_, ?_⟩
    · simp only [← Multiset.coe_add, Multiset.coe_singleton]
      rw [hall]
      abel
    · simp only [← Multiset.coe_add, Multiset.coe_singleton]
      refine hbefore.trans (le_of_eq ?_)
      abel
  | nil =>
    cases htasks : b.tasks with
    | nil => exact h
    | cons t tasks =>
      rw [hold, htasks, ← Multiset.cons_coe, ← Multiset.singleton_add] at hall
      rw [hold] at hbefore
      refine ⟨?_, ?_⟩
      · simp only [← Multiset.coe_add, Multiset.coe_singleton]
        rw [hall]
        abel
      · simp only [← Multiset.coe_add, Multiset.coe_singleton]
        exact le_of_more _ hbefore

theorem kept_start {b : Bus H} (h : Kept subs b) : Kept subs b.start := by
  have hall := h.all
  have hbefore := h.before
  unfold start
  cases hphase : b.phase with
  | off =>
    rw [hphase] at hall hbefore
    exact ⟨by simpa [Phase.left, Dispatcher.left, currentLeft] using hall,
      by simpa [Phase.leftAtStop] using hbefore⟩
  | _ => exact h

theorem kept_stop {b : Bus H} (h : Kept subs b) : Kept subs b.stop := by
  have hall := h.all
  unfold stop
  cases hphase : b.phase with
  | running d =>
    rw [hphase] at hall
    simp only [Phase.left] at hall
    refine ⟨?_, le_of_eq ?_⟩
    · simp only [Phase.left, left_runCallbacks, ← Multiset.coe_add, Multiset.coe_nil]
      rw [hall]
      simp only [Dispatcher.runCallbacks, allDeliveries_nil]
      abel
    · simp only [Phase.leftAtStop, left_runCallbacks, ← Multiset.coe_add]
      rw [hall]
      abel
  | _ => exact h

theorem kept_cancelled {b : Bus H} (h : Kept subs b) (hc : Careful subs b .cancelled) :
    Kept subs b.cancelled := by
  have hall := h.all
  have hbefore := h.before
  unfold cancelled
  unfold Careful at hc
  cases hphase : b.phase with
  | cancelling d =>
    rw [hphase] at hc hall hbefore
    obtain ⟨hscheduled, hcurrent⟩ := hc
    simp only [Phase.left, Phase.leftAtStop, Dispatcher.left, hscheduled, hcurrent, zero_add,
      allDeliveries_nil, add_zero] at hall hbefore
    refine ⟨?_, ?_⟩
    · simpa [Phase.left, currentLeft] using hall
    · simpa [Phase.leftAtStop, currentLeft] using hbefore
  | _ => exact h

theorem kept_step {b : Bus H} (h : Kept subs b) {a : Act} (hc : Careful subs b a) :
    Kept subs (b.step subs a) := by
  cases a with
  | start => exact kept_start h
  | publish event uuid onLoop => exact kept_publish h hc
  | handOver => exact kept_handOver h hc
  | callbacks => exact kept_callbacks h
  | turn => exact kept_turn h hc
  | runTask => exact kept_runTask h
  | stop => exact kept_stop h
  | cancelled => exact kept_cancelled h hc
  | drain => exact kept_drain h hc

theorem delivers_of_careful {b : Bus H} (h : Kept subs b) {a : Act} (hc : Careful subs b a) :
    Delivers subs b a := by
  refine ⟨(kept_step h hc).all, fun events hreturn => ?_⟩
  have hall := h.all
  have hbefore := h.before
  unfold Careful at hc
  unfold returning at hreturn
  cases a with
  | stop =>
    dsimp only at hc hreturn
    cases hphase : b.phase with
    | off =>
      rw [hphase] at hc hreturn hall
      cases hreturn
      have hstop : b.step subs .stop = b := by simp [step, stop, hphase]
      rw [hstop, hall, hc.1, hc.2]
      simp [Phase.left]
    | running d =>
      rw [hphase] at hreturn
      cases hreturn
    | cancelling d =>
      rw [hphase] at hc
      exact hc.elim
    | draining current pending =>
      rw [hphase] at hc
      exact hc.elim
  | drain =>
    dsimp only at hc hreturn
    cases hphase : b.phase with
    | draining current pending =>
      rw [hphase] at hc hreturn hbefore
      cases hnext : next subs current pending with
      | none =>
        obtain ⟨rfl, rfl⟩ := next_eq_none.mp hnext
        cases hreturn
        have hdrain : (b.step subs .drain).delivered = b.delivered := by
          simp [step, drain, hphase, next]
        rw [hdrain]
        simpa [hc.2 hnext, Phase.leftAtStop, currentLeft] using hbefore
      | some at' =>
        cases current with
        | some c => cases hreturn
        | none =>
          cases pending with
          | nil => cases hnext
          | cons e pending => cases hreturn
    | off =>
      rw [hphase] at hreturn
      cases hreturn
    | running d =>
      rw [hphase] at hreturn
      cases hreturn
    | cancelling d =>
      rw [hphase] at hreturn
      cases hreturn
  | start => cases hreturn
  | publish event uuid onLoop => cases hreturn
  | handOver => cases hreturn
  | callbacks => cases hreturn
  | turn => cases hreturn
  | runTask => cases hreturn
  | cancelled => cases hreturn

theorem kept_new : Kept subs ({} : Bus H) where
  all := by simp [Phase.left]
  before := by simp [Phase.leftAtStop]

/-- A run whose steps are careful owes every handler of a published event one delivery, queued or
inline, and has made those of the events before a `stop` when it returns. -/
theorem delivers_run (subs : Subscribers H) (acts : List Act)
    (h : Trademetrix.Along (step subs) (Careful subs) {} acts) :
    Trademetrix.Along (step subs) (Delivers subs) {} acts :=
  Trademetrix.Along.mono_of_invariant
    (fun _ _ hkept hc => ⟨delivers_of_careful hkept hc, kept_step hkept hc⟩) kept_new h

def firstOfTwo (reply : Reply) : Subscribers Bool where
  handlers domain := if domain = .order then [true, false] else []
  reply h _ := if h then reply else .returns

def filled : BusEvent := { type := .orderFilled }

def session : List Act :=
  [.start, .publish filled "id" true, .turn, .turn, .stop, .cancelled, .drain]

theorem delivers_session :
    Trademetrix.Along (step (firstOfTwo (.awaits true true)))
      (Delivers (firstOfTwo (.awaits true true))) {} session :=
  delivers_run (firstOfTwo (.awaits true true)) session (by
    refine ⟨trivial, trivial, fun at' h => ?_, fun at' h => ?_, trivial, ⟨rfl, rfl⟩, ⟨?_, ?_⟩, trivial⟩
    · cases h
      exact ⟨nofun, nofun, trivial⟩
    · cases h
      exact ⟨nofun, trivial⟩
    · rintro at' ⟨⟩
    · exact fun _ => rfl)

/-- A handler that raises when it is called keeps the event from the other, which the inline
dispatcher does not; so does a stop while the first is awaited. -/
theorem not_delivers :
    (¬Trademetrix.Along (step (firstOfTwo .raises)) (Delivers (firstOfTwo .raises)) {}
        [.start, .publish filled "id" true, .turn]) ∧
      (({} : Bus Bool).step (firstOfTwo .raises) (.publish filled "id" true)).delivered.length = 2 ∧
      ¬Trademetrix.Along (step (firstOfTwo (.awaits true false)))
        (Delivers (firstOfTwo (.awaits true false))) {}
        [.start, .publish filled "id" true, .turn, .stop, .cancelled] := by
  refine ⟨fun h => ?_, by decide, fun h => ?_⟩
  · have hcard := congrArg Multiset.card h.2.2.1.1
    revert hcard
    decide
  · have hcard := congrArg Multiset.card h.2.2.2.2.1.1
    revert hcard
    decide

end Bus

end Trademetrix.ExecutionEngine
