import Trademetrix.Oms.Manager
import Trademetrix.Run

/-!
# The order queue between processes

The calls of `OrderQueue` command by command. Any number of calls are in flight
at once, of one process or of several; a command is atomic, and it may fail
before or after its effect. `_record_depth` swallows its failures and changes
nothing, so the `llen` in it is only a moment at which a call can be cut off.
-/

namespace Trademetrix.Oms.OrderQueue

/-- An item in the list. `id` counts the pushes of `enqueue`, `ticket` all pushes, and `backs` those
that put this one back. -/
structure Entry where
  id : ℕ
  ticket : ℕ
  backs : ℕ := 0
  item : OrderQueueItem
  deriving DecidableEq

inductive Call
  | enqueue (item : OrderQueueItem)
  | dequeue
  | popped (e : Entry)
  | returning (e : Entry) (now : Time)
  | remove (oid : OrderId) (start : ℕ)
  | removing (oid : OrderId) (start : ℕ) (item : OrderQueueItem)

def Call.holding : Call → List Entry
  | popped e | returning e _ => [e]
  | _ => []

/-- The list in Redis and the calls in flight. `accepted` counts the calls of `enqueue` that returned;
the lists record what was popped, what `dequeue` returned and when, what `remove` took when it
reported `True`, and what was taken and given to no one. -/
structure QueueWorld where
  queue : List Entry := []
  calls : List Call := []
  entered : ℕ := 0
  tickets : ℕ := 0
  accepted : ℕ := 0
  popped : List Entry := []
  returned : List (Entry × Time) := []
  removed : List Entry := []
  dropped : List Entry := []

/-- A call begins, the `i`th call in flight runs its next command, or it is cut off. -/
inductive QueueAct
  | enqueue (item : OrderQueueItem)
  | enqueueRetry (item : OrderQueueItem) (delay now : Time)
  | dequeue
  | remove (oid : OrderId)
  | command (i : ℕ) (io : Io) (now : Time)
  | crash (i : ℕ)

/-- `item.next_retry_at and item.next_retry_at > now` -/
def early (item : OrderQueueItem) (now : Time) : Bool := item.nextRetryAt.any fun t => now < t

namespace QueueWorld

def begin_ (w : QueueWorld) (c : Call) : QueueWorld := { w with calls := w.calls ++ [c] }

/-- `rpush` -/
def push (w : QueueWorld) (e : Entry) : QueueWorld :=
  { w with queue := w.queue ++ [e], tickets := w.tickets + 1 }

def advance (w : QueueWorld) (c : Call) (io : Io) (now : Time) : QueueWorld :=
  match c with
  | .enqueue item =>
    let w := { w with accepted := w.accepted + 1 }
    if io = .failed then w
    else { w.push { id := w.entered, ticket := w.tickets, item } with entered := w.entered + 1 }
  | .dequeue =>
    if io = .failed then w
    else match w.queue with
      | [] => w
      | e :: queue =>
        let w := { w with queue := queue, popped := w.popped ++ [e] }
        if io = .lost then { w with dropped := w.dropped ++ [e] } else w.begin_ (.popped e)
  | .popped e =>
    if early e.item now then
      if io = .failed then { w with dropped := w.dropped ++ [e] }
      else w.push { e with ticket := w.tickets, backs := e.backs + 1 }
    else w.begin_ (.returning e now)
  | .returning e now => { w with returned := w.returned ++ [(e, now)] }
  | .remove oid start =>
    let chunk := (w.queue.drop start).take 51
    if io ≠ .done ∨ chunk = [] then w
    else match chunk.find? fun e => e.item.omsOrderId = oid with
      | none => w.begin_ (.remove oid (start + 50))
      | some e => w.begin_ (.removing oid start e.item)
  | .removing oid start item =>
    if io = .failed then w
    else match w.queue.find? fun e => e.item = item with
      | none => if io = .lost then w else w.begin_ (.remove oid (start + 50))
      | some e =>
        let w := { w with queue := w.queue.eraseP fun e => e.item = item }
        if io = .lost then { w with dropped := w.dropped ++ [e] }
        else { w with removed := w.removed ++ [e] }

def step (w : QueueWorld) : QueueAct → QueueWorld
  | .enqueue item => w.begin_ (.enqueue item)
  | .enqueueRetry item delay now =>
    w.begin_ (.enqueue
      { item with retryCount := item.retryCount + 1, nextRetryAt := some (now + delay) })
  | .dequeue => w.begin_ .dequeue
  | .remove oid => w.begin_ (.remove oid 0)
  | .command i io now =>
    match w.calls[i]? with
    | none => w
    | some c => { w with calls := w.calls.eraseIdx i }.advance c io now
  | .crash i =>
    match w.calls[i]? with
    | none => w
    | some c => { w with calls := w.calls.eraseIdx i, dropped := w.dropped ++ c.holding }

def held (w : QueueWorld) : List Entry := w.calls.flatMap Call.holding

end QueueWorld

def run (acts : List QueueAct) : QueueWorld := acts.foldl QueueWorld.step {}

end Trademetrix.Oms.OrderQueue

namespace Trademetrix.Oms.OrderQueue

/-- Of two pushed entries, the one pushed first; if neither was put back, the one enqueued first. -/
def Entry.Before (x y : Entry) : Prop :=
  x.ticket < y.ticket ∧ (x.backs = 0 → y.backs = 0 → x.id < y.id)

namespace QueueWorld

def places (w : QueueWorld) : List Entry :=
  w.queue ++ w.held ++ w.returned.map Prod.fst ++ w.removed ++ w.dropped

/-- Every item pushed by `enqueue` is in one place: in the list, in the hands of one call, returned
by one `dequeue`, taken by one `remove` that reports `True`, or dropped. What is returned is due and
was popped, and entries are popped in the order of their last push. -/
structure Law (w : QueueWorld) : Prop where
  kept : (w.places.map Entry.id).Perm (List.range w.entered)
  due : ∀ x ∈ w.returned, ∀ t ∈ x.1.item.nextRetryAt, t ≤ x.2
  taken : ∀ x ∈ w.returned, x.1 ∈ w.popped
  inOrder : w.popped.Pairwise Entry.Before

/-- A queue in the strict sense: an item whose `enqueue` returned is in the list until it is returned
or removed, and what is returned is due and in the order of `enqueue`. -/
structure Strict (w : QueueWorld) : Prop where
  entered : w.accepted = w.entered
  kept : ((w.queue ++ w.returned.map Prod.fst ++ w.removed).map Entry.id).Perm (List.range w.entered)
  due : ∀ x ∈ w.returned, ∀ t ∈ x.1.item.nextRetryAt, t ≤ x.2
  inOrder : (w.returned.map fun x => x.1.id).Pairwise (· < ·)

/-- No call is cut off while it holds an entry, no answer to a command that takes one is lost, and
an entry that is not due is put back. -/
def Unharmed (w : QueueWorld) : QueueAct → Prop
  | .command i io now => ∀ c ∈ w.calls[i]?, match c with
    | .dequeue => io = .lost → w.queue = []
    | .popped e => early e.item now = true → io ≠ .failed
    | .removing _ _ item => io = .lost → w.queue.find? (fun e => e.item = item) = none
    | _ => True
  | .crash i => ∀ c ∈ w.calls[i]?, c.holding = []
  | _ => True

structure Inv (hand : List Entry) (w : QueueWorld) : Prop where
  kept : ∀ n, ((hand ++ w.places).map Entry.id).count n = (List.range w.entered).count n
  due : ∀ x ∈ w.returned, ∀ t ∈ x.1.item.nextRetryAt, t ≤ x.2
  compared : ∀ e now, Call.returning e now ∈ w.calls → early e.item now = false
  taken : ∀ x ∈ w.returned, x.1 ∈ w.popped
  holding : ∀ e ∈ hand ++ w.held, e ∈ w.popped
  inOrder : (w.popped ++ w.queue).Pairwise Entry.Before
  bounded : ∀ e ∈ w.popped ++ w.queue, e.ticket < w.tickets ∧ e.id < w.entered

variable {w : QueueWorld} {hand : List Entry} {e : Entry} {c : Call} {io : Io} {now : Time}

theorem due_of_not_early {item : OrderQueueItem} (h : early item now = false) :
    ∀ t ∈ item.nextRetryAt, t ≤ now := by
  intro t ht
  rw [early, ht] at h
  simpa using h

@[simp] theorem held_begin (w : QueueWorld) (c : Call) : (w.begin_ c).held = w.held ++ c.holding := by
  simp [held, begin_]

theorem perm_eraseP {q : List Entry} {p : Entry → Bool} (h : q.find? p = some e) :
    q.Perm (e :: q.eraseP p) := by
  obtain ⟨hp, as, bs, rfl, has⟩ := List.find?_eq_some_iff_append.mp h
  rw [List.eraseP_append_right _ (fun a ha => by simpa using has a ha), List.eraseP_cons_of_pos hp]
  exact List.perm_middle

namespace Inv

theorem start : Inv [] {} where
  kept _ := rfl
  due _ h := absurd h List.not_mem_nil
  compared _ _ h := absurd h List.not_mem_nil
  taken _ h := absurd h List.not_mem_nil
  holding _ h := absurd h List.not_mem_nil
  inOrder := List.Pairwise.nil
  bounded _ h := absurd h List.not_mem_nil

theorem law (h : Inv [] w) : Law w where
  kept := List.perm_iff_count.mpr h.kept
  due := h.due
  taken := h.taken
  inOrder := (List.pairwise_append.mp h.inOrder).1

theorem begin_ (h : Inv c.holding w) (hc : ∀ e now, c = .returning e now → early e.item now = false) :
    Inv [] (w.begin_ c) where
  kept n := by
    have hkept := h.kept n
    simp only [places, held_begin, List.nil_append, List.map_append, List.count_append] at hkept ⊢
    simp only [QueueWorld.begin_]
    omega
  due := h.due
  compared e now hmem := by
    rcases List.mem_append.mp hmem with hmem | hmem
    · exact h.compared e now hmem
    · exact hc e now (List.mem_singleton.mp hmem).symm
  taken := h.taken
  holding e he := by
    rw [List.nil_append, held_begin] at he
    exact h.holding e (by simpa [or_comm] using he)
  inOrder := h.inOrder
  bounded := h.bounded

theorem drop (h : Inv hand w) : Inv [] { w with dropped := w.dropped ++ hand } where
  kept n := by
    have hkept := h.kept n
    simp only [places, held, List.nil_append, List.map_append, List.count_append] at hkept ⊢
    omega
  due := h.due
  compared := h.compared
  taken := h.taken
  holding e he := h.holding e (List.mem_append_right hand he)
  inOrder := h.inOrder
  bounded := h.bounded

theorem return_ (h : Inv [e] w) (hearly : early e.item now = false) :
    Inv [] { w with returned := w.returned ++ [(e, now)] } where
  kept n := by
    have hkept := h.kept n
    simp only [places, held, List.nil_append, List.map_append, List.count_append, List.map_singleton]
      at hkept ⊢
    omega
  due x hx := by
    rcases List.mem_append.mp hx with hx | hx
    · exact h.due x hx
    · rw [List.mem_singleton.mp hx]
      exact due_of_not_early hearly
  compared := h.compared
  taken x hx := by
    rcases List.mem_append.mp hx with hx | hx
    · exact h.taken x hx
    · rw [List.mem_singleton.mp hx]
      exact h.holding e List.mem_cons_self
  holding e he := h.holding e (List.mem_append_right _ he)
  inOrder := h.inOrder
  bounded := h.bounded

theorem enqueue (h : Inv [] w) (item : OrderQueueItem) :
    Inv [] { w.push { id := w.entered, ticket := w.tickets, item } with entered := w.entered + 1 } where
  kept n := by
    have hkept := h.kept n
    simp only [places, held, push, List.nil_append, List.map_append, List.count_append,
      List.map_singleton, List.range_succ] at hkept ⊢
    omega
  due := h.due
  compared := h.compared
  taken := h.taken
  holding := h.holding
  inOrder := by
    rw [push, ← List.append_assoc, List.pairwise_append]
    refine ⟨h.inOrder, List.pairwise_singleton _ _, fun x hx y hy => ?_⟩
    rw [List.mem_singleton.mp hy]
    exact ⟨(h.bounded x hx).1, fun _ _ => (h.bounded x hx).2⟩
  bounded x hx := by
    rw [push, ← List.append_assoc] at hx
    rcases List.mem_append.mp hx with hx | hx
    · exact ⟨Nat.lt_succ_of_lt (h.bounded x hx).1, Nat.lt_succ_of_lt (h.bounded x hx).2⟩
    · rw [List.mem_singleton.mp hx]
      exact ⟨Nat.lt_succ_self _, Nat.lt_succ_self _⟩

theorem pushBack (h : Inv [e] w) :
    Inv [] (w.push { e with ticket := w.tickets, backs := e.backs + 1 }) where
  kept n := by
    have hkept := h.kept n
    simp only [places, held, push, List.nil_append, List.map_append, List.count_append,
      List.map_singleton] at hkept ⊢
    omega
  due := h.due
  compared := h.compared
  taken := h.taken
  holding e he := h.holding e (List.mem_append_right _ he)
  inOrder := by
    rw [push, ← List.append_assoc, List.pairwise_append]
    refine ⟨h.inOrder, List.pairwise_singleton _ _, fun x hx y hy => ?_⟩
    rw [List.mem_singleton.mp hy]
    exact ⟨(h.bounded x hx).1, fun _ hbacks => absurd hbacks (Nat.succ_ne_zero _)⟩
  bounded x hx := by
    rw [push, ← List.append_assoc] at hx
    rcases List.mem_append.mp hx with hx | hx
    · exact ⟨Nat.lt_succ_of_lt (h.bounded x hx).1, (h.bounded x hx).2⟩
    · have hpopped := h.holding e List.mem_cons_self
      rw [List.mem_singleton.mp hx]
      exact ⟨Nat.lt_succ_self _, (h.bounded e (List.mem_append_left _ hpopped)).2⟩

theorem pop (h : Inv [] w) {queue : List Entry} (hqueue : w.queue = e :: queue) :
    Inv [e] { w with queue := queue, popped := w.popped ++ [e] } where
  kept n := by
    have hkept := h.kept n
    simp only [places, held, hqueue, List.nil_append, List.cons_append, List.map_append,
      List.count_append, List.map_cons, List.count_cons] at hkept ⊢
    omega
  due := h.due
  compared := h.compared
  taken x hx := List.mem_append_left _ (h.taken x hx)
  holding x hx := by
    rcases List.mem_cons.mp hx with rfl | hx
    · exact List.mem_append_right _ (List.mem_singleton_self _)
    · exact List.mem_append_left _ (h.holding x hx)
  inOrder := by
    have horder := h.inOrder
    rwa [hqueue, ← List.singleton_append, ← List.append_assoc] at horder
  bounded x hx := h.bounded x (by rwa [hqueue, ← List.singleton_append, ← List.append_assoc])

theorem takeOut (h : Inv [] w) {p : Entry → Bool} (hfind : w.queue.find? p = some e)
    {removed dropped : List Entry} (hgiven : removed ++ dropped = [e]) :
    Inv [] { w with
      queue := w.queue.eraseP p
      removed := w.removed ++ removed
      dropped := w.dropped ++ dropped } where
  kept n := by
    have hkept := h.kept n
    have hqueue := ((perm_eraseP hfind).map Entry.id).count_eq n
    have hone := congrArg (fun l => (l.map Entry.id).count n) hgiven
    simp only [places, held, List.nil_append, List.map_append, List.count_append, List.map_cons,
      List.count_cons, List.map_nil, List.count_nil] at hkept hqueue hone ⊢
    omega
  due := h.due
  compared := h.compared
  taken := h.taken
  holding := h.holding
  inOrder := h.inOrder.sublist (List.eraseP_sublist.append_left _)
  bounded x hx := h.bounded x ((List.eraseP_sublist.append_left _).subset hx)

theorem advance (h : Inv c.holding w) (hc : ∀ e now, c = .returning e now → early e.item now = false)
    (io : Io) (now : Time) : Inv [] (w.advance c io now) := by
  cases c with
  | enqueue item =>
    have haccepted : Inv [] { w with accepted := w.accepted + 1 } := { h with }
    rw [QueueWorld.advance]
    dsimp only
    split
    next => exact haccepted
    next => exact haccepted.enqueue item
  | dequeue =>
    rw [QueueWorld.advance]
    split
    next => exact h
    next =>
      split
      next => exact h
      next e queue hqueue =>
        have hpop := Inv.pop h hqueue
        dsimp only
        split
        next => exact hpop.drop
        next => exact Inv.begin_ (c := .popped e) hpop nofun
  | popped e =>
    rw [QueueWorld.advance]
    split
    next hearly =>
      split
      next => exact h.drop
      next => exact h.pushBack
    next hearly =>
      refine Inv.begin_ (c := .returning e now) h fun e' now' heq => ?_
      cases heq
      simpa using hearly
  | returning e t =>
    exact h.return_ (hc e t rfl)
  | remove oid start =>
    rw [QueueWorld.advance]
    split
    next => exact h
    next =>
      split
      next => exact Inv.begin_ (c := .remove oid (start + 50)) h nofun
      next e hfind => exact Inv.begin_ (c := .removing oid start e.item) h nofun
  | removing oid start item =>
    rw [QueueWorld.advance]
    split
    next => exact h
    next =>
      split
      next =>
        split
        next => exact h
        next => exact Inv.begin_ (c := .remove oid (start + 50)) h nofun
      next e hfind =>
        dsimp only
        split
        next => simpa using h.takeOut hfind (List.nil_append [e])
        next => simpa using h.takeOut hfind (List.append_nil [e])

theorem take (h : Inv [] w) {i : ℕ} (hi : w.calls[i]? = some c) :
    Inv c.holding { w with calls := w.calls.eraseIdx i } := by
  have hperm : w.calls.Perm (c :: w.calls.eraseIdx i) := by
    obtain ⟨hlt, rfl⟩ := List.getElem?_eq_some_iff.mp hi
    exact (List.getElem_cons_eraseIdx_perm hlt).symm
  have hheld : w.held.Perm (c.holding ++ (w.calls.eraseIdx i).flatMap Call.holding) :=
    hperm.flatMap_right Call.holding
  exact { h with
    kept := fun n => by
      have hkept := h.kept n
      have hcount := (hheld.map Entry.id).count_eq n
      simp only [places, List.nil_append, List.map_append, List.count_append] at hkept hcount ⊢
      simp only [held]
      omega
    compared := fun e now hmem => h.compared e now (List.mem_of_mem_eraseIdx hmem)
    holding := fun e he => h.holding e (hheld.mem_iff.mpr he) }

theorem step (h : Inv [] w) (a : QueueAct) : Inv [] (w.step a) := by
  cases a with
  | enqueue item => exact Inv.begin_ (c := .enqueue item) h nofun
  | enqueueRetry item delay now => exact Inv.begin_ (c := .enqueue _) h nofun
  | dequeue => exact Inv.begin_ (c := .dequeue) h nofun
  | remove oid => exact Inv.begin_ (c := .remove oid 0) h nofun
  | command i io now =>
    rw [QueueWorld.step]
    split
    next => exact h
    next c hi =>
      refine (h.take hi).advance (fun e now heq => ?_) io now
      exact h.compared e now (heq ▸ List.mem_of_getElem? hi)
  | crash i =>
    rw [QueueWorld.step]
    split
    next => exact h
    next c hi => exact (h.take hi).drop

end Inv

theorem dropped_advance (h : match c with
      | .dequeue => io = .lost → w.queue = []
      | .popped e => early e.item now = true → io ≠ .failed
      | .removing _ _ item => io = .lost → w.queue.find? (fun e => e.item = item) = none
      | _ => True) : (w.advance c io now).dropped = w.dropped := by
  cases c with
  | enqueue item =>
    rw [advance]
    dsimp only
    split <;> rfl
  | dequeue =>
    rw [advance]
    split
    next => rfl
    next =>
      split
      next => rfl
      next e queue hqueue =>
        dsimp only
        split
        next hlost =>
          rw [h hlost] at hqueue
          cases hqueue
        next => rfl
  | popped e =>
    rw [advance]
    split
    next hearly => rw [if_neg (h hearly), push]
    next => rfl
  | returning e t => rfl
  | remove oid start =>
    rw [advance]
    split
    next => rfl
    next => split <;> rfl
  | removing oid start item =>
    rw [advance]
    split
    next => rfl
    next =>
      split
      next => split <;> rfl
      next e hfind =>
        dsimp only
        split
        next hlost =>
          rw [h hlost] at hfind
          cases hfind
        next => rfl

theorem dropped_step {a : QueueAct} (ha : Unharmed w a) : (w.step a).dropped = w.dropped := by
  cases a with
  | enqueue item => rfl
  | enqueueRetry item delay now => rfl
  | dequeue => rfl
  | remove oid => rfl
  | command i io now =>
    rw [step]
    split
    next => rfl
    next c hi =>
      have hc := ha c hi
      refine dropped_advance (w := { w with calls := w.calls.eraseIdx i }) ?_
      cases c <;> exact hc
  | crash i =>
    rw [step]
    split
    next => rfl
    next c hi => rw [ha c hi, List.append_nil]

theorem run_inv (acts : List QueueAct) : Inv [] (run acts) := by
  induction acts using List.reverseRecOn with
  | nil => exact Inv.start
  | append_singleton acts a ih =>
    rw [run, List.foldl_append]
    exact Inv.step ih a

/-- Over every run the law holds, and items are dropped only in steps that harm a call. -/
theorem run_law (acts : List QueueAct) :
    Law (run acts) ∧ (Along step Unharmed {} acts → (run acts).dropped = []) := by
  refine ⟨(run_inv acts).law, fun halong => ?_⟩
  exact Along.invariant (I := fun w => w.dropped = []) (fun w a hw ha => (dropped_step ha).trans hw)
    rfl halong

/-- An item that is put back once and returned when it is due. -/
theorem run_law_retried :
    let acts := [QueueAct.enqueueRetry { omsOrderId := 1 } 5 0, .command 0 .done 0,
      .dequeue, .command 0 .done 1, .command 0 .done 1,
      .dequeue, .command 0 .done 6, .command 0 .done 6, .command 0 .done 6]
    Law (run acts) ∧ (run acts).dropped = [] := by
  intro acts
  have hlaw := run_law acts
  refine ⟨hlaw.1, hlaw.2 ⟨trivial, ?_, trivial, ?_, ?_, trivial, ?_, ?_, ?_, trivial⟩⟩
  all_goals
    intro c hc
    cases hc
    first
      | exact trivial
      | exact nofun

/-- An `enqueue` whose push fails returns all the same; a call cut off between its pop and its return
loses the item; an item that was not due at first is returned after one enqueued later. -/
theorem queue_not_strict :
    let late : OrderQueueItem := { omsOrderId := 1, nextRetryAt := some 5 }
    let item : OrderQueueItem := { omsOrderId := 2 }
    ¬Strict (run [.enqueue item, .command 0 .failed 0]) ∧
    ¬Strict (run [.enqueue item, .command 0 .done 0, .dequeue, .command 0 .done 0, .crash 0]) ∧
    ¬Strict (run [.enqueue late, .command 0 .done 0, .enqueue item, .command 0 .done 0,
      .dequeue, .command 0 .done 1, .command 0 .done 1,
      .dequeue, .command 0 .done 6, .command 0 .done 6, .command 0 .done 6,
      .dequeue, .command 0 .done 6, .command 0 .done 6, .command 0 .done 6]) := by
  refine ⟨fun h => ?_, fun h => ?_, fun h => ?_⟩
  · exact absurd h.entered (by decide)
  · exact absurd h.kept.length_eq (by decide)
  · exact absurd h.inOrder (by decide)

end QueueWorld

end Trademetrix.Oms.OrderQueue
