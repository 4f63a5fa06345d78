import Mathlib.Data.List.Nodup
import Trademetrix.Oms.Legal

/-!
# Orders after a restart

What a restart makes of the orders in the store: which of them the worker or a
reconcile loop takes up again, by the state they were stored in, what was left in
the queue and what the store and Redis answered during the recovery.
-/

namespace Trademetrix.Oms

open Async

section Driven

def current (w : World) (oid : OrderId) : Option OmniOrder :=
  match w.orders.get oid with
  | some r => some (w.heap r)
  | none => w.rows.get oid

def InQueue (w : World) (oid : OrderId) : Prop := ∃ item ∈ w.queue, item.omsOrderId = oid

/-- The orders `_reconcile_unknown_once` selects. -/
def unknownOrders (w : World) : List Ref :=
  w.orders.values.filter fun r => (w.heap r).state ∈ [OMSOrderState.unknown, .reconciling]

/-- The orders `_reconcile_once` looks up in the broker's book. -/
def bookOrders (w : World) : List Ref :=
  w.orders.values.filter fun r =>
    (w.heap r).brokerOrderId ≠ "" ∧ (w.heap r).state ∈ [OMSOrderState.pending, .partialFill]

/-- An actor takes the order up: the worker from the queue, past its transition
guard, or one of the reconcile loops. -/
def Driven (w : World) (oid : OrderId) : Prop :=
  (InQueue w oid ∧ ∃ o ∈ current w oid, StateMachine.canTransition o.state .sent = true) ∨
    ∃ r ∈ w.orders.get oid, r ∈ unknownOrders w ∨ r ∈ bookOrders w

instance (w : World) (oid : OrderId) : Decidable (InQueue w oid) :=
  inferInstanceAs (Decidable (∃ _ ∈ _, _))

instance (w : World) (oid : OrderId) : Decidable (Driven w oid) :=
  inferInstanceAs (Decidable ((_ ∧ ∃ _ ∈ _, _) ∨ ∃ _ ∈ _, _))

end Driven

section Inputs

def Elapses (s s' : World) : Prop := ∃ t, s' = { s with now := s.now + t }

/-- The recovery has run from `s` to its end in `s'`, with the replies `rs`. -/
abbrev Restarts (cfg : Settings) (s : World) (rs : List (Sigma Reply)) (s' : World) : Prop :=
  start.Runs (World.apply cfg) Elapses s rs () s'

def statements (rs : List (Sigma Reply)) : List Io :=
  rs.filterMap fun
    | ⟨.statement, io⟩ => some io
    | _ => none

/-- What became of the statement that puts each queued or sent order back in the
queue, in the order of the rows. -/
def pushes (rows : List OmniOrder) (ios : List Io) : List (OrderId × Io) :=
  ((rows.filter fun row => row.state ∈ requeuedStates).map OmniOrder.omsOrderId).zip ios

/-- The rows the recovery loads, with the store's reply to the load first of `ios`. -/
def loadedRows (w : World) (ios : List Io) : List OmniOrder :=
  if ios.head? = some .done then w.rows.values.filter fun o => o.state ∈ activeStates else []

def Resumes (w : World) (ios : List Io) (row : OmniOrder) : Prop :=
  (row.state = .queued ∧
    (InQueue w row.omsOrderId ∨
      ∃ io ≠ Io.failed, (row.omsOrderId, io) ∈ pushes (loadedRows w ios) ios.tail)) ∨
  (row.state ∈ [OMSOrderState.pending, .partialFill] ∧ row.brokerOrderId ≠ "" ∧
    ios.head? = some .done)

end Inputs

section Runs

variable {cfg : Settings} {s s' : World} {rs : List (Sigma Reply)} {u : Unit}

theorem runs_statement {e : Effect}
    (h : (statement e).Runs (World.apply cfg) Elapses s rs u s') :
    ∃ io t, statements rs = [io] ∧ Elapses s t ∧
      Elapses (if io = .failed then t else World.apply cfg e t) s' := by
  obtain ⟨rs₁, io, t, rs₂, hrs, hwait, hrest⟩ := Proc.runs_bind h
  obtain ⟨rs₃, v, t', rs₄, hrs', htake, hans⟩ := Proc.runs_bind hrest
  obtain ⟨rfl, ht⟩ := Proc.runs_wait hwait
  have htaken : rs₃ = [] ∧ t' = if io = .failed then t else World.apply cfg e t := by
    unfold takeEffect at htake
    split at htake
    · next hio =>
      obtain ⟨hnil, -, heq⟩ := Proc.runs_pure htake
      exact ⟨hnil, by rw [if_pos hio, heq]⟩
    · next hio =>
      obtain ⟨hnil, heq⟩ := Proc.runs_emit htake
      exact ⟨hnil, by rw [if_neg hio, heq]⟩
  obtain ⟨rfl, rfl⟩ := htaken
  obtain ⟨rfl, hlast⟩ := Proc.runs_wait hans
  exact ⟨io, t, by rw [hrs, hrs']; rfl, ht, hlast⟩

/-- The objects of the orders in the dictionary are the rows in `done`. -/
structure Recovered (done : List OmniOrder) (w : World) : Prop where
  found : ∀ row ∈ done, ∃ r, w.orders.get row.omsOrderId = some r ∧ w.heap r = row
  known : ∀ p ∈ w.orders, p.2 < w.nextRef ∧ ∃ row ∈ done, w.heap p.2 = row ∧ p.1 = row.omsOrderId

theorem active_not_terminal {state : OMSOrderState} (h : state ∈ activeStates) :
    state ∉ terminalOmsStates := by
  cases state <;> simp_all [activeStates, terminalOmsStates]

theorem addOrder_active {done : List OmniOrder} {w : World} {row : OmniOrder}
    (hw : Recovered done w) (hdone : ∀ o ∈ done, o.state ∈ activeStates)
    (hrow : row.state ∈ activeStates) (hnew : ∀ o ∈ done, o.omsOrderId ≠ row.omsOrderId) :
    w.addOrder cfg row =
      { w with
        heap := fun q => if q = w.nextRef then row else w.heap q
        nextRef := w.nextRef + 1
        orders := w.orders ++ [(row.omsOrderId, w.nextRef)] } := by
  have hkeys : ∀ p ∈ w.orders, p.1 ≠ row.omsOrderId := by
    intro p hp
    obtain ⟨-, o, ho, -, hid⟩ := hw.known p hp
    rw [hid]
    exact hnew o ho
  have hpop := Dict.pop_of_forall_ne hkeys
  have hnone : (w.orders ++ [(row.omsOrderId, w.nextRef)]).find? (fun p =>
      (if p.2 = w.nextRef then row else w.heap p.2).state ∈ terminalOmsStates) = none := by
    rw [List.find?_eq_none]
    intro p hp
    rcases List.mem_append.mp hp with hp | hp
    · obtain ⟨hlt, o, ho, heq, -⟩ := hw.known p hp
      simp only [if_neg hlt.ne, heq, decide_eq_true_eq]
      exact active_not_terminal (hdone o ho)
    · obtain rfl := List.mem_singleton.mp hp
      simpa using active_not_terminal hrow
  simp only [World.addOrder, World.evictOldestTerminalOrder, hpop, hnone]
  split <;> rfl

theorem recovered_addOrder {done : List OmniOrder} {w : World} {row : OmniOrder}
    (hw : Recovered done w) (hdone : ∀ o ∈ done, o.state ∈ activeStates)
    (hrow : row.state ∈ activeStates) (hnew : ∀ o ∈ done, o.omsOrderId ≠ row.omsOrderId) :
    Recovered (done ++ [row]) (w.addOrder cfg row) := by
  rw [addOrder_active hw hdone hrow hnew]
  have hkeys : ∀ p ∈ w.orders, p.1 ≠ row.omsOrderId := by
    intro p hp
    obtain ⟨-, o, ho, -, hid⟩ := hw.known p hp
    rw [hid]
    exact hnew o ho
  constructor
  · intro o ho
    rcases List.mem_append.mp ho with ho | ho
    · obtain ⟨r, hget, hheap⟩ := hw.found o ho
      have hlt := (hw.known _ (Dict.mem_of_get hget)).1
      refine ⟨r, ?_, by simp only [if_neg hlt.ne, hheap]⟩
      rw [Dict.get_append_ne _ (hnew o ho).symm, hget]
    · obtain rfl := List.mem_singleton.mp ho
      exact ⟨w.nextRef, Dict.get_append_self _ hkeys, if_pos rfl⟩
  · intro p hp
    rcases List.mem_append.mp hp with hp | hp
    · obtain ⟨hlt, o, ho, heq, hid⟩ := hw.known p hp
      exact ⟨hlt.trans (Nat.lt_succ_self _), o, List.mem_append_left _ ho,
        by simp only [if_neg hlt.ne, heq], hid⟩
    · obtain rfl := List.mem_singleton.mp hp
      exact ⟨Nat.lt_succ_self _, row, by simp, if_pos rfl, rfl⟩

theorem statements_append (rs rs' : List (Sigma Reply)) :
    statements (rs ++ rs') = statements rs ++ statements rs' :=
  List.filterMap_append

def Pushed (rows : List OmniOrder) (ios : List Io) (s s' : World) : Prop :=
  ios.length = (rows.filter fun row => row.state ∈ requeuedStates).length ∧
    ∀ oid, InQueue s' oid ↔ InQueue s oid ∨ ∃ io ≠ Io.failed, (oid, io) ∈ pushes rows ios

theorem Pushed.nil (s : World) : Pushed [] [] s s := by
  simp [Pushed, pushes]

theorem pushes_append {rows rows' : List OmniOrder} {ios : List Io}
    (h : ios.length = (rows.filter fun row => row.state ∈ requeuedStates).length)
    (ios' : List Io) :
    pushes (rows ++ rows') (ios ++ ios') = pushes rows ios ++ pushes rows' ios' := by
  simp only [pushes, List.filter_append, List.map_append]
  exact List.zip_append (by simp [h])

theorem Pushed.append {rows rows' : List OmniOrder} {ios ios' : List Io} {s t s' : World}
    (h : Pushed rows ios s t) (h' : Pushed rows' ios' t s') :
    Pushed (rows ++ rows') (ios ++ ios') s s' := by
  refine ⟨by simp [h.1, h'.1], fun oid => ?_⟩
  rw [h'.2, h.2, pushes_append h.1, or_assoc, or_congr_right]
  simp only [List.mem_append, and_or_left, exists_or]

theorem pushed_skip {row : OmniOrder} (hrow : row.state ∉ requeuedStates)
    (hq : s'.queue = s.queue) : Pushed [row] [] s s' := by
  refine ⟨by simp [hrow], fun oid => ?_⟩
  simp [InQueue, hq, pushes]

theorem pushed_failed {row : OmniOrder} (hrow : row.state ∈ requeuedStates)
    (hq : s'.queue = s.queue) : Pushed [row] [.failed] s s' := by
  refine ⟨by simp [hrow], fun oid => ?_⟩
  simp [InQueue, hq, pushes, hrow]

theorem pushed_item {row : OmniOrder} {io : Io} {item : OrderQueueItem}
    (hrow : row.state ∈ requeuedStates) (hio : io ≠ .failed)
    (hitem : item.omsOrderId = row.omsOrderId) (hq : s'.queue = s.queue ++ [item]) :
    Pushed [row] [io] s s' := by
  refine ⟨by simp [hrow], fun oid => ?_⟩
  simp only [InQueue, hq, List.mem_append, List.mem_singleton, or_and_right, exists_or,
    exists_eq_left, pushes, hrow, decide_true, List.filter_cons_of_pos, List.filter_nil,
    List.map_cons, List.map_nil, List.zip_cons_cons, List.zip_nil_right, Prod.mk.injEq]
  refine or_congr_right ⟨fun h => ⟨io, hio, by rw [← h, hitem], rfl⟩, ?_⟩
  rintro ⟨io', -, h, -⟩
  rw [h, hitem]

theorem runs_recoverOrder {done : List OmniOrder} {row : OmniOrder}
    (h : (recoverOrder row).Runs (World.apply cfg) Elapses s rs u s') (hs : Recovered done s)
    (hdone : ∀ o ∈ done, o.state ∈ activeStates) (hrow : row.state ∈ activeStates)
    (hnew : ∀ o ∈ done, o.omsOrderId ≠ row.omsOrderId) :
    Recovered (done ++ [row]) s' ∧ s'.rows = s.rows ∧ Pushed [row] (statements rs) s s' := by
  have hadd : Recovered (done ++ [row]) (s.addOrder cfg row) := recovered_addOrder hs hdone hrow hnew
  have heq : s.addOrder cfg row = _ := addOrder_active hs hdone hrow hnew
  obtain ⟨rs₁, _, w, rs₂, rfl, hlook, hrest⟩ := Proc.runs_bind h
  obtain ⟨rs₃, v, t', rs₄, rfl, hload, hpush⟩ := Proc.runs_bind hrest
  obtain ⟨rfl, rfl, rfl⟩ := Proc.runs_look hlook
  obtain ⟨rfl, rfl⟩ := Proc.runs_emit hload
  have hrows : (w.addOrder cfg row).rows = w.rows := by rw [heq]
  have hqueue : (w.addOrder cfg row).queue = w.queue := by rw [heq]
  simp only [List.nil_append]
  by_cases hq : row.state ∈ requeuedStates
  · rw [if_pos hq] at hpush
    obtain ⟨io, t, hst, ⟨k, rfl⟩, ⟨l, rfl⟩⟩ := runs_statement hpush
    rw [hst]
    by_cases hio : io = .failed
    · simp only [if_pos hio]
      exact ⟨⟨hadd.found, hadd.known⟩, hrows, hio ▸ pushed_failed hq hqueue⟩
    · simp only [if_neg hio]
      refine ⟨⟨hadd.found, hadd.known⟩, hrows, pushed_item hq hio ?_ (congrArg (· ++ [_]) hqueue)⟩
      rfl
  · rw [if_neg hq] at hpush
    obtain ⟨rfl, -, rfl⟩ := Proc.runs_pure hpush
    exact ⟨⟨hadd.found, hadd.known⟩, hrows, pushed_skip hq hqueue⟩

theorem runs_recoverOrders {rows done : List OmniOrder}
    (h : (forEach rows recoverOrder).Runs (World.apply cfg) Elapses s rs u s')
    (hs : Recovered done s) (hact : ∀ o ∈ done ++ rows, o.state ∈ activeStates)
    (hids : ((done ++ rows).map OmniOrder.omsOrderId).Nodup) :
    Recovered (done ++ rows) s' ∧ s'.rows = s.rows ∧ Pushed rows (statements rs) s s' := by
  induction rows generalizing done s rs with
  | nil =>
    obtain ⟨rfl, -, rfl⟩ := Proc.runs_pure h
    exact ⟨by simpa using hs, rfl, Pushed.nil _⟩
  | cons row rows ih =>
    obtain ⟨rs₁, v, t, rs₂, rfl, hone, hrest⟩ := Proc.runs_bind h
    have hnew : ∀ o ∈ done, o.omsOrderId ≠ row.omsOrderId := by
      intro o ho heq
      rw [List.map_append, List.nodup_append] at hids
      exact hids.2.2 _ (List.mem_map_of_mem ho) _ (by simp) heq
    obtain ⟨hs', hrows, hpush⟩ := runs_recoverOrder hone hs
      (fun o ho => hact o (List.mem_append_left _ ho)) (hact row (by simp)) hnew
    obtain ⟨hs'', hrows', hpush'⟩ := ih hrest hs' (by simpa using hact) (by simpa using hids)
    refine ⟨by simpa using hs'', hrows'.trans hrows, ?_⟩
    rw [statements_append]
    simpa using hpush.append hpush'

structure SameOrders (s s' : World) : Prop where
  orders : s'.orders = s.orders
  heap : s'.heap = s.heap
  nextRef : s'.nextRef = s.nextRef
  rows : s'.rows = s.rows
  queue : s'.queue = s.queue

theorem SameOrders.trans {s t u : World} (h : SameOrders s t) (h' : SameOrders t u) :
    SameOrders s u :=
  ⟨h'.orders.trans h.orders, h'.heap.trans h.heap, h'.nextRef.trans h.nextRef,
    h'.rows.trans h.rows, h'.queue.trans h.queue⟩

theorem Elapses.same (h : Elapses s s') : SameOrders s s' := by
  obtain ⟨t, rfl⟩ := h
  exact ⟨rfl, rfl, rfl, rfl, rfl⟩

theorem runs_query {α : Type} {a : α} {f : Io → World → α}
    (h : (do
      let io : Io ← wait .statement
      let w ← look
      let _ ← wait .answer
      pure (f io w) : M α).Runs (World.apply cfg) Elapses s rs a s') :
    ∃ io t, statements rs = [io] ∧ Elapses s t ∧ Elapses t s' ∧ a = f io t := by
  obtain ⟨rs₁, io, t, rs₂, hrs, hwait, h₁⟩ := Proc.runs_bind h
  obtain ⟨rs₃, w, t', rs₄, hrs', hlook, h₂⟩ := Proc.runs_bind h₁
  obtain ⟨rs₅, v, t'', rs₆, hrs'', hans, h₃⟩ := Proc.runs_bind h₂
  obtain ⟨rfl, ht⟩ := Proc.runs_wait hwait
  obtain ⟨rfl, rfl, rfl⟩ := Proc.runs_look hlook
  obtain ⟨rfl, ht'⟩ := Proc.runs_wait hans
  obtain ⟨rfl, ha, rfl⟩ := Proc.runs_pure h₃
  exact ⟨io, _, by rw [hrs, hrs', hrs'']; rfl, ht, ht', ha⟩

theorem runs_emits {α : Type} {as : List α} {f : α → Effect}
    (hsame : ∀ a s, SameOrders s (World.apply cfg (f a) s))
    (h : (forEach as fun a => emit (f a)).Runs (World.apply cfg) Elapses s rs u s') :
    SameOrders s s' := by
  induction as generalizing s rs with
  | nil =>
    obtain ⟨-, -, rfl⟩ := Proc.runs_pure h
    exact ⟨rfl, rfl, rfl, rfl, rfl⟩
  | cons a as ih =>
    obtain ⟨rs₁, v, t, rs₂, -, hone, hrest⟩ := Proc.runs_bind h
    obtain ⟨-, rfl⟩ := Proc.runs_emit hone
    exact (hsame a s).trans (ih hrest)

theorem InQueue.congr (h : s'.queue = s.queue) (oid : OrderId) :
    InQueue s' oid ↔ InQueue s oid := by
  simp only [InQueue, h]

theorem loadedRows_active {w : World} {ios : List Io} :
    ∀ o ∈ loadedRows w ios, o.state ∈ activeStates := by
  intro o ho
  unfold loadedRows at ho
  split at ho
  · simpa using (List.mem_filter.mp ho).2
  · cases ho

theorem loadedRows_nodup {w : World} {ios : List Io}
    (h : (w.rows.values.map OmniOrder.omsOrderId).Nodup) :
    ((loadedRows w ios).map OmniOrder.omsOrderId).Nodup := by
  unfold loadedRows
  split
  · exact h.sublist (List.filter_sublist.map _)
  · exact List.nodup_nil

theorem runs_loads {brackets : M (List BracketOrder)} {ocos : M (List OCOOrder)}
    (hb : ∀ s rs a s', brackets.Runs (World.apply cfg) Elapses s rs a s' → SameOrders s s')
    (ho : ∀ s rs a s', ocos.Runs (World.apply cfg) Elapses s rs a s' → SameOrders s s')
    (h : (do
      let brackets ← brackets
      forEach brackets fun row => emit (.recoveredBracket row)
      let ocos ← ocos
      forEach ocos fun row => emit (.recoveredOco row) : M Unit).Runs (World.apply cfg) Elapses
        s rs u s') : SameOrders s s' := by
  obtain ⟨rs₁, bs, t₁, rs₂, -, h₁, h'⟩ := Proc.runs_bind h
  obtain ⟨rs₃, v, t₂, rs₄, -, h₂, h''⟩ := Proc.runs_bind h'
  obtain ⟨rs₅, os, t₃, rs₆, -, h₃, h₄⟩ := Proc.runs_bind h''
  have hkeep : ∀ row s, SameOrders s (World.apply cfg (.recoveredBracket row) s) :=
    fun _ _ => ⟨rfl, rfl, rfl, rfl, rfl⟩
  have hkeep' : ∀ row s, SameOrders s (World.apply cfg (.recoveredOco row) s) :=
    fun _ _ => ⟨rfl, rfl, rfl, rfl, rfl⟩
  exact (((hb _ _ _ _ h₁).trans (runs_emits hkeep h₂)).trans (ho _ _ _ _ h₃)).trans
    (runs_emits hkeep' h₄)

theorem restarts_recovered (hrun : Restarts cfg s rs s') (horders : s.orders = [])
    (hids : (s.rows.values.map OmniOrder.omsOrderId).Nodup) :
    Recovered (loadedRows s (statements rs)) s' ∧ s'.rows = s.rows ∧
      ∀ oid, InQueue s' oid ↔ InQueue s oid ∨ ∃ io ≠ Io.failed,
        (oid, io) ∈ pushes (loadedRows s (statements rs)) (statements rs).tail := by
  obtain ⟨rs₁, v, t, rs₂, rfl, hrec, hstarted⟩ := Proc.runs_bind hrun
  obtain ⟨rfl, rfl⟩ := Proc.runs_emit hstarted
  obtain ⟨rs₃, rows, t₁, rs₄, rfl, hload, hrest⟩ := Proc.runs_bind hrec
  obtain ⟨rs₅, v, t₂, rs₆, rfl, hrows, hlast⟩ := Proc.runs_bind hrest
  obtain ⟨io, t₀, hst, ht₀, ht₁, hread⟩ := runs_query hload
  have hsame : SameOrders s t₁ := ht₀.same.trans ht₁.same
  have hlater : SameOrders t₂ t := by
    refine runs_loads ?_ ?_ hlast
    · intro s rs a s' h
      obtain ⟨-, t, -, ht, ht', -⟩ := runs_query h
      exact ht.same.trans ht'.same
    · intro s rs a s' h
      obtain ⟨-, t, -, ht, ht', -⟩ := runs_query h
      exact ht.same.trans ht'.same
  have hsts : statements (rs₃ ++ (rs₅ ++ rs₆) ++ []) =
      io :: (statements rs₅ ++ statements rs₆) := by
    simp [statements_append, hst]
  rw [hsts]
  have hread' : rows = loadedRows s (io :: (statements rs₅ ++ statements rs₆)) := by
    rw [hread, ht₀.same.rows]
    simp [loadedRows]
  rw [← hread', List.tail_cons]
  have hact : ∀ o ∈ [] ++ rows, o.state ∈ activeStates := by
    rw [hread']
    exact loadedRows_active
  have hnodup : (([] ++ rows).map OmniOrder.omsOrderId).Nodup := by
    rw [hread']
    exact loadedRows_nodup hids
  have hempty : Recovered [] t₁ := by
    constructor
    · simp
    · simp [hsame.orders, horders]
  obtain ⟨hrecd, hkept, hlen, hpushed⟩ := runs_recoverOrders hrows hempty hact hnodup
  refine ⟨⟨?_, ?_⟩, ?_, fun oid => ?_⟩
  · intro row hrow
    have hfound := hrecd.found row hrow
    simpa only [World.apply, hlater.orders, hlater.heap] using hfound
  · have hknown := hrecd.known
    simpa only [List.nil_append, World.apply, hlater.orders, hlater.heap, hlater.nextRef]
      using hknown
  · exact hlater.rows.trans (hkept.trans hsame.rows)
  · have happ : pushes rows (statements rs₅ ++ statements rs₆) = pushes rows (statements rs₅) := by
      have hp : pushes (rows ++ []) (statements rs₅ ++ statements rs₆) = _ :=
        pushes_append hlen (statements rs₆)
      simpa [pushes] using hp
    rw [happ, ← InQueue.congr hsame.queue, ← hpushed]
    exact InQueue.congr hlater.queue oid

theorem mem_values_of_get {κ ν : Type} [DecidableEq κ] {d : Dict κ ν} {k : κ} {v : ν}
    (h : d.get k = some v) : v ∈ d.values :=
  List.mem_map.mpr ⟨(k, v), Dict.mem_of_get h, rfl⟩

theorem driven_of_object {w : World} {oid : OrderId} {r : Ref} (h : w.orders.get oid = some r) :
    Driven w oid ↔
      (InQueue w oid ∧ (w.heap r).state = .queued) ∨
        (w.heap r).state ∈ [OMSOrderState.unknown, .reconciling] ∨
          ((w.heap r).brokerOrderId ≠ "" ∧ (w.heap r).state ∈ [OMSOrderState.pending, .partialFill]) := by
  have hmem := mem_values_of_get h
  simp only [Driven, current, h, Option.mem_some_iff, exists_eq_left',
    StateMachine.canTransition_sent, unknownOrders, bookOrders, List.mem_filter, hmem, true_and,
    decide_eq_true_eq]

theorem driven_of_row {w : World} {oid : OrderId} {row : OmniOrder}
    (h : w.orders.get oid = none) (hrow : w.rows.get oid = some row) :
    Driven w oid ↔ InQueue w oid ∧ row.state = .queued := by
  simp [Driven, current, h, hrow, StateMachine.canTransition_sent]

theorem rows_ids (hinv : s.Inv) :
    s.rows.values.map OmniOrder.omsOrderId = s.rows.map Prod.fst := by
  simp only [Dict.values, List.map_map]
  refine List.map_congr_left fun p hp => ?_
  exact (hinv.rows p hp).1

theorem rows_get (hinv : s.Inv) {row : OmniOrder} (hrow : row ∈ s.rows.values) :
    s.rows.get row.omsOrderId = some row := by
  obtain ⟨⟨k, o⟩, hp, rfl⟩ := List.mem_map.mp hrow
  have hid : o.omsOrderId = k := (hinv.rows _ hp).1
  exact Dict.get_of_mem hinv.keys (by rwa [hid])

theorem mem_loadedRows {w : World} {ios : List Io} {row : OmniOrder} :
    row ∈ loadedRows w ios ↔
      ios.head? = some .done ∧ row ∈ w.rows.values ∧ row.state ∈ activeStates := by
  unfold loadedRows
  split
  · next h => simp [h]
  · next h => simp [h]

theorem driven_iff (hrun : Restarts cfg s rs s') (hinv : s.Inv) (horders : s.orders = [])
    {row : OmniOrder} (hrow : row ∈ s.rows.values) :
    Driven s' row.omsOrderId ↔ Resumes s (statements rs) row := by
  have hids : (s.rows.values.map OmniOrder.omsOrderId).Nodup := by
    rw [rows_ids hinv]
    exact hinv.keys
  obtain ⟨hrec, hrows, hqueue⟩ := restarts_recovered hrun horders hids
  by_cases hload : row ∈ loadedRows s (statements rs)
  · obtain ⟨hhead, -, hact⟩ := mem_loadedRows.mp hload
    obtain ⟨r, hget, hheap⟩ := hrec.found row hload
    have hnot : row.state ∉ [OMSOrderState.unknown, .reconciling] := by
      revert hact
      cases row.state <;> simp [activeStates]
    rw [driven_of_object hget, hheap, hqueue]
    simp only [Resumes, hhead, hnot, false_or, and_true]
    rw [and_comm (b := row.state = .queued), and_comm (a := row.brokerOrderId ≠ "")]
  · have hnone : s'.orders.get row.omsOrderId = none := by
      cases hget : s'.orders.get row.omsOrderId with
      | none => rfl
      | some r =>
        obtain ⟨-, o, ho, -, hid⟩ := hrec.known _ (Dict.mem_of_get hget)
        have hsame := List.inj_on_of_nodup_map hids hrow (mem_loadedRows.mp ho).2.1 hid
        exact absurd (hsame ▸ ho) hload
    have hkept : s'.rows.get row.omsOrderId = some row := by
      rw [hrows]
      exact rows_get hinv hrow
    have hnot : ¬ (row.state ∈ [OMSOrderState.pending, .partialFill] ∧
        (statements rs).head? = some .done) := by
      rintro ⟨hst, hhead⟩
      refine hload (mem_loadedRows.mpr ⟨hhead, hrow, ?_⟩)
      revert hst
      cases row.state <;> simp [activeStates]
    rw [driven_of_row hnone hkept, hqueue, and_comm]
    simp only [Resumes]
    refine ⟨.inl, fun h => h.resolve_right ?_⟩
    rintro ⟨hst, -, hhead⟩
    exact hnot ⟨hst, hhead⟩

end Runs

section Lives

variable {cfg : Settings}

theorem life_restart {es : List Effect} {P : Pool World Effect Reply Tag} (h : Life cfg es P)
    {rs : List (Sigma Reply)} {w : World} (hrun : Restarts cfg P.state.crash rs w) :
    ∃ fs, Life cfg (es ++ [.crash] ++ fs) ⟨w, []⟩ := by
  have hstart : (system cfg).step ⟨P.state.crash, []⟩ (.start .start) =
      some ((system cfg).segment P.state.crash [] ⟨.boot, start⟩ []) := rfl
  have hcrash : (system cfg).Life .crash initial (es ++ [.crash]) ⟨P.state.crash, []⟩ := .crash h
  have hbegun := hcrash.step (.start .start) hstart
  have henv : ∀ s s', Elapses s s' → ∃ e, (system cfg).env s e = true ∧ (system cfg).apply e s = s' := by
    rintro s s' ⟨t, rfl⟩
    exact ⟨.elapse t, rfl, rfl⟩
  have halone : (system cfg).Life .crash initial
      (es ++ [.crash] ++ (start.advance (World.apply cfg) P.state.crash).1)
      ⟨(start.advance (World.apply cfg) P.state.crash).2.1,
        Task.settle ⟨.boot, (start.advance (World.apply cfg) P.state.crash).2.2⟩⟩ := by
    have happly : (system cfg).apply = World.apply cfg := rfl
    simpa [System.segment, happly] using hbegun
  obtain ⟨fs, hfs⟩ := System.life_of_runs (fun _ _ _ => rfl) henv hrun halone ({} : Outside).reply
  exact ⟨_, by simpa only [Life, List.append_assoc] using hfs⟩

/-- Wherever the process dies and whatever is answered during the restart, a stored
order that is not terminal is driven again exactly when the restart takes it up. -/
theorem driven_after_restart {es : List Effect} {P : Pool World Effect Reply Tag}
    (h : Life cfg es P) {rs : List (Sigma Reply)} {w : World}
    (hrun : Restarts cfg P.state.crash rs w) :
    (∃ fs, Life cfg (es ++ [.crash] ++ fs) ⟨w, []⟩) ∧
      ∀ row ∈ P.state.rows.values, row.state ∉ terminalOmsStates →
        (Driven w row.omsOrderId ↔ Resumes P.state (statements rs) row) := by
  have hinv : P.state.Inv := inv_of_life h
  refine ⟨life_restart h hrun, fun row hrow _ => ?_⟩
  exact driven_iff hrun hinv.crash rfl hrow

def restarted (w : World) : World :=
  (start.finish (World.apply bare) ({} : Outside).reply w.crash).2

theorem restarts_restarted (w : World) : ∃ rs, Restarts bare w.crash rs (restarted w) :=
  ⟨_, Proc.runs_finish (fun _ => ⟨0, rfl⟩) _ _ _⟩

/-- An order that waits in the queue when the process dies is driven after a restart. -/
theorem queuedTen_driven_after_restart :
    ∃ es P rs w, Life bare es P ∧ Restarts bare P.state.crash rs w ∧
      ∃ row ∈ P.state.rows.values, row.state = .queued ∧ Driven w row.omsOrderId := by
  obtain ⟨es, P, hrun, row, hrow, hqueued, hin⟩ := (system bare).exists_run initial
    (alone .start 6 {} ++ alone (.placeOrder buyTen none) 6 {})
    (p := fun _ P => ∃ row ∈ P.state.rows.values, row.state = .queued ∧
      InQueue P.state row.omsOrderId)
    (by decide)
  obtain ⟨rs, hrs⟩ := restarts_restarted P.state
  have hnt : row.state ∉ terminalOmsStates := by simp [hqueued, terminalOmsStates]
  have hdriven := ((driven_after_restart hrun.life hrs).2 row hrow hnt).mpr (.inl ⟨hqueued, .inl hin⟩)
  exact ⟨es, P, rs, _, hrun.life, hrs, row, hrow, hqueued, hdriven⟩

/-- An order whose send was never answered is stored as `UNKNOWN` and driven by nobody
after a restart. -/
theorem unknownTen_orphaned :
    ∃ es P rs w, Life bare es P ∧ Restarts bare P.state.crash rs w ∧
      ∃ row ∈ P.state.rows.values, row.state ∉ terminalOmsStates ∧ ¬ Driven w row.omsOrderId := by
  obtain ⟨es, P, hrun, horphan⟩ := (system bare).exists_run initial
    (alone .start 6 {} ++ alone (.placeOrder buyTen none) 6 {} ++
      alone .processQueue 7 { placed := some { indeterminate := true } })
    (p := fun _ P => ∃ row ∈ P.state.rows.values, row.state ∉ terminalOmsStates ∧
      ¬ Driven (restarted P.state) row.omsOrderId)
    (by decide)
  obtain ⟨rs, hrs⟩ := restarts_restarted P.state
  exact ⟨es, P, rs, _, hrun.life, hrs, horphan⟩

end Lives

end Trademetrix.Oms
