import Trademetrix.ExecutionEngine.PartialFills
import Mathlib.Data.List.Sort

/-!
# Checkpoints of the engine

What is written of a user's positions, lots and accounts, and what a restarted process
puts back. The trade ledger is not written: it begins anew with the process.
-/

namespace Trademetrix.ExecutionEngine

section Checkpoints

structure LotsDump where
  longs : List (ℤ × ℚ)
  shorts : List (ℤ × ℚ)
  deriving DecidableEq

def FifoLots.toLots (fifo : FifoLots) : LotsDump where
  longs := fifo.longs.map fun lot => (lot.quantity, lot.price)
  shorts := fifo.shorts.map fun lot => (lot.quantity, lot.price)

def FifoLots.fromLots (lots : LotsDump) : FifoLots where
  longs := lots.longs.map fun pair => ⟨pair.1, pair.2⟩
  shorts := lots.shorts.map fun pair => ⟨pair.1, pair.2⟩

@[simp] theorem fromLots_toLots (fifo : FifoLots) : FifoLots.fromLots fifo.toLots = fifo := by
  simp [FifoLots.fromLots, FifoLots.toLots, Function.comp_def]

structure Checkpoint where
  positions : List EnginePosition
  fifos : Dict String LotsDump
  accounts : List PnLAccount
  deriving DecidableEq

def positionLe (p q : EnginePosition) : Prop :=
  p.broker < q.broker ∨ (p.broker = q.broker ∧ p.symbol ≤ q.symbol)

instance : DecidableRel positionLe := fun _ _ => inferInstanceAs (Decidable (_ ∨ _))

def dumpEngineState (userId : String) (s : EngineState) : Checkpoint where
  positions := (getPositions userId "" s.book.positions).insertionSort positionLe
  fifos :=
    ((s.book.fifos.filter fun p => Text.startsWith p.1 (userId ++ ":")).map
      fun p => (p.1, p.2.toLots)).insertionSort fun p q => p.1 ≤ q.1
  accounts :=
    (Dict.values (s.accounts.filter fun p => Text.startsWith p.1 (userId ++ ":"))).insertionSort
      fun a b => a.broker ≤ b.broker

/-- The checkpoint that `persist_engine` writes, if it writes one. -/
def persistEngine (userId : String) (s : EngineState) : Option Checkpoint :=
  let state := dumpEngineState userId s
  if state.positions = [] ∧ state.accounts = [] then none else some state

def Checkpoint.positionEntries (userId : String) (data : Checkpoint) :
    Dict String EnginePosition :=
  (data.positions.filter fun position => position.userId = userId).map
    fun position => (positionKey userId position.broker position.symbol, position)

def Checkpoint.fifoEntries (userId : String) (data : Checkpoint) : Dict String FifoLots :=
  (data.fifos.filter fun p => Text.startsWith p.1 (userId ++ ":")).map
    fun p => (p.1, FifoLots.fromLots p.2)

def Checkpoint.accountEntries (userId : String) (data : Checkpoint) : Dict String PnLAccount :=
  (data.accounts.filter fun account => account.userId = userId).map
    fun account => (accountKey userId account.broker, account)

def restoreUserState (s : EngineState) (row : String × Checkpoint) : EngineState :=
  { s with
    book :=
      { positions := s.book.positions.update (row.2.positionEntries row.1)
        fifos := s.book.fifos.update (row.2.fifoEntries row.1) }
    accounts := s.accounts.update (row.2.accountEntries row.1) }

/-- What `recover_runtime_state` does with the rows of the store. -/
def recover (rows : List (String × Checkpoint)) (s : EngineState) : EngineState :=
  rows.foldl restoreUserState s

theorem recover_eq (rows : List (String × Checkpoint)) (s : EngineState) :
    recover rows s =
      { s with
        book :=
          { positions :=
              s.book.positions.update (rows.flatMap fun row => row.2.positionEntries row.1)
            fifos := s.book.fifos.update (rows.flatMap fun row => row.2.fifoEntries row.1) }
        accounts := s.accounts.update (rows.flatMap fun row => row.2.accountEntries row.1) } := by
  induction rows generalizing s with
  | nil => rfl
  | cons row rows ih =>
    have hcons : recover (row :: rows) s = recover rows (restoreUserState s row) := rfl
    rw [hcons, ih]
    simp only [restoreUserState, List.flatMap_cons, Dict.update_append]

end Checkpoints

section Filing

inductive Reachable : EngineState → Prop
  | start (today : String) : Reachable { today := today }
  | step {s : EngineState} (h : Reachable s) (action : Action) : Reachable (s.step action)
  | restart (rows : List (String × Checkpoint)) (today : String) :
    Reachable (recover rows { today := today })

structure EngineState.Filed (s : EngineState) : Prop where
  positions : (s.book.positions.map Prod.fst).Nodup
  fifos : (s.book.fifos.map Prod.fst).Nodup
  accounts : (s.accounts.map Prod.fst).Nodup
  position_key : ∀ {key position}, s.book.positions.get key = some position → key = position.key
  account_key : ∀ {key account}, s.accounts.get key = some account → key = account.key

variable {s : EngineState}

theorem onTradeEvent_book (event : ExecutionEngineEvent) (book : PositionBook) :
    (onTradeEvent event book).1 = book ∨
    (∃ fifo, (onTradeEvent event book).1 = { book with fifos := book.fifos.set event.key fifo }) ∨
    ∃ fifo realized, (onTradeEvent event book).1 =
      { positions :=
          book.positions.set event.key
            (syncPosition event (book.positions.get event.key) fifo realized)
        fifos := book.fifos.set event.key fifo } := by
  simp only [onTradeEvent]
  split
  · exact .inl rfl
  · split
    · exact .inl rfl
    · split
      · exact .inl rfl
      · split
        · exact .inr (.inl ⟨_, rfl⟩)
        · exact .inr (.inr ⟨_, _, rfl⟩)

theorem filed_onTradeEvent (h : s.Filed) (event : ExecutionEngineEvent) :
    { s with book := (onTradeEvent event s.book).1 }.Filed := by
  rcases onTradeEvent_book event s.book with heq | ⟨fifo, heq⟩ | ⟨fifo, realized, heq⟩
  · rw [heq]
    exact h
  · rw [heq]
    exact { h with fifos := Dict.nodup_keys_set h.fifos _ _ }
  · rw [heq]
    refine ⟨Dict.nodup_keys_set h.positions _ _, Dict.nodup_keys_set h.fifos _ _, h.accounts,
      fun {key position} hget => ?_, h.account_key⟩
    rw [Dict.get_set] at hget
    split at hget
    · next hkey =>
      cases hget
      have hbase : (syncPosition event (s.book.positions.get event.key) fifo realized).key =
          (basePosition event (s.book.positions.get event.key)).key := rfl
      rw [hbase, hkey]
      cases hold : s.book.positions.get event.key with
      | none => rfl
      | some position => exact h.position_key hold
    · exact h.position_key hget

theorem filed_set_account (h : s.Filed) {account : PnLAccount} {key : String}
    (hkey : key = account.key) : { s with accounts := s.accounts.set key account }.Filed := by
  refine { h with accounts := Dict.nodup_keys_set h.accounts _ _, account_key := ?_ }
  intro key' account' hget
  rw [Dict.get_set] at hget
  split at hget
  · next heq =>
    cases hget
    rw [heq, hkey]
  · exact h.account_key hget

theorem ensureAccount_key (h : s.Filed) (userId broker : String) :
    accountKey userId broker = (ensureAccount s.today userId broker s.accounts).key := by
  cases hget : s.accounts.get (accountKey userId broker) with
  | none => simp [ensureAccount, hget, PnLAccount.key]
  | some account =>
    have hkey := h.account_key hget
    simpa [ensureAccount, hget, PnLAccount.key] using hkey

theorem filed_publish (h : s.Filed) (events : List ExecutionEngineEvent) :
    (s.publish events).Filed :=
  ⟨h.positions, h.fifos, h.accounts, h.position_key, h.account_key⟩

theorem recompute_key (today : String) (totals : ℚ × ℚ) (account : PnLAccount) :
    (account.recompute today totals).key = account.key := rfl

theorem filed_recompute (h : s.Filed) (userId broker : String) :
    (s.recompute userId broker).Filed := by
  have hkey := ensureAccount_key h userId broker
  rw [← recompute_key s.today (aggregatePnl userId broker s.book.positions)] at hkey
  exact filed_publish (filed_set_account h hkey) _

theorem filed_handle (h : s.Filed) (event : ExecutionEngineEvent) : (s.handle event).Filed := by
  unfold EngineState.handle
  cases event.domain with
  | order =>
    simp only [EngineState.onOrderEvent]
    split
    · exact h
    · exact filed_publish (s := { s with ledger := s.ledger.add _ })
        ⟨h.positions, h.fifos, h.accounts, h.position_key, h.account_key⟩ _
  | trade => exact filed_publish (filed_onTradeEvent h event) _
  | position => exact filed_recompute h _ _
  | portfolio =>
    simp only [EngineState.onPortfolioEvent]
    split
    · exact h
    · exact filed_publish h _
  | execution | risk => exact h

theorem filed_mark (h : s.Filed) (userId broker : String) (prices : Dict String ℚ) :
    { s with book := (markToMarket userId broker prices s.book).1 }.Filed := by
  refine ⟨?_, h.fifos, h.accounts, fun {key position} hget => ?_, h.account_key⟩
  · simpa [markToMarket, Function.comp_def] using h.positions
  · simp only [markToMarket, Dict.get_map, Option.map_eq_some_iff] at hget
    obtain ⟨old, hold, rfl⟩ := hget
    obtain ⟨-, huser, hbroker, hsymbol⟩ :=
      markedPosition_fields userId broker prices s.book.fifos key old
    rw [EnginePosition.key, huser, hbroker, hsymbol]
    exact h.position_key hold

theorem filed_step (h : s.Filed) (action : Action) : (s.step action).Filed := by
  cases action with
  | legacy | outcome | order => exact filed_publish h _
  | dispatch =>
    cases hq : s.queue with
    | nil =>
      rw [dispatch_idle hq]
      exact h
    | cons event queue =>
      have hrest : { s with queue := queue }.Filed :=
        ⟨h.positions, h.fifos, h.accounts, h.position_key, h.account_key⟩
      simp only [EngineState.step, EngineState.dispatch, hq]
      exact filed_handle hrest event
  | mark userId broker prices => exact filed_publish (filed_mark h userId broker prices) _
  | account userId broker => exact filed_set_account h (ensureAccount_key h userId broker)
  | day today => exact ⟨h.positions, h.fifos, h.accounts, h.position_key, h.account_key⟩

theorem filed_restore (h : s.Filed) (row : String × Checkpoint) :
    (restoreUserState s row).Filed := by
  refine ⟨Dict.nodup_keys_update h.positions _, Dict.nodup_keys_update h.fifos _,
    Dict.nodup_keys_update h.accounts _, fun {key position} hget => ?_,
    fun {key account} hget => ?_⟩
  · rcases Dict.mem_update (Dict.mem_of_get hget) with hmem | hmem
    · exact h.position_key ((Dict.get_eq_some h.positions).mpr hmem)
    · obtain ⟨position, hposition, heq⟩ := List.mem_map.mp hmem
      cases heq
      have huser : position.userId = row.1 := by simpa using (List.mem_filter.mp hposition).2
      rw [EnginePosition.key, huser]
  · rcases Dict.mem_update (Dict.mem_of_get hget) with hmem | hmem
    · exact h.account_key ((Dict.get_eq_some h.accounts).mpr hmem)
    · obtain ⟨account, haccount, heq⟩ := List.mem_map.mp hmem
      cases heq
      have huser : account.userId = row.1 := by simpa using (List.mem_filter.mp haccount).2
      rw [PnLAccount.key, huser]

theorem filed_recover (h : s.Filed) (rows : List (String × Checkpoint)) :
    (recover rows s).Filed := by
  induction rows generalizing s with
  | nil => exact h
  | cons row rows ih => exact ih (filed_restore h row)

theorem filed_start (today : String) : ({ today := today } : EngineState).Filed :=
  ⟨List.nodup_nil, List.nodup_nil, List.nodup_nil, fun h => absurd h (by simp [Dict.get]),
    fun h => absurd h (by simp [Dict.get])⟩

theorem Reachable.filed (h : Reachable s) : s.Filed := by
  induction h with
  | start today => exact filed_start today
  | step _ action ih => exact filed_step ih action
  | restart rows today => exact filed_recover (filed_start today) rows

theorem recover_recover (h : s.Filed) (rows : List (String × Checkpoint)) :
    recover rows (recover rows s) = recover rows s := by
  rw [recover_eq rows s, recover_eq]
  simp only [Dict.update_update h.positions, Dict.update_update h.fifos,
    Dict.update_update h.accounts]

end Filing

section Restoring

variable {s : EngineState}

def checkpoints (users : List String) (s : EngineState) : List (String × Checkpoint) :=
  users.filterMap fun userId => (persistEngine userId s).map fun data => (userId, data)

structure Covers (users : List String) (s : EngineState) : Prop where
  positions : ∀ p ∈ s.book.positions, p.2.userId ∈ users
  fifos : ∀ p ∈ s.book.fifos, ∃ userId ∈ users,
    (persistEngine userId s).isSome ∧ Text.startsWith p.1 (userId ++ ":") = true
  accounts : ∀ p ∈ s.accounts, p.2.userId ∈ users

theorem mem_checkpoints {users : List String} {row : String × Checkpoint} :
    row ∈ checkpoints users s ↔ row.1 ∈ users ∧ persistEngine row.1 s = some row.2 := by
  obtain ⟨userId, data⟩ := row
  simp only [checkpoints, List.mem_filterMap, Option.map_eq_some_iff, Prod.mk.injEq]
  constructor
  · rintro ⟨user, hmem, data', hdata, rfl, rfl⟩
    exact ⟨hmem, hdata⟩
  · rintro ⟨hmem, hdata⟩
    exact ⟨userId, hmem, data, hdata, rfl, rfl⟩

theorem persistEngine_eq {userId : String} {data : Checkpoint}
    (h : persistEngine userId s = some data) : data = dumpEngineState userId s := by
  simp only [persistEngine] at h
  split at h
  · cases h
  · exact (Option.some.inj h).symm

theorem persistEngine_isSome {userId : String}
    (h : (dumpEngineState userId s).positions ≠ [] ∨ (dumpEngineState userId s).accounts ≠ []) :
    persistEngine userId s = some (dumpEngineState userId s) := by
  simp only [persistEngine]
  rw [if_neg]
  rintro ⟨hp, ha⟩
  exact h.elim (fun hne => hne hp) fun hne => hne ha

theorem startsWith_append (a b : String) : Text.startsWith (a ++ b) a = true := by
  rw [Text.startsWith_iff, String.toList_append]
  exact List.prefix_append _ _

theorem positionKey_startsWith (userId broker symbol : String) :
    Text.startsWith (positionKey userId broker symbol) (userId ++ ":") = true := by
  have hsplit : positionKey userId broker symbol =
      (userId ++ ":") ++ (broker ++ ":" ++ symbol) := by
    simp only [positionKey, String.append_assoc]
  rw [hsplit]
  exact startsWith_append _ _

theorem mem_dump_positions {userId : String} {position : EnginePosition} :
    position ∈ (dumpEngineState userId s).positions ↔
      ∃ key, (key, position) ∈ s.book.positions ∧ Text.startsWith key (userId ++ ":") = true := by
  simp [dumpEngineState, getPositions, Dict.values, positionPrefix]

theorem mem_dump_accounts {userId : String} {account : PnLAccount} :
    account ∈ (dumpEngineState userId s).accounts ↔
      ∃ key, (key, account) ∈ s.accounts ∧ Text.startsWith key (userId ++ ":") = true := by
  simp [dumpEngineState, Dict.values]

theorem position_dumped (h : s.Filed) {key : String} {position : EnginePosition}
    (hmem : (key, position) ∈ s.book.positions) :
    position ∈ (dumpEngineState position.userId s).positions := by
  have hkey : key = position.key := h.position_key ((Dict.get_eq_some h.positions).mpr hmem)
  refine mem_dump_positions.mpr ⟨key, hmem, ?_⟩
  rw [hkey]
  exact positionKey_startsWith _ _ _

theorem account_dumped (h : s.Filed) {key : String} {account : PnLAccount}
    (hmem : (key, account) ∈ s.accounts) :
    account ∈ (dumpEngineState account.userId s).accounts := by
  have hkey : key = account.key := h.account_key ((Dict.get_eq_some h.accounts).mpr hmem)
  refine mem_dump_accounts.mpr ⟨key, hmem, ?_⟩
  rw [hkey]
  exact startsWith_append (account.userId ++ ":") account.broker

theorem filled_perm {κ ν : Type} [DecidableEq κ] {d : Dict κ ν} {l : List (κ × ν)}
    (hd : (d.map Prod.fst).Nodup) (hl : ∀ p ∈ l, p ∈ d) (hall : ∀ p ∈ d, p.1 ∈ l.map Prod.fst) :
    d.Perm (Dict.update [] l) := by
  refine Dict.perm_of_get hd (Dict.nodup_keys_update (d := []) List.nodup_nil l) fun k => ?_
  have hagree : ∀ p ∈ l, d.get p.1 = some p.2 := fun p hp => (Dict.get_eq_some hd).mpr (hl p hp)
  rw [Dict.get_update_agree hagree]
  split
  · rfl
  · next hk =>
    cases hget : d.get k with
    | none => rfl
    | some v => exact absurd (hall _ (Dict.mem_of_get hget)) hk

variable {users : List String}

theorem positions_restored (h : s.Filed) (hc : Covers users s) :
    s.book.positions.Perm
      (Dict.update [] ((checkpoints users s).flatMap fun row => row.2.positionEntries row.1)) := by
  refine filled_perm h.positions (fun p hp => ?_) fun p hp => ?_
  · obtain ⟨row, hrow, hp⟩ := List.mem_flatMap.mp hp
    obtain ⟨-, hdata⟩ := mem_checkpoints.mp hrow
    obtain ⟨position, hposition, rfl⟩ := List.mem_map.mp hp
    obtain ⟨hmem, huser⟩ := List.mem_filter.mp hposition
    rw [persistEngine_eq hdata] at hmem
    obtain ⟨key, hkey, -⟩ := mem_dump_positions.mp hmem
    have hown : key = position.key := h.position_key ((Dict.get_eq_some h.positions).mpr hkey)
    have huser' : position.userId = row.1 := by simpa using huser
    rw [hown, EnginePosition.key, huser'] at hkey
    exact hkey
  · obtain ⟨key, position⟩ := p
    have hdump := position_dumped h hp
    have hwritten := persistEngine_isSome (.inl (List.ne_nil_of_mem hdump))
    have hkey : key = position.key := h.position_key ((Dict.get_eq_some h.positions).mpr hp)
    have hrow : (position.userId, dumpEngineState position.userId s) ∈ checkpoints users s :=
      mem_checkpoints.mpr ⟨hc.positions _ hp, hwritten⟩
    have hentry : (key, position) ∈
        (dumpEngineState position.userId s).positionEntries position.userId := by
      rw [hkey]
      exact List.mem_map.mpr ⟨position, List.mem_filter.mpr ⟨hdump, by simp⟩, rfl⟩
    exact List.mem_map_of_mem (List.mem_flatMap.mpr ⟨_, hrow, hentry⟩)

theorem accounts_restored (h : s.Filed) (hc : Covers users s) :
    s.accounts.Perm
      (Dict.update [] ((checkpoints users s).flatMap fun row => row.2.accountEntries row.1)) := by
  refine filled_perm h.accounts (fun p hp => ?_) fun p hp => ?_
  · obtain ⟨row, hrow, hp⟩ := List.mem_flatMap.mp hp
    obtain ⟨-, hdata⟩ := mem_checkpoints.mp hrow
    obtain ⟨account, haccount, rfl⟩ := List.mem_map.mp hp
    obtain ⟨hmem, huser⟩ := List.mem_filter.mp haccount
    rw [persistEngine_eq hdata] at hmem
    obtain ⟨key, hkey, -⟩ := mem_dump_accounts.mp hmem
    have hown : key = account.key := h.account_key ((Dict.get_eq_some h.accounts).mpr hkey)
    have huser' : account.userId = row.1 := by simpa using huser
    rw [hown, PnLAccount.key, huser'] at hkey
    exact hkey
  · obtain ⟨key, account⟩ := p
    have hdump := account_dumped h hp
    have hwritten := persistEngine_isSome (.inr (List.ne_nil_of_mem hdump))
    have hkey : key = account.key := h.account_key ((Dict.get_eq_some h.accounts).mpr hp)
    have hrow : (account.userId, dumpEngineState account.userId s) ∈ checkpoints users s :=
      mem_checkpoints.mpr ⟨hc.accounts _ hp, hwritten⟩
    have hentry : (key, account) ∈
        (dumpEngineState account.userId s).accountEntries account.userId := by
      rw [hkey]
      exact List.mem_map.mpr ⟨account, List.mem_filter.mpr ⟨hdump, by simp⟩, rfl⟩
    exact List.mem_map_of_mem (List.mem_flatMap.mpr ⟨_, hrow, hentry⟩)

theorem mem_dump_fifos {userId : String} {p : String × FifoLots} :
    p ∈ (dumpEngineState userId s).fifoEntries userId ↔
      p ∈ s.book.fifos ∧ Text.startsWith p.1 (userId ++ ":") = true := by
  simp only [Checkpoint.fifoEntries, dumpEngineState, List.mem_map, List.mem_filter,
    List.mem_insertionSort]
  constructor
  · rintro ⟨q, ⟨⟨p', ⟨hmem, hstart⟩, rfl⟩, -⟩, rfl⟩
    simpa using ⟨hmem, hstart⟩
  · rintro ⟨hmem, hstart⟩
    exact ⟨(p.1, p.2.toLots), ⟨⟨p, ⟨hmem, hstart⟩, rfl⟩, hstart⟩, by simp⟩

theorem fifos_restored (h : s.Filed) (hc : Covers users s) :
    s.book.fifos.Perm
      (Dict.update [] ((checkpoints users s).flatMap fun row => row.2.fifoEntries row.1)) := by
  refine filled_perm h.fifos (fun p hp => ?_) fun p hp => ?_
  · obtain ⟨row, hrow, hp⟩ := List.mem_flatMap.mp hp
    obtain ⟨-, hdata⟩ := mem_checkpoints.mp hrow
    rw [persistEngine_eq hdata] at hp
    exact (mem_dump_fifos.mp hp).1
  · obtain ⟨userId, huser, hwritten, hstart⟩ := hc.fifos p hp
    obtain ⟨data, hdata⟩ := Option.isSome_iff_exists.mp hwritten
    have hrow : (userId, data) ∈ checkpoints users s := mem_checkpoints.mpr ⟨huser, hdata⟩
    have hentry : p ∈ data.fifoEntries userId := by
      rw [persistEngine_eq hdata]
      exact mem_dump_fifos.mpr ⟨hp, hstart⟩
    exact List.mem_map_of_mem (List.mem_flatMap.mpr ⟨_, hrow, hentry⟩)

end Restoring

section Resuming

def SameEvent (e e' : ExecutionEngineEvent) : Prop :=
  e = e' ∨ (e.domain = .position ∧ e'.domain = .position ∧ e.userId = e'.userId ∧
    e.broker = e'.broker)

structure Alike (s r : EngineState) : Prop where
  queue : List.Forall₂ SameEvent s.queue r.queue
  positions : s.book.positions.Perm r.book.positions
  fifos : s.book.fifos.Perm r.book.fifos
  accounts : s.accounts.Perm r.accounts
  today : s.today = r.today
  filed : s.Filed

def EngineState.Plain (s : EngineState) : Action → Prop
  | .mark userId broker prices =>
    ∀ p ∈ s.book.positions, ∀ q ∈ s.book.positions,
      (markPrice userId broker prices p.1 p.2).isSome →
      (markPrice userId broker prices q.1 q.2).isSome →
      p.2.userId = q.2.userId ∧ p.2.broker = q.2.broker
  | _ => True

instance (s : EngineState) (action : Action) : Decidable (s.Plain action) :=
  match action with
  | .mark userId broker prices =>
    inferInstanceAs (Decidable (∀ p ∈ s.book.positions, ∀ q ∈ s.book.positions,
      (markPrice userId broker prices p.1 p.2).isSome →
      (markPrice userId broker prices q.1 q.2).isSome → _ ∧ _))
  | .legacy .. | .outcome .. | .order .. | .dispatch | .account .. | .day .. => .isTrue trivial

variable {s r : EngineState}

theorem SameEvent.tradeOf {e e' : ExecutionEngineEvent} (h : SameEvent e e') :
    tradeOf e = tradeOf e' := by
  rcases h with rfl | ⟨hd, hd', -⟩
  · rfl
  · rw [tradeOf_eq_none (by rw [hd]; decide), tradeOf_eq_none (by rw [hd']; decide)]

theorem sameEvents_refl (events : List ExecutionEngineEvent) :
    List.Forall₂ SameEvent events events :=
  List.forall₂_same.mpr fun _ _ => .inl rfl

theorem Alike.publish (h : Alike s r) {events events' : List ExecutionEngineEvent}
    (he : List.Forall₂ SameEvent events events') : Alike (s.publish events) (r.publish events') :=
  ⟨List.rel_append h.queue he, h.positions, h.fifos, h.accounts, h.today,
    filed_publish h.filed _⟩

theorem Alike.get_position (h : Alike s r) (key : String) :
    s.book.positions.get key = r.book.positions.get key :=
  Dict.get_of_perm h.filed.positions h.positions key

theorem Alike.get_fifo (h : Alike s r) (key : String) :
    s.book.fifos.get key = r.book.fifos.get key :=
  Dict.get_of_perm h.filed.fifos h.fifos key

theorem Alike.get_account (h : Alike s r) (key : String) :
    s.accounts.get key = r.accounts.get key :=
  Dict.get_of_perm h.filed.accounts h.accounts key

theorem Alike.aggregatePnl (h : Alike s r) (userId broker : String) :
    aggregatePnl userId broker s.book.positions = aggregatePnl userId broker r.book.positions := by
  have hrows : (getPositions userId broker s.book.positions).Perm
      (getPositions userId broker r.book.positions) := (h.positions.filter _).map _
  simp only [ExecutionEngine.aggregatePnl]
  rw [(hrows.map EnginePosition.realisedPnl).sum_eq, (hrows.map EnginePosition.unrealisedPnl).sum_eq]

theorem Alike.ensureAccount (h : Alike s r) (userId broker : String) :
    ensureAccount s.today userId broker s.accounts =
      ensureAccount r.today userId broker r.accounts := by
  unfold ExecutionEngine.ensureAccount
  rw [h.get_account, h.today]

theorem Alike.set_account (h : Alike s r) {key : String} {account : PnLAccount}
    (hkey : key = account.key) :
    Alike { s with accounts := s.accounts.set key account }
      { r with accounts := r.accounts.set key account } :=
  ⟨h.queue, h.positions, h.fifos, Dict.perm_set h.filed.accounts h.accounts _ _, h.today,
    filed_set_account h.filed hkey⟩

theorem Alike.recompute (h : Alike s r) (userId broker : String) :
    Alike (s.recompute userId broker) (r.recompute userId broker) := by
  have hkey := ensureAccount_key h.filed userId broker
  rw [← recompute_key s.today (ExecutionEngine.aggregatePnl userId broker s.book.positions)] at hkey
  have hsame : (ExecutionEngine.ensureAccount s.today userId broker s.accounts).recompute s.today
        (ExecutionEngine.aggregatePnl userId broker s.book.positions) =
      (ExecutionEngine.ensureAccount r.today userId broker r.accounts).recompute r.today
        (ExecutionEngine.aggregatePnl userId broker r.book.positions) := by
    rw [h.ensureAccount, h.aggregatePnl, h.today]
  have hset := h.set_account hkey
  simp only [EngineState.recompute]
  rw [← hsame]
  exact hset.publish (sameEvents_refl _)

theorem Alike.onTradeEvent (h : Alike s r) (event : ExecutionEngineEvent) :
    Alike (s.onTradeEvent event) (r.onTradeEvent event) := by
  have hfiled := filed_onTradeEvent h.filed event
  have hposition := h.get_position (positionKey event.userId event.broker event.symbol)
  have hfifo := h.get_fifo (positionKey event.userId event.broker event.symbol)
  have hsame : (ExecutionEngine.onTradeEvent event s.book).2 =
        (ExecutionEngine.onTradeEvent event r.book).2 ∧
      (ExecutionEngine.onTradeEvent event s.book).1.positions.Perm
        (ExecutionEngine.onTradeEvent event r.book).1.positions ∧
      (ExecutionEngine.onTradeEvent event s.book).1.fifos.Perm
        (ExecutionEngine.onTradeEvent event r.book).1.fifos := by
    simp only [ExecutionEngine.onTradeEvent, hposition, hfifo]
    split
    · exact ⟨rfl, h.positions, h.fifos⟩
    · split
      · exact ⟨rfl, h.positions, h.fifos⟩
      · split
        · exact ⟨rfl, h.positions, h.fifos⟩
        · split
          · exact ⟨rfl, h.positions, Dict.perm_set h.filed.fifos h.fifos _ _⟩
          · exact ⟨rfl, Dict.perm_set h.filed.positions h.positions _ _,
              Dict.perm_set h.filed.fifos h.fifos _ _⟩
  obtain ⟨hevents, hpositions, hfifos⟩ := hsame
  have hbook : Alike { s with book := (ExecutionEngine.onTradeEvent event s.book).1 }
      { r with book := (ExecutionEngine.onTradeEvent event r.book).1 } :=
    ⟨h.queue, hpositions, hfifos, h.accounts, h.today, hfiled⟩
  have hpublished : List.Forall₂ SameEvent (ExecutionEngine.onTradeEvent event s.book).2
      (ExecutionEngine.onTradeEvent event r.book).2 := by
    rw [hevents]
    exact sameEvents_refl _
  exact hbook.publish hpublished

theorem Alike.handle (h : Alike s r) {e e' : ExecutionEngineEvent} (he : SameEvent e e') :
    Alike (s.handle e) (r.handle e') := by
  rcases he with rfl | ⟨hd, hd', huser, hbroker⟩
  · unfold EngineState.handle
    cases e.domain with
    | order =>
      simp only [EngineState.onOrderEvent]
      split
      · exact h
      · next trade _ =>
        have hledger : Alike { s with ledger := s.ledger.add trade }
            { r with ledger := r.ledger.add trade } :=
          ⟨h.queue, h.positions, h.fifos, h.accounts, h.today, h.filed.positions, h.filed.fifos,
            h.filed.accounts, h.filed.position_key, h.filed.account_key⟩
        exact hledger.publish (sameEvents_refl _)
    | trade => exact h.onTradeEvent e
    | position => exact h.recompute _ _
    | portfolio =>
      simp only [EngineState.onPortfolioEvent]
      split
      · exact h
      · exact h.publish (sameEvents_refl _)
    | execution | risk => exact h
  · simp only [EngineState.handle, hd, hd', huser, hbroker]
    exact h.recompute _ _

theorem Alike.mark (h : Alike s r) {userId broker : String} {prices : Dict String ℚ}
    (hplain : s.Plain (.mark userId broker prices)) :
    Alike (s.markToMarket userId broker prices) (r.markToMarket userId broker prices) := by
  have hmarked : ∀ key position, markedPosition userId broker prices s.book.fifos key position =
      markedPosition userId broker prices r.book.fifos key position := by
    intro key position
    unfold markedPosition
    rw [h.get_fifo]
  have hpositions : (markToMarket userId broker prices s.book).1.positions.Perm
      (markToMarket userId broker prices r.book).1.positions := by
    simp only [markToMarket, hmarked]
    exact h.positions.map _
  have hevents : List.Forall₂ SameEvent (markToMarket userId broker prices s.book).2
      (markToMarket userId broker prices r.book).2 := by
    have hperm : (markToMarket userId broker prices s.book).2.Perm
        (markToMarket userId broker prices r.book).2 := by
      simp only [markToMarket, hmarked]
      exact (h.positions.filter _).map _
    have hone : ∀ e ∈ (markToMarket userId broker prices s.book).2,
        ∀ e' ∈ (markToMarket userId broker prices s.book).2, SameEvent e e' := by
      intro e he e' he'
      right
      refine ⟨markToMarket_events _ _ _ _ e he, markToMarket_events _ _ _ _ e' he', ?_⟩
      obtain ⟨p, hp, rfl⟩ := List.mem_map.mp he
      obtain ⟨q, hq, rfl⟩ := List.mem_map.mp he'
      obtain ⟨hpmem, hpmark⟩ := List.mem_filter.mp hp
      obtain ⟨hqmem, hqmark⟩ := List.mem_filter.mp hq
      obtain ⟨-, hpu, hpb, -⟩ :=
        markedPosition_fields userId broker prices s.book.fifos p.1 p.2
      obtain ⟨-, hqu, hqb, -⟩ :=
        markedPosition_fields userId broker prices s.book.fifos q.1 q.2
      simp only [positionEvent, hpu, hpb, hqu, hqb]
      exact hplain p hpmem q hqmem hpmark hqmark
    refine List.forall₂_iff_get.mpr ⟨hperm.length_eq, fun i hi hi' => ?_⟩
    exact hone _ (List.get_mem _ _) _ (hperm.mem_iff.mpr (List.get_mem _ _))
  have hbook : Alike { s with book := (markToMarket userId broker prices s.book).1 }
      { r with book := (markToMarket userId broker prices r.book).1 } :=
    ⟨h.queue, hpositions, h.fifos, h.accounts, h.today, filed_mark h.filed userId broker prices⟩
  exact hbook.publish hevents

theorem Alike.step (h : Alike s r) {action : Action} (hplain : s.Plain action) :
    Alike (s.step action) (r.step action) := by
  cases action with
  | legacy | outcome | order => exact h.publish (sameEvents_refl _)
  | dispatch =>
    have hqueue := h.queue
    cases hq : s.queue with
    | nil =>
      rw [hq, List.forall₂_nil_left_iff] at hqueue
      rw [dispatch_idle hq, dispatch_idle hqueue]
      exact h
    | cons event queue =>
      rw [hq, List.forall₂_cons_left_iff] at hqueue
      obtain ⟨event', queue', hevent, hrest, hq'⟩ := hqueue
      have htail : Alike { s with queue := queue } { r with queue := queue' } :=
        ⟨hrest, h.positions, h.fifos, h.accounts, h.today, h.filed.positions, h.filed.fifos,
          h.filed.accounts, h.filed.position_key, h.filed.account_key⟩
      simp only [EngineState.step, EngineState.dispatch, hq, hq']
      exact htail.handle hevent
  | mark userId broker prices => exact h.mark hplain
  | account userId broker =>
    have hset := h.set_account (ensureAccount_key h.filed userId broker)
    simp only [EngineState.step, EngineState.getAccount]
    rw [← h.ensureAccount]
    exact hset
  | day today =>
    exact ⟨h.queue, h.positions, h.fifos, h.accounts, rfl, h.filed.positions, h.filed.fifos,
      h.filed.accounts, h.filed.position_key, h.filed.account_key⟩

theorem Alike.run {actions : List Action} (h : Alike s r)
    (hplain : Along EngineState.Plain s actions) :
    Alike (s.run actions) (r.run actions) ∧
      fills (dispatchedEvents s actions) = fills (dispatchedEvents r actions) := by
  induction actions generalizing s r with
  | nil => exact ⟨h, rfl⟩
  | cons action actions ih =>
    obtain ⟨halike, hfills⟩ := ih (h.step hplain.1) hplain.2
    refine ⟨halike, ?_⟩
    by_cases ha : action = .dispatch
    · subst ha
      have hhead : fills s.queue.head?.toList = fills r.queue.head?.toList := by
        have hqueue := h.queue
        cases hq : s.queue with
        | nil =>
          rw [hq, List.forall₂_nil_left_iff] at hqueue
          rw [hqueue]
        | cons event queue =>
          rw [hq, List.forall₂_cons_left_iff] at hqueue
          obtain ⟨event', queue', hevent, -, hq'⟩ := hqueue
          rw [hq']
          simp only [fills, List.head?_cons, Option.toList_some, List.filterMap_cons,
            hevent.tradeOf]
      have hsplit : ∀ s : EngineState, dispatchedEvents s (.dispatch :: actions) =
          s.queue.head?.toList ++ dispatchedEvents (s.step .dispatch) actions := by
        intro s
        cases hq : s.queue <;> simp [dispatchedEvents, dispatched, hq]
      rw [hsplit, hsplit, fills_append, fills_append, hhead, hfills]
    · simp only [dispatchedEvents, dispatched_of_ne ha] at hfills ⊢
      exact hfills

theorem run_ledger (s : EngineState) (actions : List Action) :
    (s.run actions).ledger = s.ledger.addAll (fills (dispatchedEvents s actions)) := by
  induction actions generalizing s with
  | nil => rfl
  | cons action actions ih =>
    have hrun : s.run (action :: actions) = (s.step action).run actions := rfl
    rw [hrun, ih]
    by_cases ha : action = .dispatch
    · subst ha
      cases hq : s.queue with
      | nil => simp [dispatchedEvents, dispatched, dispatch_idle hq, hq]
      | cons event queue =>
        have hsplit : dispatchedEvents s (.dispatch :: actions) =
            [event] ++ dispatchedEvents (s.step .dispatch) actions := by
          simp [dispatchedEvents, dispatched, hq]
        have hstep : (s.step .dispatch).ledger = s.ledger.addAll (fills [event]) := by
          simp only [EngineState.step, EngineState.dispatch, hq]
          exact handle_ledger
        rw [hsplit, fills_append, TradeLedger.addAll_append, hstep]
    · have hstep : (s.step action).ledger = s.ledger := by
        cases action with
        | dispatch => exact absurd rfl ha
        | _ => rfl
      rw [hstep]
      simp only [dispatchedEvents, dispatched_of_ne ha]

def EngineState.holding (queue : List ExecutionEngineEvent) (s : EngineState) : EngineState :=
  { s with queue := queue }

def restarted (users : List String) (s : EngineState) : EngineState :=
  recover (checkpoints users s) { today := s.today }

theorem alike_restarted (h : s.Filed) {users : List String} (hc : Covers users s)
    (queue : List ExecutionEngineEvent) :
    Alike (s.holding queue) ((restarted users s).holding queue) := by
  have hpositions := positions_restored h hc
  have hfifos := fifos_restored h hc
  have haccounts := accounts_restored h hc
  rw [restarted, recover_eq]
  exact ⟨sameEvents_refl _, hpositions, hfifos, haccounts, rfl, h.positions, h.fifos, h.accounts,
    h.position_key, h.account_key⟩

/-- A restarted engine goes on as the one whose users were all written: the same positions,
lots and accounts after whatever comes, with the trades of its own time in its ledger.
To restore twice is to restore once. -/
theorem restart_resumes (h : Reachable s) (users : List String) (hc : Covers users s) :
    (∀ queue actions, Along EngineState.Plain (s.holding queue) actions →
      let went := (s.holding queue).run actions
      let resumed := ((restarted users s).holding queue).run actions
      went.book.positions.Perm resumed.book.positions ∧
        went.book.fifos.Perm resumed.book.fifos ∧ went.accounts.Perm resumed.accounts ∧
        resumed.ledger =
          TradeLedger.addAll (fills (dispatchedEvents (s.holding queue) actions)) []) ∧
    ∀ rows, recover rows (recover rows s) = recover rows s := by
  refine ⟨fun queue actions hplain => ?_, recover_recover h.filed⟩
  obtain ⟨hrun, hfills⟩ := (alike_restarted h.filed hc queue).run hplain
  refine ⟨hrun.positions, hrun.fifos, hrun.accounts, ?_⟩
  have hledger : ((restarted users s).holding queue).ledger = [] := by
    rw [restarted, recover_eq]
    rfl
  rw [run_ledger, hfills, hledger]

def bought (broker brokerOrderId : String) : Action :=
  .order
    { type := .orderFilled, userId := "u", broker := broker, brokerOrderId := brokerOrderId
      symbol := "NIFTY", side := "BUY", filledQuantity := 10, avgPrice := 100 } rfl

theorem Reachable.run {s : EngineState} (h : Reachable s) (actions : List Action) :
    Reachable (s.run actions) := by
  induction actions generalizing s with
  | nil => exact h
  | cons action actions ih => exact ih (h.step action)

/-- A restarted engine does not know a fill again that the ledger had; and where the names
of two accounts run into each other, a mark reports their positions in the order of the book. -/
theorem restart_forgets :
    (¬ ∀ s, Reachable s → ∀ users, Covers users s → ∀ trade,
      (restarted users s).ledger.repeats trade ↔ s.ledger.repeats trade) ∧
    ¬ ∀ s, Reachable s → ∀ users, Covers users s → ∀ actions,
      (s.run actions).accounts.Perm ((restarted users s).run actions).accounts := by
  constructor
  · intro h
    have hreached := (Reachable.start "").run
      (bought "fyers" "B-1" :: List.replicate 6 Action.dispatch)
    have hforgotten := h _ hreached ["u"]
      ⟨by decide, by decide, by decide⟩
      { userId := "u", broker := "fyers", brokerOrderId := "B-1", quantity := 10, price := 100 }
    exact absurd hforgotten (by decide)
  · intro h
    have hreached := (Reachable.start "").run
      (bought "a:b" "1" :: bought "a" "2" :: List.replicate 12 Action.dispatch)
    have hsame := h _ hreached ["u"] ⟨by decide, by decide, by decide⟩
      (.mark "u" "a" [("NIFTY", 120)] :: .dispatch :: .mark "u" "a" [("NIFTY", 80)] ::
        List.replicate 12 Action.dispatch)
    exact absurd hsame (by decide +kernel)

/-- After a fill, a restart and a mark, the position is marked as it would have been. -/
theorem restart_resumes_marked :
    ((({} : EngineState).run (bought "paper" "P-1" :: List.replicate 6 Action.dispatch)).run
      [.mark "u" "paper" [("NIFTY", 120)]]).book.positions.Perm
    ((restarted ["u"]
        (({} : EngineState).run (bought "paper" "P-1" :: List.replicate 6 Action.dispatch))).run
      [.mark "u" "paper" [("NIFTY", 120)]]).book.positions :=
  ((restart_resumes ((Reachable.start "").run
      (bought "paper" "P-1" :: List.replicate 6 Action.dispatch)) ["u"]
    ⟨by decide, by decide, by decide⟩).1 []
      [.mark "u" "paper" [("NIFTY", 120)]] (by decide)).1

end Resuming

end Trademetrix.ExecutionEngine
