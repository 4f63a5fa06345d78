import Trademetrix.Async.Proc
import Trademetrix.Paper.Broker

/-!
# Reconnecting the paper broker

The live book is built fill by fill, the restored one from the audit rows.
`World.Followed` says that they are one book; `World.Keeps` are the steps that
keep it so, and after which a reconnect finds what it leaves.
-/

namespace Trademetrix.Paper

open Async

structure World where
  broker : PaperBroker
  table : List Order
  deriving DecidableEq

inductive Event
  | placeOrder (order : Order) (seconds : ℤ) (fill : PaperFill) (write : Write)
  | modifyOrder (orderId : String) (changes : PaperBroker.Changes)
  | cancelOrder (orderId : String)
  | disconnect
  /-- `answer` is what the read gives, `none` when it fails. -/
  | connect (now : ℤ) (answer : Option (List Order))

structure View where
  positions : Dict String PaperPosition
  account : PaperAccount
  openOrders : Dict String Entry
  deriving DecidableEq

def PaperBroker.view (b : PaperBroker) : View where
  positions := b.positions
  account := b.account
  openOrders := b.openOrders

namespace World

variable (w : World)

def audit : List Order := w.table.filter fun row => w.broker.isAudit row

def connect (now : ℤ) (answer : Option (List Order)) : World :=
  { w with broker := w.broker.connect now (answer.getD []) }

def apply (e : Event) (w : World) : World :=
  match e with
  | .placeOrder order seconds fill write =>
    let placed := w.broker.placeOrder order seconds fill
    { broker := placed.1
      table := match placed.2.2 with
        | some row => persistOrder w.table row write
        | none => w.table }
  | .modifyOrder orderId changes => { w with broker := (w.broker.modifyOrder orderId changes).1 }
  | .cancelOrder orderId => { w with broker := (w.broker.cancelOrder orderId).1 }
  | .disconnect => { w with broker := w.broker.disconnect }
  | .connect now answer => w.connect now answer

/-- A read that does not fail gives the audit rows by their `created_at`. -/
def Possible : World → Event → Prop
  | w, .connect _ (some rows) => Ledger.Lists Order.createdAt w.audit rows
  | _, _ => True

instance : ∀ w e, Decidable (Possible w e)
  | w, .connect _ (some rows) => inferInstanceAs (Decidable (Ledger.Lists _ w.audit rows))
  | _, .connect _ none | _, .placeOrder .. | _, .modifyOrder .. | _, .cancelOrder _
  | _, .disconnect => inferInstanceAs (Decidable True)

/-- A reconnect brings the view back and a second one changes nothing; a read that fails or is
empty leaves positions, account and orders alone. -/
def Restores : World → Event → Prop
  | w, .connect now answer =>
    (answer.getD [] = [] → (w.connect now answer).broker.toBook = w.broker.toBook ∧
      (w.connect now answer).broker.orders = w.broker.orders) ∧
    (answer.isSome → (w.connect now answer).broker.view = w.broker.view ∧
      ∀ later rows, Ledger.Lists Order.createdAt w.audit rows →
        ((w.connect now answer).connect later (some rows)).broker.view =
          (w.connect now answer).broker.view)
  | _, _ => True

/-- `place_order` gets as far as a fill. -/
def Fills (order : Order) (seconds : ℤ) (fill : PaperFill) : Prop :=
  w.broker.checkMargin (w.broker.stamp order seconds) ∧ 0 < fill.filledQuantity

structure Recorded (order : Order) (seconds : ℤ) (fill : PaperFill) (write : Write) : Prop where
  whole : order.quantity ≤ fill.filledQuantity
  stored : write = .stored
  owner : order.userId = w.broker.userId
  priced : fill.filledPrice ≠ 0 ∨ order.price = 0
  replaces : ∀ row ∈ w.audit, order.clientOrderId = "" ∨ row.clientOrderId ≠ order.clientOrderId
  unseen : ∀ row ∈ w.audit,
    fillKey row ≠ (w.broker.nextId seconds, fill.filledQuantity, fill.filledPrice)
  last : ∀ row ∈ w.audit, row.createdAt < order.createdAt

instance {order : Order} {seconds : ℤ} {fill : PaperFill} :
    Decidable (w.Fills order seconds fill) := inferInstanceAs (Decidable (_ ∧ _))

instance {order : Order} {seconds : ℤ} {fill : PaperFill} {write : Write} :
    Decidable (w.Recorded order seconds fill write) :=
  decidable_of_iff (_ ∧ _ ∧ _ ∧ _ ∧ _ ∧ _ ∧ _)
    ⟨fun ⟨h1, h2, h3, h4, h5, h6, h7⟩ => ⟨h1, h2, h3, h4, h5, h6, h7⟩,
      fun ⟨h1, h2, h3, h4, h5, h6, h7⟩ => ⟨h1, h2, h3, h4, h5, h6, h7⟩⟩

def Keeps : World → Event → Prop
  | w, .placeOrder order seconds fill write =>
    w.Fills order seconds fill → w.Recorded order seconds fill write
  | w, .connect _ none => w.broker.account = freshAccount w.broker.userId w.broker.initialCapital
  | w, .connect _ (some rows) =>
    Ledger.Strict Order.createdAt rows ∧ (rows ≠ [] → w.broker.openOrders = [])
  | _, _ => True

instance : ∀ w e, Decidable (Keeps w e)
  | w, .placeOrder order seconds fill write =>
    inferInstanceAs (Decidable (w.Fills order seconds fill → w.Recorded order seconds fill write))
  | w, .connect _ none => inferInstanceAs
    (Decidable (w.broker.account = freshAccount w.broker.userId w.broker.initialCapital))
  | w, .connect _ (some rows) => inferInstanceAs
    (Decidable (Ledger.Strict Order.createdAt rows ∧ (rows ≠ [] → w.broker.openOrders = [])))
  | _, .modifyOrder .. | _, .cancelOrder _ | _, .disconnect => inferInstanceAs (Decidable True)

def opened (userId : String) (initialCapital : ℚ) (table : List Order) (now : ℤ)
    (rows : List Order) : World :=
  World.connect { broker := PaperBroker.new userId initialCapital, table := table } now (some rows)

end World

namespace Book

def recordRow (book : Book) (row : Order) : Book := book.record row (restoredFill row)

def rebuilt (userId : String) (initialCapital : ℚ) (rows : List Order) : Book :=
  (oneRowPerFill rows).foldl recordRow
    { positions := [], account := freshAccount userId initialCapital }

theorem record_congr (book : Book) {order order' : Order} {fill fill' : PaperFill}
    (hsymbol : order'.symbol = order.symbol) (hproduct : order'.product = order.product)
    (hside : order'.side = order.side) (hqty : fill'.filledQuantity = fill.filledQuantity)
    (hprice : fill'.filledPrice = fill.filledPrice) :
    book.record order' fill' = book.record order fill := by
  simp only [record, updatePosition, updateAccount, hsymbol, hproduct, hside, hqty, hprice]

theorem record_restored (book : Book) (userId : String) (now : ℤ) (row : Order) :
    book.record (restoredOrder userId now row) (restoredFill (restoredOrder userId now row)) =
      book.recordRow row :=
  book.record_congr rfl rfl rfl rfl rfl

theorem recordRow_noteFill (book : Book) {order : Order} {fill : PaperFill}
    (hqty : 0 < fill.filledQuantity) (hprice : fill.filledPrice ≠ 0 ∨ order.price = 0) :
    book.recordRow (PaperBroker.noteFill order fill) =
      book.record (PaperBroker.noteFill order fill) fill := by
  refine book.record_congr rfl rfl rfl ?_ ?_
  · simp [restoredFill, PaperBroker.noteFill, hqty.ne']
  · by_cases hzero : fill.filledPrice = 0
    · have horder : order.price = 0 := hprice.resolve_left (not_not.mpr hzero)
      simp [restoredFill, PaperBroker.noteFill, hzero, horder]
    · simp [restoredFill, PaperBroker.noteFill, hzero]

theorem rebuilt_snoc (userId : String) (initialCapital : ℚ) {rows : List Order} {row : Order}
    (hunseen : ∀ r ∈ rows, fillKey r ≠ fillKey row) :
    rebuilt userId initialCapital (rows ++ [row]) =
      (rebuilt userId initialCapital rows).recordRow row := by
  unfold rebuilt oneRowPerFill
  rw [Ledger.firstOfEach_snoc [] rows (by simp) hunseen, List.foldl_append]
  rfl

end Book

namespace PaperBroker

variable (b : PaperBroker) (now : ℤ)

theorem restoreRows (rows : List Order) :
    let after := rows.foldl (fun b row => b.restoreRow now row) b
    after.toBook = rows.foldl Book.recordRow b.toBook ∧ after.userId = b.userId ∧
      after.initialCapital = b.initialCapital ∧ (b.openOrders = [] → after.openOrders = []) := by
  induction rows generalizing b with
  | nil => exact ⟨rfl, rfl, rfl, id⟩
  | cons row rows ih =>
    obtain ⟨hbook, huser, hcapital, hopen⟩ := ih (b.restoreRow now row)
    refine ⟨?_, huser, hcapital, ?_⟩
    · rw [List.foldl_cons, List.foldl_cons, hbook, ← b.toBook.record_restored b.userId now row]
      rfl
    · intro hnone
      refine hopen (List.filter_eq_nil_iff.mpr fun p hp => ?_)
      rcases Dict.mem_set hp with rfl | hp
      · simp
      · exact List.filter_eq_nil_iff.mp hnone p hp

@[simp] theorem connect_userId (rows : List Order) : (b.connect now rows).userId = b.userId := by
  unfold connect restorePositions
  split
  · rfl
  · exact (restoreRows _ now _).2.1

@[simp] theorem connect_initialCapital (rows : List Order) :
    (b.connect now rows).initialCapital = b.initialCapital := by
  unfold connect restorePositions
  split
  · rfl
  · exact (restoreRows _ now _).2.2.1

theorem connect_nil (h : b.account = freshAccount b.userId b.initialCapital) :
    (b.connect now []).toBook = b.toBook ∧ (b.connect now []).orders = b.orders := by
  refine ⟨?_, rfl⟩
  calc (b.connect now []).toBook
      = { b.toBook with account := freshAccount b.userId b.initialCapital } := rfl
    _ = b.toBook := by rw [← h]

theorem view_of_same {b b' : PaperBroker} (hbook : b'.toBook = b.toBook)
    (horders : b'.orders = b.orders) : b'.view = b.view := by
  simp only [view, openOrders, hbook, horders]

theorem connect_book {rows : List Order} (hrows : rows ≠ []) :
    (b.connect now rows).toBook = Book.rebuilt b.userId b.initialCapital rows := by
  rw [connect, restorePositions, if_neg hrows, (restoreRows _ now _).1]
  rfl

theorem connect_open {rows : List Order} (hrows : rows ≠ []) :
    (b.connect now rows).openOrders = [] := by
  rw [connect, restorePositions, if_neg hrows]
  exact (restoreRows _ now _).2.2.2 rfl

theorem modifyOrder_book (orderId : String) (changes : Changes) :
    (b.modifyOrder orderId changes).1.toBook = b.toBook ∧
      (b.modifyOrder orderId changes).1.userId = b.userId ∧
      (b.modifyOrder orderId changes).1.initialCapital = b.initialCapital := by
  unfold modifyOrder
  split <;> exact ⟨rfl, rfl, rfl⟩

theorem cancelOrder_book (orderId : String) :
    (b.cancelOrder orderId).1.toBook = b.toBook ∧ (b.cancelOrder orderId).1.userId = b.userId ∧
      (b.cancelOrder orderId).1.initialCapital = b.initialCapital := by
  unfold cancelOrder
  split <;> exact ⟨rfl, rfl, rfl⟩

theorem filter_persistOrder {table : List Order} {row : Order} (hrow : b.isAudit row)
    (hreplaces : ∀ r ∈ table.filter fun r => b.isAudit r,
      row.clientOrderId = "" ∨ r.clientOrderId ≠ row.clientOrderId) :
    ((persistOrder table row .stored).filter fun r => b.isAudit r) =
      (table.filter fun r => b.isAudit r) ++ [row] := by
  simp only [persistOrder, if_true, List.filter_append, List.filter_singleton, hrow]
  split
  · rfl
  · next hsome =>
    rw [List.filter_filter]
    congr 1
    refine List.filter_congr fun r hr => ?_
    by_cases haudit : b.isAudit r = true
    · have hne := (hreplaces r (List.mem_filter.mpr ⟨hr, haudit⟩)).resolve_left hsome
      simp [haudit, hne]
    · simp [haudit]

variable (order : Order) (seconds : ℤ) (fill : PaperFill)

@[simp] theorem placeOrder_userId : (b.placeOrder order seconds fill).1.userId = b.userId := by
  unfold placeOrder
  dsimp only
  split
  · rfl
  · split <;> rfl

@[simp] theorem placeOrder_initialCapital :
    (b.placeOrder order seconds fill).1.initialCapital = b.initialCapital := by
  unfold placeOrder
  dsimp only
  split
  · rfl
  · split <;> rfl

theorem placeOrder_idle
    (h : ¬ (b.checkMargin (b.stamp order seconds) ∧ 0 < fill.filledQuantity)) :
    (b.placeOrder order seconds fill).1.toBook = b.toBook ∧
      (b.placeOrder order seconds fill).2.2 = none := by
  unfold placeOrder
  dsimp only
  split
  · exact ⟨rfl, rfl⟩
  · next hmargin =>
    have hqty : fill.filledQuantity ≤ 0 := by
      by_contra hpos
      exact h ⟨not_not.mp hmargin, not_le.mp hpos⟩
    rw [if_pos hqty]
    exact ⟨rfl, rfl⟩

theorem placeOrder_fills
    (h : b.checkMargin (b.stamp order seconds) ∧ 0 < fill.filledQuantity) :
    (b.placeOrder order seconds fill).1.toBook =
        b.toBook.record (noteFill (b.stamp order seconds) fill) fill ∧
      (b.placeOrder order seconds fill).2.2 =
        some (noteFill (b.stamp order seconds) fill) := by
  have hmargin : ¬ ¬ ({ b with orderCounter := b.orderCounter + 1 }).checkMargin
      (b.stamp order seconds) = true := not_not.mpr h.1
  unfold placeOrder
  dsimp only
  rw [if_neg hmargin, if_neg (not_le.mpr h.2)]
  exact ⟨rfl, rfl⟩

end PaperBroker

namespace World

variable {w : World}

def Followed (w : World) : Prop :=
  ∀ rows, Ledger.Lists Order.createdAt w.audit rows → Ledger.Strict Order.createdAt rows →
    w.broker.toBook = Book.rebuilt w.broker.userId w.broker.initialCapital rows

theorem Followed.of_same {w' : World} (h : w.Followed) (hbook : w'.broker.toBook = w.broker.toBook)
    (huser : w'.broker.userId = w.broker.userId)
    (hcapital : w'.broker.initialCapital = w.broker.initialCapital) (htable : w'.table = w.table) :
    w'.Followed := by
  have haudit : w'.audit = w.audit := by
    simp only [audit, PaperBroker.isAudit, htable, huser]
  intro rows hrows hstrict
  rw [hbook, huser, hcapital]
  exact h rows (haudit ▸ hrows) hstrict

section Place

variable {order : Order} {seconds : ℤ} {fill : PaperFill} {write : Write}

theorem apply_place_idle (write : Write) (h : ¬ w.Fills order seconds fill) :
    (apply (.placeOrder order seconds fill write) w).broker.toBook = w.broker.toBook ∧
      (apply (.placeOrder order seconds fill write) w).table = w.table := by
  obtain ⟨hbook, hrow⟩ := w.broker.placeOrder_idle order seconds fill h
  refine ⟨hbook, ?_⟩
  simp only [apply, hrow]

theorem audit_place (hfills : w.Fills order seconds fill)
    (h : w.Recorded order seconds fill write) :
    (apply (.placeOrder order seconds fill write) w).audit =
      w.audit ++ [PaperBroker.noteFill (w.broker.stamp order seconds) fill] := by
  obtain ⟨-, hrow⟩ := w.broker.placeOrder_fills order seconds fill hfills
  have hwhole : ¬ fill.filledQuantity < order.quantity := not_lt.mpr h.whole
  have hin : w.broker.isAudit (PaperBroker.noteFill (w.broker.stamp order seconds) fill) := by
    simp [PaperBroker.isAudit, PaperBroker.noteFill, PaperBroker.stamp, h.owner, hwhole]
  have haudit : (w.broker.placeOrder order seconds fill).1.isAudit = w.broker.isAudit := by
    funext row
    simp only [PaperBroker.isAudit, PaperBroker.placeOrder_userId]
  simp only [audit, apply, hrow, h.stored, haudit]
  exact w.broker.filter_persistOrder hin h.replaces

theorem followed_place (hw : w.Followed)
    (hkeeps : w.Keeps (.placeOrder order seconds fill write)) :
    (apply (.placeOrder order seconds fill write) w).Followed := by
  by_cases hfills : w.Fills order seconds fill
  · have h := hkeeps hfills
    obtain ⟨hbook, -⟩ := w.broker.placeOrder_fills order seconds fill hfills
    intro rows hrows hstrict
    rw [audit_place hfills h] at hrows
    obtain ⟨rows, rfl, hbefore⟩ := hrows.snoc h.last
    have hunseen : ∀ r ∈ rows,
        fillKey r ≠ fillKey (PaperBroker.noteFill (w.broker.stamp order seconds) fill) :=
      fun r hr => h.unseen r (hbefore.perm.mem_iff.mp hr)
    have hpriced : fill.filledPrice ≠ 0 ∨ (w.broker.stamp order seconds).price = 0 := h.priced
    calc (apply (.placeOrder order seconds fill write) w).broker.toBook
        = w.broker.toBook.record _ fill := hbook
      _ = w.broker.toBook.recordRow _ := (Book.recordRow_noteFill _ hfills.2 hpriced).symm
      _ = (Book.rebuilt w.broker.userId w.broker.initialCapital rows).recordRow _ := by
          rw [hw rows hbefore hstrict.of_snoc]
      _ = Book.rebuilt w.broker.userId w.broker.initialCapital _ :=
          (Book.rebuilt_snoc _ _ hunseen).symm
      _ = _ := by
          simp only [apply, PaperBroker.placeOrder_userId, PaperBroker.placeOrder_initialCapital]
  · obtain ⟨hbook, htable⟩ := apply_place_idle write hfills
    exact hw.of_same hbook (by simp [apply]) (by simp [apply]) htable

end Place

section Connect

variable {now : ℤ} {rows : List Order}

theorem connect_audit (answer : Option (List Order)) :
    (w.connect now answer).audit = w.audit := by
  simp [audit, connect, PaperBroker.isAudit]

theorem followed_of_read (hrows : Ledger.Lists Order.createdAt w.audit rows)
    (hbook : (w.connect now (some rows)).broker.toBook =
      Book.rebuilt w.broker.userId w.broker.initialCapital rows) :
    (w.connect now (some rows)).Followed := by
  intro rows' hrows' hstrict
  rw [connect_audit] at hrows'
  rw [hbook, hrows'.unique hstrict hrows]
  simp [connect]

theorem restores_empty (now : ℤ) {answer : Option (List Order)} (hanswer : answer.getD [] = [])
    (hfresh : w.broker.account = freshAccount w.broker.userId w.broker.initialCapital) :
    (w.connect now answer).broker.toBook = w.broker.toBook ∧
      (w.connect now answer).broker.orders = w.broker.orders := by
  rw [connect, hanswer]
  exact w.broker.connect_nil now hfresh

theorem view_connect (hne : rows ≠ [])
    (hbook : w.broker.toBook = Book.rebuilt w.broker.userId w.broker.initialCapital rows)
    (hopen : w.broker.openOrders = []) :
    (w.connect now (some rows)).broker.view = w.broker.view := by
  have hconnect := w.broker.connect_book now hne
  simp only [PaperBroker.view, connect, Option.getD_some, w.broker.connect_open now hne, hopen,
    hconnect, ← hbook]

theorem restores_read (hw : w.Followed) (hrows : Ledger.Lists Order.createdAt w.audit rows)
    (hstrict : Ledger.Strict Order.createdAt rows) (hopen : rows ≠ [] → w.broker.openOrders = []) :
    w.Restores (.connect now (some rows)) ∧ (w.connect now (some rows)).Followed := by
  have hbook := hw rows hrows hstrict
  have hagain : ∀ rows', Ledger.Lists Order.createdAt w.audit rows' → rows' = rows :=
    fun rows' h => (hrows.unique hstrict h).symm
  by_cases hempty : rows = []
  · subst hempty
    have hfresh : w.broker.account = freshAccount w.broker.userId w.broker.initialCapital := by
      rw [hbook]
      rfl
    obtain ⟨hsame, horders⟩ := restores_empty now (rfl : (some []).getD [] = []) hfresh
    have hview := PaperBroker.view_of_same hsame horders
    refine ⟨⟨fun _ => ⟨hsame, horders⟩, fun _ => ⟨hview, fun later rows' h => ?_⟩⟩, ?_⟩
    · rw [hagain rows' h]
      obtain ⟨hsame', horders'⟩ := restores_empty (w := w.connect now (some [])) later
        (rfl : (some []).getD [] = []) rfl
      exact PaperBroker.view_of_same hsame' horders'
    · exact followed_of_read hrows (hsame.trans hbook)
  · have hread := w.broker.connect_book now hempty
    refine ⟨⟨fun h => absurd h hempty, fun _ => ⟨view_connect hempty hbook (hopen hempty),
      fun later rows' h => ?_⟩⟩, followed_of_read hrows hread⟩
    rw [hagain rows' h]
    refine view_connect hempty ?_ (w.broker.connect_open now hempty)
    simpa [connect] using hread

end Connect

theorem step_followed {e : Event} (hw : w.Followed) (hposs : w.Possible e) (hkeeps : w.Keeps e) :
    w.Restores e ∧ (apply e w).Followed := by
  cases e with
  | placeOrder order seconds fill write => exact ⟨trivial, followed_place hw hkeeps⟩
  | modifyOrder orderId changes =>
    obtain ⟨hbook, huser, hcapital⟩ := w.broker.modifyOrder_book orderId changes
    exact ⟨trivial, hw.of_same hbook huser hcapital rfl⟩
  | cancelOrder orderId =>
    obtain ⟨hbook, huser, hcapital⟩ := w.broker.cancelOrder_book orderId
    exact ⟨trivial, hw.of_same hbook huser hcapital rfl⟩
  | disconnect => exact ⟨trivial, hw.of_same rfl rfl rfl rfl⟩
  | connect now answer =>
    cases answer with
    | none =>
      obtain ⟨hsame, horders⟩ := restores_empty now (rfl : none.getD [] = []) hkeeps
      refine ⟨⟨fun _ => ⟨hsame, horders⟩, fun h => absurd h (by simp)⟩, ?_⟩
      exact hw.of_same hsame (by simp [apply, connect]) (by simp [apply, connect]) rfl
    | some rows => exact restores_read hw hposs hkeeps.1 hkeeps.2

theorem followed_opened (userId : String) (initialCapital : ℚ) {table rows : List Order} (now : ℤ)
    (hrows : Ledger.Lists Order.createdAt
      (table.filter fun row => (PaperBroker.new userId initialCapital).isAudit row) rows) :
    (opened userId initialCapital table now rows).Followed := by
  refine followed_of_read hrows ?_
  by_cases hempty : rows = []
  · subst hempty
    rfl
  · exact PaperBroker.connect_book _ now hempty

/-- In a run whose steps all keep live and restored together, every reconnect brings positions,
account and open orders back, and a read without rows leaves the memory alone. -/
theorem reconnects_restore (userId : String) (initialCapital : ℚ) {table rows : List Order}
    {now : ℤ} (hrows : Ledger.Lists Order.createdAt
      (table.filter fun row => (PaperBroker.new userId initialCapital).isAudit row) rows)
    {es : List Event}
    (hposs : Legal apply Possible (opened userId initialCapital table now rows) es)
    (hkeeps : Legal apply Keeps (opened userId initialCapital table now rows) es) :
    Legal apply Restores (opened userId initialCapital table now rows) es := by
  have hstart := followed_opened userId initialCapital now hrows
  refine ((hposs.and hkeeps).with_invariant (I := Followed) ?_ hstart).mono ?_
  · intro w e hw h
    exact (step_followed hw h.1 h.2).2
  · intro w e h
    exact (step_followed h.1 h.2.1 h.2.2).1

section BuyTen

def buyTen : Order :=
  { symbol := "NSE:SBIN-EQ", exchange := .nse, side := .buy, orderType := .market
    product := .intraday, quantity := 10, userId := "u", createdAt := 1 }

def buyLower : Order :=
  { symbol := "NSE:SBIN-EQ", exchange := .nse, side := .buy, orderType := .limit
    product := .intraday, quantity := 10, price := 90, userId := "u", createdAt := 2 }

def buyTenRow : Order :=
  { buyTen with
    brokerOrderId := "paper_1_0", broker := "paper", status := .filled, filledQuantity := 10
    averagePrice := 100 }

def atHundred : PaperFill := { filledQuantity := 10, filledPrice := 100 }

theorem buyTen_restores :
    Legal apply Restores (opened "u" 500000 [] 0 [])
      [.placeOrder buyTen 0 atHundred .stored, .disconnect, .connect 5 (some [buyTenRow]),
        .cancelOrder "paper_1_0", .connect 9 (some [buyTenRow])] :=
  reconnects_restore "u" 500000 (by decide) (by decide +kernel) (by decide +kernel)

/-- A read that fails gives the margin of the ten shares back, and one that succeeds drops the
limit order. -/
theorem buyTen_not_restored :
    let filled : Event := .placeOrder buyTen 0 atHundred .stored
    let failing : List Event := [filled, .disconnect, .connect 5 none]
    let resting : List Event :=
      [filled, .placeOrder buyLower 1 {} .stored, .disconnect, .connect 5 (some [buyTenRow])]
    Legal apply Possible (opened "u" 500000 [] 0 []) failing ∧
      ¬ Legal apply Restores (opened "u" 500000 [] 0 []) failing ∧
      Legal apply Possible (opened "u" 500000 [] 0 []) resting ∧
      ¬ Legal apply Restores (opened "u" 500000 [] 0 []) resting := by
  refine ⟨by decide +kernel, fun h => ?_, by decide +kernel, fun h => ?_⟩
  · have hsame := (h.2.2.1.1 rfl).1
    revert hsame
    decide +kernel
  · have hview := (h.2.2.2.1.2 rfl).1
    revert hview
    decide +kernel

end BuyTen

end World

end Trademetrix.Paper
