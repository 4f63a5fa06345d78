import Mathlib.Algebra.BigOperators.Group.List.Basic
import Mathlib.Algebra.Order.Group.Unbundled.Int
import Mathlib.Data.List.Nodup
import Trademetrix.Dict

/-!
# Positions at the broker and in the database

`reconcile_user_positions` goes through the broker's positions and compares each with the row
of its symbol. A symbol only the database has is never looked at.
-/

namespace Trademetrix.PositionReconciliation

structure RemotePosition where
  symbol : String
  quantity : ℤ
  deriving DecidableEq

/-- A row of `positions_snapshot`; the quantity may be null. -/
structure SnapshotRow where
  symbol : String
  quantity : Option ℤ
  product : String
  deriving DecidableEq

structure Mismatch where
  symbol : String
  remoteQty : ℤ
  dbQty : ℤ
  diff : ℤ
  deriving DecidableEq

inductive Report
  | failure (message : String)
  | noRemote (message : String)
  | compared (remoteCount dbCount : ℕ) (mismatches : List Mismatch) (mismatchCount : ℕ)
  deriving DecidableEq

variable (remote : List RemotePosition) (rows : List SnapshotRow)

def dbBySymbol : Dict String SnapshotRow := Dict.update [] (rows.map fun r => (r.symbol, r))

def dbQty (symbol : String) : Option ℤ :=
  match (dbBySymbol rows).get symbol with
  | some row => row.quantity
  | none => some 0

/-- One turn of the loop; `none` is a `TypeError`. -/
def compare (rp : RemotePosition) : Option (List Mismatch) :=
  (dbQty rows rp.symbol).map fun db =>
    if 0 < |rp.quantity - db| then [⟨rp.symbol, rp.quantity, db, rp.quantity - db⟩] else []

/-- `reconcile_user_positions`, where `none` is the exception of a comparison; positions or rows
that cannot be fetched are none. -/
def reconcileUserPositions (connected : Bool) (remote : Option (List RemotePosition))
    (rows : Option (List SnapshotRow)) : Option Report :=
  if connected = false then some (.failure "Broker unreachable")
  else
    match remote.getD [] with
    | [] => some (.noRemote "No remote positions")
    | rp :: rps => do
      let dbPositions := rows.getD []
      let mismatches ← (rp :: rps).mapM (compare dbPositions)
      return .compared (rp :: rps).length dbPositions.length mismatches.flatten
        mismatches.flatten.length

def NoMismatch : Option Report → Prop
  | some (.noRemote _) => True
  | some (.compared _ _ mismatches _) => mismatches = []
  | _ => False

def remoteTotal (symbol : String) : ℤ :=
  ((remote.filter fun p => p.symbol = symbol).map RemotePosition.quantity).sum

def rowTotal (symbol : String) : ℤ :=
  ((rows.filter fun r => r.symbol = symbol).map fun r => r.quantity.getD 0).sum

def Agree : Prop := ∀ symbol, remoteTotal remote symbol = rowTotal rows symbol

def Matches : Prop := ∀ p ∈ remote, dbQty rows p.symbol = some p.quantity

def listed (symbol : String) : ℕ := remote.countP fun p => p.symbol = symbol

/-- Where every position matches, each symbol's rows come to what they were matched with as often
as the broker lists it; where one does not, the quantities of a symbol differ. -/
def Settled : Prop :=
  (Matches remote rows → ∀ s, listed remote s * (dbQty rows s).getD 0 = rowTotal rows s) ∧
    (¬ Matches remote rows → ∃ s, remoteTotal remote s ≠ rowTotal rows s)

variable {remote rows}

theorem compare_eq_nil {rp : RemotePosition} :
    compare rows rp = some [] ↔ dbQty rows rp.symbol = some rp.quantity := by
  unfold compare
  cases dbQty rows rp.symbol with
  | none => exact iff_of_false (Option.some_ne_none _).symm (Option.some_ne_none _).symm
  | some db =>
    rw [Option.map_some, Option.some_inj, Option.some_inj, ite_eq_right_iff, abs_pos, sub_ne_zero]
    constructor
    · intro h
      by_contra hne
      exact absurd (h (Ne.symm hne)) (List.cons_ne_nil _ _)
    · rintro rfl h
      exact absurd rfl h

theorem mapM_flatten_eq_nil {α β : Type} {f : α → Option (List β)} {l : List α} :
    (∃ ms, l.mapM f = some ms ∧ ms.flatten = []) ↔ ∀ x ∈ l, f x = some [] := by
  induction l with
  | nil => simp
  | cons x l ih =>
    rw [List.forall_mem_cons, ← ih, List.mapM_cons]
    constructor
    · rintro ⟨ms, hms, hflat⟩
      obtain ⟨m, hx, ms', hl, heq⟩ := by simpa only [Option.bind_eq_bind, Option.bind_eq_some_iff] using hms
      obtain rfl := Option.some.inj heq
      rw [List.flatten_cons, List.append_eq_nil_iff] at hflat
      exact ⟨hflat.1 ▸ hx, ms', hl, hflat.2⟩
    · rintro ⟨hx, ms, hl, hflat⟩
      refine ⟨[] :: ms, ?_, by rw [List.flatten_cons, hflat]; rfl⟩
      rw [hx, hl]
      rfl

theorem noMismatch_iff (reply : Option (List RemotePosition)) (found : Option (List SnapshotRow)) :
    NoMismatch (reconcileUserPositions true reply found) ↔
      Matches (reply.getD []) (found.getD []) := by
  unfold reconcileUserPositions
  rw [if_neg (by decide)]
  cases reply.getD [] with
  | nil => exact iff_of_true trivial fun _ hp => absurd hp List.not_mem_nil
  | cons rp rps =>
    have hall := mapM_flatten_eq_nil (f := compare (found.getD [])) (l := rp :: rps)
    simp only [compare_eq_nil] at hall
    rw [Matches, ← hall]
    dsimp only
    cases hms : (rp :: rps).mapM (compare (found.getD [])) with
    | none => simp [NoMismatch]
    | some ms => simp [NoMismatch]

theorem remoteTotal_of_matches (h : Matches remote rows) (symbol : String) :
    remoteTotal remote symbol = listed remote symbol * (dbQty rows symbol).getD 0 := by
  unfold remoteTotal listed
  rw [List.countP_eq_length_filter, ← nsmul_eq_mul, ← List.sum_replicate]
  congr 1
  refine List.eq_replicate_iff.mpr ⟨List.length_map _, fun q hq => ?_⟩
  obtain ⟨p, hp, rfl⟩ := List.mem_map.mp hq
  obtain ⟨hmem, hsymbol⟩ := List.mem_filter.mp hp
  have hsame := h p hmem
  rw [of_decide_eq_true hsymbol] at hsame
  rw [hsame]
  rfl

theorem agree_iff_of_matches (h : Matches remote rows) :
    Agree remote rows ↔ ∀ s, listed remote s * (dbQty rows s).getD 0 = rowTotal rows s :=
  forall_congr' fun s => by rw [remoteTotal_of_matches h]

theorem noMismatch_iff_agree_iff : (Matches remote rows ↔ Agree remote rows) ↔
    Settled remote rows := by
  unfold Settled
  by_cases h : Matches remote rows
  · rw [agree_iff_of_matches h]
    simp only [h, true_iff, forall_const, not_true_eq_false, false_imp_iff, and_true]
  · have hne : (∃ s, remoteTotal remote s ≠ rowTotal rows s) ↔ ¬ Agree remote rows := by
      rw [Agree, not_forall]
    rw [hne]
    simp only [h, false_iff, false_imp_iff, true_and, not_false_eq_true, forall_const]

section Unique

theorem filter_key {α : Type} {key : α → String} {l : List α} {x : α} (h : (l.map key).Nodup)
    (hx : x ∈ l) : (l.filter fun y => key y = key x) = [x] := by
  induction l with
  | nil => exact absurd hx List.not_mem_nil
  | cons y l ih =>
    obtain ⟨hy, hl⟩ := List.nodup_cons.mp h
    rcases List.mem_cons.mp hx with rfl | hmem
    · have hrest : (l.filter fun y => key y = key x) = [] :=
        List.filter_eq_nil_iff.mpr fun z hz hsame =>
          hy (of_decide_eq_true hsame ▸ List.mem_map_of_mem hz)
      rw [List.filter_cons, if_pos (decide_eq_true rfl), hrest]
    · have hne : ¬ decide (key y = key x) = true := fun hsame =>
        hy (of_decide_eq_true hsame ▸ List.mem_map_of_mem hmem)
      rw [List.filter_cons, if_neg hne, ih hl hmem]

theorem filter_absent {α : Type} {key : α → String} {l : List α} {symbol : String}
    (h : symbol ∉ l.map key) : (l.filter fun y => key y = symbol) = [] :=
  List.filter_eq_nil_iff.mpr fun _ hy hsame =>
    h (of_decide_eq_true hsame ▸ List.mem_map_of_mem hy)

variable {symbol : String}

theorem dbQty_of_not_mem (h : symbol ∉ rows.map SnapshotRow.symbol) :
    dbQty rows symbol = some 0 := by
  have hnone : (dbBySymbol rows).get symbol = none := by
    rw [Dict.get_eq_none, dbBySymbol, Dict.mem_keys_update, List.map_map]
    exact fun hmem => hmem.elim List.not_mem_nil h
  rw [dbQty, hnone]

theorem dbQty_of_mem (hrows : (rows.map SnapshotRow.symbol).Nodup) {r : SnapshotRow}
    (hr : r ∈ rows) : dbQty rows r.symbol = r.quantity := by
  have hkeys : ((rows.map fun r => (r.symbol, r)).map Prod.fst).Nodup := by
    rw [List.map_map]
    exact hrows
  have hmem : (r.symbol, r) ∈ rows.map fun r => (r.symbol, r) := List.mem_map_of_mem hr
  have hget : (dbBySymbol rows).get r.symbol = some r := by
    rw [dbBySymbol, Dict.get_update_agree fun p hp => Dict.get_of_mem hkeys hp,
      if_pos (List.mem_map_of_mem hmem)]
    exact Dict.get_of_mem hkeys hmem
  rw [dbQty, hget]

theorem rowTotal_of_nodup (hrows : (rows.map SnapshotRow.symbol).Nodup) (symbol : String) :
    rowTotal rows symbol = (dbQty rows symbol).getD 0 := by
  by_cases hmem : symbol ∈ rows.map SnapshotRow.symbol
  · obtain ⟨r, hr, rfl⟩ := List.mem_map.mp hmem
    rw [rowTotal, filter_key hrows hr, dbQty_of_mem hrows hr]
    exact List.sum_singleton
  · rw [rowTotal, filter_absent hmem, dbQty_of_not_mem hmem]
    rfl

theorem listed_of_nodup (hremote : (remote.map RemotePosition.symbol).Nodup) (symbol : String) :
    listed remote symbol = if symbol ∈ remote.map RemotePosition.symbol then 1 else 0 := by
  rw [listed, List.countP_eq_length_filter]
  split_ifs with hmem
  · obtain ⟨p, hp, rfl⟩ := List.mem_map.mp hmem
    rw [filter_key hremote hp]
    rfl
  · rw [filter_absent hmem]
    rfl

theorem settled_iff_of_nodup (hremote : (remote.map RemotePosition.symbol).Nodup)
    (hrows : (rows.map SnapshotRow.symbol).Nodup) (hnull : ∀ r ∈ rows, r.quantity ≠ none) :
    Settled remote rows ↔ ¬ Matches remote rows ∨
      ∀ r ∈ rows, r.symbol ∉ remote.map RemotePosition.symbol → r.quantity = some 0 := by
  unfold Settled
  by_cases h : Matches remote rows
  · simp only [h, forall_const, not_true_eq_false, false_imp_iff, and_true, false_or]
    constructor
    · intro hall r hr hnot
      have hzero := hall r.symbol
      rw [listed_of_nodup hremote, if_neg hnot, rowTotal_of_nodup hrows, dbQty_of_mem hrows hr] at hzero
      obtain ⟨q, hq⟩ := Option.ne_none_iff_exists'.mp (hnull r hr)
      rw [hq, Nat.cast_zero, zero_mul] at hzero
      rw [hq, hzero]
      rfl
    · intro hall s
      rw [listed_of_nodup hremote, rowTotal_of_nodup hrows]
      split_ifs with hs
      · rw [Nat.cast_one, one_mul]
      · rw [Nat.cast_zero, zero_mul]
        by_cases hmem : s ∈ rows.map SnapshotRow.symbol
        · obtain ⟨r, hr, rfl⟩ := List.mem_map.mp hmem
          rw [dbQty_of_mem hrows hr, hall r hr hs]
          rfl
        · rw [dbQty_of_not_mem hmem]
          rfl
  · simp only [h, false_imp_iff, true_and, not_false_eq_true, forall_const, true_or, iff_true]
    obtain ⟨p, hp⟩ := not_forall.mp h
    obtain ⟨hmem, hne⟩ := Classical.not_imp.mp hp
    refine ⟨p.symbol, fun heq => ?_⟩
    rw [rowTotal_of_nodup hrows, remoteTotal, filter_key hremote hmem, List.map_singleton,
      List.sum_singleton] at heq
    by_cases hrow : p.symbol ∈ rows.map SnapshotRow.symbol
    · obtain ⟨r, hr, hsymbol⟩ := List.mem_map.mp hrow
      obtain ⟨q, hq⟩ := Option.ne_none_iff_exists'.mp (hnull r hr)
      have hdb : dbQty rows p.symbol = some q := by rw [← hsymbol, dbQty_of_mem hrows hr, hq]
      rw [hdb] at heq hne
      exact hne (congrArg some heq.symm)
    · rw [dbQty_of_not_mem hrow] at heq hne
      exact hne (congrArg some heq.symm)

end Unique

/-- A reconciliation reports no mismatch of sides that agree, and of these only, exactly when the
rows it did not compare are settled; where no symbol is repeated this means that a position
differs from its row or every symbol the broker does not list has quantity 0. -/
theorem reconcileUserPositions_iff_agree (remote : List RemotePosition) (rows : List SnapshotRow) :
    ((NoMismatch (reconcileUserPositions true (some remote) (some rows)) ↔ Agree remote rows) ↔
        Settled remote rows) ∧
      ((remote.map RemotePosition.symbol).Nodup → (rows.map SnapshotRow.symbol).Nodup →
        (∀ r ∈ rows, r.quantity ≠ none) →
          ((NoMismatch (reconcileUserPositions true (some remote) (some rows)) ↔
              Agree remote rows) ↔
            (∃ p ∈ remote, dbQty rows p.symbol ≠ some p.quantity) ∨
              ∀ r ∈ rows, r.symbol ∉ remote.map RemotePosition.symbol → r.quantity = some 0)) := by
  have hall : (NoMismatch (reconcileUserPositions true (some remote) (some rows)) ↔
      Agree remote rows) ↔ Settled remote rows :=
    (iff_congr (noMismatch_iff (some remote) (some rows)) Iff.rfl).trans noMismatch_iff_agree_iff
  refine ⟨hall, fun hremote hrows hnull => ?_⟩
  rw [hall, settled_iff_of_nodup hremote hrows hnull, Matches]
  push Not
  exact Iff.rfl

theorem reconcileUserPositions_one :
    (NoMismatch (reconcileUserPositions true (some [⟨"NIFTY", 50⟩])
          (some [⟨"NIFTY", some 50, "MIS"⟩])) ↔
        Agree [⟨"NIFTY", 50⟩] [⟨"NIFTY", some 50, "MIS"⟩]) ↔
      (∃ p ∈ [(⟨"NIFTY", 50⟩ : RemotePosition)],
          dbQty [⟨"NIFTY", some 50, "MIS"⟩] p.symbol ≠ some p.quantity) ∨
        ∀ r ∈ [(⟨"NIFTY", some 50, "MIS"⟩ : SnapshotRow)],
          r.symbol ∉ [(⟨"NIFTY", 50⟩ : RemotePosition)].map RemotePosition.symbol →
            r.quantity = some 0 :=
  (reconcileUserPositions_iff_agree _ _).2 (by decide) (by decide) (by decide)

/-- A position that is only in the database is not reported, whether or not the broker has
another. -/
theorem stale_position_not_reported :
    NoMismatch (reconcileUserPositions true (some []) (some [⟨"NIFTY", some 50, "MIS"⟩])) ∧
      ¬ Agree [] [⟨"NIFTY", some 50, "MIS"⟩] ∧
      NoMismatch (reconcileUserPositions true (some [⟨"SENSEX", 10⟩])
        (some [⟨"SENSEX", some 10, "MIS"⟩, ⟨"NIFTY", some 50, "MIS"⟩])) ∧
      ¬ Agree [⟨"SENSEX", 10⟩] [⟨"SENSEX", some 10, "MIS"⟩, ⟨"NIFTY", some 50, "MIS"⟩] := by
  refine ⟨trivial, fun h => absurd (h "NIFTY") (by decide), ?_, fun h => absurd (h "NIFTY") (by decide)⟩
  rw [noMismatch_iff]
  unfold Matches
  decide

end Trademetrix.PositionReconciliation
