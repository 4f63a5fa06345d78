import Mathlib.Data.List.Pairwise
import Trademetrix.Oms.Models

/-!
# The orders table

The rows the execution manager writes and looks up, under the unique index on
`(user_id, client_order_id)` for ids that are not empty. A row carries the attempt that
stored it, which no query reads.
-/

namespace Trademetrix.Execution

open Oms (Time)

structure Call where
  order : ℕ
  attempt : ℕ
  deriving DecidableEq

structure OrderRow where
  id : ℕ
  userId : String
  clientOrderId : String
  broker : String
  brokerOrderId : String := ""
  status : String := "PENDING"
  createdAt : Time
  storedBy : Option Call := none
  deriving DecidableEq

namespace OrderRow

def HasKey (r : OrderRow) (userId clientOrderId : String) : Prop :=
  r.userId = userId ∧ r.clientOrderId = clientOrderId

instance (r : OrderRow) (userId clientOrderId : String) :
    Decidable (r.HasKey userId clientOrderId) :=
  inferInstanceAs (Decidable (_ ∧ _))

def isOf (r : OrderRow) (order : ℕ) : Bool := r.storedBy.any fun c => c.order = order

end OrderRow

abbrev OrdersTable := List OrderRow

namespace OrdersTable

variable {t : OrdersTable} {r r' : OrderRow} {userId clientOrderId : String}

/-- `idx_orders_client_order_id` refuses the row. -/
def conflicts (t : OrdersTable) (r : OrderRow) : Bool :=
  r.clientOrderId ≠ "" && t.any fun r' => decide (r'.HasKey r.userId r.clientOrderId)

def insert (t : OrdersTable) (r : OrderRow) : OrdersTable := if t.conflicts r then t else t ++ [r]

/-- `maybe_single`: several rows are an error, which reads as none. -/
def maybeSingle : List OrderRow → Option OrderRow
  | [r] => some r
  | _ => none

def withKey (t : OrdersTable) (userId clientOrderId : String) : List OrderRow :=
  t.filter fun r => r.HasKey userId clientOrderId

def withClientOrderId (t : OrdersTable) (clientOrderId : String) : List OrderRow :=
  t.filter fun r => r.clientOrderId = clientOrderId

def update (t : OrdersTable) (p : OrderRow → Bool) (brokerOrderId status : String) : OrdersTable :=
  t.map fun r => if p r then { r with brokerOrderId := brokerOrderId, status := status } else r

def Indexed (t : OrdersTable) : Prop :=
  t.Pairwise fun r r' => r.clientOrderId ≠ "" → ¬ r'.HasKey r.userId r.clientOrderId

def Grows (t t' : OrdersTable) : Prop :=
  ∀ r ∈ t, ∃ r' ∈ t', r'.HasKey r.userId r.clientOrderId ∧ r'.storedBy = r.storedBy

theorem maybeSingle_eq_some {rows : List OrderRow} : maybeSingle rows = some r ↔ rows = [r] := by
  match rows with
  | [] => simp [maybeSingle]
  | [r'] => simp [maybeSingle]
  | _ :: _ :: _ => simp [maybeSingle]

theorem Grows.refl (t : OrdersTable) : Grows t t := fun r hr => ⟨r, hr, ⟨rfl, rfl⟩, rfl⟩

theorem Grows.trans {t₁ t₂ t₃ : OrdersTable} (h : Grows t₁ t₂) (h' : Grows t₂ t₃) :
    Grows t₁ t₃ := by
  intro r hr
  obtain ⟨r₂, hr₂, hkey, hby⟩ := h r hr
  obtain ⟨r₃, hr₃, hkey', hby'⟩ := h' r₂ hr₂
  rw [hkey.1, hkey.2] at hkey'
  exact ⟨r₃, hr₃, hkey', hby'.trans hby⟩

theorem conflicts_iff : t.conflicts r = true ↔
    r.clientOrderId ≠ "" ∧ ∃ r' ∈ t, r'.HasKey r.userId r.clientOrderId := by
  simp [conflicts]

theorem insert_grows (t : OrdersTable) (r : OrderRow) : Grows t (t.insert r) := by
  unfold insert
  split
  · exact .refl t
  · exact fun r' hr' => ⟨r', List.mem_append_left _ hr', ⟨rfl, rfl⟩, rfl⟩

theorem mem_insert (h : t.conflicts r = false) : r ∈ t.insert r := by
  simp [insert, h]

theorem Indexed.insert (h : t.Indexed) (r : OrderRow) : (t.insert r).Indexed := by
  unfold OrdersTable.insert
  split
  · exact h
  · next hno =>
    refine List.pairwise_append.mpr ⟨h, List.pairwise_singleton _ _, fun a ha b hb => ?_⟩
    rw [List.mem_singleton.mp hb]
    rintro hne ⟨huser, hid⟩
    exact hno (conflicts_iff.mpr ⟨by rwa [hid], a, ha, huser.symm, hid.symm⟩)

@[simp] theorem hasKey_update (p : OrderRow → Bool) (brokerOrderId status : String) :
    (if p r then { r with brokerOrderId := brokerOrderId, status := status } else r).HasKey
      userId clientOrderId ↔ r.HasKey userId clientOrderId := by
  split <;> rfl

theorem update_grows (t : OrdersTable) (p : OrderRow → Bool) (brokerOrderId status : String) :
    Grows t (t.update p brokerOrderId status) := by
  intro r hr
  refine ⟨_, List.mem_map_of_mem hr, (hasKey_update p _ _).mpr ⟨rfl, rfl⟩, ?_⟩
  split <;> rfl

theorem Indexed.update (h : t.Indexed) (p : OrderRow → Bool) (brokerOrderId status : String) :
    (t.update p brokerOrderId status).Indexed := by
  refine List.Pairwise.map _ (fun a b hab => ?_) h
  intro hne
  rw [hasKey_update]
  split at hne <;> split <;> exact hab hne

theorem Indexed.withKey_eq (h : t.Indexed) (hne : clientOrderId ≠ "") (hr : r ∈ t)
    (hkey : r.HasKey userId clientOrderId) : t.withKey userId clientOrderId = [r] := by
  induction t with
  | nil => cases hr
  | cons a t ih =>
    obtain ⟨hfirst, hrest⟩ := List.pairwise_cons.mp h
    unfold withKey
    rcases List.mem_cons.mp hr with rfl | hr
    · obtain ⟨rfl, rfl⟩ := hkey
      have hnone : t.filter (fun b => b.HasKey r.userId r.clientOrderId) = [] :=
        List.filter_eq_nil_iff.mpr fun b hb => by simpa using hfirst b hb hne
      rw [List.filter_cons_of_pos (by simp [OrderRow.HasKey]), hnone]
    · have hother : ¬ a.HasKey userId clientOrderId := by
        rintro ⟨rfl, rfl⟩
        exact hfirst r hr hne hkey
      rw [List.filter_cons_of_neg (by simpa using hother)]
      exact ih hrest hr

theorem Indexed.unique (h : t.Indexed) (hne : clientOrderId ≠ "") (hr : r ∈ t) (hr' : r' ∈ t)
    (hkey : r.HasKey userId clientOrderId) (hkey' : r'.HasKey userId clientOrderId) : r = r' := by
  have heq := (h.withKey_eq hne hr hkey).symm.trans (h.withKey_eq hne hr' hkey')
  exact List.singleton_inj.mp heq

end OrdersTable

end Trademetrix.Execution
