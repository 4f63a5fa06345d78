import Trademetrix.Builder.Compiler
import Trademetrix.Walks

/-!
# The cycles of a strategy graph

`_find_cycle` keeps the nodes it is in on a path, which is a walk, and leaves every node
it is done with without a cycle through it, unless it has reported one. Given as many
steps as there are nodes it comes to an end, and what it reports are closed walks.
-/

namespace Trademetrix.Builder

open Relation

def Adjacency.Leads (adj : Adjacency) (a b : String) : Prop := b ∈ adj.neighbors a

namespace Marks

structure Sound (adj : Adjacency) (ids : Finset String) (m : Marks) : Prop where
  marked : ∀ x, x ∈ m.tempMark ↔ x ∈ m.path
  walk : m.path.IsChain adj.Leads
  nodup : m.path.Nodup
  fresh : ∀ x ∈ m.path, x ∉ m.permMark
  closed : ∀ c ∈ m.cycles, ClosedWalk adj.Leads c
  done : m.cycles = [] → ∀ a ∈ m.permMark,
    ¬TransGen adj.Leads a a ∧ ∀ b, adj.Leads a b → b ∈ m.permMark

structure Grows (m m' : Marks) : Prop where
  path : m'.path = m.path
  temp : m'.tempMark = m.tempMark
  perm : m.permMark ⊆ m'.permMark
  cycles : m'.cycles = [] → m.cycles = []

theorem Grows.refl (m : Marks) : m.Grows m := ⟨rfl, rfl, subset_rfl, id⟩

theorem Grows.trans {m m' m'' : Marks} (h : m.Grows m') (h' : m'.Grows m'') : m.Grows m'' :=
  ⟨h'.path.trans h.path, h'.temp.trans h.temp, h.perm.trans h'.perm, h.cycles ∘ h'.cycles⟩

def left (ids : Finset String) (m : Marks) : ℕ := (ids \ (m.tempMark ∪ m.permMark)).card

theorem Grows.left_le {m m' : Marks} (h : m.Grows m') (ids : Finset String) :
    m'.left ids ≤ m.left ids := by
  unfold left
  rw [h.temp]
  exact Finset.card_le_card (Finset.sdiff_subset_sdiff subset_rfl
    (Finset.union_subset_union subset_rfl h.perm))

def enter (m : Marks) (nid : String) : Marks :=
  { m with tempMark := insert nid m.tempMark, path := m.path ++ [nid] }

def leave (m : Marks) (nid : String) : Marks :=
  { m with
    path := m.path.dropLast
    tempMark := m.tempMark.erase nid
    permMark := insert nid m.permMark }

variable {adj : Adjacency} {ids : Finset String} {m m' : Marks} {nid : String}

theorem left_enter (hknown : nid ∈ ids) (htemp : nid ∉ m.tempMark) (hperm : nid ∉ m.permMark) :
    (m.enter nid).left ids < m.left ids := by
  refine Finset.card_lt_card ⟨Finset.sdiff_subset_sdiff subset_rfl (Finset.union_subset_union
    (Finset.subset_insert _ _) subset_rfl), fun hsub => ?_⟩
  have hnid : nid ∈ ids \ (m.tempMark ∪ m.permMark) := by simp [hknown, htemp, hperm]
  simpa [enter] using hsub hnid

theorem Sound.enter (h : m.Sound adj ids) (htemp : nid ∉ m.tempMark) (hperm : nid ∉ m.permMark)
    (hwalk : (m.path ++ [nid]).IsChain adj.Leads) : (m.enter nid).Sound adj ids where
  marked x := by simp [Marks.enter, h.marked, or_comm]
  walk := hwalk
  nodup := by
    rw [h.marked] at htemp
    exact List.nodup_append.mpr ⟨h.nodup, List.nodup_singleton nid, by
      rintro x hx y hy rfl
      exact htemp (List.mem_singleton.mp hy ▸ hx)⟩
  fresh x hx := by
    obtain hx | hx := List.mem_append.mp hx
    · exact h.fresh x hx
    · rw [List.mem_singleton.mp hx]
      exact hperm
  closed := h.closed
  done := h.done

theorem Sound.leave (h : m'.Sound adj ids) (hgrows : (m.enter nid).Grows m')
    (hm : m.Sound adj ids) (htemp : nid ∉ m.tempMark)
    (hout : m'.cycles = [] → ∀ b, adj.Leads nid b → b ∈ m'.permMark) :
    (m'.leave nid).Sound adj ids := by
  have hpath : (m'.leave nid).path = m.path := by simp [Marks.leave, hgrows.path, Marks.enter]
  have htemp' : (m'.leave nid).tempMark = m.tempMark := by
    simp [Marks.leave, hgrows.temp, Marks.enter, htemp]
  have hentered : nid ∈ m'.path := by simp [hgrows.path, Marks.enter]
  have hnew : nid ∉ m'.permMark := h.fresh nid hentered
  refine ⟨?_, ?_, ?_, ?_, h.closed, ?_⟩
  · rw [hpath, htemp']
    exact hm.marked
  · rw [hpath]
    exact hm.walk
  · rw [hpath]
    exact hm.nodup
  · rw [hpath]
    intro x hx hxdone
    obtain rfl | hxdone := Finset.mem_insert.mp hxdone
    · exact htemp ((hm.marked x).mpr hx)
    · exact h.fresh x (by rw [hgrows.path]; exact List.mem_append_left _ hx) hxdone
  · intro hnone a ha
    have hdone := h.done hnone
    have hout := hout hnone
    have hclosed : ∀ a, a ∈ m'.permMark → ∀ b, adj.Leads a b → b ∈ m'.permMark :=
      fun a ha => (hdone a ha).2
    obtain rfl | ha := Finset.mem_insert.mp ha
    · refine ⟨fun hcycle => ?_, fun b hb => Finset.mem_insert_of_mem (hout b hb)⟩
      -- a cycle through the node would have come through nodes that are done
      obtain ⟨b, hab, hba⟩ := TransGen.head'_iff.mp hcycle
      obtain rfl | hba := Relation.reflTransGen_iff_eq_or_transGen.mp hba
      · exact hnew (hout _ hab)
      · exact hnew (mem_of_transGen hclosed (hout b hab) hba)
    · exact ⟨(hdone a ha).1, fun b hb => Finset.mem_insert_of_mem ((hdone a ha).2 b hb)⟩

end Marks

section FindCycle

variable {adj : Adjacency} {ids : Finset String} {fuel : ℕ}

def Settles (adj : Adjacency) (ids : Finset String) (nid : String) (m : Marks) (call : Option Marks) : Prop :=
  ∃ m', call = some m' ∧ m'.Sound adj ids ∧ m.Grows m' ∧ (m'.cycles = [] → nid ∈ m'.permMark)

theorem settles_neighbors {nid : String} {path : List String}
    (hcall : ∀ m b, m.Sound adj ids → b ∈ ids → (m.path ++ [b]).IsChain adj.Leads →
      m.left ids < fuel → Settles adj ids b m (findCycle adj fuel b m))
    {bs : List String} (hbs : ∀ b ∈ bs, adj.Leads nid b ∧ b ∈ ids) {m : Marks}
    (hm : m.Sound adj ids) (hpath : m.path = path ++ [nid]) (hfuel : m.left ids < fuel) :
    ∃ m', bs.foldlM (fun m b => findCycle adj fuel b m) m = some m' ∧ m'.Sound adj ids ∧
      m.Grows m' ∧ (m'.cycles = [] → ∀ b ∈ bs, b ∈ m'.permMark) := by
  induction bs generalizing m with
  | nil => exact ⟨m, rfl, hm, .refl m, fun _ => List.forall_mem_nil _⟩
  | cons b bs ih =>
    obtain ⟨⟨hlead, hb⟩, hbs⟩ := List.forall_mem_cons.mp hbs
    have hwalk : (m.path ++ [b]).IsChain adj.Leads := by
      have hm := hm.walk
      rw [hpath] at hm ⊢
      rw [List.append_assoc, List.singleton_append, List.isChain_split, List.isChain_pair]
      exact ⟨hm, hlead⟩
    obtain ⟨m₁, hm₁, hsound, hgrows, hdone⟩ := hcall m b hm hb hwalk hfuel
    obtain ⟨m₂, hm₂, hsound', hgrows', hdone'⟩ := ih hbs hsound (hgrows.path.trans hpath)
      ((hgrows.left_le ids).trans_lt hfuel)
    refine ⟨m₂, ?_, hsound', hgrows.trans hgrows', fun hnone => ?_⟩
    · rw [List.foldlM_cons, hm₁]
      exact hm₂
    · exact List.forall_mem_cons.mpr
        ⟨hgrows'.perm (hdone (hgrows'.cycles hnone)), hdone' hnone⟩

theorem findCycle_settles (hadj : ∀ a b, adj.Leads a b → b ∈ ids) {m : Marks} {nid : String}
    (hm : m.Sound adj ids) (hnid : nid ∈ ids) (hwalk : (m.path ++ [nid]).IsChain adj.Leads)
    (hfuel : m.left ids < fuel) : Settles adj ids nid m (findCycle adj fuel nid m) := by
  induction fuel generalizing m nid with
  | zero => exact absurd hfuel (Nat.not_lt_zero _)
  | succ fuel ih =>
    rw [findCycle]
    split_ifs with hperm htemp
    · exact ⟨m, rfl, hm, .refl m, fun _ => hperm⟩
    · -- the path from the node on, and the node again
      have hclosed : ClosedWalk adj.Leads (m.path.drop (m.path.idxOf nid) ++ [nid]) := by
        have hmem : m.path.idxOf nid < m.path.length :=
          List.idxOf_lt_length_of_mem ((hm.marked nid).mp htemp)
        refine ⟨nid, m.path.drop (m.path.idxOf nid + 1), ?_, ?_⟩
        · rw [List.drop_eq_getElem_cons hmem, List.getElem_idxOf hmem, List.cons_append]
        · rw [← List.drop_append_of_le_length hmem.le]
          exact hwalk.drop _
      refine ⟨_, rfl, ⟨hm.marked, hm.walk, hm.nodup, hm.fresh, fun c hc => ?_, by simp⟩,
        ⟨rfl, rfl, subset_rfl, by simp⟩, by simp⟩
      obtain hc | hc := List.mem_append.mp hc
      · exact hm.closed c hc
      · rw [List.mem_singleton.mp hc]
        exact hclosed
    · have hentered := hm.enter htemp hperm hwalk
      obtain ⟨m', hm', hsound, hgrows, hdone⟩ := settles_neighbors
        (fun m b => ih) (fun b hb => ⟨hb, hadj nid b hb⟩) hentered rfl
        (Nat.lt_of_lt_of_le (Marks.left_enter hnid htemp hperm) (Nat.lt_succ_iff.mp hfuel))
      have hm'' : (m'.leave nid).Sound adj ids := hsound.leave hgrows hm htemp hdone
      refine ⟨m'.leave nid, ?_, hm'', ⟨?_, ?_, ?_, hgrows.cycles⟩,
        fun _ => Finset.mem_insert_self _ _⟩
      · exact (congrArg (· >>= fun m => some (m.leave nid)) hm').trans rfl
      · simp [Marks.leave, hgrows.path, Marks.enter]
      · simp [Marks.leave, hgrows.temp, Marks.enter, htemp]
      · exact hgrows.perm.trans (Finset.subset_insert _ _)

theorem findCycles_settles (hadj : ∀ a b, adj.Leads a b → b ∈ ids) (hfuel : ids.card < fuel)
    {order : List String} (horder : ∀ x ∈ order, x ∈ ids) {m : Marks} (hm : m.Sound adj ids)
    (hpath : m.path = []) :
    ∃ m', order.foldlM (fun m nid =>
        if nid ∉ m.tempMark ∧ nid ∉ m.permMark then findCycle adj fuel nid m else some m) m =
          some m' ∧ m'.Sound adj ids ∧ (m'.cycles = [] → m.cycles = []) ∧
        m.permMark ⊆ m'.permMark ∧ (m'.cycles = [] → ∀ x ∈ order, x ∈ m'.permMark) := by
  induction order generalizing m with
  | nil => exact ⟨m, rfl, hm, id, subset_rfl, fun _ => List.forall_mem_nil _⟩
  | cons nid order ih =>
    obtain ⟨hnid, horder⟩ := List.forall_mem_cons.mp horder
    have hcall : ∃ m', (if nid ∉ m.tempMark ∧ nid ∉ m.permMark then findCycle adj fuel nid m
        else some m) = some m' ∧ m'.Sound adj ids ∧ m.Grows m' ∧
        (m'.cycles = [] → nid ∈ m'.permMark) := by
      have htemp : nid ∉ m.tempMark := by simp [hm.marked, hpath]
      by_cases hperm : nid ∈ m.permMark
      · exact ⟨m, if_neg fun h => h.2 hperm, hm, .refl m, fun _ => hperm⟩
      · rw [if_pos ⟨htemp, hperm⟩]
        refine findCycle_settles hadj hm hnid (by simp [hpath]) ?_
        exact (Finset.card_le_card Finset.sdiff_subset).trans_lt hfuel
    obtain ⟨m₁, hm₁, hsound, hgrows, hdone⟩ := hcall
    obtain ⟨m₂, hm₂, hsound', hcycles, hperm, hdone'⟩ :=
      ih horder hsound (hgrows.path.trans hpath)
    refine ⟨m₂, ?_, hsound', hgrows.cycles ∘ hcycles, hgrows.perm.trans hperm, fun hnone => ?_⟩
    · rw [List.foldlM_cons, hm₁]
      exact hm₂
    · exact List.forall_mem_cons.mpr ⟨hperm (hdone (hcycles hnone)), hdone' hnone⟩

theorem findCycles_cycles (hadj : ∀ a b, adj.Leads a b → a ∈ ids ∧ b ∈ ids)
    (hfuel : ids.card < fuel) {order : List String} (horder : ∀ x, x ∈ order ↔ x ∈ ids) :
    ∃ m, findCycles adj fuel order = some m ∧ (∀ c ∈ m.cycles, ClosedWalk adj.Leads c) ∧
      (m.cycles = [] ↔ ∀ a, ¬TransGen adj.Leads a a) := by
  have hstart : ({} : Marks).Sound adj ids :=
    ⟨by simp, .nil, .nil, by simp, by simp, by simp⟩
  obtain ⟨m, hm, hsound, -, -, hdone⟩ := findCycles_settles (fun a b h => (hadj a b h).2) hfuel
    (fun x hx => (horder x).mp hx) hstart rfl
  refine ⟨m, hm, hsound.closed, fun hnone a hcycle => ?_, fun hacyclic => ?_⟩
  · obtain ⟨b, hab, -⟩ := TransGen.head'_iff.mp hcycle
    have ha : a ∈ m.permMark := hdone hnone a ((horder a).mpr (hadj a b hab).1)
    exact (hsound.done hnone a ha).1 hcycle
  · rw [List.eq_nil_iff_forall_not_mem]
    intro c hc
    obtain ⟨a, ha⟩ := (hsound.closed c hc).cycle
    exact hacyclic a ha

end FindCycle

end Trademetrix.Builder
