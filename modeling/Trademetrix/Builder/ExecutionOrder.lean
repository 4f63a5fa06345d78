import Trademetrix.Builder.Cycles

/-!
# The order of execution

The queue of `_topological_sort` holds the nodes all of whose sources are sorted: the
in-degree of a node is the number of edges into it from nodes that are not sorted yet.
Without a cycle every node is sorted, after everything that leads to it.
-/

namespace Trademetrix.Builder

open Relation

def knownEdges (ids : List String) (edges : List GraphEdge) : List (String × String) :=
  (edges.filter fun e => e.sourceNode ∈ ids ∧ e.targetNode ∈ ids).map fun e =>
    (e.sourceNode, e.targetNode)

theorem mem_knownEdges {ids : List String} {edges : List GraphEdge} {a b : String} :
    (a, b) ∈ knownEdges ids edges ↔
      (∃ e ∈ edges, e.sourceNode = a ∧ e.targetNode = b) ∧ a ∈ ids ∧ b ∈ ids := by
  simp only [knownEdges, List.mem_map, List.mem_filter, decide_eq_true_eq, Prod.mk.injEq]
  constructor
  · rintro ⟨e, ⟨he, hs, ht⟩, rfl, rfl⟩
    exact ⟨⟨e, he, rfl, rfl⟩, hs, ht⟩
  · rintro ⟨⟨e, he, rfl, rfl⟩, hs, ht⟩
    exact ⟨e, ⟨he, hs, ht⟩, rfl, rfl⟩

section Edges

variable (ids : List String)

theorem knownEdges_cons (e : GraphEdge) (edges : List GraphEdge) :
    knownEdges ids (e :: edges) =
      if e.sourceNode ∈ ids ∧ e.targetNode ∈ ids then
        (e.sourceNode, e.targetNode) :: knownEdges ids edges
      else knownEdges ids edges := by
  unfold knownEdges
  rw [List.filter_cons]
  split_ifs <;> simp_all

theorem neighbors_set (adj : Adjacency) (a u : String) (bs : List String) :
    Adjacency.neighbors (adj.set a bs) u = if u = a then bs else adj.neighbors u := by
  unfold Adjacency.neighbors
  rw [Dict.get_set]
  split_ifs <;> rfl

theorem addEdges_neighbors (edges : List GraphEdge) (st : Adjacency × Dict String ℤ) (u : String) :
    (edges.foldl (addEdge ids) st).1.neighbors u =
      st.1.neighbors u ++ ((knownEdges ids edges).filter fun e => e.1 = u).map Prod.snd := by
  induction edges generalizing st with
  | nil => simp [knownEdges]
  | cons e edges ih =>
    rw [List.foldl_cons, ih, knownEdges_cons, addEdge]
    split_ifs with hknown
    · rw [neighbors_set, List.filter_cons]
      by_cases hu : e.sourceNode = u
      · simp [hu]
      · simp [hu, Ne.symm hu]
    · rfl

theorem addEdges_degree (edges : List GraphEdge) (st : Adjacency × Dict String ℤ) (v : String) :
    ((edges.foldl (addEdge ids) st).2.get v).getD 0 =
      (st.2.get v).getD 0 + (knownEdges ids edges).countP fun e => e.2 = v := by
  induction edges generalizing st with
  | nil => simp [knownEdges]
  | cons e edges ih =>
    rw [List.foldl_cons, ih, knownEdges_cons, addEdge]
    split_ifs with hknown
    · rw [Dict.get_set, List.countP_cons]
      by_cases hv : e.targetNode = v
      · simp only [hv, if_true, Option.getD_some, decide_true]
        push_cast
        ring
      · simp [hv, Ne.symm hv]
    · rfl

theorem addEdges_keys (edges : List GraphEdge) {st : Adjacency × Dict String ℤ}
    (hst : ∀ v ∈ ids, v ∈ st.2.map Prod.fst) :
    (edges.foldl (addEdge ids) st).2.map Prod.fst = st.2.map Prod.fst := by
  induction edges generalizing st with
  | nil => rfl
  | cons e edges ih =>
    have hkeys : (addEdge ids st e).2.map Prod.fst = st.2.map Prod.fst := by
      unfold addEdge
      split_ifs with hknown
      · rw [Dict.keys_set, if_pos (hst _ hknown.2)]
      · rfl
    rw [List.foldl_cons, ih (by rwa [hkeys]), hkeys]

end Edges

namespace Sorting

/-- `pending` are the edges out of the node sorted last that have not been taken off yet. -/
structure Sound (ids : List String) (es : List (String × String)) (pending : List String)
    (s : Sorting) : Prop where
  degree : ∀ v, (s.inDegree.get v).getD 0 =
    (es.countP fun e => e.2 = v ∧ e.1 ∉ s.sortedNodes : ℕ) + (pending.count v : ℤ)
  ready : ∀ v ∈ ids, v ∈ s.sortedNodes ++ s.queue ↔ (s.inDegree.get v).getD 0 = 0
  nodup : (s.sortedNodes ++ s.queue).Nodup
  known : ∀ v ∈ s.sortedNodes ++ s.queue, v ∈ ids
  before : ∀ e ∈ es, e.2 ∈ s.sortedNodes →
    s.sortedNodes.idxOf e.1 < s.sortedNodes.idxOf e.2

variable {ids : List String} {es : List (String × String)} {pending : List String} {s : Sorting}

theorem get_release (s : Sorting) (n v : String) : ((s.release n).inDegree.get v).getD 0 =
    if v = n then (s.inDegree.get n).getD 0 - 1 else (s.inDegree.get v).getD 0 := by
  simp only [Sorting.release, Dict.get_set]
  split_ifs <;> rfl

theorem mem_release (s : Sorting) (n v : String) : v ∈ (s.release n).queue ↔
    v ∈ s.queue ∨ v = n ∧ (s.inDegree.get n).getD 0 - 1 = 0 := by
  unfold Sorting.release
  dsimp only
  split_ifs with hzero <;> simp [hzero]

theorem Sound.release {n : String} (hn : n ∈ ids) (h : s.Sound ids es (n :: pending)) :
    (s.release n).Sound ids es pending := by
  have hdegree := h.degree n
  rw [List.count_cons_self] at hdegree
  have hnew : n ∉ s.sortedNodes ++ s.queue := by
    rw [h.ready n hn]
    omega
  have hdegree' : ∀ v, ((s.release n).inDegree.get v).getD 0 =
      (es.countP fun e => e.2 = v ∧ e.1 ∉ s.sortedNodes : ℕ) + (pending.count v : ℤ) := by
    intro v
    rw [get_release]
    split_ifs with hvn
    · rw [hvn]
      omega
    · rw [h.degree v, List.count_cons_of_ne (Ne.symm hvn)]
  have hready : ∀ v ∈ ids, v ∈ s.sortedNodes ++ (s.release n).queue ↔
      ((s.release n).inDegree.get v).getD 0 = 0 := by
    intro v hv
    rw [get_release, List.mem_append, mem_release, ← or_assoc, ← List.mem_append]
    split_ifs with hvn
    · rw [hvn]
      simp [hnew]
    · simp [h.ready v hv, hvn]
  refine ⟨hdegree', hready, ?_, ?_, h.before⟩
  · change (s.sortedNodes ++ if _ then _ else _).Nodup
    split_ifs
    · rw [← List.append_assoc, List.nodup_append]
      refine ⟨h.nodup, List.nodup_singleton n, ?_⟩
      rintro x hx y hy rfl
      exact hnew (List.mem_singleton.mp hy ▸ hx)
    · exact h.nodup
  · intro v hv
    rw [List.mem_append] at hv
    obtain hv | hv := hv
    · exact h.known v (List.mem_append_left _ hv)
    · obtain hv | ⟨rfl, -⟩ := (mem_release s n v).mp hv
      · exact h.known v (List.mem_append_right _ hv)
      · exact hn

theorem Sound.releases (hpending : ∀ n ∈ pending, n ∈ ids) (h : s.Sound ids es pending) :
    (pending.foldl Sorting.release s).Sound ids es [] := by
  induction pending generalizing s with
  | nil => exact h
  | cons n pending ih =>
    obtain ⟨hn, hpending⟩ := List.forall_mem_cons.mp hpending
    exact ih hpending (h.release hn)

theorem sortedNodes_releases (pending : List String) (s : Sorting) :
    (pending.foldl Sorting.release s).sortedNodes = s.sortedNodes := by
  induction pending generalizing s with
  | nil => rfl
  | cons n pending ih => exact ih _

theorem countP_sorted {sorted : List String} {nid : String} (hnid : nid ∉ sorted) (v : String) :
    es.countP (fun e => e.2 = v ∧ e.1 ∉ sorted) =
      es.countP (fun e => e.2 = v ∧ e.1 ∉ sorted ++ [nid]) +
        ((es.filter fun e => e.1 = nid).map Prod.snd).count v := by
  induction es with
  | nil => rfl
  | cons e es ih =>
    rw [List.countP_cons, List.countP_cons, List.filter_cons, ih]
    by_cases hsource : e.1 = nid
    · by_cases htarget : e.2 = v
      · simp [hsource, htarget, hnid]
        omega
      · simp [hsource, htarget]
    · simp only [List.mem_append, List.mem_singleton, hsource, or_false, decide_false,
        Bool.false_eq_true, if_false]
      omega

theorem Sound.sort {nid : String} {queue : List String} (h : s.Sound ids es [])
    (hqueue : s.queue = nid :: queue) :
    Sound ids es ((es.filter fun e => e.1 = nid).map Prod.snd)
      { s with queue := queue, sortedNodes := s.sortedNodes ++ [nid] } := by
  have hmem : nid ∈ s.sortedNodes ++ s.queue := by simp [hqueue]
  have hnodup := h.nodup
  rw [hqueue] at hnodup
  have hnid : nid ∉ s.sortedNodes := fun hsorted =>
    (List.nodup_append.mp hnodup).2.2 nid hsorted nid List.mem_cons_self rfl
  have hlist : s.sortedNodes ++ [nid] ++ queue = s.sortedNodes ++ s.queue := by simp [hqueue]
  refine ⟨fun v => ?_, ?_, ?_, ?_, ?_⟩
  · rw [h.degree v, countP_sorted hnid v]
    simp
  · rw [hlist]
    exact h.ready
  · rw [hlist]
    exact h.nodup
  · rw [hlist]
    exact h.known
  · intro e he htarget
    rcases List.mem_append.mp htarget with hsorted | htarget
    · have hbefore := h.before e he hsorted
      have hsource : e.1 ∈ s.sortedNodes :=
        List.idxOf_lt_length_iff.mp (hbefore.trans (List.idxOf_lt_length_of_mem hsorted))
      rwa [List.idxOf_append_of_mem hsource, List.idxOf_append_of_mem hsorted]
    · rw [List.mem_singleton] at htarget
      -- nothing that is not sorted leads to a node of the queue
      have hzero : es.countP (fun e => e.2 = nid ∧ e.1 ∉ s.sortedNodes) = 0 := by
        have hdegree := h.degree nid
        rw [(h.ready nid (h.known nid hmem)).mp hmem, List.count_nil] at hdegree
        omega
      have hsource : e.1 ∈ s.sortedNodes := by
        have := List.countP_eq_zero.mp hzero e he
        simpa [htarget] using this
      rw [htarget, List.idxOf_append_of_mem hsource, List.idxOf_append_of_notMem hnid]
      exact Nat.lt_add_right _ (List.idxOf_lt_length_of_mem hsource)

theorem Sound.drained {adj : Adjacency} {fuel : ℕ}
    (hadj : ∀ u, adj.neighbors u = (es.filter fun e => e.1 = u).map Prod.snd)
    (hes : ∀ e ∈ es, e.2 ∈ ids) (h : s.Sound ids es [])
    (hfuel : ids.length < fuel + s.sortedNodes.length) :
    ∃ s' : Sorting, Sorting.drain adj fuel s = some s'.sortedNodes ∧ s'.Sound ids es [] ∧ s'.queue = [] := by
  induction fuel generalizing s with
  | zero =>
    have hle : s.sortedNodes.length ≤ ids.length :=
      (List.subperm_of_subset (List.nodup_append.mp h.nodup).1
        fun v hv => h.known v (List.mem_append_left _ hv)).length_le
    omega
  | succ fuel ih =>
    unfold Sorting.drain
    cases hqueue : s.queue with
    | nil => exact ⟨s, rfl, h, hqueue⟩
    | cons nid queue =>
      refine ih ?_ ?_
      · rw [hadj]
        refine (h.sort hqueue).releases fun n hn => ?_
        obtain ⟨e, he, rfl⟩ := List.mem_map.mp hn
        exact hes e (List.mem_of_mem_filter he)
      · rw [sortedNodes_releases]
        simp only [List.length_append, List.length_singleton]
        omega

theorem Sound.complete (h : s.Sound ids es []) (hqueue : s.queue = []) (hes : ∀ e ∈ es, e.1 ∈ ids)
    (hacyclic : ∀ a, ¬TransGen (fun a b => (a, b) ∈ es) a a) :
    ∀ v ∈ ids, v ∈ s.sortedNodes := by
  by_contra! hleft
  obtain ⟨v, hv, hnew⟩ := hleft
  have hnonempty : (ids.toFinset.filter fun v => v ∉ s.sortedNodes).Nonempty :=
    ⟨v, by simp [hv, hnew]⟩
  obtain ⟨a, ha, hsource⟩ := exists_source hacyclic hnonempty
  obtain ⟨ha, hnew⟩ := Finset.mem_filter.mp ha
  rw [List.mem_toFinset] at ha
  have hzero : es.countP (fun e => e.2 = a ∧ e.1 ∉ s.sortedNodes) = 0 := by
    refine List.countP_eq_zero.mpr fun e he => ?_
    rw [decide_eq_true_eq]
    rintro ⟨rfl, hsorted⟩
    exact hsource e.1 (by simp [hes e he, hsorted]) he
  have hready := (h.ready a ha).mpr (by rw [h.degree a, hzero]; rfl)
  rw [hqueue, List.append_nil] at hready
  exact hnew hready

end Sorting

section TopologicalSort

def Known (nodes : List GraphNode) (edges : List GraphEdge) (a b : String) : Prop :=
  (∃ e ∈ edges, e.sourceNode = a ∧ e.targetNode = b) ∧
    a ∈ nodes.map GraphNode.id ∧ b ∈ nodes.map GraphNode.id

structure Ordered (nodes : List GraphNode) (edges : List GraphEdge) (order : List String) : Prop where
  nodup : order.Nodup
  mem (v : String) : v ∈ order ↔ v ∈ nodes.map GraphNode.id
  before {a b : String} : Known nodes edges a b → order.idxOf a < order.idxOf b

theorem keys_edgeTables (ids : List String) (edges : List GraphEdge) :
    (edgeTables ids edges).2.map Prod.fst =
      (Dict.update ([] : Dict String ℤ) (ids.map fun id => (id, 0))).map Prod.fst := by
  refine addEdges_keys ids edges fun v hv => ?_
  rw [Dict.mem_keys_update]
  simpa using hv

theorem mem_keys_edgeTables (ids : List String) (edges : List GraphEdge) (v : String) :
    v ∈ (edgeTables ids edges).2.map Prod.fst ↔ v ∈ ids := by
  rw [keys_edgeTables, Dict.mem_keys_update]
  simp

theorem degree_edgeTables (ids : List String) (edges : List GraphEdge) (v : String) :
    ((edgeTables ids edges).2.get v).getD 0 = (knownEdges ids edges).countP fun e => e.2 = v := by
  have hstart : ((Dict.update ([] : Dict String ℤ) (ids.map fun id => (id, 0))).get v).getD 0 = 0 := by
    cases hget : (Dict.update ([] : Dict String ℤ) (ids.map fun id => (id, 0))).get v with
    | none => rfl
    | some n =>
      obtain hmem | hmem := Dict.mem_update (Dict.mem_of_get hget)
      · cases hmem
      · obtain ⟨_, _, hn⟩ := List.mem_map.mp hmem
        exact (Prod.mk.inj hn).2.symm
  rw [edgeTables, addEdges_degree, hstart, zero_add]

theorem sound_start (ids : List String) (edges : List GraphEdge) :
    Sorting.Sound ids (knownEdges ids edges) [] {
      inDegree := (edgeTables ids edges).2
      queue := ((edgeTables ids edges).2.filter fun p => p.2 = 0).map Prod.fst } := by
  have hnodup : ((edgeTables ids edges).2.map Prod.fst).Nodup := by
    rw [keys_edgeTables]
    exact Dict.nodup_keys_update (by simp) _
  have hmem : ∀ v, v ∈ ((edgeTables ids edges).2.filter fun p => p.2 = 0).map Prod.fst ↔
      (edgeTables ids edges).2.get v = some 0 := by
    intro v
    rw [Dict.get_eq_some hnodup]
    simp
  refine ⟨fun v => ?_, fun v hv => ?_, ?_, fun v hv => ?_, by simp⟩
  · rw [degree_edgeTables]
    simp
  · rw [← mem_keys_edgeTables ids edges, ← not_not (a := v ∈ _), ← Dict.get_eq_none] at hv
    obtain ⟨n, hn⟩ := Option.ne_none_iff_exists'.mp hv
    rw [List.nil_append, hmem, hn, Option.some.injEq, Option.getD_some]
  · rw [List.nil_append]
    exact hnodup.sublist (List.filter_sublist.map _)
  · rw [List.nil_append, hmem] at hv
    rw [← mem_keys_edgeTables ids edges]
    exact List.mem_map_of_mem (Dict.mem_of_get hv)

theorem topologicalSort_spec (o : SetOrder) (nodes : List GraphNode) (edges : List GraphEdge) :
    ∃ order cycles, topologicalSort o nodes edges = some (order, cycles) ∧
      (∀ c ∈ cycles, ClosedWalk (Known nodes edges) c) ∧
      (cycles = [] ↔ ∀ a, ¬TransGen (Known nodes edges) a a) ∧
      (cycles = [] → Ordered nodes edges order) := by
  set ids := nodes.map GraphNode.id with hids
  have hknown : ∀ {a b}, (a, b) ∈ knownEdges ids edges ↔ Known nodes edges a b := mem_knownEdges
  have hneighbors : ∀ u, (edgeTables ids edges).1.neighbors u =
      ((knownEdges ids edges).filter fun e => e.1 = u).map Prod.snd := fun u =>
    addEdges_neighbors ids edges _ u
  have hleads : (edgeTables ids edges).1.Leads = Known nodes edges := by
    funext a b
    rw [← hknown, Adjacency.Leads, hneighbors]
    simp
  have hcard : ids.toFinset.card < ids.length + 1 :=
    Nat.lt_succ_of_le (List.toFinset_card_le ids)
  obtain ⟨m, hm, hclosed, hcycles⟩ := findCycles_cycles
    (fun a b h => by
      rw [hleads] at h
      exact ⟨List.mem_toFinset.mpr h.2.1, List.mem_toFinset.mpr h.2.2⟩)
    hcard fun x => (o.mem ids x).trans List.mem_toFinset.symm
  rw [hleads] at hclosed hcycles
  obtain ⟨s, hs, hsound, hqueue⟩ := (sound_start ids edges).drained hneighbors
    (fun e he => (hknown.mp he).2.2) (Nat.lt_succ_self _)
  refine ⟨s.sortedNodes, m.cycles, ?_, hclosed, hcycles, fun hnone => ?_⟩
  · unfold topologicalSort
    rw [← hids]
    exact (congrArg (· >>= _) hm).trans ((congrArg (· >>= _) hs).trans rfl)
  · have hcomplete := hsound.complete hqueue (fun e he => (hknown.mp he).2.1) (by
      simpa only [hknown] using hcycles.mp hnone)
    refine ⟨(List.nodup_append.mp hsound.nodup).1, fun v => ⟨fun hv => ?_, hcomplete v⟩, fun hab => ?_⟩
    · exact hsound.known v (List.mem_append_left _ hv)
    · exact hsound.before (_, _) (hknown.mpr hab) (hcomplete _ hab.2.2)

end TopologicalSort

end Trademetrix.Builder
