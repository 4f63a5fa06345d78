import Trademetrix.Builder.ExecutionOrder

/-!
# Compiled graphs

What `validate` reports of cycles, and what `compile_dsl` hands back: the nodes in an order
in which edges lead on, where it starts and ends, and the length of its longest path.
-/

namespace Trademetrix.Builder

open Relation

namespace StrategyDSL

variable (dsl : StrategyDSL)

def ids : List String := dsl.nodes.map GraphNode.id

def Leads (a b : String) : Prop := Known dsl.nodes dsl.edges a b

structure IsPath (p : List String) : Prop where
  nodup : p.Nodup
  walk : p.IsChain dsl.Leads
  known : ∀ v ∈ p, v ∈ dsl.ids

end StrategyDSL

structure ReportsCycles (dsl : StrategyDSL) (result : ValidationResult) : Prop where
  reported : (∃ i ∈ result.issues, i.code = .cycleDetected) ↔ ∃ a, TransGen dsl.Leads a a
  issues : (result.issues.filter fun i => i.code = .cycleDetected) = result.cycles.map cycleIssue
  closed : ∀ c ∈ result.cycles, ClosedWalk dsl.Leads c

namespace ExecutionGraph

variable (g : ExecutionGraph)

def executionOrder : List String := g.nodes.map ExecutionNode.id

structure Compiles (dsl : StrategyDSL) : Prop where
  nodup : g.executionOrder.Nodup
  all (v : String) : v ∈ g.executionOrder ↔ v ∈ dsl.ids
  numbered : g.nodes.map ExecutionNode.order = List.range g.nodes.length
  inputs : ∀ node ∈ g.nodes, node.inputs = getInputNodes node.id dsl.edges
  nodes : ∀ node ∈ g.nodes, ∃ n ∈ dsl.nodes,
    n.id = node.id ∧ n.blockType = node.blockType ∧ n.params = node.params
  before : ∀ e ∈ dsl.edges,
    g.executionOrder.idxOf e.sourceNode < g.executionOrder.idxOf e.targetNode
  entry : g.entryPoints = g.executionOrder.filter fun v => ∀ e ∈ dsl.edges, e.targetNode ≠ v
  exit : g.exitPoints = g.executionOrder.filter fun v => ∀ e ∈ dsl.edges, e.sourceNode ≠ v
  depth : IsGreatest {n | ∃ p, dsl.IsPath p ∧ p.length = n + 1} g.maxDepth

end ExecutionGraph

section Validate

variable (getBlock : String → Option BlockDef) (o : SetOrder) (dsl : StrategyDSL)

theorem nodeIssues_code : ∀ i ∈ dsl.nodes.flatMap (nodeIssues getBlock dsl),
    i.code ≠ .cycleDetected := by
  intro i hi
  obtain ⟨node, -, hi⟩ := List.mem_flatMap.mp hi
  unfold nodeIssues at hi
  split at hi
  · rw [List.mem_singleton.mp hi]
    simp
  · obtain hi | hi := List.mem_append.mp hi
    · obtain ⟨_, _, rfl⟩ := List.mem_map.mp hi
      simp
    · obtain ⟨_, _, rfl⟩ := List.mem_map.mp hi
      simp

theorem edgeIssues_code : ∀ i ∈ dsl.edges.flatMap (edgeIssues dsl), i.code ≠ .cycleDetected := by
  intro i hi
  obtain ⟨e, -, hi⟩ := List.mem_flatMap.mp hi
  unfold edgeIssues at hi
  obtain hi | hi := List.mem_append.mp hi
  · split_ifs at hi
    · cases hi
    · rw [List.mem_singleton.mp hi]
      simp
  · split_ifs at hi
    · cases hi
    · rw [List.mem_singleton.mp hi]
      simp

theorem filter_code {issues : List ValidationIssue} (h : ∀ i ∈ issues, i.code ≠ .cycleDetected) :
    issues.filter (fun i => i.code = .cycleDetected) = [] :=
  List.filter_eq_nil_iff.mpr fun i hi => by simpa using h i hi

theorem validate_of_nodes {order : List String} {cycles : List (List String)}
    (hnodes : dsl.nodes ≠ []) (hsort : topologicalSort o dsl.nodes dsl.edges = some (order, cycles)) :
    validate getBlock o dsl = some (validationResult getBlock dsl cycles) := by
  have hempty : ¬ dsl.nodes.isEmpty = true := by simpa using hnodes
  rw [validate, if_neg hempty, hsort]
  rfl

theorem cycleIssues_validationResult (cycles : List (List String)) :
    (validationResult getBlock dsl cycles).issues.filter (fun i => i.code = .cycleDetected) =
      cycles.map cycleIssue := by
  have hcycles : (cycles.map cycleIssue).filter (fun i => i.code = .cycleDetected) =
      cycles.map cycleIssue := List.filter_eq_self.mpr fun i hi => by
    obtain ⟨c, -, rfl⟩ := List.mem_map.mp hi
    rfl
  simp only [validationResult, List.filter_append, filter_code (nodeIssues_code getBlock dsl),
    filter_code (edgeIssues_code dsl), hcycles, List.nil_append]
  split_ifs <;> simp

theorem validate_reports :
    ∃ result, validate getBlock o dsl = some result ∧ ReportsCycles dsl result := by
  by_cases hnodes : dsl.nodes = []
  · refine ⟨_, by rw [validate, hnodes]; rfl, ?_, by simp, by simp⟩
    refine iff_of_false (by simp) fun ⟨a, ha⟩ => ?_
    obtain ⟨b, hab, -⟩ := TransGen.head'_iff.mp ha
    have hknown := hab.2.1
    simp [hnodes] at hknown
  · obtain ⟨order, cycles, hsort, hclosed, hacyclic, -⟩ :=
      topologicalSort_spec o dsl.nodes dsl.edges
    have hissues := cycleIssues_validationResult getBlock dsl cycles
    refine ⟨_, validate_of_nodes getBlock o dsl hnodes hsort, ?_, hissues, hclosed⟩
    have hreported : (∃ i ∈ (validationResult getBlock dsl cycles).issues,
        i.code = .cycleDetected) ↔ cycles ≠ [] := by
      rw [← not_iff_not, not_not, ← List.map_eq_nil_iff (f := cycleIssue), ← hissues,
        List.filter_eq_nil_iff]
      simp
    rw [hreported, Ne, hacyclic]
    exact not_forall_not

end Validate

section Visit

variable (getBlock : String → Option BlockDef) (dsl : StrategyDSL)

theorem get_nodeMap {nid : String} (hnid : nid ∈ dsl.ids) :
    ∃ node ∈ dsl.nodes, node.id = nid ∧ (nodeMap dsl).get nid = some node := by
  have hmem : nid ∈ (nodeMap dsl).map Prod.fst := by
    rw [nodeMap, Dict.mem_keys_update]
    simpa [StrategyDSL.ids] using hnid
  rw [← not_not (a := nid ∈ _), ← Dict.get_eq_none] at hmem
  obtain ⟨node, hnode⟩ := Option.ne_none_iff_exists'.mp hmem
  obtain h | h := Dict.mem_update (Dict.mem_of_get hnode)
  · cases h
  · obtain ⟨n, hn, hpair⟩ := List.mem_map.mp h
    obtain ⟨rfl, rfl⟩ := Prod.mk.inj hpair
    exact ⟨n, hn, rfl, hnode⟩

theorem mem_getInputNodes {nid u : String} :
    u ∈ getInputNodes nid dsl.edges ↔ ∃ e ∈ dsl.edges, e.sourceNode = u ∧ e.targetNode = nid := by
  simp [getInputNodes]
  grind

structure Pass.Visited (p : Pass) (visited : List String) : Prop where
  order : p.execNodes.map ExecutionNode.id = visited
  numbered : p.execNodes.map ExecutionNode.order = List.range visited.length
  inputs : ∀ node ∈ p.execNodes, node.inputs = getInputNodes node.id dsl.edges
  nodes : ∀ node ∈ p.execNodes, ∃ n ∈ dsl.nodes,
    n.id = node.id ∧ n.blockType = node.blockType ∧ n.params = node.params
  entry : p.entryPoints = visited.filter fun v => (getInputNodes v dsl.edges).isEmpty
  keys : p.depthMap.map Prod.fst = visited
  depth : ∀ v ∈ visited, ∃ n, p.depthMap.get v = some n ∧ IsGreatest {k | Arrives dsl.Leads v k} n

theorem Pass.Visited.visit {p : Pass} {visited : List String} {nid : String}
    (h : p.Visited dsl visited) (hnid : nid ∈ dsl.ids) (hnew : nid ∉ visited)
    (hbefore : ∀ u ∈ getInputNodes nid dsl.edges, u ∈ visited)
    (hleads : ∀ u, u ∈ getInputNodes nid dsl.edges ↔ dsl.Leads u nid) :
    (p.visit getBlock dsl visited.length nid).Visited dsl (visited ++ [nid]) := by
  obtain ⟨node, hmem, hid, hnode⟩ := get_nodeMap dsl hnid
  unfold Pass.visit
  rw [hnode]
  refine ⟨?_, ?_, ?_, ?_, ?_, ?_, ?_⟩
  · simp [h.order, execNode]
  · simp [h.numbered, execNode, List.range_succ]
  · intro n hn
    obtain hn | hn := List.mem_append.mp hn
    · exact h.inputs n hn
    · rw [List.mem_singleton.mp hn]
      rfl
  · intro n hn
    obtain hn | hn := List.mem_append.mp hn
    · exact h.nodes n hn
    · rw [List.mem_singleton.mp hn]
      exact ⟨node, hmem, hid, rfl, rfl⟩
  · simp only [List.filter_append, List.filter_cons, List.filter_nil, ← h.entry]
    split_ifs <;> simp
  · simp [Dict.keys_set, h.keys, hnew]
  · intro v hv
    rw [Dict.get_set]
    split_ifs with hvn
    · refine ⟨_, rfl, ?_⟩
      rw [hvn]
      refine isGreatest_arrives hleads (d := fun u => (p.depthMap.get u).getD 0) fun u hu => ?_
      obtain ⟨n, hn, hgreatest⟩ := h.depth u (hbefore u hu)
      rwa [hn]
    · obtain hv | hv := List.mem_append.mp hv
      · exact h.depth v hv
      · exact absurd (List.mem_singleton.mp hv) hvn

variable {dsl} {order : List String}

theorem visited_all (hord : Ordered dsl.nodes dsl.edges order)
    (hleads : ∀ u v, u ∈ getInputNodes v dsl.edges ↔ dsl.Leads u v) :
    (visitAll getBlock dsl order).Visited dsl order := by
  suffices hprefix : ∀ visited, visited <+: order →
      (visitAll getBlock dsl visited).Visited dsl visited from hprefix order List.prefix_rfl
  intro visited hvisited
  induction visited using List.reverseRecOn with
  | nil => exact ⟨rfl, rfl, nofun, nofun, rfl, rfl, nofun⟩
  | append_singleton visited nid ih =>
    have hvisit : visitAll getBlock dsl (visited ++ [nid]) =
        (visitAll getBlock dsl visited).visit getBlock dsl visited.length nid := by
      simp [visitAll, List.zipIdx_append]
    obtain ⟨rest, rfl⟩ := hvisited
    have hnew : nid ∉ visited := fun hmem =>
      (List.nodup_append.mp (List.nodup_append.mp hord.nodup).1).2.2 nid hmem nid
        List.mem_cons_self rfl
    have hnid : nid ∈ visited ++ [nid] ++ rest := by simp
    rw [hvisit]
    refine (ih (by simp)).visit getBlock dsl ((hord.mem nid).mp hnid) hnew (fun u hu => ?_)
      fun u => hleads u nid
    -- what leads to the node stands before it
    have hbefore := hord.before ((hleads u nid).mp hu)
    have hplace : (visited ++ [nid] ++ rest).idxOf nid = visited.length := by
      rw [List.append_assoc, List.idxOf_append_of_notMem hnew]
      simp
    have hmem : u ∈ visited ++ [nid] ++ rest :=
      List.idxOf_lt_length_iff.mp (hbefore.trans (List.idxOf_lt_length_of_mem hnid))
    rw [hplace, ← List.mem_take_iff_idxOf_lt hmem, List.append_assoc, List.take_left'] at hbefore
    · exact hbefore
    · rfl

theorem isGreatest_depth {p : Pass} (h : p.Visited dsl order)
    (hord : Ordered dsl.nodes dsl.edges order) (hnonempty : order ≠ [])
    (hacyclic : ∀ a, ¬TransGen dsl.Leads a a) :
    IsGreatest {n | ∃ q, dsl.IsPath q ∧ q.length = n + 1} (p.depthMap.values.foldl max 0) := by
  have hkeys : (p.depthMap.map Prod.fst).Nodup := by
    rw [h.keys]
    exact hord.nodup
  obtain ⟨hmem, hub⟩ := isGreatest_foldl_max id p.depthMap.values 0
  refine ⟨?_, ?_⟩
  · obtain hzero | ⟨n, hn, hnmax⟩ := hmem
    · obtain ⟨v, order, rfl⟩ := List.exists_cons_of_ne_nil hnonempty
      have hv : v ∈ dsl.ids := (hord.mem v).mp List.mem_cons_self
      refine ⟨[v], ⟨List.nodup_singleton v, .singleton v, by simpa using hv⟩, ?_⟩
      exact (congrArg (· + 1) hzero).symm
    · obtain ⟨⟨v, _⟩, hpair, rfl⟩ := List.mem_map.mp hn
      have hv : v ∈ order := by
        rw [← h.keys]
        exact List.mem_map_of_mem hpair
      obtain ⟨d, hd, ⟨q, hlength, hq⟩, -⟩ := h.depth v hv
      have hdn : d = _ := Option.some.inj (hd.symm.trans (Dict.get_of_mem hkeys hpair))
      refine ⟨q ++ [v], ⟨nodup_of_walk hacyclic hq, hq, fun x hx => ?_⟩, ?_⟩
      · obtain hx | hx := List.mem_append.mp hx
        · obtain ⟨y, hxy⟩ := exists_next_of_walk hq hx
          exact hxy.2.1
        · rw [List.mem_singleton.mp hx]
          exact (hord.mem v).mp hv
      · rw [List.length_append, hlength, hdn]
        exact congrArg (· + 1) hnmax
  · rintro n ⟨q, hq, hlength⟩
    obtain rfl | ⟨q, v, rfl⟩ := q.eq_nil_or_concat'
    · cases hlength
    · obtain ⟨d, hd, -, hdub⟩ := h.depth v ((hord.mem v).mpr (hq.known v (by simp)))
      have hle : n ≤ d := hdub ⟨q, by simpa using hlength, hq.walk⟩
      exact hle.trans (hub (.inr ⟨d, List.mem_map_of_mem (Dict.mem_of_get hd), rfl⟩))

end Visit

section CompileDsl

variable (getBlock : String → Option BlockDef) (o : SetOrder) (dsl : StrategyDSL)

theorem sound_of_valid {cycles : List (List String)}
    (hvalid : ((validationResult getBlock dsl cycles).issues.any fun i => i.severity = .error) = false) :
    cycles = [] ∧ (∀ e ∈ dsl.edges, e.sourceNode ∈ dsl.ids ∧ e.targetNode ∈ dsl.ids) ∧
      ∀ node ∈ dsl.nodes, (getBlock node.blockType).isSome := by
  have hissue : ∀ i ∈ (validationResult getBlock dsl cycles).issues, i.severity ≠ .error := by
    simpa using hvalid
  refine ⟨List.eq_nil_iff_forall_not_mem.mpr fun c hc => ?_, fun e he => ?_, fun node hnode => ?_⟩
  · refine hissue (cycleIssue c) ?_ rfl
    simp only [validationResult, List.mem_append, List.mem_map]
    exact .inl (.inl (.inr ⟨c, hc, rfl⟩))
  · have hedge : ∀ i ∈ edgeIssues dsl e, i.severity ≠ .error := fun i hi => hissue i (by
      simp only [validationResult, List.mem_append, List.mem_flatMap]
      exact .inl (.inl (.inl (.inr ⟨e, he, hi⟩))))
    simp only [edgeIssues] at hedge
    refine ⟨?_, ?_⟩
    · by_contra hsource
      rw [if_neg (show e.sourceNode ∉ dsl.nodes.map GraphNode.id from hsource)] at hedge
      exact hedge _ (List.mem_append_left _ List.mem_cons_self) rfl
    · by_contra htarget
      rw [if_neg (show e.targetNode ∉ dsl.nodes.map GraphNode.id from htarget)] at hedge
      exact hedge _ (List.mem_append_right _ List.mem_cons_self) rfl
  · have hnodeIssues : ∀ i ∈ nodeIssues getBlock dsl node, i.severity ≠ .error := fun i hi =>
      hissue i (by
        simp only [validationResult, List.mem_append, List.mem_flatMap]
        exact .inl (.inl (.inl (.inl ⟨node, hnode, hi⟩))))
    by_contra hunknown
    rw [Option.not_isSome_iff_eq_none] at hunknown
    rw [nodeIssues, hunknown] at hnodeIssues
    exact hnodeIssues _ List.mem_cons_self rfl

theorem compileDsl_eq {validation : ValidationResult} {order : List String}
    {cycles : List (List String)} (hvalidate : validate getBlock o dsl = some validation)
    (hsort : topologicalSort o dsl.nodes dsl.edges = some (order, cycles)) :
    compileDsl getBlock o dsl =
      if !validation.valid && validation.issues.any fun i => i.severity = .error then
        some (none, validation)
      else if order.isEmpty then
        some (none, { valid := false, issues := [{ message := "No executable nodes found" }] })
      else some (some (executionGraph getBlock dsl order), validation) := by
  unfold compileDsl
  rw [hvalidate, hsort]
  rfl

theorem outDegree_eq_zero (v : String) :
    ((outDegree dsl).get v).getD 0 = 0 ↔ ∀ e ∈ dsl.edges, e.sourceNode ≠ v := by
  have hcount : ∀ (edges : List GraphEdge) (d : Dict String ℕ),
      ((edges.foldl (fun d e => d.set e.sourceNode ((d.get e.sourceNode).getD 0 + 1)) d).get v).getD 0 =
        (d.get v).getD 0 + edges.countP fun e => e.sourceNode = v := by
    intro edges
    induction edges with
    | nil => exact fun _ => rfl
    | cons e edges ih =>
      intro d
      rw [List.foldl_cons, ih, Dict.get_set, List.countP_cons]
      by_cases hv : e.sourceNode = v
      · simp only [hv, if_true, Option.getD_some, decide_true]
        omega
      · simp [hv, Ne.symm hv]
  rw [outDegree, hcount, show (Dict.get ([] : Dict String ℕ) v).getD 0 = 0 from rfl, zero_add,
    List.countP_eq_zero]
  simp

theorem executionGraph_compiles {order : List String} (hord : Ordered dsl.nodes dsl.edges order)
    (hnonempty : order ≠ []) (hacyclic : ∀ a, ¬TransGen dsl.Leads a a)
    (hedges : ∀ e ∈ dsl.edges, e.sourceNode ∈ dsl.ids ∧ e.targetNode ∈ dsl.ids) :
    (executionGraph getBlock dsl order).Compiles dsl := by
  have hleads : ∀ u v, u ∈ getInputNodes v dsl.edges ↔ dsl.Leads u v := by
    intro u v
    rw [mem_getInputNodes]
    constructor
    · rintro ⟨e, he, rfl, rfl⟩
      exact ⟨⟨e, he, rfl, rfl⟩, hedges e he⟩
    · exact fun h => h.1
  have hvisited := visited_all getBlock hord hleads
  have horder : (executionGraph getBlock dsl order).executionOrder = order := hvisited.order
  have hlength : (executionGraph getBlock dsl order).nodes.length = order.length :=
    (List.length_map _).symm.trans (congrArg List.length horder)
  refine ⟨?_, ?_, ?_, hvisited.inputs, hvisited.nodes, ?_, ?_, ?_,
    isGreatest_depth hvisited hord hnonempty hacyclic⟩
  · rw [horder]
    exact hord.nodup
  · rw [horder]
    exact hord.mem
  · rw [hlength]
    exact hvisited.numbered
  · rw [horder]
    exact fun e he => hord.before ⟨⟨e, he, rfl, rfl⟩, hedges e he⟩
  · rw [horder]
    refine hvisited.entry.trans (List.filter_congr fun v _ => ?_)
    rw [Bool.eq_iff_iff]
    simp [getInputNodes, List.filter_eq_nil_iff]
  · rw [horder]
    refine List.filter_congr fun v _ => ?_
    rw [decide_eq_decide]
    exact outDegree_eq_zero dsl v

theorem compileDsl_compiles : ∃ result, compileDsl getBlock o dsl = some result ∧
    ∀ g, result.1 = some g → g.Compiles dsl ∧ ∀ node ∈ g.nodes, (getBlock node.blockType).isSome := by
  by_cases hnodes : dsl.nodes = []
  · unfold compileDsl validate
    rw [hnodes]
    exact ⟨(none, _), rfl, nofun⟩
  obtain ⟨order, cycles, hsort, -, hacyclic, hordered⟩ := topologicalSort_spec o dsl.nodes dsl.edges
  rw [compileDsl_eq getBlock o dsl (validate_of_nodes getBlock o dsl hnodes hsort) hsort]
  split_ifs with hinvalid hempty
  · exact ⟨_, rfl, nofun⟩
  · exact ⟨_, rfl, nofun⟩
  · have herror : ((validationResult getBlock dsl cycles).issues.any
        fun i => i.severity = .error) = false := by
      simpa [validationResult] using hinvalid
    obtain ⟨hnone, hedges, hblocks⟩ := sound_of_valid getBlock dsl herror
    have hcompiles := executionGraph_compiles getBlock dsl (hordered hnone) (by simpa using hempty)
      (hacyclic.mp hnone) hedges
    refine ⟨_, rfl, fun g hg => ?_⟩
    rw [← Option.some.inj hg]
    refine ⟨hcompiles, fun node hnode => ?_⟩
    obtain ⟨n, hn, -, htype, -⟩ := hcompiles.nodes node hnode
    rw [← htype]
    exact hblocks n hn

/-- Cycles are reported exactly when there are any, and a graph that is compiled runs every node
once, along the edges. -/
theorem validate_compileDsl :
    (∃ validation, validate getBlock o dsl = some validation ∧ ReportsCycles dsl validation) ∧
      ∃ result, compileDsl getBlock o dsl = some result ∧
        ∀ g, result.1 = some g → g.Compiles dsl := by
  obtain ⟨result, hresult, hcompiles⟩ := compileDsl_compiles getBlock o dsl
  exact ⟨validate_reports getBlock o dsl, result, hresult, fun g hg => (hcompiles g hg).1⟩

end CompileDsl

end Trademetrix.Builder
