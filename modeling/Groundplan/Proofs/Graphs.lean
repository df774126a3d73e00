import Groundplan.Graph
import Groundplan.Proofs.Tables
/-!
Laws of dependency graphs: what building a graph adds to it, and that an order
lists every node once and after all nodes it depends on. A graph that results from
additions is no more than the nodes and edges that were added.
-/

namespace Groundplan.Graph

/-! ## Building -/

/-- Whether `source` has to come before `target`. -/
def Edge (graph : Graph) (source target : String) : Prop :=
  ∃ targets, Table.find? source graph.targets = some targets ∧ target ∈ targets

/-- Whether every node has one entry. -/
def Ordered (graph : Graph) : Prop := Table.Ordered graph.targets

theorem ordered_empty : Ordered empty := Table.ordered_nil

theorem ordered_addNode {graph : Graph} (ordered : graph.Ordered) (node : String) :
    (graph.addNode node).Ordered :=
  Table.ordered_insert _ _ ordered

theorem ordered_addEdge {graph : Graph} (ordered : graph.Ordered) (source target : String) :
    (graph.addEdge source target).Ordered :=
  Table.ordered_insert _ _ (ordered_addNode ordered target)

@[simp] theorem not_mem_nodes_empty (node : String) : node ∉ empty.nodes := by
  simp [nodes, empty]

theorem mem_nodes_addNode {graph : Graph} {node other : String} :
    other ∈ (graph.addNode node).nodes ↔ other = node ∨ other ∈ graph.nodes :=
  Table.mem_keys_insert

theorem mem_nodes_addEdge {graph : Graph} {source target other : String} :
    other ∈ (graph.addEdge source target).nodes ↔
      other = source ∨ other = target ∨ other ∈ graph.nodes := by
  rw [nodes, addEdge, Table.alter, Table.mem_keys_insert]
  exact or_congr_right mem_nodes_addNode

theorem edge_addNode {graph : Graph} {node source target : String} :
    (graph.addNode node).Edge source target ↔ graph.Edge source target := by
  simp only [Edge, addNode, Table.alter, Table.find?_insert]
  split
  · next same =>
      subst same
      cases found : Table.find? source graph.targets <;> simp
  · rfl

theorem edge_addEdge {graph : Graph} {first second source target : String} :
    (graph.addEdge first second).Edge source target ↔
      (source = first ∧ target = second) ∨ graph.Edge source target := by
  have added : (graph.addNode second).Edge source target ↔ graph.Edge source target :=
    edge_addNode
  rw [← added]
  simp only [Edge, addEdge, Table.alter, Table.find?_insert _ source]
  split
  · next same =>
      subst same
      simp only [Option.some.injEq, exists_eq_left', Table.mem_insertKey, true_and]
      cases found : Table.find? source (graph.addNode second).targets <;> simp
  · next different => simp [different]

theorem mem_sources {graph : Graph} (ordered : graph.Ordered) {source target : String} :
    source ∈ graph.sources target ↔ graph.Edge source target := by
  simp only [sources, List.mem_filterMap, Edge]
  constructor
  · rintro ⟨⟨node, targets⟩, listed, taken⟩
    split at taken
    · next inside =>
        have same := Option.some.inj taken
        subst same
        exact ⟨targets, (Table.Ordered.find?_eq_some_iff ordered).mpr listed, by simpa using inside⟩
    · cases taken
  · rintro ⟨targets, found, inside⟩
    exact ⟨(source, targets), Table.mem_of_find? found, by simp [inside]⟩

theorem source_mem_nodes {graph : Graph} {source target : String}
    (edge : graph.Edge source target) : source ∈ graph.nodes := by
  rcases edge with ⟨targets, found, _⟩
  exact Table.mem_keys_of_mem (Table.mem_of_find? found)

/-- A call that adds to a graph. -/
inductive Addition where
  | node (node : String)
  | edge (source target : String)
deriving DecidableEq

namespace Addition

def addTo (graph : Graph) : Addition → Graph
  | node added => graph.addNode added
  | edge source target => graph.addEdge source target

/-- The nodes that an addition speaks of. -/
def nodes : Addition → List String
  | node added => [added]
  | edge source target => [source, target]

end Addition

/-- The graph that results from additions. -/
def ofAdditions (additions : List Addition) : Graph := additions.foldl Addition.addTo empty

private theorem mem_nodes_foldl_addTo {additions : List Addition} {graph : Graph}
    {node : String} :
    node ∈ (additions.foldl Addition.addTo graph).nodes ↔
      node ∈ graph.nodes ∨ ∃ addition ∈ additions, node ∈ addition.nodes := by
  induction additions generalizing graph with
  | nil => simp
  | cons first rest induction =>
      rw [List.foldl_cons, induction]
      simp only [List.mem_cons, exists_eq_or_imp, ← or_assoc]
      apply or_congr_left
      cases first with
      | node => simp [Addition.addTo, Addition.nodes, mem_nodes_addNode, or_comm]
      | edge => simp [Addition.addTo, Addition.nodes, mem_nodes_addEdge, ← or_assoc, or_comm]

/-- The nodes are those that additions speak of. -/
theorem mem_nodes_ofAdditions {additions : List Addition} {node : String} :
    node ∈ (ofAdditions additions).nodes ↔ ∃ addition ∈ additions, node ∈ addition.nodes := by
  rw [ofAdditions, mem_nodes_foldl_addTo]
  simp

private theorem edge_foldl_addTo {additions : List Addition} {graph : Graph}
    {source target : String} :
    (additions.foldl Addition.addTo graph).Edge source target ↔
      graph.Edge source target ∨ .edge source target ∈ additions := by
  induction additions generalizing graph with
  | nil => simp
  | cons first rest induction =>
      rw [List.foldl_cons, induction, List.mem_cons, ← or_assoc]
      apply or_congr_left
      cases first with
      | node => simp [Addition.addTo, edge_addNode]
      | edge => simp [Addition.addTo, edge_addEdge, or_comm]

/-- The edges are those that were added. -/
theorem edge_ofAdditions {additions : List Addition} {source target : String} :
    (ofAdditions additions).Edge source target ↔ .edge source target ∈ additions := by
  rw [ofAdditions, edge_foldl_addTo]
  simp [Edge, empty]

/-- What holds of every graph that results from additions. -/
structure WellFormed (graph : Graph) : Prop where
  ordered : graph.Ordered
  ascending : ∀ node targets, Table.find? node graph.targets = some targets →
    Table.Ascending targets
  closed : ∀ source target, graph.Edge source target → target ∈ graph.nodes

theorem wellFormed_empty : WellFormed empty where
  ordered := ordered_empty
  ascending _ _ found := by cases found
  closed _ _ edge := by rcases edge with ⟨_, found, _⟩; cases found

theorem WellFormed.addNode {graph : Graph} (wellFormed : graph.WellFormed) (node : String) :
    (graph.addNode node).WellFormed where
  ordered := ordered_addNode wellFormed.ordered node
  ascending other targets found := by
    rw [Graph.addNode, Table.alter, Table.find?_insert] at found
    split at found
    · cases old : Table.find? node graph.targets with
      | none =>
          rw [old, Option.getD_none, Option.some.injEq] at found
          exact found ▸ List.Pairwise.nil
      | some earlier =>
          rw [old, Option.getD_some, Option.some.injEq] at found
          exact found ▸ wellFormed.ascending node earlier old
    · exact wellFormed.ascending other targets found
  closed source target edge :=
    mem_nodes_addNode.mpr (.inr (wellFormed.closed source target (edge_addNode.mp edge)))

theorem WellFormed.addEdge {graph : Graph} (wellFormed : graph.WellFormed)
    (source target : String) : (graph.addEdge source target).WellFormed where
  ordered := ordered_addEdge wellFormed.ordered source target
  ascending other targets found := by
    have before := wellFormed.addNode target
    rw [Graph.addEdge, Table.alter, Table.find?_insert] at found
    split at found
    · rw [Option.some.injEq] at found
      subst found
      apply Table.ascending_insertKey
      cases old : Table.find? source (graph.addNode target).targets with
      | none => exact List.Pairwise.nil
      | some earlier => exact before.ascending source earlier old
    · exact before.ascending other targets found
  closed first second edge := by
    rw [mem_nodes_addEdge]
    rcases edge_addEdge.mp edge with ⟨_, same⟩ | edge
    · exact .inr (.inl same)
    · exact .inr (.inr (wellFormed.closed first second edge))

theorem wellFormed_ofAdditions (additions : List Addition) :
    (ofAdditions additions).WellFormed := by
  rw [ofAdditions]
  generalize start : empty = graph
  have wellFormed : graph.WellFormed := start ▸ wellFormed_empty
  clear start
  induction additions generalizing graph with
  | nil => exact wellFormed
  | cons first rest induction =>
      apply induction
      cases first with
      | node added => exact wellFormed.addNode added
      | edge source target => exact wellFormed.addEdge source target

/-- A graph is its nodes and its edges. -/
theorem WellFormed.ext {left right : Graph} (inLeft : left.WellFormed)
    (inRight : right.WellFormed) (nodes : ∀ node, node ∈ left.nodes ↔ node ∈ right.nodes)
    (edges : ∀ source target, left.Edge source target ↔ right.Edge source target) :
    left = right := by
  rcases left with ⟨lefts⟩
  rcases right with ⟨rights⟩
  congr 1
  refine Table.Ordered.ext inLeft.ordered inRight.ordered fun node => ?_
  cases atLeft : Table.find? node lefts with
  | none =>
      have absent : node ∉ Table.keys rights := fun member =>
        Table.find?_eq_none_iff.mp atLeft ((nodes node).mpr member)
      exact (Table.find?_eq_none_iff.mpr absent).symm
  | some targets =>
      have listed := (nodes node).mp (Table.mem_keys_of_mem (Table.mem_of_find? atLeft))
      rcases Table.exists_find?_of_mem_keys listed with ⟨others, atRight⟩
      have same : targets = others := by
        refine (inLeft.ascending node targets atLeft).ext
          (inRight.ascending node others atRight) fun target => ?_
        simpa [Edge, atLeft, atRight] using edges node target
      rw [atRight, same]

/-! ## Settling -/

theorem mem_settle {node : String} {waiting : List (String × List String)}
    {entry : String × List String} :
    entry ∈ settle node waiting ↔ ∃ sources, (entry.1, sources) ∈ waiting ∧ entry.1 ≠ node ∧
      entry.2 = sources.filter fun source => source != node := by
  rcases entry with ⟨other, left⟩
  simp only [settle, List.mem_map, List.mem_filter, bne_iff_ne, ne_eq, Prod.mk.injEq, Prod.exists]
  constructor
  · rintro ⟨key, sources, ⟨listed, different⟩, same, filtered⟩
    subst same
    exact ⟨sources, listed, different, filtered.symm⟩
  · rintro ⟨sources, listed, different, filtered⟩
    exact ⟨other, sources, ⟨listed, different⟩, rfl, filtered.symm⟩

theorem keys_settle (node : String) (waiting : List (String × List String)) :
    (settle node waiting).map Prod.fst =
      (waiting.map Prod.fst).filter fun other => other != node := by
  rw [settle, List.map_map, List.filter_map]
  rfl

theorem nodup_settle (node : String) {waiting : List (String × List String)}
    (nodup : (waiting.map Prod.fst).Nodup) : ((settle node waiting).map Prod.fst).Nodup := by
  rw [keys_settle]
  exact nodup.filter _

theorem run_of_find?_eq_none {waiting : List (String × List String)}
    (stuck : (waiting.find? fun entry => entry.2.isEmpty) = none) :
    run waiting = ([], waiting.map Prod.fst) := by
  rw [run]
  split
  · rfl
  · next found => rw [stuck] at found; cases found

theorem run_of_find?_eq_some {waiting : List (String × List String)}
    {entry : String × List String}
    (ready : (waiting.find? fun entry => entry.2.isEmpty) = some entry) :
    run waiting =
      (entry.1 :: (run (settle entry.1 waiting)).1, (run (settle entry.1 waiting)).2) := by
  rw [run]
  split
  · next found => rw [ready] at found; cases found
  · next other found =>
      rw [ready] at found
      have same := Option.some.inj found
      subst same
      rfl

/-- Running neither loses a node nor lists one twice. -/
theorem run_perm {waiting : List (String × List String)}
    (nodup : (waiting.map Prod.fst).Nodup) :
    ((run waiting).1 ++ (run waiting).2).Perm (waiting.map Prod.fst) := by
  cases found : waiting.find? fun entry => entry.2.isEmpty with
  | none => rw [run_of_find?_eq_none found]; exact List.Perm.refl _
  | some entry =>
      have member := List.mem_of_find?_eq_some found
      have : (settle entry.1 waiting).length < waiting.length := settle_length_lt member rfl
      have rest := run_perm (nodup_settle entry.1 nodup)
      rw [keys_settle, ← nodup.erase_eq_filter] at rest
      rw [run_of_find?_eq_some found]
      have first := List.perm_cons_erase (List.mem_map_of_mem (f := Prod.fst) member)
      exact (rest.cons entry.1).trans first.symm
termination_by waiting.length

private theorem sources_unique {waiting : List (String × List String)}
    (nodup : (waiting.map Prod.fst).Nodup) {node : String} {left right : List String}
    (inLeft : (node, left) ∈ waiting) (inRight : (node, right) ∈ waiting) : left = right := by
  induction waiting with
  | nil => cases inLeft
  | cons entry rest induction =>
      rw [List.map_cons, List.nodup_cons] at nodup
      have outside : ∀ sources, (node, sources) ∈ rest → entry.1 ≠ node := by
        intro sources member same
        exact nodup.1 (same ▸ List.mem_map_of_mem member)
      rcases List.mem_cons.mp inLeft with sameLeft | inLeft
      · rcases List.mem_cons.mp inRight with sameRight | inRight
        · exact congrArg Prod.snd (sameLeft.trans sameRight.symm)
        · exact absurd (congrArg Prod.fst sameLeft).symm (outside right inRight)
      · rcases List.mem_cons.mp inRight with sameRight | inRight
        · exact absurd (congrArg Prod.fst sameRight).symm (outside left inLeft)
        · exact induction nodup.2 inLeft inRight

/-- A node is settled after all nodes it waits for. -/
theorem mem_before_of_run {waiting : List (String × List String)}
    (nodup : (waiting.map Prod.fst).Nodup) {before after sources : List String} {node : String}
    (settled : (run waiting).1 = before ++ node :: after) (listed : (node, sources) ∈ waiting) :
    ∀ source ∈ sources, source ∈ before := by
  cases found : waiting.find? fun entry => entry.2.isEmpty with
  | none =>
      rw [run_of_find?_eq_none found] at settled
      simp at settled
  | some entry =>
      have member := List.mem_of_find?_eq_some found
      have ready : entry.2 = [] := by simpa using List.find?_some found
      have : (settle entry.1 waiting).length < waiting.length := settle_length_lt member rfl
      rw [run_of_find?_eq_some found] at settled
      intro source waits
      by_cases same : node = entry.1
      · -- the node itself is ready, so it waits for nothing
        subst same
        have none := sources_unique nodup listed member
        rw [none, ready] at waits
        cases waits
      · cases before with
        | nil => exact absurd (List.cons.inj settled).1.symm same
        | cons first others =>
            rcases List.cons.inj settled with ⟨atFirst, atRest⟩
            rw [← atFirst]
            by_cases settledFirst : source = entry.1
            · exact settledFirst ▸ List.mem_cons_self
            · have left : (node, sources.filter fun source => source != entry.1) ∈
                  settle entry.1 waiting := mem_settle.mpr ⟨sources, listed, same, rfl⟩
              have earlier := mem_before_of_run (nodup_settle entry.1 nodup) atRest left
              exact List.mem_cons_of_mem _
                (earlier source (List.mem_filter.mpr ⟨waits, by simpa using settledFirst⟩))
termination_by waiting.length

/-! ## Orders -/

theorem nodup_pending {graph : Graph} (ordered : graph.Ordered) :
    (graph.pending.map Prod.fst).Nodup := by
  have nodup : graph.nodes.Nodup := Table.Ordered.nodup_keys ordered
  rw [pending, List.map_map]
  simpa [Function.comp_def] using nodup

theorem run_of_order {graph : Graph} {order : List String} (done : graph.order = .ok order) :
    run graph.pending = (order, []) := by
  rw [Graph.order] at done
  split at done
  · next found => exact Except.ok.inj done ▸ found
  · cases done

/-- An order lists every node once. -/
theorem order_perm {graph : Graph} (ordered : graph.Ordered) {order : List String}
    (done : graph.order = .ok order) : order.Perm graph.nodes := by
  have perm := run_perm (nodup_pending ordered)
  rw [run_of_order done, List.append_nil, pending, List.map_map] at perm
  simpa [Function.comp_def] using perm

/-- An order lists every node after all nodes with an edge to it. -/
theorem mem_before_of_order {graph : Graph} (ordered : graph.Ordered)
    {before after : List String} {source node : String}
    (done : graph.order = .ok (before ++ node :: after)) (edge : graph.Edge source node) :
    source ∈ before := by
  have settled := congrArg Prod.fst (run_of_order done)
  have member : node ∈ graph.nodes := (order_perm ordered done).subset (by simp)
  have listed : (node, graph.sources node) ∈ graph.pending :=
    List.mem_map.mpr ⟨node, member, rfl⟩
  exact mem_before_of_run (nodup_pending ordered) settled listed source
    ((mem_sources ordered).mpr edge)

end Groundplan.Graph
