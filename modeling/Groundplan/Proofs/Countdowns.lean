import Groundplan.Graph.Countdown
import Groundplan.Proofs.Deadlocks
/-!
Orders by counting. No number of a countdown ever has to go below zero, and its result is the
order, or the failure, of the graph.
-/

namespace Groundplan

namespace Countdown

/-! ## Counting -/

theorem find?_recount (change : Nat → Nat) (counts : Table String Nat) (target node : String) :
    Table.find? node (recount change counts target) =
      (Table.find? node counts).map fun count =>
        if node = target then change count else count :=
  Table.find?_map (fun key count => if key = target then change count else count) node counts

theorem run_of_ready_nil {graph : Graph} {countdown : Countdown} (ready : countdown.ready = []) :
    run graph countdown = some ([], countdown.counts) := by
  rw [run]
  split
  · rfl
  · next other => rw [ready] at other; cases other

theorem run_of_ready_cons {graph : Graph} {countdown next : Countdown} {node : String}
    {rest : List String} (ready : countdown.ready = node :: rest)
    (lowered : (targetsOf graph node).foldlM lower ⟨countdown.counts, rest⟩ = some next) :
    run graph countdown = (run graph next).map fun ended => (node :: ended.1, ended.2) := by
  rw [run]
  split
  · next other => rw [ready] at other; cases other
  · next other others same =>
      cases ready.symm.trans same
      split
      · next failed => rw [lowered] at failed; cases failed
      · next after found =>
          cases lowered.symm.trans found
          rfl

/-- Nodes above zero are counted down together: each by one, and those at one get ready. -/
theorem foldlM_lower {targets : List String} (nodup : targets.Nodup) {countdown : Countdown}
    (counted : ∀ target ∈ targets,
      ∃ count, Table.find? target countdown.counts = some (count + 1)) :
    targets.foldlM lower countdown = some
      ⟨countdown.counts.map fun entry =>
          (entry.1, if entry.1 ∈ targets then entry.2.pred else entry.2),
        (targets.filter fun target => Table.find? target countdown.counts == some 1).foldl
          (fun ready target => Table.insertKey target ready) countdown.ready⟩ := by
  induction targets generalizing countdown with
  | nil => simp
  | cons first rest induction =>
      rcases List.nodup_cons.mp nodup with ⟨fresh, nodup⟩
      rcases counted first List.mem_cons_self with ⟨count, found⟩
      have others : ∀ target ∈ rest,
          Table.find? target (recount Nat.pred countdown.counts first) =
            Table.find? target countdown.counts := by
        intro target member
        have different : target ≠ first := fun same => fresh (same ▸ member)
        rw [find?_recount]
        simp [different]
      have lowered : countdown.lower first = some ⟨recount Nat.pred countdown.counts first,
          if count = 0 then Table.insertKey first countdown.ready else countdown.ready⟩ := by
        rw [lower, found]
      rw [List.foldlM_cons, lowered]
      refine (induction nodup fun target member => ?_).trans ?_
      · rw [others target member]
        exact counted target (List.mem_cons_of_mem _ member)
      · rw [Option.some.injEq, Countdown.mk.injEq]
        constructor
        · rw [recount, List.map_map]
          refine List.map_congr_left fun entry _ => ?_
          by_cases same : entry.1 = first
          · simp [same, fresh]
          · simp [same]
        · have kept : (rest.filter fun target =>
                Table.find? target (recount Nat.pred countdown.counts first) == some 1) =
              rest.filter fun target => Table.find? target countdown.counts == some 1 :=
            List.filter_congr fun target member => by rw [others target member]
          rw [kept, List.filter_cons, found]
          by_cases last : count = 0 <;> simp [last]

/-! ## Waiting nodes -/

/-- Nodes that wait for each other in a graph from which the others were settled. -/
structure Remains (graph : Graph) (waiting : Table String (List String)) : Prop where
  ordered : Table.Ordered waiting
  named : ∀ node ∈ Table.keys waiting, node ∈ graph.nodes
  distinct : ∀ node sources, (node, sources) ∈ waiting → sources.Nodup
  edges : ∀ source target, (∃ sources, (target, sources) ∈ waiting ∧ source ∈ sources) ↔
    source ∈ Table.keys waiting ∧ graph.Edge source target

/-- The countdown of waiting nodes. -/
def ofWaiting (nodes : List String) (waiting : Table String (List String)) : Countdown :=
  ⟨nodes.map fun node => (node, ((Table.find? node waiting).getD []).length),
    Table.keys (waiting.filter fun entry => entry.2.isEmpty)⟩

theorem find?_ofWaiting {nodes : List String} {waiting : Table String (List String)}
    {node : String} (member : node ∈ nodes) :
    Table.find? node (ofWaiting nodes waiting).counts =
      some ((Table.find? node waiting).getD []).length := by
  induction nodes with
  | nil => cases member
  | cons first rest induction =>
      rw [ofWaiting, List.map_cons]
      by_cases same : node = first
      · subst same
        exact Table.find?_cons_self _ _ _
      · rw [Table.find?_cons_of_ne same]
        exact induction ((List.mem_cons.mp member).resolve_left same)

theorem mem_ready {nodes : List String} {waiting : Table String (List String)} {node : String} :
    node ∈ (ofWaiting nodes waiting).ready ↔ (node, []) ∈ waiting := by
  simp only [ofWaiting, Table.keys, List.mem_map, List.mem_filter, List.isEmpty_iff]
  constructor
  · rintro ⟨⟨other, sources⟩, ⟨listed, rfl⟩, rfl⟩
    exact listed
  · intro listed
    exact ⟨(node, []), ⟨listed, rfl⟩, rfl⟩

theorem ascending_ready {waiting : Table String (List String)} (ordered : Table.Ordered waiting)
    (nodes : List String) : Table.Ascending (ofWaiting nodes waiting).ready :=
  (Table.ordered_iff_keys.mp ordered).sublist (List.filter_sublist.map Prod.fst)

private theorem mem_foldl_insertKey {key : String} {added keys : List String} :
    key ∈ added.foldl (fun keys key => Table.insertKey key keys) keys ↔
      key ∈ added ∨ key ∈ keys := by
  induction added generalizing keys with
  | nil => simp
  | cons first rest induction =>
      rw [List.foldl_cons, induction, Table.mem_insertKey, List.mem_cons, ← or_assoc]
      exact or_congr_left or_comm

private theorem ascending_foldl_insertKey (added : List String) {keys : List String}
    (ascending : Table.Ascending keys) :
    Table.Ascending (added.foldl (fun keys key => Table.insertKey key keys) keys) := by
  induction added generalizing keys with
  | nil => exact ascending
  | cons first rest induction => exact induction (Table.ascending_insertKey first ascending)

theorem find?_settle_self (node : String) (waiting : Table String (List String)) :
    Table.find? node (Graph.settle node waiting) = none := by
  rw [Table.find?_eq_none_iff]
  intro member
  rw [Table.keys, Graph.keys_settle, List.mem_filter] at member
  simp at member

theorem find?_settle_of_ne {node other : String} (different : other ≠ node)
    (waiting : Table String (List String)) :
    Table.find? other (Graph.settle node waiting) =
      (Table.find? other waiting).map fun sources =>
        sources.filter fun source => source != node := by
  rw [Graph.settle,
    Table.find?_map fun _ (sources : List String) => sources.filter fun source => source != node,
    Table.find?_filter (fun key => key != node) (by simpa using different)]

theorem Remains.find?_count {graph : Graph} {waiting : Table String (List String)}
    (remains : Remains graph waiting) {target : String} {sources : List String}
    (listed : (target, sources) ∈ waiting) :
    Table.find? target (ofWaiting graph.nodes waiting).counts = some sources.length := by
  rw [find?_ofWaiting (remains.named target (Table.mem_keys_of_mem listed)),
    remains.ordered.find?_eq_some_iff.mpr listed, Option.getD_some]

/-- What waits for nothing else than a node waits for that node alone, if for anything. -/
private theorem eq_nil_or_singleton {node : String} {sources : List String}
    (distinct : sources.Nodup) (others : sources.filter (fun source => source != node) = []) :
    sources = [] ∨ sources = [node] := by
  have only : ∀ source ∈ sources, source = node := by
    simpa using List.filter_eq_nil_iff.mp others
  rcases sources with _ | ⟨source, rest⟩
  · exact .inl rfl
  · rcases List.nodup_cons.mp distinct with ⟨fresh, _⟩
    have isNode := only source List.mem_cons_self
    have alone : rest = [] := List.eq_nil_iff_forall_not_mem.mpr fun another member =>
      fresh ((isNode.trans (only another (List.mem_cons_of_mem _ member)).symm) ▸ member)
    rw [isNode, alone]
    exact .inr rfl

section Settle

variable {graph : Graph} {waiting : Table String (List String)} (remains : Remains graph waiting)
  {node : String} (ready : (node, []) ∈ waiting)
include remains ready

/-- Settling a node that waits for nothing leaves what remains of the others. -/
theorem Remains.settle : Remains graph (Graph.settle node waiting) where
  ordered := by
    rw [Table.ordered_iff_keys, Table.keys, Graph.keys_settle]
    exact (Table.ordered_iff_keys.mp remains.ordered).sublist List.filter_sublist
  named other member := by
    rw [Table.keys, Graph.keys_settle, List.mem_filter] at member
    exact remains.named other member.1
  distinct other sources listed := by
    rcases Graph.mem_settle.mp listed with ⟨earlier, inWaiting, _, rfl⟩
    exact (remains.distinct other earlier inWaiting).filter _
  edges source target := by
    rw [Table.keys, Graph.keys_settle, List.mem_filter, bne_iff_ne]
    constructor
    · rintro ⟨sources, listed, isSource⟩
      rcases Graph.mem_settle.mp listed with ⟨earlier, inWaiting, _, rfl⟩
      rw [List.mem_filter, bne_iff_ne] at isSource
      have edge := (remains.edges source target).mp ⟨earlier, inWaiting, isSource.1⟩
      exact ⟨⟨edge.1, isSource.2⟩, edge.2⟩
    · rintro ⟨⟨waits, different⟩, edge⟩
      rcases (remains.edges source target).mpr ⟨waits, edge⟩ with ⟨sources, listed, isSource⟩
      have other : target ≠ node := by
        rintro rfl
        cases Table.eq_of_nodup_keys remains.ordered.nodup_keys listed ready
        cases isSource
      exact ⟨_, Graph.mem_settle.mpr ⟨sources, listed, other, rfl⟩,
        List.mem_filter.mpr ⟨isSource, by simpa using different⟩⟩

/-- The targets of a node are those that wait for it. -/
theorem Remains.mem_targetsOf {target : String} :
    target ∈ targetsOf graph node ↔
      ∃ sources, (target, sources) ∈ waiting ∧ node ∈ sources := by
  rw [remains.edges node target, targetsOf]
  have waits : node ∈ Table.keys waiting := Table.mem_keys_of_mem ready
  simp only [waits, true_and, Graph.Edge]
  cases Table.find? node graph.targets <;> simp

/-- A node waits for one node less when it waited for the settled one. -/
theorem Remains.length_settle (other : String) :
    ((Table.find? other (Graph.settle node waiting)).getD []).length =
      if other ∈ targetsOf graph node then ((Table.find? other waiting).getD []).length.pred
      else ((Table.find? other waiting).getD []).length := by
  by_cases same : other = node
  · subst same
    rw [find?_settle_self, remains.ordered.find?_eq_some_iff.mpr ready]
    simp
  · rw [find?_settle_of_ne same]
    cases found : Table.find? other waiting with
    | none => simp
    | some sources =>
        have listed := Table.mem_of_find? found
        have waits : other ∈ targetsOf graph node ↔ node ∈ sources := by
          rw [remains.mem_targetsOf ready]
          constructor
          · rintro ⟨given, again, member⟩
            exact Table.eq_of_nodup_keys remains.ordered.nodup_keys again listed ▸ member
          · exact fun member => ⟨sources, listed, member⟩
        have filtered := (remains.distinct other sources listed).erase_eq_filter node
        simp only [waits, Option.map_some, Option.getD_some, ← filtered, List.length_erase]
        rfl

/-- The nodes that get ready are those that waited for the settled one alone. -/
theorem Remains.mem_ready_settle {rest : List String}
    (first : (ofWaiting graph.nodes waiting).ready = node :: rest) {other : String} :
    other ∈ (ofWaiting graph.nodes (Graph.settle node waiting)).ready ↔
      (other ∈ targetsOf graph node ∧
        Table.find? other (ofWaiting graph.nodes waiting).counts = some 1) ∨ other ∈ rest := by
  have nodup := (ascending_ready remains.ordered graph.nodes).nodup
  rw [first, List.nodup_cons] at nodup
  rw [mem_ready, Graph.mem_settle]
  constructor
  · rintro ⟨sources, listed, different, filtered⟩
    rcases eq_nil_or_singleton (remains.distinct other sources listed) filtered.symm with
      rfl | rfl
    · have isReady : other ∈ (ofWaiting graph.nodes waiting).ready := mem_ready.mpr listed
      rw [first] at isReady
      exact .inr ((List.mem_cons.mp isReady).resolve_left different)
    · exact .inl ⟨(remains.mem_targetsOf ready).mpr ⟨_, listed, List.mem_cons_self⟩,
        remains.find?_count listed⟩
  · rintro (⟨isTarget, atOne⟩ | inRest)
    · rcases (remains.mem_targetsOf ready).mp isTarget with ⟨sources, listed, waits⟩
      rw [remains.find?_count listed, Option.some.injEq] at atOne
      rcases List.length_eq_one_iff.mp atOne with ⟨only, rfl⟩
      cases List.mem_singleton.mp waits
      refine ⟨_, listed, ?_, by simp⟩
      rintro rfl
      cases Table.eq_of_nodup_keys remains.ordered.nodup_keys listed ready
    · have isReady : other ∈ (ofWaiting graph.nodes waiting).ready :=
        first ▸ List.mem_cons_of_mem _ inRest
      exact ⟨[], mem_ready.mp isReady, fun same => nodup.1 (same ▸ inRest), rfl⟩

/-- Counting the targets of a node down is settling it. No number is zero before. -/
theorem Remains.foldlM_lower (wellFormed : graph.WellFormed) {rest : List String}
    (first : (ofWaiting graph.nodes waiting).ready = node :: rest) :
    (targetsOf graph node).foldlM lower ⟨(ofWaiting graph.nodes waiting).counts, rest⟩ =
      some (ofWaiting graph.nodes (Graph.settle node waiting)) := by
  have targetsAscending : Table.Ascending (targetsOf graph node) := by
    cases found : Table.find? node graph.targets with
    | none => rw [targetsOf, found]; exact List.Pairwise.nil
    | some targets => rw [targetsOf, found]; exact wellFormed.ascending node targets found
  refine (Countdown.foldlM_lower targetsAscending.nodup fun target isTarget => ?_).trans ?_
  · rcases (remains.mem_targetsOf ready).mp isTarget with ⟨sources, listed, waits⟩
    rcases Nat.exists_eq_succ_of_ne_zero (List.length_pos_of_mem waits).ne' with ⟨left, length⟩
    exact ⟨left, (remains.find?_count listed).trans (congrArg some length)⟩
  · have counts : ((ofWaiting graph.nodes waiting).counts.map fun entry =>
          (entry.1, if entry.1 ∈ targetsOf graph node then entry.2.pred else entry.2)) =
        (ofWaiting graph.nodes (Graph.settle node waiting)).counts := by
      rw [ofWaiting, ofWaiting, List.map_map]
      exact List.map_congr_left fun other _ =>
        congrArg (Prod.mk other) (remains.length_settle ready other).symm
    have restAscending : Table.Ascending rest := by
      have ascending := ascending_ready remains.ordered graph.nodes
      rw [first] at ascending
      exact (List.pairwise_cons.mp ascending).2
    rw [counts, Option.some.injEq]
    congr 1
    apply (ascending_foldl_insertKey _ restAscending).ext
      (ascending_ready (remains.settle ready).ordered graph.nodes)
    intro other
    rw [mem_foldl_insertKey, remains.mem_ready_settle ready first, List.mem_filter, beq_iff_eq]

end Settle

/-! ## Runs -/

theorem sources_sublist (graph : Graph) (target : String) :
    (graph.sources target).Sublist graph.nodes := by
  rw [Graph.sources, Graph.nodes, Table.keys]
  induction graph.targets with
  | nil => exact .slnil
  | cons entry rest induction =>
      rw [List.filterMap_cons, List.map_cons]
      split
      · exact induction.cons _
      · next source taken =>
          split at taken
          · cases taken
            exact induction.cons_cons _
          · cases taken

/-- Counting up adds to each number how often its node is listed. -/
private theorem foldl_recount_succ (targets : List String) (counts : Table String Nat) :
    targets.foldl (recount Nat.succ) counts =
      counts.map fun entry => (entry.1, entry.2 + targets.count entry.1) := by
  induction targets generalizing counts with
  | nil => simp
  | cons first rest induction =>
      rw [List.foldl_cons, induction, recount, List.map_map]
      refine List.map_congr_left fun entry _ => ?_
      by_cases same : entry.1 = first
      · subst same
        simp [Nat.succ_eq_add_one]
        omega
      · simp [same, Ne.symm same]

/-- A node is listed as a target once for each of its sources. -/
private theorem count_flatMap {entries : Table String (List String)}
    (distinct : ∀ entry ∈ entries, entry.2.Nodup) (target : String) :
    (entries.flatMap Prod.snd).count target =
      (Graph.sources ⟨entries⟩ target).length := by
  rw [Graph.sources]
  induction entries with
  | nil => rfl
  | cons entry rest induction =>
      have below := induction fun other member => distinct other (List.mem_cons_of_mem _ member)
      have nodup := distinct entry List.mem_cons_self
      rw [List.flatMap_cons, List.count_append, below, List.filterMap_cons]
      by_cases member : target ∈ entry.2
      · simp [member, List.count_eq_one_of_mem nodup member, Nat.add_comm]
      · simp [member, List.count_eq_zero_of_not_mem member]

section Runs

variable {graph : Graph} (wellFormed : graph.WellFormed)
include wellFormed

/-- A countdown of what remains settles the same nodes and keeps the same ones waiting. -/
theorem Remains.run {waiting : Table String (List String)} (remains : Remains graph waiting) :
    ∃ left, Remains graph left ∧ Table.keys left = (Graph.run waiting).2 ∧
      (∀ node, (node, []) ∉ left) ∧
      Countdown.run graph (ofWaiting graph.nodes waiting) =
        some ((Graph.run waiting).1, (ofWaiting graph.nodes left).counts) := by
  cases found : List.find? (fun entry => entry.2.isEmpty) waiting with
  | none =>
      have busy : ∀ node, (node, []) ∉ waiting := fun node listed =>
        List.find?_eq_none.mp found (node, []) listed rfl
      have ready : (ofWaiting graph.nodes waiting).ready = [] :=
        List.eq_nil_iff_forall_not_mem.mpr fun node member => busy node (mem_ready.mp member)
      rw [Graph.run_of_find?_eq_none found, run_of_ready_nil ready]
      exact ⟨waiting, remains, rfl, busy, rfl⟩
  | some entry =>
      rcases entry with ⟨node, sources⟩
      have listed := List.mem_of_find?_eq_some found
      have none : sources = [] := by simpa using List.find?_some found
      subst none
      have : (Graph.settle node waiting).length < waiting.length :=
        Graph.settle_length_lt listed rfl
      have first : ∃ rest, (ofWaiting graph.nodes waiting).ready = node :: rest := by
        rw [← List.head?_filter, List.head?_eq_some_iff] at found
        rcases found with ⟨rest, split⟩
        exact ⟨Table.keys rest, congrArg Table.keys split⟩
      rcases first with ⟨rest, first⟩
      rcases (remains.settle listed).run with ⟨left, stays, keys, busy, ends⟩
      rw [Graph.run_of_find?_eq_some found,
        run_of_ready_cons first (remains.foldlM_lower listed wellFormed first), ends]
      exact ⟨left, stays, keys, busy, rfl⟩
termination_by waiting.length

theorem remains_pending : Remains graph graph.pending where
  ordered := by
    rw [Table.ordered_iff_keys, Table.keys, Graph.keys_pending]
    exact Table.ordered_iff_keys.mp wellFormed.ordered
  named node member := by rwa [Table.keys, Graph.keys_pending] at member
  distinct node sources listed := by
    rcases List.mem_map.mp listed with ⟨_, _, same⟩
    cases same
    exact (Table.Ordered.nodup_keys wellFormed.ordered).sublist (sources_sublist graph _)
  edges source target := by
    rw [Table.keys, Graph.keys_pending]
    constructor
    · rintro ⟨sources, listed, isSource⟩
      rcases List.mem_map.mp listed with ⟨_, _, same⟩
      cases same
      have edge := (Graph.mem_sources wellFormed.ordered).mp isSource
      exact ⟨Graph.source_mem_nodes edge, edge⟩
    · rintro ⟨_, edge⟩
      exact ⟨_, List.mem_map.mpr ⟨target, wellFormed.closed source target edge, rfl⟩,
        (Graph.mem_sources wellFormed.ordered).mpr edge⟩

theorem find?_pending {node : String} (member : node ∈ graph.nodes) :
    Table.find? node graph.pending = some (graph.sources node) :=
  (remains_pending wellFormed).ordered.find?_eq_some_iff.mpr (List.mem_map.mpr ⟨node, member, rfl⟩)

theorem start_eq : start graph = ofWaiting graph.nodes graph.pending := by
  have distinct : ∀ entry ∈ graph.targets, entry.2.Nodup := fun entry member =>
    (wellFormed.ascending entry.1 entry.2
      (Table.Ordered.find?_eq_some_iff wellFormed.ordered |>.mpr member)).nodup
  have counts : (graph.targets.flatMap Prod.snd).foldl (recount Nat.succ)
      (graph.nodes.map fun node => (node, 0)) =
        graph.nodes.map fun node => (node, (graph.sources node).length) := by
    rw [foldl_recount_succ, List.map_map]
    refine List.map_congr_left fun node _ => ?_
    simp only [Function.comp_apply, count_flatMap distinct, Nat.zero_add]
  rw [start, counts, ofWaiting, Countdown.mk.injEq]
  constructor
  · refine List.map_congr_left fun node member => ?_
    rw [find?_pending wellFormed member, Option.getD_some]
  · rw [Graph.pending, Table.keys, Table.keys, List.filter_map, List.filter_map, List.map_map,
      List.map_map]
    congr 1
    refine List.filter_congr fun node _ => ?_
    rw [Function.comp_apply, Function.comp_apply, Bool.eq_iff_iff, beq_iff_eq, List.isEmpty_iff,
      List.length_eq_zero_iff]

/-- The nodes above zero are those that wait for something. -/
theorem Remains.keys_above_zero {left : Table String (List String)} (remains : Remains graph left)
    (busy : ∀ node, (node, []) ∉ left) :
    Table.keys ((ofWaiting graph.nodes left).counts.filter fun entry => 0 < entry.2) =
      Table.keys left := by
  have nodesAscending := Table.ordered_iff_keys.mp wellFormed.ordered
  have keys : Table.keys ((ofWaiting graph.nodes left).counts.filter fun entry => 0 < entry.2) =
      graph.nodes.filter fun node => 0 < ((Table.find? node left).getD []).length := by
    rw [ofWaiting, Table.keys, List.filter_map, List.map_map]
    exact List.map_id _
  rw [keys]
  apply Table.Ascending.ext (List.Pairwise.sublist List.filter_sublist nodesAscending)
    (Table.ordered_iff_keys.mp remains.ordered)
  intro node
  rw [List.mem_filter, decide_eq_true_eq]
  constructor
  · rintro ⟨_, above⟩
    cases found : Table.find? node left with
    | none => rw [found] at above; cases above
    | some sources => exact Table.mem_keys_of_mem (Table.mem_of_find? found)
  · intro member
    rcases Table.exists_find?_of_mem_keys member with ⟨sources, found⟩
    refine ⟨remains.named node member, ?_⟩
    rw [found, Option.getD_some]
    refine List.length_pos_iff.mpr ?_
    rintro rfl
    exact busy node (Table.mem_of_find? found)

/-- Counting never goes below zero and gives the order of the graph, or its failure. -/
theorem order?_eq : order? graph = some graph.order := by
  rcases (remains_pending wellFormed).run wellFormed with ⟨left, remains, keys, busy, ends⟩
  have lengths : (Graph.run graph.pending).1.length + (Graph.run graph.pending).2.length =
      graph.size := by
    rw [← List.length_append, (Graph.run_pending_perm wellFormed.ordered).length_eq, Graph.nodes,
      Table.keys, List.length_map, Graph.size]
  rw [order?, start_eq wellFormed, ends, Option.map_some, Option.some.injEq]
  by_cases done : (Graph.run graph.pending).2 = []
  · rw [done, List.length_nil, Nat.add_zero] at lengths
    rw [if_pos lengths]
    exact (Graph.order_eq_ok_iff.mpr (Prod.ext rfl done)).symm
  · have short : (Graph.run graph.pending).1.length ≠ graph.size := by
      have waits := List.length_pos_iff.mpr done
      omega
    rw [if_neg short, remains.keys_above_zero wellFormed busy, keys]
    exact (Graph.order_eq_error_iff.mpr ⟨rfl, done⟩).symm

end Runs

end Countdown

end Groundplan
