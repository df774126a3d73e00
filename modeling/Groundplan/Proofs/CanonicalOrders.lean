import Groundplan.Proofs.Countdowns
import Mathlib.Data.List.Basic
/-!
The order of a graph is canonical: of all the orders in which every node comes after its
sources it is the smallest one, so it follows from the nodes and edges alone.
-/

namespace Groundplan.Graph

open Relation (TransGen)

/-- An order of all nodes, each once and after every node with an edge to it. -/
structure IsSchedule (graph : Graph) (order : List String) : Prop where
  once : order.Nodup
  all : ∀ node, node ∈ order ↔ node ∈ graph.nodes
  after : ∀ before node rest, order = before ++ node :: rest →
    ∀ source, graph.Edge source node → source ∈ before

/-- A schedule that comes before every other one in the order of lists of texts. -/
def IsLeastSchedule (graph : Graph) (order : List String) : Prop :=
  graph.IsSchedule order ∧ ∀ other, graph.IsSchedule other → (compare order other).isLE

/-! ## Orders of waiting nodes -/

/-- An order of all waiting nodes, each after everything that it waits for. -/
structure Serves (waiting : List (String × List String)) (order : List String) : Prop where
  perm : order.Perm (waiting.map Prod.fst)
  after : ∀ before node rest sources, order = before ++ node :: rest →
    (node, sources) ∈ waiting → ∀ source ∈ sources, source ∈ before

variable {waiting : List (String × List String)}

/-- The first node of an order waits for nothing. -/
theorem Serves.ready {node : String} {rest : List String}
    (serves : Serves waiting (node :: rest)) : (node, []) ∈ waiting := by
  rcases List.mem_map.mp (serves.perm.subset List.mem_cons_self) with
    ⟨⟨_, sources⟩, listed, rfl⟩
  have none : sources = [] := List.eq_nil_iff_forall_not_mem.mpr fun source isSource =>
    List.not_mem_nil (serves.after [] _ rest sources rfl listed source isSource)
  exact none ▸ listed

/-- The rest of an order serves what is left when its first node is settled. -/
theorem Serves.settle (nodup : (waiting.map Prod.fst).Nodup) {node : String}
    {rest : List String} (serves : Serves waiting (node :: rest)) :
    Serves (Graph.settle node waiting) rest where
  perm := by
    rw [keys_settle, ← nodup.erase_eq_filter]
    exact (List.cons_perm_iff_perm_erase.mp serves.perm).2
  after before other later sources split listed source isSource := by
    rcases mem_settle.mp listed with ⟨earlier, inWaiting, _, rfl⟩
    rw [List.mem_filter, bne_iff_ne] at isSource
    have inFront := serves.after (node :: before) other later earlier
      (by rw [split, List.cons_append]) inWaiting source isSource.1
    exact (List.mem_cons.mp inFront).resolve_left isSource.2

/-- The node that is settled first is the smallest of those that wait for nothing. -/
theorem isLE_of_find?_eq_some (ascending : Table.Ascending (waiting.map Prod.fst))
    {entry : String × List String}
    (found : (waiting.find? fun entry => entry.2.isEmpty) = some entry) {node : String}
    (ready : (node, []) ∈ waiting) : compare entry.1 node = .lt ∨ entry.1 = node := by
  rcases List.find?_eq_some_iff_append.mp found with ⟨_, before, after, split, busy⟩
  rw [split] at ready ascending
  rcases List.mem_append.mp ready with inFront | ready
  · cases busy _ inFront
  · rcases List.mem_cons.mp ready with same | later
    · exact .inr (congrArg Prod.fst same).symm
    · rw [List.map_append, List.map_cons] at ascending
      have parts := List.pairwise_cons.mp (List.pairwise_append.mp ascending).2.1
      exact .inl (parts.1 node (List.mem_map_of_mem later))

/-- Settling gives the smallest order of the waiting nodes. -/
theorem isLE_run {waiting : List (String × List String)}
    (ascending : Table.Ascending (waiting.map Prod.fst)) {other : List String}
    (serves : Serves waiting other) : (compare (run waiting).1 other).isLE := by
  cases found : waiting.find? fun entry => entry.2.isEmpty with
  | none =>
      rw [run_of_find?_eq_none found]
      cases other <;> rfl
  | some entry =>
      have member := List.mem_of_find?_eq_some found
      have : (Graph.settle entry.1 waiting).length < waiting.length :=
        settle_length_lt member rfl
      rw [run_of_find?_eq_some found]
      cases other with
      | nil =>
          have listed := serves.perm.mem_iff.mpr (List.mem_map_of_mem (f := Prod.fst) member)
          cases listed
      | cons first rest =>
          have step : compare (entry.1 :: (run (Graph.settle entry.1 waiting)).1) (first :: rest) =
              (compare entry.1 first).then
                (compare (run (Graph.settle entry.1 waiting)).1 rest) :=
            List.compareLex_cons_cons
          rw [step, Ordering.isLE_then_iff_or]
          rcases isLE_of_find?_eq_some ascending found serves.ready with before | same
          · exact .inl before
          · subst same
            have left : Table.Ascending ((Graph.settle entry.1 waiting).map Prod.fst) := by
              rw [keys_settle]
              exact List.Pairwise.sublist List.filter_sublist ascending
            exact .inr ⟨Std.ReflCmp.compare_self,
              isLE_run left (serves.settle ascending.nodup)⟩
termination_by waiting.length

/-! ## Orders of graphs -/

section Orders

variable {graph : Graph} (wellFormed : graph.WellFormed) {order : List String}
include wellFormed

theorem serves_pending {other : List String} (schedule : graph.IsSchedule other) :
    Serves graph.pending other where
  perm := by
    rw [keys_pending]
    exact (List.perm_ext_iff_of_nodup schedule.once
      (Table.Ordered.nodup_keys wellFormed.ordered)).mpr schedule.all
  after before node rest sources split listed source isSource := by
    rcases List.mem_map.mp listed with ⟨_, _, same⟩
    cases same
    exact schedule.after before node rest split source
      ((mem_sources wellFormed.ordered).mp isSource)

theorem isLeastSchedule_of_order (done : graph.order = .ok order) :
    graph.IsLeastSchedule order := by
  have perm := order_perm wellFormed.ordered done
  refine ⟨⟨?_, fun node => perm.mem_iff, ?_⟩, fun other schedule => ?_⟩
  · exact perm.nodup_iff.mpr (Table.Ordered.nodup_keys wellFormed.ordered)
  · intro before node rest split source edge
    exact mem_before_of_order wellFormed.ordered (split ▸ done) edge
  · have ascending : Table.Ascending (graph.pending.map Prod.fst) := by
      rw [keys_pending]
      exact Table.ordered_iff_keys.mp wellFormed.ordered
    have least := isLE_run ascending (serves_pending wellFormed schedule)
    rwa [run_of_order done] at least

end Orders

/-- The order of a graph that results from additions. There is one exactly if there is no
directed cycle; it is the smallest schedule; it follows from the sets of nodes and edges; and
counting gives it too, without ever taking one from zero. -/
theorem order_canonical (additions : List Addition) :
    ((∃ order, (ofAdditions additions).order = .ok order) ↔ (ofAdditions additions).Acyclic) ∧
    (∀ order, (ofAdditions additions).order = .ok order →
      (ofAdditions additions).IsLeastSchedule order) ∧
    (∀ others,
      (∀ node, node ∈ (ofAdditions others).nodes ↔ node ∈ (ofAdditions additions).nodes) →
      (∀ source target, (ofAdditions others).Edge source target ↔
        (ofAdditions additions).Edge source target) →
      (ofAdditions others).order = (ofAdditions additions).order) ∧
    Countdown.order? (ofAdditions additions) = some (ofAdditions additions).order := by
  have wellFormed := wellFormed_ofAdditions additions
  refine ⟨exists_order_iff wellFormed, fun order => isLeastSchedule_of_order wellFormed,
    fun others nodes edges => ?_, Countdown.order?_eq wellFormed⟩
  rw [(wellFormed_ofAdditions others).ext wellFormed nodes edges]

/-- Three nodes that were added against their order, and one that comes with an edge. -/
def sampleAdditions : List Addition :=
  [.node "zeta", .node "alpha", .node "mid", .edge "beta" "mid"]

/-- The same nodes and edges, some of them twice. -/
def turnedAdditions : List Addition :=
  [.edge "beta" "mid", .node "alpha", .edge "beta" "mid", .node "zeta", .node "beta"]

theorem order_canonical_sampleAdditions :
    (ofAdditions sampleAdditions).Acyclic ∧
    (ofAdditions sampleAdditions).IsLeastSchedule ["alpha", "beta", "mid", "zeta"] ∧
    (ofAdditions turnedAdditions).order = .ok ["alpha", "beta", "mid", "zeta"] ∧
    Countdown.order? (ofAdditions sampleAdditions) =
      some (.ok ["alpha", "beta", "mid", "zeta"]) := by
  have done : (ofAdditions sampleAdditions).order = .ok ["alpha", "beta", "mid", "zeta"] := by
    decide +kernel
  have canonical := order_canonical sampleAdditions
  refine ⟨canonical.1.mp ⟨_, done⟩, canonical.2.1 _ done, ?_, done ▸ canonical.2.2.2⟩
  rw [← done]
  apply canonical.2.2.1 turnedAdditions
  · intro node
    rw [mem_nodes_ofAdditions, mem_nodes_ofAdditions]
    simp only [sampleAdditions, turnedAdditions, List.exists_mem_cons_iff, Addition.nodes]
    grind
  · intro source target
    rw [edge_ofAdditions, edge_ofAdditions]
    simp [sampleAdditions, turnedAdditions]

end Groundplan.Graph
