import Groundplan.Proofs.Graphs
import Mathlib.Data.Set.Finite.List
import Mathlib.Logic.Relation
import Mathlib.Order.WellFounded
/-!
Nodes that no order can reach. Settling stops at nodes that wait for each other, and these
are exactly the nodes on a directed cycle and everything that edges lead to from there.
-/

namespace Groundplan.Graph

open Relation (ReflTransGen TransGen)

/-! ## Cycles -/

/-- Whether edges lead from a node back to itself. -/
def OnCycle (graph : Graph) (node : String) : Prop := TransGen graph.Edge node node

def Acyclic (graph : Graph) : Prop := ∀ node, ¬graph.OnCycle node

/-- Whether a node lies on a cycle or edges lead to it from one. -/
def BehindCycle (graph : Graph) (node : String) : Prop :=
  ∃ start, graph.OnCycle start ∧ ReflTransGen graph.Edge start node

/-- Going back from a member of a finite list never ends if every member comes from another
one, so it runs into a cycle. -/
theorem exists_cycle_before {α : Type u} {relation : α → α → Prop} {members : List α}
    (fed : ∀ node ∈ members, ∃ source ∈ members, relation source node) {node : α}
    (member : node ∈ members) :
    ∃ start, TransGen relation start start ∧ ReflTransGen relation start node := by
  let Before := {other : α // other ∈ members ∧ ReflTransGen relation other node}
  have finite : Finite Before :=
    (List.finite_toSet members).subset fun _ isBefore => isBefore.1
  by_contra none
  let leads : Before → Before → Prop := fun left right => TransGen relation left.1 right.1
  have : IsTrans Before leads := ⟨fun _ _ _ first second => first.trans second⟩
  have : Std.Irrefl leads := ⟨fun other around => none ⟨other.1, around, other.2.2⟩⟩
  rcases (Finite.wellFounded_of_trans_of_irrefl leads).has_min Set.univ
    ⟨⟨node, member, .refl⟩, trivial⟩ with ⟨⟨first, inside, leadsTo⟩, _, minimal⟩
  rcases fed first inside with ⟨source, isMember, step⟩
  exact minimal ⟨source, isMember, .head step leadsTo⟩ trivial (.single step)

/-! ## What keeps waiting -/

/-- Nodes keep waiting in the order they had. -/
theorem run_sublist (waiting : List (String × List String)) :
    (run waiting).2.Sublist (waiting.map Prod.fst) := by
  cases found : waiting.find? fun entry => entry.2.isEmpty with
  | none => rw [run_of_find?_eq_none found]
  | some entry =>
      have : (settle entry.1 waiting).length < waiting.length :=
        settle_length_lt (List.mem_of_find?_eq_some found) rfl
      rw [run_of_find?_eq_some found]
      have rest := run_sublist (settle entry.1 waiting)
      rw [keys_settle] at rest
      exact rest.trans List.filter_sublist
termination_by waiting.length

/-- What keeps waiting waits for something that does so as well. -/
theorem exists_source_of_mem_run {waiting : List (String × List String)}
    (closed : ∀ entry ∈ waiting, ∀ source ∈ entry.2, source ∈ waiting.map Prod.fst)
    {node : String} {sources : List String} (listed : (node, sources) ∈ waiting)
    (stuck : node ∈ (run waiting).2) : ∃ source ∈ sources, source ∈ (run waiting).2 := by
  cases found : waiting.find? fun entry => entry.2.isEmpty with
  | none =>
      rw [run_of_find?_eq_none found]
      have waits : sources ≠ [] := by
        simpa using List.find?_eq_none.mp found (node, sources) listed
      rcases List.exists_mem_of_ne_nil sources waits with ⟨source, isSource⟩
      exact ⟨source, isSource, closed _ listed source isSource⟩
  | some entry =>
      have : (settle entry.1 waiting).length < waiting.length :=
        settle_length_lt (List.mem_of_find?_eq_some found) rfl
      rw [run_of_find?_eq_some found] at stuck ⊢
      have remains := (run_sublist (settle entry.1 waiting)).subset stuck
      rw [keys_settle, List.mem_filter, bne_iff_ne] at remains
      have settledClosed : ∀ other ∈ settle entry.1 waiting, ∀ source ∈ other.2,
          source ∈ (settle entry.1 waiting).map Prod.fst := by
        intro other member source isSource
        rcases mem_settle.mp member with ⟨earlier, inWaiting, _, filtered⟩
        rw [filtered, List.mem_filter] at isSource
        rw [keys_settle, List.mem_filter]
        exact ⟨closed _ inWaiting source isSource.1, isSource.2⟩
      have left : (node, sources.filter fun source => source != entry.1) ∈
          settle entry.1 waiting := mem_settle.mpr ⟨sources, listed, remains.2, rfl⟩
      rcases exists_source_of_mem_run settledClosed left stuck with ⟨source, isSource, inStuck⟩
      exact ⟨source, (List.mem_filter.mp isSource).1, inStuck⟩
termination_by waiting.length

/-! ## What is settled -/

theorem keys_pending (graph : Graph) : graph.pending.map Prod.fst = graph.nodes := by
  rw [pending, List.map_map]
  simp [Function.comp_def]

variable {graph : Graph}

theorem run_pending_perm (ordered : graph.Ordered) :
    ((run graph.pending).1 ++ (run graph.pending).2).Perm graph.nodes := by
  have perm := run_perm (nodup_pending ordered)
  rwa [keys_pending] at perm

theorem nodup_run_pending (ordered : graph.Ordered) :
    ((run graph.pending).1 ++ (run graph.pending).2).Nodup :=
  (run_pending_perm ordered).nodup_iff.mpr (Table.Ordered.nodup_keys ordered)

section Settled

variable (ordered : graph.Ordered) {before after : List String} {node : String}
  (settled : (run graph.pending).1 = before ++ node :: after)
include ordered settled

/-- What leads to a settled node was settled before it. -/
theorem mem_before_of_edge {source : String} (edge : graph.Edge source node) :
    source ∈ before := by
  have member : node ∈ graph.nodes :=
    (run_pending_perm ordered).subset (List.mem_append_left _ (by simp [settled]))
  have listed : (node, graph.sources node) ∈ graph.pending :=
    List.mem_map.mpr ⟨node, member, rfl⟩
  exact mem_before_of_run (nodup_pending ordered) settled listed source
    ((mem_sources ordered).mpr edge)

theorem mem_before_of_transGen {source : String} (leads : TransGen graph.Edge source node) :
    source ∈ before := by
  induction leads generalizing before after with
  | single edge => exact mem_before_of_edge ordered settled edge
  | tail _ edge induction =>
      rcases List.append_of_mem (mem_before_of_edge ordered settled edge) with
        ⟨earlier, middle, split⟩
      have turn := settled
      rw [split, List.append_assoc, List.cons_append] at turn
      rw [split]
      exact List.mem_append_left _ (induction turn)

theorem not_onCycle_of_settled : ¬graph.OnCycle node := by
  intro around
  have twice := mem_before_of_transGen ordered settled around
  have nodup := (List.nodup_append.mp (nodup_run_pending ordered)).1
  rw [settled] at nodup
  exact (List.nodup_append.mp nodup).2.2 node twice node List.mem_cons_self rfl

end Settled

/-- Nothing on a cycle is settled, and nothing behind one. -/
theorem not_mem_run_of_behindCycle (ordered : graph.Ordered) {node : String}
    (behind : graph.BehindCycle node) : node ∉ (run graph.pending).1 := by
  rcases behind with ⟨start, around, leads⟩
  intro member
  rcases List.append_of_mem member with ⟨before, after, settled⟩
  have settledStart : start ∈ (run graph.pending).1 := by
    rcases Relation.reflTransGen_iff_eq_or_transGen.mp leads with same | leads
    · exact same ▸ member
    · rw [settled]
      exact List.mem_append_left _ (mem_before_of_transGen ordered settled leads)
  rcases List.append_of_mem settledStart with ⟨first, rest, turn⟩
  exact not_onCycle_of_settled ordered turn around

/-! ## Failures -/

theorem order_eq_ok_iff {order : List String} :
    graph.order = .ok order ↔ run graph.pending = (order, []) := by
  refine ⟨run_of_order, fun ends => ?_⟩
  rw [Graph.order, ends]

theorem order_eq_error_iff {stuck : List String} :
    graph.order = .error stuck ↔ (run graph.pending).2 = stuck ∧ stuck ≠ [] := by
  rw [Graph.order]
  rcases run graph.pending with ⟨settled, _ | ⟨first, rest⟩⟩
  · simp only [reduceCtorEq, false_iff, not_and, not_not]
    exact Eq.symm
  · simp only [Except.error.injEq]
    refine ⟨fun same => ⟨same, ?_⟩, And.left⟩
    rw [← same]
    exact List.cons_ne_nil _ _

/-- The nodes that keep waiting are those on a cycle or behind one. -/
theorem mem_run_pending_iff (wellFormed : graph.WellFormed) {node : String} :
    node ∈ (run graph.pending).2 ↔ graph.BehindCycle node := by
  have ordered := wellFormed.ordered
  have keys := keys_pending graph
  constructor
  · intro stuck
    have closed : ∀ entry ∈ graph.pending, ∀ source ∈ entry.2,
        source ∈ graph.pending.map Prod.fst := by
      intro entry listed source isSource
      rcases List.mem_map.mp listed with ⟨other, _, rfl⟩
      rw [keys]
      exact source_mem_nodes ((mem_sources ordered).mp isSource)
    refine exists_cycle_before (fun other inStuck => ?_) stuck
    have isNode : other ∈ graph.nodes := keys ▸ (run_sublist graph.pending).subset inStuck
    rcases exists_source_of_mem_run closed (List.mem_map.mpr ⟨other, isNode, rfl⟩) inStuck with
      ⟨source, isSource, waits⟩
    exact ⟨source, waits, (mem_sources ordered).mp isSource⟩
  · intro behind
    have isNode : node ∈ graph.nodes := by
      rcases behind with ⟨start, around, leads⟩
      have reached : TransGen graph.Edge start node := around.trans_left leads
      rcases TransGen.tail'_iff.mp reached with ⟨last, _, edge⟩
      exact wellFormed.closed last node edge
    have accounted := (run_pending_perm ordered).mem_iff.mpr isNode
    exact (List.mem_append.mp accounted).resolve_left (not_mem_run_of_behindCycle ordered behind)

/-- There is an order exactly if there is no cycle. -/
theorem exists_order_iff (wellFormed : graph.WellFormed) :
    (∃ order, graph.order = .ok order) ↔ graph.Acyclic := by
  constructor
  · rintro ⟨order, done⟩ node around
    have stuck := (mem_run_pending_iff wellFormed).mpr ⟨node, around, .refl⟩
    rw [order_eq_ok_iff.mp done] at stuck
    cases stuck
  · intro acyclic
    have none : (run graph.pending).2 = [] := by
      refine List.eq_nil_iff_forall_not_mem.mpr fun node stuck => ?_
      rcases (mem_run_pending_iff wellFormed).mp stuck with ⟨start, around, _⟩
      exact acyclic start around
    exact ⟨_, order_eq_ok_iff.mpr (Prod.ext rfl none)⟩

/-- A failure lists, in ascending order, the nodes on a cycle and behind one and no others.
Nodes that only lead into a cycle are not among them. -/
theorem failure_exact (additions : List Addition) {stuck : List String}
    (failed : (ofAdditions additions).order = .error stuck) :
    Table.Ascending stuck ∧
    (∀ node, node ∈ stuck ↔ (ofAdditions additions).BehindCycle node) ∧
    ∀ node start, (ofAdditions additions).OnCycle start →
      TransGen (ofAdditions additions).Edge node start →
      ¬(ofAdditions additions).BehindCycle node → node ∉ stuck := by
  have wellFormed := wellFormed_ofAdditions additions
  have ends := (order_eq_error_iff.mp failed).1
  have exact : ∀ node, node ∈ stuck ↔ (ofAdditions additions).BehindCycle node :=
    fun node => ends ▸ mem_run_pending_iff wellFormed
  refine ⟨?_, exact, fun node _ _ _ outside member => outside ((exact node).mp member)⟩
  have sublist := run_sublist (ofAdditions additions).pending
  rw [keys_pending, ends] at sublist
  exact (Table.ordered_iff_keys.mp wellFormed.ordered).sublist sublist

/-- Two nodes that wait for each other, one before and one after them, one that waits for
itself and one that stands alone. -/
def knottedAdditions : List Addition :=
  [.edge "x" "a", .edge "a" "b", .edge "b" "a", .edge "b" "d", .edge "s" "s", .node "e"]

theorem failure_exact_knottedAdditions :
    (ofAdditions knottedAdditions).order = .error ["a", "b", "d", "s"] ∧
    Table.Ascending ["a", "b", "d", "s"] ∧
    (∀ node, node ∈ ["a", "b", "d", "s"] ↔
      (ofAdditions knottedAdditions).BehindCycle node) ∧
    "x" ∉ ["a", "b", "d", "s"] := by
  have failed : (ofAdditions knottedAdditions).order = .error ["a", "b", "d", "s"] := by
    decide +kernel
  rcases failure_exact knottedAdditions failed with ⟨ascending, exact, leadsOnly⟩
  refine ⟨failed, ascending, exact, ?_⟩
  have leadsIn : (ofAdditions knottedAdditions).Edge "x" "a" := edge_ofAdditions.mpr (by decide)
  have there : (ofAdditions knottedAdditions).Edge "a" "b" := edge_ofAdditions.mpr (by decide)
  have back : (ofAdditions knottedAdditions).Edge "b" "a" := edge_ofAdditions.mpr (by decide)
  refine leadsOnly "x" "a" (.tail (.single there) back) (.single leadsIn) fun behind => ?_
  exact absurd ((exact "x").mpr behind) (by decide)

end Groundplan.Graph
