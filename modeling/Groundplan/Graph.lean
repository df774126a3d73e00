import Groundplan.Table
/-!
Dependency graphs. An edge says that its first node has to come before its
second one. `order` lists every node after all nodes it depends on and prefers
the smallest node among those that are ready.
-/

namespace Groundplan

structure Graph where
  targets : Table String (List String)

namespace Graph

def empty : Graph := ⟨[]⟩

def addNode (graph : Graph) (node : String) : Graph :=
  ⟨Table.alter node (fun targets => targets.getD []) graph.targets⟩

/-- Add an edge, and its two nodes when they are new. -/
def addEdge (graph : Graph) (source target : String) : Graph :=
  ⟨Table.alter source (fun targets => Table.insertKey target (targets.getD []))
    (graph.addNode target).targets⟩

def nodes (graph : Graph) : List String := Table.keys graph.targets

def size (graph : Graph) : Nat := graph.targets.length

def sources (graph : Graph) (target : String) : List String :=
  graph.targets.filterMap fun entry => if entry.2.contains target then some entry.1 else none

/-- Every node with the nodes that have to come before it. -/
def pending (graph : Graph) : List (String × List String) :=
  graph.nodes.map fun node => (node, graph.sources node)

/-- Take `node` out of the waiting nodes and out of what they wait for. -/
def settle (node : String) (waiting : List (String × List String)) :
    List (String × List String) :=
  (waiting.filter fun entry => entry.1 != node).map fun entry =>
    (entry.1, entry.2.filter fun source => source != node)

theorem settle_length_lt {node : String} {waiting : List (String × List String)}
    {entry : String × List String} (member : entry ∈ waiting) (same : entry.1 = node) :
    (settle node waiting).length < waiting.length := by
  simp only [settle, List.length_map]
  exact List.length_filter_lt_length_iff_exists.mpr ⟨entry, member, by simp [same]⟩

/-- Settle the first node that waits for nothing, as long as there is one.
Returns the settled nodes and the nodes that still wait. -/
def run (waiting : List (String × List String)) : List String × List String :=
  match found : waiting.find? fun entry => entry.2.isEmpty with
  | none => ([], waiting.map Prod.fst)
  | some entry =>
      have : (settle entry.1 waiting).length < waiting.length :=
        settle_length_lt (List.mem_of_find?_eq_some found) rfl
      let (settled, stuck) := run (settle entry.1 waiting)
      (entry.1 :: settled, stuck)
termination_by waiting.length

/-- Every node after its predecessors, or the nodes that no order can reach. -/
def order (graph : Graph) : Except (List String) (List String) :=
  match run graph.pending with
  | (settled, []) => .ok settled
  | (_, stuck) => .error stuck

end Graph

end Groundplan
