import Groundplan.Graph
/-!
Countdowns of dependency graphs. A countdown has a number for each node, in place of the nodes
that it waits for, and a list of those at zero. Settling a node counts its targets down.
-/

namespace Groundplan

/-- How many nodes each node still waits for, and the unsettled ones that wait for none. -/
structure Countdown where
  counts : Table String Nat
  ready : List String

namespace Countdown

/-- Change the number of one node. -/
def recount (change : Nat → Nat) (counts : Table String Nat) (target : String) :
    Table String Nat :=
  counts.map fun entry => (entry.1, if entry.1 = target then change entry.2 else entry.2)

/-- Count a node down and note it when it gets to zero. There is no result for a node that is
at zero already; a node without a number is passed over. -/
def lower (countdown : Countdown) (target : String) : Option Countdown :=
  match Table.find? target countdown.counts with
  | none => some countdown
  | some 0 => none
  | some (count + 1) =>
      some ⟨recount Nat.pred countdown.counts target,
        if count = 0 then Table.insertKey target countdown.ready else countdown.ready⟩

def targetsOf (graph : Graph) (node : String) : List String :=
  (Table.find? node graph.targets).getD []

def total (counts : Table String Nat) : Nat :=
  counts.foldr (fun entry sum => entry.2 + sum) 0

/-- What is left to do: every turn takes something of it. -/
def weight (countdown : Countdown) : Nat :=
  total countdown.counts + countdown.ready.length

private theorem total_recount_pred_le (counts : Table String Nat) (target : String) :
    total (recount Nat.pred counts target) ≤ total counts := by
  induction counts with
  | nil => exact Nat.le_refl _
  | cons entry rest induction =>
      simp only [recount, total, List.map_cons, List.foldr_cons] at induction ⊢
      have first : (if entry.1 = target then entry.2.pred else entry.2) ≤ entry.2 := by
        split
        · exact Nat.pred_le _
        · exact Nat.le_refl _
      omega

private theorem total_recount_pred_lt {counts : Table String Nat} {target : String} {count : Nat}
    (listed : (target, count + 1) ∈ counts) :
    total (recount Nat.pred counts target) < total counts := by
  induction counts with
  | nil => cases listed
  | cons entry rest induction =>
      have below := total_recount_pred_le rest target
      simp only [recount, total, List.map_cons, List.foldr_cons] at induction below ⊢
      rcases List.mem_cons.mp listed with same | listed
      · rw [← same, if_pos rfl, Nat.pred_succ]
        omega
      · have inRest := induction listed
        have first : (if entry.1 = target then entry.2.pred else entry.2) ≤ entry.2 := by
          split
          · exact Nat.pred_le _
          · exact Nat.le_refl _
        omega

theorem weight_le_of_lower {countdown next : Countdown} {target : String}
    (lowered : countdown.lower target = some next) : next.weight ≤ countdown.weight := by
  rw [lower] at lowered
  split at lowered
  · cases lowered
    exact Nat.le_refl _
  · cases lowered
  · next count found =>
      cases lowered
      have lighter := total_recount_pred_lt (Table.mem_of_find? found)
      have longer := Table.length_insertKey_le target countdown.ready
      simp only [weight]
      split <;> omega

theorem weight_le_of_foldlM {targets : List String} {countdown next : Countdown}
    (lowered : targets.foldlM lower countdown = some next) : next.weight ≤ countdown.weight := by
  induction targets generalizing countdown with
  | nil =>
      cases lowered
      exact Nat.le_refl _
  | cons first rest induction =>
      rw [List.foldlM_cons] at lowered
      rcases Option.bind_eq_some_iff.mp lowered with ⟨middle, atFirst, atRest⟩
      exact Nat.le_trans (induction atRest) (weight_le_of_lower atFirst)

/-- Settle the first node at zero and count its targets down, as long as there is one. Gives
the settled nodes and the numbers that are left, unless a number would go below zero. -/
def run (graph : Graph) (countdown : Countdown) : Option (List String × Table String Nat) :=
  match ready : countdown.ready with
  | [] => some ([], countdown.counts)
  | node :: rest =>
      match lowered : (targetsOf graph node).foldlM lower ⟨countdown.counts, rest⟩ with
      | none => none
      | some next =>
          have : next.weight < countdown.weight := by
            have lighter := weight_le_of_foldlM lowered
            simp only [weight, ready, List.length_cons] at lighter ⊢
            omega
          (run graph next).map fun ended => (node :: ended.1, ended.2)
termination_by countdown.weight

/-- Every node with the number of edges to it. -/
def start (graph : Graph) : Countdown :=
  let counts := (graph.targets.flatMap Prod.snd).foldl (recount Nat.succ)
    (graph.nodes.map fun node => (node, 0))
  ⟨counts, Table.keys (counts.filter fun entry => entry.2 == 0)⟩

/-- The order that counting gives, or else the nodes that are not at zero. -/
def order? (graph : Graph) : Option (Except (List String) (List String)) :=
  (run graph (start graph)).map fun ended =>
    if ended.1.length = graph.size then .ok ended.1
    else .error (Table.keys (ended.2.filter fun entry => 0 < entry.2))

end Countdown

end Groundplan
