import Groundplan.Proofs.Reads
/-!
Free variables. They are what an expression reads from outside: its references start with
exactly these, in order, and an expression comes to the same in any two scopes that bind
the same to them, errors included.
-/

namespace Groundplan

namespace LoopNames

/-- The variables that are still free outside a loop. -/
def unbound (names : LoopNames) (free : List String) : List String :=
  free.filter fun name => !names.all.contains name

end LoopNames

namespace Expression

mutual

/-- The variables that an expression reads from outside, in order. The names of a loop are
bound in its body, not in the collection that it goes over. -/
def freeVariables : Expression → List String
  | null => []
  | bool _ => []
  | number _ => []
  | string _ => []
  | list items => freeInItems items
  | object items => freeInObject items
  | template parts => freeInParts parts
  | read name => [name]
  | traversal base steps => freeVariables base ++ freeInSteps steps
  | call _ arguments _ => freeInItems arguments
  | group inner => freeVariables inner
  | conditional condition whenTrue whenFalse =>
      freeVariables condition ++ (freeVariables whenTrue ++ freeVariables whenFalse)
  | unary _ operand => freeVariables operand
  | binary _ left right => freeVariables left ++ freeVariables right
  | listLoop names collection result condition =>
      freeVariables collection ++
        names.unbound (freeVariables result ++ freeVariables condition)
  | objectLoop names collection key value condition _ =>
      freeVariables collection ++
        names.unbound (freeVariables key ++ (freeVariables value ++ freeVariables condition))

def freeInItems : List Expression → List String
  | [] => []
  | item :: rest => freeVariables item ++ freeInItems rest

def freeInObject : List ObjectItem → List String
  | [] => []
  | .named _ value :: rest => freeVariables value ++ freeInObject rest
  | .computed key value :: rest => freeVariables key ++ (freeVariables value ++ freeInObject rest)

def freeInSteps : List TraversalStep → List String
  | [] => []
  | .index position :: rest => freeVariables position ++ freeInSteps rest
  | _ :: rest => freeInSteps rest

def freeInParts : List TemplatePart → List String
  | [] => []
  | .literal _ :: rest => freeInParts rest
  | .interpolation value :: rest => freeVariables value ++ freeInParts rest
  | .choice condition whenTrue whenFalse :: rest =>
      freeVariables condition ++
        (freeInParts whenTrue ++ (freeInParts whenFalse ++ freeInParts rest))
  | .loop names collection body :: rest =>
      freeVariables collection ++ (names.unbound (freeInParts body) ++ freeInParts rest)

end

example : (listLoop ⟨none, "x"⟩ (read "x") (binary .add (read "x") (read "y")) (bool true)
    ).freeVariables = ["x", "y"] := by decide

/-! ## References -/

/-- Names that are bound outside a loop or by it are not free outside. -/
theorem filter_unbound (bound : List String) (names : LoopNames) (free : List String) :
    (names.unbound free).filter (fun name => !bound.contains name) =
      free.filter fun name => !(bound ++ names.all).contains name := by
  rw [LoopNames.unbound, List.filter_filter]
  refine List.filter_congr fun name _ => ?_
  simp

theorem map_root_readFrom (bound : List String) (name : String) (steps : List TraversalStep) :
    (readFrom bound name steps).map Reference.root =
      [name].filter fun name => !bound.contains name := by
  rw [readFrom]
  split
  · next known => simp [List.contains_iff_mem.mp known]
  · next unknown =>
      rw [List.filter_cons_of_pos (by simpa using unknown)]
      rfl

mutual

theorem map_root_referencesIn (bound : List String) : (expression : Expression) →
    (referencesIn bound expression).map Reference.root =
      expression.freeVariables.filter fun name => !bound.contains name
  | null => by rw [referencesIn, freeVariables]; rfl
  | bool _ => by rw [referencesIn, freeVariables]; rfl
  | number _ => by rw [referencesIn, freeVariables]; rfl
  | string _ => by rw [referencesIn, freeVariables]; rfl
  | list items => by rw [referencesIn, freeVariables, map_root_inItems]
  | object items => by rw [referencesIn, freeVariables, map_root_inObject]
  | template parts => by rw [referencesIn, freeVariables, map_root_inParts]
  | read name => by rw [referencesIn, freeVariables, map_root_readFrom]
  | traversal base steps => by
      rw [freeVariables, List.filter_append, ← map_root_inSteps]
      rcases referencesIn_traversal bound base steps with ⟨name, same⟩ | references
      · subst same
        rw [referencesIn, List.map_append, map_root_readFrom, freeVariables]
      · rw [references, List.map_append, map_root_referencesIn]
  | call _ arguments _ => by rw [referencesIn, freeVariables, map_root_inItems]
  | group inner => by rw [referencesIn, freeVariables, map_root_referencesIn]
  | conditional condition whenTrue whenFalse => by
      simp only [referencesIn, freeVariables, List.map_append, List.filter_append,
        map_root_referencesIn, List.append_assoc]
  | unary _ operand => by rw [referencesIn, freeVariables, map_root_referencesIn]
  | binary _ left right => by
      simp only [referencesIn, freeVariables, List.map_append, List.filter_append,
        map_root_referencesIn]
  | listLoop names collection result condition => by
      simp only [referencesIn, freeVariables, List.map_append, List.filter_append, filter_unbound,
        map_root_referencesIn, List.append_assoc]
  | objectLoop names collection key value condition _ => by
      simp only [referencesIn, freeVariables, List.map_append, List.filter_append, filter_unbound,
        map_root_referencesIn, List.append_assoc]

theorem map_root_inItems (bound : List String) : (items : List Expression) →
    (referencesInItems bound items).map Reference.root =
      (freeInItems items).filter fun name => !bound.contains name
  | [] => by rw [referencesInItems, freeInItems]; rfl
  | item :: rest => by
      rw [referencesInItems, freeInItems, List.map_append, List.filter_append,
        map_root_referencesIn, map_root_inItems]

theorem map_root_inObject (bound : List String) : (items : List ObjectItem) →
    (referencesInObject bound items).map Reference.root =
      (freeInObject items).filter fun name => !bound.contains name
  | [] => by rw [referencesInObject, freeInObject]; rfl
  | .named _ value :: rest => by
      rw [referencesInObject, freeInObject, List.map_append, List.filter_append,
        map_root_referencesIn, map_root_inObject]
  | .computed key value :: rest => by
      simp only [referencesInObject, freeInObject, List.map_append, List.filter_append,
        map_root_referencesIn, map_root_inObject, List.append_assoc]

theorem map_root_inSteps (bound : List String) : (steps : List TraversalStep) →
    (referencesInSteps bound steps).map Reference.root =
      (freeInSteps steps).filter fun name => !bound.contains name
  | [] => by rw [referencesInSteps, freeInSteps]; rfl
  | .index position :: rest => by
      rw [referencesInSteps, freeInSteps, List.map_append, List.filter_append,
        map_root_referencesIn, map_root_inSteps]
  | .member _ :: rest => map_root_inSteps bound rest
  | .position _ :: rest => map_root_inSteps bound rest
  | .memberSplat :: rest => map_root_inSteps bound rest
  | .fullSplat :: rest => map_root_inSteps bound rest

theorem map_root_inParts (bound : List String) : (parts : List TemplatePart) →
    (referencesInParts bound parts).map Reference.root =
      (freeInParts parts).filter fun name => !bound.contains name
  | [] => by rw [referencesInParts, freeInParts]; rfl
  | .literal _ :: rest => by rw [referencesInParts, freeInParts, map_root_inParts]
  | .interpolation value :: rest => by
      rw [referencesInParts, freeInParts, List.map_append, List.filter_append,
        map_root_referencesIn, map_root_inParts]
  | .choice condition whenTrue whenFalse :: rest => by
      simp only [referencesInParts, freeInParts, List.map_append, List.filter_append,
        map_root_referencesIn, map_root_inParts, List.append_assoc]
  | .loop names collection body :: rest => by
      simp only [referencesInParts, freeInParts, List.map_append, List.filter_append,
        filter_unbound, map_root_referencesIn, map_root_inParts, List.append_assoc]

end

/-- The references of an expression start with its free variables, in the same order. -/
theorem map_root_references (expression : Expression) :
    expression.references.map Reference.root = expression.freeVariables := by
  rw [references, map_root_referencesIn]
  simp

end Expression

/-! ## Scopes that bind the same to the free variables -/

namespace Scope

variable {left right : Scope}

theorem bindAlike_append {first second : List String} :
    BindAlike left right (first ++ second) ↔
      BindAlike left right first ∧ BindAlike left right second := by
  simp only [BindAlike, List.mem_append]
  constructor
  · intro alike
    exact ⟨fun name member => alike name (.inl member), fun name member => alike name (.inr member)⟩
  · rintro ⟨inFirst, inSecond⟩ name (member | member)
    · exact inFirst name member
    · exact inSecond name member

/-- In a loop the names that it binds are bound alike too. -/
theorem BindAlike.of_unbound {names : LoopNames} {free : List String}
    (alike : BindAlike left right (names.unbound free)) (entry : Datum × Datum) :
    BindAlike (names.bind entry left) (names.bind entry right) free := by
  intro name member
  apply alike.bind names entry
  by_cases isBound : name ∈ names.all
  · exact List.mem_append_right _ isBound
  · exact List.mem_append_left _ (List.mem_filter.mpr ⟨member, by simpa using isBound⟩)

end Scope

namespace Expression

open Scope (BindAlike bindAlike_append)

mutual

theorem evaluate_congr {left right : Scope} : (expression : Expression) →
    BindAlike left right expression.freeVariables →
    evaluate left expression = evaluate right expression
  | null, _ => by rw [evaluate, evaluate]
  | bool _, _ => by rw [evaluate, evaluate]
  | number _, _ => by rw [evaluate, evaluate]
  | string _, _ => by rw [evaluate, evaluate]
  | list items, alike => by
      rw [freeVariables] at alike
      rw [evaluate, evaluate, evaluateItems_congr items alike]
  | object items, alike => by
      rw [freeVariables] at alike
      rw [evaluate, evaluate, evaluateObject_congr items alike]
  | template parts, alike => by
      rw [freeVariables] at alike
      rcases template_cases parts with ⟨value, single⟩ | joined
      · subst single
        rw [freeInParts, bindAlike_append] at alike
        rw [evaluate, evaluate, evaluate_congr value alike.1]
      · rw [joined, joined, evaluateParts_congr parts alike]
  | read name, alike => by
      rw [freeVariables] at alike
      rw [evaluate, evaluate, alike name (List.mem_singleton.mpr rfl)]
  | traversal base steps, alike => by
      rw [freeVariables, bindAlike_append] at alike
      rw [evaluate_traversal, evaluate_traversal, evaluate_congr base alike.1]
      refine bind_congr fun datum => ?_
      exact follow_congr steps alike.2 _
  | call function arguments spread, alike => by
      rw [freeVariables] at alike
      rw [evaluate, evaluate, evaluateItems_congr arguments alike]
  | group inner, alike => by
      rw [freeVariables] at alike
      rw [evaluate, evaluate, evaluate_congr inner alike]
  | conditional condition whenTrue whenFalse, alike => by
      simp only [freeVariables, bindAlike_append] at alike
      rw [evaluate, evaluate, evaluate_congr condition alike.1, evaluate_congr whenTrue alike.2.1,
        evaluate_congr whenFalse alike.2.2]
  | unary operator operand, alike => by
      rw [freeVariables] at alike
      rw [evaluate, evaluate, evaluate_congr operand alike]
  | binary operator first second, alike => by
      rw [freeVariables, bindAlike_append] at alike
      rw [evaluate, evaluate, evaluate_congr first alike.1, evaluate_congr second alike.2]
  | listLoop names collection result condition, alike => by
      rw [freeVariables, bindAlike_append] at alike
      have inner (entry : Datum × Datum) := bindAlike_append.mp (alike.2.of_unbound entry)
      have results (entry : Datum × Datum) := evaluate_congr result (inner entry).1
      have conditions (entry : Datum × Datum) := evaluate_congr condition (inner entry).2
      simp only [evaluate, evaluate_congr collection alike.1, results, conditions]
  | objectLoop names collection key value condition grouped, alike => by
      rw [freeVariables, bindAlike_append] at alike
      have inner (entry : Datum × Datum) := alike.2.of_unbound entry
      simp only [bindAlike_append] at inner
      have keys (entry : Datum × Datum) := evaluate_congr key (inner entry).1
      have values (entry : Datum × Datum) := evaluate_congr value (inner entry).2.1
      have conditions (entry : Datum × Datum) := evaluate_congr condition (inner entry).2.2
      simp only [evaluate, evaluate_congr collection alike.1, keys, values, conditions]

theorem evaluateItems_congr {left right : Scope} : (items : List Expression) →
    BindAlike left right (freeInItems items) → evaluateItems left items = evaluateItems right items
  | [], _ => by rw [evaluateItems, evaluateItems]
  | item :: rest, alike => by
      rw [freeInItems, bindAlike_append] at alike
      rw [evaluateItems, evaluateItems, evaluate_congr item alike.1,
        evaluateItems_congr rest alike.2]

theorem evaluateObject_congr {left right : Scope} : (items : List ObjectItem) →
    BindAlike left right (freeInObject items) →
    ∀ fields, evaluateObject left fields items = evaluateObject right fields items
  | [], _, fields => by rw [evaluateObject, evaluateObject]
  | .named key value :: rest, alike, fields => by
      rw [freeInObject, bindAlike_append] at alike
      rw [evaluateObject, evaluateObject, evaluate_congr value alike.1]
      refine bind_congr fun added => ?_
      exact evaluateObject_congr rest alike.2 _
  | .computed key value :: rest, alike, fields => by
      simp only [freeInObject, bindAlike_append] at alike
      rw [evaluateObject, evaluateObject, evaluate_congr key alike.1,
        evaluate_congr value alike.2.1]
      refine bind_congr fun named => bind_congr fun text => bind_congr fun added => ?_
      exact evaluateObject_congr rest alike.2.2 _

theorem follow_congr {left right : Scope} : (steps : List TraversalStep) →
    BindAlike left right (freeInSteps steps) →
    ∀ place, follow left place steps = follow right place steps
  | [], _, place => by rw [follow, follow]
  | .member name :: rest, alike, place => by
      rw [follow, follow]
      exact bind_congr fun next => follow_congr rest alike next
  | .index position :: rest, alike, place => by
      rw [freeInSteps, bindAlike_append] at alike
      rw [follow, follow, evaluate_congr position alike.1]
      exact bind_congr fun reached => bind_congr fun next => follow_congr rest alike.2 _
  | .position position :: rest, alike, place => by
      rw [follow, follow]
      exact bind_congr fun next => follow_congr rest alike _
  | .memberSplat :: rest, alike, place => by
      rw [follow, follow]
      exact follow_congr rest alike _
  | .fullSplat :: rest, alike, place => by
      have each (item : Datum) := follow_congr rest alike (.one item)
      simp only [follow, each]

theorem evaluateParts_congr {left right : Scope} : (parts : List TemplatePart) →
    BindAlike left right (freeInParts parts) → evaluateParts left parts = evaluateParts right parts
  | [], _ => by rw [evaluateParts, evaluateParts]
  | .literal text :: rest, alike => by
      rw [freeInParts] at alike
      rw [evaluateParts, evaluateParts, evaluateParts_congr rest alike]
  | .interpolation value :: rest, alike => by
      rw [freeInParts, bindAlike_append] at alike
      rw [evaluateParts, evaluateParts, evaluate_congr value alike.1,
        evaluateParts_congr rest alike.2]
  | .choice condition whenTrue whenFalse :: rest, alike => by
      simp only [freeInParts, bindAlike_append] at alike
      rw [evaluateParts, evaluateParts, evaluate_congr condition alike.1,
        evaluateParts_congr whenTrue alike.2.1, evaluateParts_congr whenFalse alike.2.2.1,
        evaluateParts_congr rest alike.2.2.2]
  | .loop names collection body :: rest, alike => by
      simp only [freeInParts, bindAlike_append] at alike
      have bodies (entry : Datum × Datum) :=
        evaluateParts_congr body (alike.2.1.of_unbound entry)
      simp only [evaluateParts, evaluate_congr collection alike.1, bodies,
        evaluateParts_congr rest alike.2.2]

end

end Expression

end Groundplan
