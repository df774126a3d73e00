import Groundplan.Proofs.Passes
import Mathlib.Data.List.Induction
/-!
The value trees of a pass. The tree of a module is the merge of what its evaluated terms
stand for, in any order, so it only ever grows, by one term at a time.
-/

namespace Groundplan

namespace Value

/-- Merge values one after the other into an object without fields. -/
def mergeAll (values : List Value) : Value := values.foldl merge (object [])

theorem mergeAll_nest (grafts : List (List String × Value)) :
    mergeAll (grafts.map fun graft => nest graft.1 graft.2) = (object []).graftAll grafts :=
  List.foldl_map

end Value

open Value (Apart mergeAll nest)

namespace EvaluationState

variable {analysis : Analysis} {evaluator : Evaluator} {phantom : PhantomAttributes}
  {name : FullName} {term : Term}

/-- A step stores a tree for the module of its term, and leaves those of other modules. -/
theorem find?_trees_step (found : Table.find? name analysis.terms = some term)
    (state : EvaluationState) (module : ModuleName) :
    Table.find? module (step analysis phantom evaluator state name).trees =
      if module = name.module then
        some ((step analysis phantom evaluator state name).tree module)
      else Table.find? module state.trees := by
  by_cases same : module = name.module
  · subst same
    simp [step, found, tree, Table.find?_insert_self]
  · simp [step, found, Table.find?_insert_of_ne same, same]

theorem find?_trees_step_of_ne {module : ModuleName} (other : module ≠ name.module)
    (state : EvaluationState) :
    Table.find? module (step analysis phantom evaluator state name).trees =
      Table.find? module state.trees := by
  cases found : Table.find? name analysis.terms with
  | none => rw [step_of_unknown found]
  | some term => rw [find?_trees_step found, if_neg other]

/-- Modules have trees from the turn of their first term on. -/
theorem find?_trees_run {names : List FullName}
    (known : ∀ name ∈ names, ∃ term, Table.find? name analysis.terms = some term)
    (state : EvaluationState) (module : ModuleName) :
    Table.find? module (run analysis evaluator state names).trees =
      if ∃ name ∈ names, name.module = module then
        some ((run analysis evaluator state names).tree module)
      else Table.find? module state.trees := by
  induction names using List.reverseRecOn with
  | nil => simp [run]
  | append_singleton earlier name induction =>
      rcases known name (by simp) with ⟨term, found⟩
      have before := induction fun other member => known other (List.mem_append_left _ member)
      rw [run_append, run_cons, run, List.foldl_nil, find?_trees_step found]
      by_cases same : module = name.module
      · rw [if_pos same, if_pos ⟨name, by simp, same.symm⟩]
      · have others : (∃ other ∈ earlier ++ [name], other.module = module) ↔
            ∃ other ∈ earlier, other.module = module := by
          simp [Ne.symm same]
        rw [if_neg same, before, tree_step found, if_neg same]
        simp only [others]

end EvaluationState

namespace Evaluation

/-- The value of a term together with its phantom attributes. -/
def patched (evaluation : Evaluation) (name : FullName) : Value :=
  (PhantomAttributes.ofTerms evaluation.analysis.terms).patch name
    ((evaluation.value? name).getD .null)

/-- The terms of a module that were evaluated, in order. -/
def evaluatedIn (evaluation : Evaluation) (module : ModuleName) : List FullName :=
  evaluation.schedule.order.filter fun name => name.module = module

end Evaluation

namespace Analysis

open EvaluationState (run)

section Pass

variable {tree : ModuleTree} {evaluator : Evaluator} {evaluation : Evaluation}
  (readsBack : (ofTree tree).ReadsBack) (prefixFree : PrefixFree (ofTree tree).names)
  (evaluated : Evaluation.ofAnalysis evaluator (ofTree tree) = .ok evaluation)
include readsBack prefixFree evaluated

/-- From its turn on the value of a term is recorded and stands in the tree of its module. -/
theorem exists_patched {before after : List FullName}
    (split : evaluation.schedule.order = before ++ after) {name : FullName}
    (listed : name ∈ before) :
    ∃ value, evaluation.value? name = some value ∧
      Table.find? name.text (run (ofTree tree) evaluator .empty before).values = some value ∧
      ((run (ofTree tree) evaluator .empty before).tree name.module).lookup name.path =
        (PhantomAttributes.ofTerms (ofTree tree).terms).patch name value := by
  rcases Evaluation.eq_of_ofAnalysis evaluated with ⟨scheduled, _, state⟩
  have inNames : ∀ other ∈ evaluation.schedule.order, other ∈ (ofTree tree).names :=
    fun _ inOrder => mem_names_of_mem_order scheduled inOrder
  have named : name ∈ (ofTree tree).names := inNames name (by simp [split, listed])
  rcases (standsOut_of_prefixFree readsBack prefixFree named).exists_at? evaluator scheduled named
    split listed with ⟨value, recorded, written⟩
  -- No later term has the same text, so the record is the final one.
  have later : ∀ other ∈ after, name.text ≠ other.text := by
    intro other inAfter same
    have isOwn := readsBack.eq_of_text named (inNames other (by simp [split, inAfter])) same
    rcases List.append_of_mem listed with ⟨first, middle, within⟩
    have turn : evaluation.schedule.order = first ++ name :: (middle ++ after) := by
      rw [split, within, List.append_assoc, List.cons_append]
    have absent := ((readsBack.readsAlone name).not_mem_of_split scheduled turn).2
    exact absent (List.mem_append_right _ (isOwn ▸ inAfter))
  refine ⟨value, by rw [Evaluation.value?, state, recorded], ?_, Value.lookup_of_at? written⟩
  rw [← recorded, split, EvaluationState.run_append, EvaluationState.values_run_of_ne later]

/-- The tree of a module at any point of the pass holds exactly what was evaluated there. -/
theorem tree_run_eq_graftAll {before after : List FullName}
    (split : evaluation.schedule.order = before ++ after) (module : ModuleName) :
    (run (ofTree tree) evaluator .empty before).tree module =
      (Value.object []).graftAll ((before.filter fun name => name.module = module).map
        fun name => (name.path, evaluation.patched name)) := by
  rcases Evaluation.eq_of_ofAnalysis evaluated with ⟨scheduled, analysis, state⟩
  induction before using List.reverseRecOn generalizing after with
  | nil => rfl
  | append_singleton earlier name induction =>
      have turn : evaluation.schedule.order = earlier ++ name :: after := by
        rw [split, List.append_assoc, List.singleton_append]
      have named : name ∈ (ofTree tree).names :=
        mem_names_of_mem_order scheduled (by rw [turn]; simp)
      rcases exists_term named with ⟨term, found⟩
      have recorded := (standsOut_of_prefixFree readsBack prefixFree named).find?_values evaluator
        scheduled turn found
      have patched : evaluation.patched name =
          (PhantomAttributes.ofTerms (ofTree tree).terms).patch name (term.evaluate evaluator
            ((run (ofTree tree) evaluator .empty earlier).scope (ofTree tree) name)).value := by
        rw [Evaluation.patched, Evaluation.value?, analysis, state, recorded, Option.getD_some]
      rw [EvaluationState.run_append, EvaluationState.run_cons, run, List.foldl_nil,
        EvaluationState.tree_step found, List.filter_append, List.map_append,
        Value.graftAll_append, ← induction turn, ← patched]
      by_cases same : name.module = module
      · simp [same, Value.graftAll]
      · simp [same, Ne.symm same, Value.graftAll]

omit prefixFree in
theorem nodup_order : evaluation.schedule.order.Nodup := by
  have scheduled := (Evaluation.eq_of_ofAnalysis evaluated).1
  rw [List.nodup_iff_count]
  intro name
  by_cases listed : name ∈ evaluation.schedule.order
  · have named := mem_names_of_mem_order scheduled listed
    exact Nat.le_of_eq
      ((readsBack.readsAlone name).count_order scheduled named (readsBack name named))
  · rw [List.count_eq_zero.mpr listed]
    exact Nat.zero_le 1

/-- Evaluated terms of one module have paths apart. -/
theorem pairwise_apart_evaluatedIn (module : ModuleName) :
    ((evaluation.evaluatedIn module).map fun name => (name.path, evaluation.patched name)).Pairwise
      fun left right => Apart left.1 right.1 := by
  have scheduled := (Evaluation.eq_of_ofAnalysis evaluated).1
  have nodup : (evaluation.evaluatedIn module).Nodup :=
    (nodup_order readsBack evaluated).filter _
  have inModule : ∀ name ∈ evaluation.evaluatedIn module,
      name ∈ (ofTree tree).names ∧ name.module = module := by
    intro name listed
    rcases List.mem_filter.mp listed with ⟨inOrder, same⟩
    exact ⟨mem_names_of_mem_order scheduled inOrder, by simpa using same⟩
  refine List.pairwise_map.mpr (nodup.imp_of_mem fun {left right} inLeft inRight different => ?_)
  have ofLeft := inModule left inLeft
  have ofRight := inModule right inRight
  exact prefixFree.apart ofLeft.1 ofRight.1 (ofLeft.2.trans ofRight.2.symm) different

/-- In the end the tree of a module is the merge of its terms, in any order. -/
theorem moduleValue?_eq {module : ModuleName} {names : List FullName}
    (perm : names.Perm (evaluation.evaluatedIn module)) :
    evaluation.moduleValue? module =
      if names = [] then none
      else some (mergeAll (names.map fun name => nest name.path (evaluation.patched name))) := by
  rcases Evaluation.eq_of_ofAnalysis evaluated with ⟨scheduled, _, state⟩
  have known : ∀ name ∈ evaluation.schedule.order,
      ∃ term, Table.find? name (ofTree tree).terms = some term :=
    fun name listed => exists_term (mem_names_of_mem_order scheduled listed)
  have inhabited : (∃ name ∈ evaluation.schedule.order, name.module = module) ↔ names ≠ [] := by
    rw [← List.isEmpty_eq_false_iff, perm.isEmpty_eq, Evaluation.evaluatedIn]
    simp
  have merged : mergeAll (names.map fun name => nest name.path (evaluation.patched name)) =
      (Value.object []).graftAll (names.map fun name => (name.path, evaluation.patched name)) := by
    rw [← Value.mergeAll_nest, List.map_map]
    rfl
  rw [Evaluation.moduleValue?, state, EvaluationState.find?_trees_run known]
  by_cases empty : names = []
  · rw [if_pos empty, if_neg fun some => inhabited.mp some empty]
    rfl
  · have reordered := Value.graftAll_perm (perm.symm.map _)
      (pairwise_apart_evaluatedIn readsBack prefixFree evaluated module)
      fun graft _ => Value.orderedAlong_empty graft.1
    rw [if_neg empty, if_pos (inhabited.mpr empty), merged, ← reordered,
      tree_run_eq_graftAll readsBack prefixFree evaluated (List.append_nil _).symm module]
    rfl

/-- The trees of an evaluation hold the values of its terms with their phantom attributes.
What a term has put into the tree of its module stays there, no step touches the tree of
another module, and in the end every tree is the merge of its terms in any order. -/
theorem trees_hold_patched :
    evaluation.state = run (ofTree tree) evaluator .empty evaluation.schedule.order ∧
    (∀ before after, evaluation.schedule.order = before ++ after → ∀ name ∈ before,
      ∃ value, evaluation.value? name = some value ∧
        Table.find? name.text (run (ofTree tree) evaluator .empty before).values = some value ∧
        ((run (ofTree tree) evaluator .empty before).tree name.module).lookup name.path =
          (PhantomAttributes.ofTerms (ofTree tree).terms).patch name value) ∧
    (∀ before name after, evaluation.schedule.order = before ++ name :: after →
      ∀ module, module ≠ name.module →
        Table.find? module (run (ofTree tree) evaluator .empty (before ++ [name])).trees =
          Table.find? module (run (ofTree tree) evaluator .empty before).trees) ∧
    ∀ module names, names.Perm (evaluation.evaluatedIn module) →
      evaluation.moduleValue? module =
        if names = [] then none
        else some (mergeAll (names.map fun name => nest name.path (evaluation.patched name))) := by
  refine ⟨(Evaluation.eq_of_ofAnalysis evaluated).2.2, ?_, ?_, ?_⟩
  · intro before after split name listed
    exact exists_patched readsBack prefixFree evaluated split listed
  · intro before name after _ module other
    rw [EvaluationState.run_append]
    exact EvaluationState.find?_trees_step_of_ne other _
  · intro module names perm
    exact moduleValue?_eq readsBack prefixFree evaluated perm

end Pass

/-- A resource with two instances, and a local that reads an attribute of the first one. -/
def tracedText : String :=
  "resource \"t\" \"b\" \x7b\ncount = 2\nv = count.index\n\x7d\n" ++
    "locals \x7b\np = t.b[0].arn\n\x7d\n"

/-- The local is evaluated after the resource that it reads. -/
def tracedSchedule : Schedule := ⟨[⟨[], ["t", "b"]⟩, ⟨[], ["local", "p"]⟩], []⟩

theorem trees_hold_patched_traced : ∃ tree evaluation,
    ModuleTree.ofText tracedText = .ok tree ∧ (ofTree tree).ReadsBack ∧
    PrefixFree (ofTree tree).names ∧
    Evaluation.ofAnalysis Expression.evaluateIn (ofTree tree) = .ok evaluation ∧
    (∃ value, evaluation.value? ⟨[], ["t", "b"]⟩ = some value ∧
      ((run (ofTree tree) Expression.evaluateIn .empty [⟨[], ["t", "b"]⟩]).tree []).lookup
          ["t", "b"] =
        (PhantomAttributes.ofTerms (ofTree tree).terms).patch ⟨[], ["t", "b"]⟩ value) ∧
    evaluation.moduleValue? [] = some (mergeAll
      [nest ["local", "p"] (evaluation.patched ⟨[], ["local", "p"]⟩),
        nest ["t", "b"] (evaluation.patched ⟨[], ["t", "b"]⟩)]) := by
  rcases ModuleTree.exists_ofText tracedText
      (fun tree => (ofTree tree).ReadsBack && PrefixFree (ofTree tree).names &&
        ((ofTree tree).schedule = .ok tracedSchedule : Bool))
      (by decide +kernel) with ⟨tree, loaded, checked⟩
  simp only [Bool.and_eq_true, decide_eq_true_eq] at checked
  rcases checked with ⟨⟨readsBack, prefixFree⟩, scheduled⟩
  have evaluated := Evaluation.ofAnalysis_of_schedule Expression.evaluateIn scheduled
  have whole := trees_hold_patched readsBack prefixFree evaluated
  have swapped : [⟨[], ["local", "p"]⟩, ⟨[], ["t", "b"]⟩].Perm (tracedSchedule.order.filter
      fun name => name.module = []) := by decide
  rcases whole.2.1 [⟨[], ["t", "b"]⟩] [⟨[], ["local", "p"]⟩] rfl ⟨[], ["t", "b"]⟩ (by decide) with
    ⟨value, final, _, there⟩
  exact ⟨tree, _, loaded, readsBack, prefixFree, evaluated, ⟨value, final, there⟩,
    whole.2.2.2 [] _ swapped⟩

end Analysis

end Groundplan
