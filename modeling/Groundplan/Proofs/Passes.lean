import Groundplan.Evaluation
import Groundplan.Proofs.Destinations
import Groundplan.Proofs.Schedules
/-!
What a pass does to the value trees. A step only writes at the path of its own
term, so what stands at another term stays there to the end of the pass.
-/

namespace Groundplan

open Value (Apart Blocked)

namespace EvaluationState

/-! ## Steps -/

/-- Evaluate terms one after the other. -/
def run (analysis : Analysis) (evaluator : Evaluator) (state : EvaluationState)
    (names : List FullName) : EvaluationState :=
  names.foldl (step analysis (PhantomAttributes.ofTerms analysis.terms) evaluator) state

variable {analysis : Analysis} {evaluator : Evaluator}

theorem run_append (state : EvaluationState) (first second : List FullName) :
    run analysis evaluator state (first ++ second) =
      run analysis evaluator (run analysis evaluator state first) second :=
  List.foldl_append

theorem run_cons (state : EvaluationState) (name : FullName) (rest : List FullName) :
    run analysis evaluator state (name :: rest) =
      run analysis evaluator
        (step analysis (PhantomAttributes.ofTerms analysis.terms) evaluator state name) rest :=
  rfl

variable {phantom : PhantomAttributes} {name : FullName} {term : Term}

/-- A step grafts something at the path of its term, and leaves other modules alone. -/
theorem tree_step (found : Table.find? name analysis.terms = some term)
    (state : EvaluationState) (module : ModuleName) :
    (step analysis phantom evaluator state name).tree module =
      if module = name.module then
        (state.tree module).graft name.path
          (phantom.patch name (term.evaluate evaluator (state.scope analysis name)).value)
      else state.tree module := by
  by_cases same : module = name.module
  · subst same
    simp [step, found, tree, Table.find?_insert_self]
  · simp [step, found, tree, Table.find?_insert_of_ne same, same]

theorem step_of_unknown (unknown : Table.find? name analysis.terms = none)
    (state : EvaluationState) : step analysis phantom evaluator state name = state := by
  rw [step, unknown]

theorem values_step (found : Table.find? name analysis.terms = some term)
    (state : EvaluationState) (text : String) :
    Table.find? text (step analysis phantom evaluator state name).values =
      if text = name.text then
        some (term.evaluate evaluator (state.scope analysis name)).value
      else Table.find? text state.values := by
  rw [step, found]
  exact Table.find?_insert _ _ _ _

theorem isTable_step {state : EvaluationState} {module : ModuleName} (nonempty : name.path ≠ [])
    (isTable : (state.tree module).IsTable) :
    ((step analysis phantom evaluator state name).tree module).IsTable := by
  cases found : Table.find? name analysis.terms with
  | none => rw [step_of_unknown found]; exact isTable
  | some term =>
      rw [tree_step found]
      split
      · exact Value.isTable_graft isTable nonempty _
      · exact isTable

theorem at?_step_of_apart {path : LocalName} {module : ModuleName}
    (apart : name.module = module → Apart name.path path) (state : EvaluationState) :
    ((step analysis phantom evaluator state name).tree module).at? path =
      (state.tree module).at? path := by
  cases found : Table.find? name analysis.terms with
  | none => rw [step_of_unknown found]
  | some term =>
      rw [tree_step found]
      split
      · next same => exact Value.at?_graft_of_apart (apart same.symm) _ _
      · rfl

theorem blocked_step {path : LocalName} {module : ModuleName}
    (apart : name.module = module → Apart name.path path) {state : EvaluationState}
    (blocked : Blocked path (state.tree module)) :
    Blocked path ((step analysis phantom evaluator state name).tree module) := by
  cases found : Table.find? name analysis.terms with
  | none => rwa [step_of_unknown found]
  | some term =>
      rw [tree_step found]
      split
      · next same => exact blocked.graft_of_apart (apart same.symm) _
      · exact blocked

theorem values_step_of_ne {text : String} (different : text ≠ name.text)
    (state : EvaluationState) :
    Table.find? text (step analysis phantom evaluator state name).values =
      Table.find? text state.values := by
  cases found : Table.find? name analysis.terms with
  | none => rw [step_of_unknown found]
  | some term => rw [values_step found, if_neg different]

/-! ## Runs -/

variable {names : List FullName}

theorem isTable_run (nonempty : ∀ name ∈ names, name.path ≠ []) {state : EvaluationState}
    {module : ModuleName} (isTable : (state.tree module).IsTable) :
    ((run analysis evaluator state names).tree module).IsTable := by
  induction names generalizing state with
  | nil => exact isTable
  | cons first rest induction =>
      exact induction (fun name member => nonempty name (List.mem_cons_of_mem _ member))
        (isTable_step (nonempty first List.mem_cons_self) isTable)

theorem at?_run_of_apart {path : LocalName} {module : ModuleName}
    (apart : ∀ name ∈ names, name.module = module → Apart name.path path)
    (state : EvaluationState) :
    ((run analysis evaluator state names).tree module).at? path =
      (state.tree module).at? path := by
  induction names generalizing state with
  | nil => rfl
  | cons first rest induction =>
      rw [run_cons, induction fun name member => apart name (List.mem_cons_of_mem _ member)]
      exact at?_step_of_apart (apart first List.mem_cons_self) state

theorem values_run_of_ne {text : String} (different : ∀ name ∈ names, text ≠ name.text)
    (state : EvaluationState) :
    Table.find? text (run analysis evaluator state names).values =
      Table.find? text state.values := by
  induction names generalizing state with
  | nil => rfl
  | cons first rest induction =>
      rw [run_cons, induction fun name member => different name (List.mem_cons_of_mem _ member)]
      exact values_step_of_ne (different first List.mem_cons_self) state

theorem isTable_empty (module : ModuleName) : (empty.tree module).IsTable :=
  ⟨rfl, Table.ordered_nil⟩

/-- A path apart from all terms that a pass has evaluated leads to nothing. -/
theorem blocked_run_empty (analysis : Analysis) (evaluator : Evaluator) {path : LocalName}
    {module : ModuleName} (nonempty : path ≠ [])
    (apart : ∀ name ∈ names, name.module = module → Apart name.path path) :
    Blocked path ((run analysis evaluator empty names).tree module) := by
  have start : Blocked path (empty.tree module) := by
    cases path with
    | nil => exact absurd rfl nonempty
    | cons => exact .absent rfl rfl
  generalize empty = state at start
  induction names generalizing state with
  | nil => exact start
  | cons first rest induction =>
      exact induction (fun name member => apart name (List.mem_cons_of_mem _ member)) _
        (blocked_step (apart first List.mem_cons_self) start)

end EvaluationState

/-! ## Passes over a tree -/

namespace Evaluation

variable {evaluator : Evaluator} {tree : ModuleTree} {evaluation : Evaluation}

theorem ofAnalysis_of_schedule (evaluator : Evaluator) {analysis : Analysis} {schedule : Schedule}
    (scheduled : analysis.schedule = .ok schedule) :
    ofAnalysis evaluator analysis = .ok ⟨analysis, schedule,
      EvaluationState.run analysis evaluator .empty schedule.order⟩ := by
  rw [ofAnalysis, scheduled]
  rfl

/-- A pass runs all terms of its schedule. -/
theorem eq_of_ofAnalysis {analysis : Analysis}
    (evaluated : ofAnalysis evaluator analysis = .ok evaluation) :
    analysis.schedule = .ok evaluation.schedule ∧ evaluation.analysis = analysis ∧
      evaluation.state =
        EvaluationState.run analysis evaluator .empty evaluation.schedule.order := by
  rw [ofAnalysis] at evaluated
  cases scheduled : analysis.schedule with
  | error => rw [scheduled] at evaluated; cases evaluated
  | ok schedule =>
      rw [scheduled] at evaluated
      cases evaluated
      exact ⟨rfl, rfl, rfl⟩

end Evaluation

namespace Analysis

open EvaluationState (run)

variable {tree : ModuleTree} {schedule : Schedule}

/-- Whether a term cannot be taken for another one: no other term has its text or one that
reads back as its name, and none of its module has a path that overlaps with its own. -/
structure StandsOut (analysis : Analysis) (name : FullName) : Prop where
  alone : analysis.ReadsAlone name
  text : ∀ other ∈ analysis.names, other.text = name.text → other = name
  apart : ∀ other ∈ analysis.names, other.module = name.module → other ≠ name →
    Apart other.path name.path

instance (analysis : Analysis) (name : FullName) : Decidable (analysis.StandsOut name) :=
  decidable_of_iff
    (analysis.ReadsAlone name ∧ (∀ other ∈ analysis.names, other.text = name.text → other = name) ∧
      ∀ other ∈ analysis.names, other.module = name.module → other ≠ name →
        Apart other.path name.path)
    ⟨fun parts => ⟨parts.1, parts.2.1, parts.2.2⟩,
      fun standsOut => ⟨standsOut.alone, standsOut.text, standsOut.apart⟩⟩

variable {name : FullName} {term : Term}

theorem standsOut_of_prefixFree (readsBack : (ofTree tree).ReadsBack)
    (prefixFree : PrefixFree (ofTree tree).names) (named : name ∈ (ofTree tree).names) :
    (ofTree tree).StandsOut name where
  alone := readsBack.readsAlone name
  text _ otherNamed same := readsBack.eq_of_text otherNamed named same
  apart _ otherNamed sameModule different :=
    prefixFree.apart otherNamed named sameModule different

/-- A pass records the value that a term has at its own turn, if no other term has its text. -/
theorem find?_values_of_split (evaluator : Evaluator) (alone : (ofTree tree).ReadsAlone name)
    (text : ∀ other ∈ (ofTree tree).names, other.text = name.text → other = name)
    (scheduled : (ofTree tree).schedule = .ok schedule) {before after : List FullName}
    (split : schedule.order = before ++ name :: after)
    (found : Table.find? name (ofTree tree).terms = some term) :
    Table.find? name.text (run (ofTree tree) evaluator .empty schedule.order).values =
      some (term.evaluate evaluator
        ((run (ofTree tree) evaluator .empty before).scope (ofTree tree) name)).value := by
  have later : ∀ other ∈ after, name.text ≠ other.text := by
    intro other listed same
    have otherNamed : other ∈ (ofTree tree).names :=
      mem_names_of_mem_order scheduled (by rw [split]; simp [listed])
    have isOwn := text other otherNamed same.symm
    exact (alone.not_mem_of_split scheduled split).2 (isOwn ▸ listed)
  rw [split, EvaluationState.run_append, EvaluationState.run_cons,
    EvaluationState.values_run_of_ne later, EvaluationState.values_step found, if_pos rfl]

section

variable (standsOut : (ofTree tree).StandsOut name) (evaluator : Evaluator)
  (scheduled : (ofTree tree).schedule = .ok schedule)
include standsOut scheduled

theorem StandsOut.find?_values {before after : List FullName}
    (split : schedule.order = before ++ name :: after)
    (found : Table.find? name (ofTree tree).terms = some term) :
    Table.find? name.text (run (ofTree tree) evaluator .empty schedule.order).values =
      some (term.evaluate evaluator
        ((run (ofTree tree) evaluator .empty before).scope (ofTree tree) name)).value :=
  find?_values_of_split evaluator standsOut.alone standsOut.text scheduled split found

/-- A term that does not read back from its text has no value. -/
theorem StandsOut.find?_values_of_not_mem (absent : name ∉ schedule.order) :
    Table.find? name.text (run (ofTree tree) evaluator .empty schedule.order).values = none := by
  have others : ∀ other ∈ schedule.order, name.text ≠ other.text := by
    intro other listed same
    have isOwn := standsOut.text other (mem_names_of_mem_order scheduled listed) same.symm
    exact absent (isOwn ▸ listed)
  rw [EvaluationState.values_run_of_ne others]
  rfl

variable (named : name ∈ (ofTree tree).names)
include named

omit scheduled in
/-- Before its own turn nothing stands in the place of a term. -/
theorem StandsOut.blocked {before : List FullName}
    (within : ∀ other ∈ before, other ∈ (ofTree tree).names) (absent : name ∉ before) :
    Blocked name.path ((run (ofTree tree) evaluator .empty before).tree name.module) := by
  apply EvaluationState.blocked_run_empty (ofTree tree) evaluator (paths_ne_nil tree name named)
  intro other listed sameModule
  exact standsOut.apart other (within other listed) sameModule fun same =>
    absent (same ▸ listed)

/-- From its own turn on the recorded value of a term stands in the tree of its module, with
its phantom attributes. -/
theorem StandsOut.exists_at? {before after : List FullName}
    (split : schedule.order = before ++ after) (listed : name ∈ before) :
    ∃ value, Table.find? name.text
        (run (ofTree tree) evaluator .empty schedule.order).values = some value ∧
      ((run (ofTree tree) evaluator .empty before).tree name.module).at? name.path =
        some ((PhantomAttributes.ofTerms (ofTree tree).terms).patch name value) := by
  rcases exists_term named with ⟨term, found⟩
  rcases List.append_of_mem listed with ⟨first, middle, within⟩
  have turn : schedule.order = first ++ name :: (middle ++ after) := by
    rw [split, within, List.append_assoc, List.cons_append]
  have inNames : ∀ other ∈ schedule.order, other ∈ (ofTree tree).names := fun _ inOrder =>
    mem_names_of_mem_order scheduled inOrder
  have absent := standsOut.alone.not_mem_of_split scheduled turn
  rw [turn] at inNames
  have vacant := standsOut.blocked evaluator named
    (fun other inFirst => inNames other (by simp [inFirst])) absent.1
  have apart : ∀ other ∈ middle, other.module = name.module → Apart other.path name.path :=
    fun other member sameModule =>
      standsOut.apart other (inNames other (by simp [member])) sameModule fun same =>
        absent.2 (List.mem_append_left _ (same ▸ member))
  refine ⟨_, standsOut.find?_values evaluator scheduled turn found, ?_⟩
  rw [within, EvaluationState.run_append, EvaluationState.run_cons,
    EvaluationState.at?_run_of_apart apart, EvaluationState.tree_step found, if_pos rfl]
  exact Value.at?_graft_of_none _ vacant.at?

/-- The value of a term stands in the tree of its module, and stays there. -/
theorem StandsOut.exists_at?_stays {before after : List FullName}
    (split : schedule.order = before ++ after) (listed : name ∈ before) :
    ∃ part, ((run (ofTree tree) evaluator .empty before).tree name.module).at? name.path =
        some part ∧
      ((run (ofTree tree) evaluator .empty schedule.order).tree name.module).at? name.path =
        some part := by
  have inOrder : name ∈ schedule.order := by rw [split]; exact List.mem_append_left _ listed
  rcases standsOut.exists_at? evaluator scheduled named split listed with
    ⟨value, recorded, early⟩
  rcases standsOut.exists_at? evaluator scheduled named (List.append_nil _).symm inOrder with
    ⟨final, again, late⟩
  cases recorded.symm.trans again
  exact ⟨_, early, late⟩

end

end Analysis

end Groundplan
