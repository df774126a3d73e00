import Groundplan.Proofs.Alignment
/-!
One pass is a fixpoint. Every term that is evaluated once more, against the value
trees that the whole pass has built, has the value that the pass recorded for it.
-/

namespace Groundplan

open EvaluationState (run brought ownScope)
open Value (Apart)

namespace Analysis

/-! ## Names that stay apart -/

/-- An analysis whose terms can be told apart and that none reads itself. -/
structure Plain (analysis : Analysis) : Prop where
  readsBack : analysis.ReadsBack
  prefixFree : PrefixFree analysis.names
  noSelf : ∀ name ∈ analysis.names, ∀ dependency ∈ analysis.dependenciesFor name,
    dependency.source? ≠ some name
  unreserved : ∀ name ∈ analysis.names, ∀ key ∈ name.path.head?,
    key ∉ analysis.reserved name.module

instance (analysis : Analysis) : Decidable analysis.Plain :=
  decidable_of_iff
    (analysis.ReadsBack ∧ PrefixFree analysis.names ∧
      (∀ name ∈ analysis.names, ∀ dependency ∈ analysis.dependenciesFor name,
        dependency.source? ≠ some name) ∧
      ∀ name ∈ analysis.names, ∀ key ∈ name.path.head?, key ∉ analysis.reserved name.module)
    ⟨fun parts => ⟨parts.1, parts.2.1, parts.2.2.1, parts.2.2.2⟩,
      fun plain => ⟨plain.readsBack, plain.prefixFree, plain.noSelf, plain.unreserved⟩⟩

/-- Whether a module declares no variable that its terms read under the name of another
one. -/
def DeclaredApart (analysis : Analysis) : Prop :=
  ∀ name ∈ analysis.names, ∀ key ∈ name.path.head?, ∀ read ∈ analysis.rootsRead name.module,
    Expression.identifierOf key = read → key = read

instance (analysis : Analysis) : Decidable analysis.DeclaredApart :=
  inferInstanceAs (Decidable (∀ name ∈ analysis.names, ∀ key ∈ name.path.head?,
    ∀ read ∈ analysis.rootsRead name.module, Expression.identifierOf key = read → key = read))

/-! ## Two scopes of one term -/

/-- Whether two states cannot be told apart by the scope of a term: its sources have
their values in both, and nothing stands apart from all terms of its module. -/
structure Settled (analysis : Analysis) (name : FullName) (early late : EvaluationState) :
    Prop where
  earlyTable : (early.tree name.module).IsTable
  lateTable : (late.tree name.module).IsTable
  sources : ∀ dependency ∈ analysis.dependenciesFor name, ∀ source,
    dependency.source? = some source →
      ∃ part, (early.tree source.module).at? source.path = some part ∧
        (late.tree source.module).at? source.path = some part
  vacant : ∀ path, path ≠ [] →
    (∀ other ∈ analysis.names, other.module = name.module → Apart other.path path) →
      (early.tree name.module).at? path = none ∧ (late.tree name.module).at? path = none

variable {analysis : Analysis} {name : FullName} {term : Term} {tree : ModuleTree}
  {early late : EvaluationState} {dependency : Dependency}

theorem Settled.seesOwn (settled : (ofTree tree).Settled name early late) (path : List String) :
    (ofTree tree).SeesOwn name early late path := by
  intro dependency member own start
  cases produced : dependency.source? with
  | none => rw [isRemapped_of_missing produced] at own; cases own
  | some source =>
      have there := settled.sources dependency member source produced
      rw [source_eq_destination produced own, destination_module member] at there
      rcases there with ⟨_, inEarly, inLate⟩
      exact (Value.AgreeOn.of_at? inEarly inLate).of_start start

theorem Settled.aligned (settled : (ofTree tree).Settled name early late)
    (prefixFree : PrefixFree (ofTree tree).names) :
    Aligned (ofTree tree) (ofTree tree) name early late where
  dependencies := rfl
  context := rfl
  firstTable := settled.earlyTable
  secondTable := settled.lateTable
  sources dependency member _ source produced :=
    have ⟨_, inEarly, inLate⟩ := settled.sources dependency member source produced
    .agree (.of_at? inEarly inLate)
  own _ _ _ _ dependency member own start :=
    .agree (settled.seesOwn _ dependency member own start)
  vacant := settled.vacant
  spares _ member _ produced := spares_of_prefixFree prefixFree member produced

theorem Plain.keysApart (plain : (ofTree tree).Plain) (declaredApart : (ofTree tree).DeclaredApart)
    (module : ModuleName) : (ofTree tree).KeysApart module where
  unreserved other named sameModule := sameModule ▸ plain.unreserved other named
  declared other named sameModule := sameModule ▸ declaredApart other named

/-! ## The fixpoint -/

variable {schedule : Schedule} {before after : List FullName}

/-- The scope of a term does not change between its own turn and the end of the pass. -/
theorem settled_run (evaluator : Evaluator) (plain : (ofTree tree).Plain)
    (scheduled : (ofTree tree).schedule = .ok schedule)
    (split : schedule.order = before ++ name :: after) :
    (ofTree tree).Settled name (run (ofTree tree) evaluator .empty before)
      (run (ofTree tree) evaluator .empty schedule.order) := by
  have named : ∀ other ∈ schedule.order, other ∈ (ofTree tree).names := fun _ listed =>
    mem_names_of_mem_order scheduled listed
  have earlier : ∀ other ∈ before, other ∈ schedule.order := fun other listed => by
    rw [split]
    exact List.mem_append_left _ listed
  have nonempty : ∀ other ∈ schedule.order, other.path ≠ [] := fun other listed =>
    paths_ne_nil tree other (named other listed)
  refine ⟨?_, ?_, ?_, ?_⟩
  · exact EvaluationState.isTable_run (fun other listed => nonempty other (earlier other listed))
      (EvaluationState.isTable_empty _)
  · exact EvaluationState.isTable_run nonempty (EvaluationState.isTable_empty _)
  · intro dependency member source produced
    have own : name ∈ (ofTree tree).names := named name (by rw [split]; simp)
    have different : source ≠ name := fun same =>
      plain.noSelf name own dependency member (same ▸ produced)
    have sourceNamed := source_mem_names member produced
    exact (standsOut_of_prefixFree plain.readsBack plain.prefixFree sourceNamed).exists_at?_stays
      evaluator scheduled sourceNamed split
      (source_mem_before plain.readsBack scheduled split member produced different)
  · intro path nonemptyPath apart
    constructor
    · exact (EvaluationState.blocked_run_empty _ _ nonemptyPath fun other listed =>
        apart other (named other (earlier other listed))).at?
    · exact (EvaluationState.blocked_run_empty _ _ nonemptyPath fun other listed =>
        apart other (named other listed)).at?

/-- Evaluating any term again in the final scope gives the value that the pass recorded
for it. -/
theorem evaluate_again {evaluation : Evaluation} (plain : (ofTree tree).Plain)
    (declaredApart : (ofTree tree).DeclaredApart)
    (evaluated : Evaluation.ofAnalysis Expression.evaluateIn (ofTree tree) = .ok evaluation) :
    ∀ name ∈ evaluation.schedule.order, ∃ term,
      Table.find? name evaluation.analysis.terms = some term ∧
      evaluation.value? name = some (term.evaluate Expression.evaluateIn
        (evaluation.state.scope evaluation.analysis name)).value := by
  rcases Evaluation.eq_of_ofAnalysis evaluated with ⟨scheduled, analysis, state⟩
  intro name listed
  rcases List.append_of_mem listed with ⟨before, after, split⟩
  rcases exists_term (mem_names_of_mem_order scheduled listed) with ⟨term, found⟩
  have settled := settled_run Expression.evaluateIn plain scheduled split
  have same := Term.value_evaluate_eq (isTable_scope found settled.earlyTable)
    (isTable_scope found settled.lateTable) term (fun _ binds => binds) fun reference read =>
      .agree ((settled.aligned plain.prefixFree).readsAlike
        (plain.keysApart declaredApart name.module) found read (settled.seesOwn _))
  rw [Evaluation.value?, analysis, state]
  refine ⟨term, found, ?_⟩
  rw [← same]
  exact (standsOut_of_prefixFree plain.readsBack plain.prefixFree
    (mem_names_of_mem_order scheduled listed)).find?_values Expression.evaluateIn scheduled split
      found

theorem evaluate_again_sampleTree : ∃ term,
    Table.find? ⟨[], ["local", "total"]⟩ (ofTree sampleTree).terms = some term ∧
    Table.find? "local.total"
        (run (ofTree sampleTree) Expression.evaluateIn .empty sampleSchedule.order).values =
      some (term.evaluate Expression.evaluateIn
        ((run (ofTree sampleTree) Expression.evaluateIn .empty sampleSchedule.order).scope
          (ofTree sampleTree) ⟨[], ["local", "total"]⟩)).value :=
  evaluate_again (by decide +kernel) (by decide +kernel)
    (Evaluation.ofAnalysis_of_schedule Expression.evaluateIn schedule_sampleTree)
    ⟨[], ["local", "total"]⟩ (by decide)

/-- Two types of resources that are declared as one variable, and a reader of the one
that is evaluated before the other. -/
def clashText : String :=
  "resource \"foo_bar\" \"x\" \x7b v = 1 \x7d\n" ++
    "resource \"foo~bar\" \"y\" \x7b w = 2 \x7d\n" ++
    "resource \"aa\" \"n\" \x7b q = foo_bar.x.v \x7d\n"

/-- The reader is evaluated after the resource that it reads. -/
def clashSchedule : Schedule :=
  ⟨[⟨[], ["foo_bar", "x"]⟩, ⟨[], ["aa", "n"]⟩, ⟨[], ["foo~bar", "y"]⟩], []⟩

/-- Without the last hypothesis the value of a term can come out differently. -/
theorem exists_stale_value : ∃ tree evaluation,
    ModuleTree.ofText clashText = .ok tree ∧ (ofTree tree).Plain ∧
    Evaluation.ofAnalysis Expression.evaluateIn (ofTree tree) = .ok evaluation ∧
    ¬∀ name ∈ evaluation.schedule.order, ∃ term,
      Table.find? name evaluation.analysis.terms = some term ∧
      evaluation.value? name = some (term.evaluate Expression.evaluateIn
        (evaluation.state.scope evaluation.analysis name)).value := by
  rcases ModuleTree.exists_ofText clashText
      (fun tree =>
        (ofTree tree).Plain && ((ofTree tree).schedule = .ok clashSchedule : Bool) &&
        (((Table.find? ⟨[], ["aa", "n"]⟩ (ofTree tree).terms).map fun term =>
          ((term.evaluate Expression.evaluateIn
            ((run (ofTree tree) Expression.evaluateIn .empty clashSchedule.order).scope
              (ofTree tree) ⟨[], ["aa", "n"]⟩)).value.lookup ["q"]).kind) = some "null" : Bool) &&
        (((Table.find? (FullName.text ⟨[], ["aa", "n"]⟩)
          (run (ofTree tree) Expression.evaluateIn .empty clashSchedule.order).values).map
            fun value => (value.lookup ["q"]).kind) = some "number" : Bool))
      (by decide +kernel) with ⟨tree, loaded, checked⟩
  simp only [Bool.and_eq_true, decide_eq_true_eq] at checked
  rcases checked with ⟨⟨⟨plain, scheduled⟩, again⟩, recorded⟩
  refine ⟨tree, _, loaded, plain,
    Evaluation.ofAnalysis_of_schedule Expression.evaluateIn scheduled, ?_⟩
  intro all
  have listed : ⟨[], ["aa", "n"]⟩ ∈ clashSchedule.order := by decide
  rcases all ⟨[], ["aa", "n"]⟩ listed with ⟨term, found, same⟩
  rw [Evaluation.value?] at same
  rw [found] at again
  rw [same] at recorded
  exact absurd (again.symm.trans recorded) (by decide)

end Analysis

end Groundplan
