import Groundplan.Proofs.Passes
/-!
Scopes of terms. The value of a source appears in the scope of its reader unless
a placeholder of the same reader stands above it.
-/

namespace Groundplan

open Value (Apart Blocked Hides)

namespace EvaluationState

/-! ## Scopes as grafts -/

/-- What the dependencies of a term bring to its scope, by destination. -/
def brought (state : EvaluationState) (dependencies : List Dependency) :
    List (List String × Value) :=
  (dependencies.filter Dependency.isRemapped).map fun dependency =>
    (dependency.destination.path, state.valueOf dependency.origin)

/-- The scope of a term before its dependencies bring anything. -/
def ownScope (analysis : Analysis) (state : EvaluationState) (module : ModuleName) : Value :=
  (context analysis module).merge (state.tree module)

theorem scope_eq_graftAll (analysis : Analysis) (state : EvaluationState) (name : FullName) :
    state.scope analysis name =
      (ownScope analysis state name.module).graftAll
        (brought state (analysis.dependenciesFor name)) := by
  rw [scope, Value.graftAll, brought, List.foldl_map]
  rfl

theorem mem_brought {state : EvaluationState} {dependencies : List Dependency}
    {graft : List String × Value} :
    graft ∈ brought state dependencies ↔ ∃ dependency ∈ dependencies,
      dependency.isRemapped = true ∧
        graft = (dependency.destination.path, state.valueOf dependency.origin) := by
  simp only [brought, List.mem_map, List.mem_filter]
  constructor
  · rintro ⟨dependency, ⟨member, remapped⟩, same⟩
    exact ⟨dependency, member, remapped, same.symm⟩
  · rintro ⟨dependency, member, remapped, same⟩
    exact ⟨dependency, ⟨member, remapped⟩, same.symm⟩

theorem brought_append (state : EvaluationState) (first second : List Dependency) :
    brought state (first ++ second) = brought state first ++ brought state second := by
  simp [brought]

theorem brought_cons_of_isRemapped (state : EvaluationState) {dependency : Dependency}
    (remapped : dependency.isRemapped = true) (rest : List Dependency) :
    brought state (dependency :: rest) =
      (dependency.destination.path, state.valueOf dependency.origin) :: brought state rest := by
  simp [brought, remapped]

theorem valueOf_term (state : EvaluationState) {source : FullName} (nonempty : source.path ≠ []) :
    state.valueOf (.term source) = (state.tree source.module).lookup source.path := by
  rw [valueOf, tree]
  cases Table.find? source.module state.trees with
  | some => rfl
  | none =>
      cases atPath : source.path with
      | nil => exact absurd atPath nonempty
      | cons key rest => simp [Value.lookup]

theorem valueOf_of_source? (state : EvaluationState) {dependency : Dependency} {source : FullName}
    (produced : dependency.source? = some source) (nonempty : source.path ≠ []) :
    state.valueOf dependency.origin = (state.tree source.module).lookup source.path := by
  cases origin : dependency.origin with
  | placeholder =>
      rw [Dependency.source?, origin] at produced
      cases produced
  | term given =>
      rw [Dependency.source?, origin] at produced
      cases produced
      exact valueOf_term state nonempty

/-! ## The own scope -/

variable {analysis : Analysis} {state : EvaluationState} {module : ModuleName}

theorem find?_context_of_not_mem {key : String} (free : key ∉ Dependency.contextRoots) :
    Table.find? key (context analysis module).fields = none := by
  rw [Table.find?_eq_none_iff]
  intro member
  apply free
  simp only [context, Value.fields_object, Table.keys_cons, Table.keys_nil, List.mem_cons,
    List.not_mem_nil, or_false] at member
  rcases member with same | same
  · simp [same, Dependency.contextRoots]
  · simp [same, Dependency.contextRoots]

theorem fields_ownScope (isTable : (state.tree module).IsTable) :
    (ownScope analysis state module).fields =
      Value.mergeFields (context analysis module).fields (state.tree module).fields := by
  rw [ownScope, isTable.eq_object, context, Value.merge]
  rfl

theorem isTable_ownScope (isTable : (state.tree module).IsTable) :
    (ownScope analysis state module).IsTable := by
  refine ⟨?_, ?_⟩
  · rw [ownScope, isTable.eq_object, context, Value.merge]
    rfl
  · rw [fields_ownScope isTable]
    exact Value.ordered_mergeFields (by simp [context, Table.Ordered]; decide)

theorem find?_ownScope_of_not_mem (isTable : (state.tree module).IsTable) {key : String}
    (free : key ∉ Dependency.contextRoots) :
    Table.find? key (ownScope analysis state module).fields =
      Table.find? key (state.tree module).fields := by
  rw [fields_ownScope isTable, Value.find?_mergeFields isTable.2, find?_context_of_not_mem free]
  cases Table.find? key (state.tree module).fields <;> rfl

/-- The fixed values of a scope leave everything else of the module as it is. -/
theorem at?_ownScope (isTable : (state.tree module).IsTable) {key : String} {rest : List String}
    (free : key ∉ Dependency.contextRoots) :
    (ownScope analysis state module).at? (key :: rest) =
      (state.tree module).at? (key :: rest) := by
  rw [Value.at?_cons, Value.at?_cons, find?_ownScope_of_not_mem isTable free]

theorem blocked_ownScope (isTable : (state.tree module).IsTable) {key : String}
    {rest : List String} (free : key ∉ Dependency.contextRoots)
    (blocked : Blocked (key :: rest) (state.tree module)) :
    Blocked (key :: rest) (ownScope analysis state module) := by
  have same : Table.find? key (ownScope analysis state module).fields = _ :=
    find?_ownScope_of_not_mem isTable free
  cases blocked with
  | absent _ missing =>
      exact .absent (isTable_ownScope isTable).isUnknown_eq (same.trans missing)
  | field found below => exact .field (same.trans found) below

end EvaluationState

/-! ## What a reader sees -/

namespace Analysis

open EvaluationState (run brought ownScope)

/-- Whether the placeholder of a missing reference of the same term ends up above the
destination of a dependency. A value that is brought along replaces what came before
it; a value of the own module is there first. -/
def Shadowed (analysis : Analysis) (name : FullName) (dependency : Dependency) : Prop :=
  ∃ missing ∈ analysis.dependenciesFor name, missing.StandsAbove dependency ∧
    (dependency.isRemapped = true →
      [dependency, missing].Sublist (analysis.dependenciesFor name))

variable {tree : ModuleTree} {name source : FullName} {dependency dependent : Dependency}
  {state : EvaluationState}

theorem nodup_dependenciesFor (member : dependency ∈ (ofTree tree).dependenciesFor name) :
    ((ofTree tree).dependenciesFor name).Nodup := by
  rcases exists_term_of_mem member with ⟨term, found⟩
  rw [dependenciesFor_eq tree found]
  exact Dependency.nodup_ofTerm _ _ _

/-- A dependency is listed once. -/
private theorem ne_of_split {before after : List Dependency}
    (split : (ofTree tree).dependenciesFor name = before ++ dependency :: after) :
    (∀ dependent ∈ before, dependent ≠ dependency) ∧
      ∀ dependent ∈ after, dependent ≠ dependency := by
  have nodup := nodup_dependenciesFor (by rw [split]; simp : dependency ∈ _)
  rw [split] at nodup
  rcases List.nodup_append.mp nodup with ⟨_, fromTurn, apart⟩
  constructor
  · exact fun dependent listed => apart dependent listed dependency List.mem_cons_self
  · exact fun dependent listed same => (List.nodup_cons.mp fromTurn).1 (same ▸ listed)

theorem isRemapped_of_missing (unproduced : dependent.source? = none) :
    dependent.isRemapped = true := by
  rw [Dependency.isRemapped, unproduced]
  rfl

private theorem fresh_of_own (own : dependency.isRemapped = false) {others : List Dependency} :
    ∀ dependent ∈ others, dependent.isRemapped = true → dependent ≠ dependency := by
  intro dependent _ remapped same
  rw [same, own] at remapped
  cases remapped

/-- A placeholder above a destination hides what stands there. -/
theorem hides_of_standsAbove (above : dependent.StandsAbove dependency) :
    Hides (dependent.destination.path, state.valueOf dependent.origin)
      dependency.destination.path := by
  refine ⟨above.start, above.proper, ?_⟩
  have unproduced := above.unproduced
  cases origin : dependent.origin with
  | term name => simp [Dependency.source?, origin] at unproduced
  | placeholder text => exact ⟨text, rfl⟩

theorem at?_ownScope_destination (isTable : (state.tree name.module).IsTable)
    (member : dependency ∈ (ofTree tree).dependenciesFor name)
    (produced : dependency.source? = some source) :
    (ownScope (ofTree tree) state name.module).at? dependency.destination.path =
      (state.tree name.module).at? dependency.destination.path := by
  rcases exists_destination_head member produced with ⟨key, rest, shape, free⟩
  rw [shape, EvaluationState.at?_ownScope isTable free]

section

variable (spares : (ofTree tree).Spares name dependency)
include spares

section

variable (others : List Dependency)
  (within : ∀ dependent ∈ others, dependent ∈ (ofTree tree).dependenciesFor name)
  (fresh : ∀ dependent ∈ others, dependent.isRemapped = true → dependent ≠ dependency)
include within fresh

/-- The other dependencies of a term at most hide a value from a source. -/
theorem sparing_brought (state : EvaluationState) :
    ∀ graft ∈ brought state others,
      Apart graft.1 dependency.destination.path ∨ Hides graft dependency.destination.path := by
  intro graft listed
  rcases EvaluationState.mem_brought.mp listed with ⟨dependent, inOthers, remapped, same⟩
  subst same
  rcases spares dependent (within dependent inOthers) (fresh dependent inOthers remapped) with
    apart | above
  · exact Or.inl apart
  · exact Or.inr (hides_of_standsAbove above)

theorem hidden_iff (state : EvaluationState) :
    (∀ graft ∈ brought state others, ¬Hides graft dependency.destination.path) ↔
      ¬∃ missing ∈ others, missing.StandsAbove dependency := by
  constructor
  · rintro seen ⟨missing, inOthers, above⟩
    have listed : (missing.destination.path, state.valueOf missing.origin) ∈
        brought state others :=
      EvaluationState.mem_brought.mpr
        ⟨missing, inOthers, isRemapped_of_missing above.unproduced, rfl⟩
    exact seen _ listed (hides_of_standsAbove above)
  · intro none graft listed hides
    rcases EvaluationState.mem_brought.mp listed with ⟨dependent, inOthers, remapped, same⟩
    subst same
    rcases spares dependent (within dependent inOthers) (fresh dependent inOthers remapped) with
      apart | above
    · exact apart.1 hides.start
    · exact none ⟨dependent, inOthers, above⟩

/-- What stands at the destination of a dependency is seen after other dependencies,
exactly if none of them stands above it. -/
theorem lookup_graftAll_brought (state : EvaluationState) {scope part : Value}
    (there : scope.at? dependency.destination.path = some part) :
    (scope.graftAll (brought state others)).lookup dependency.destination.path = part ↔
      part = .null ∨ ¬∃ missing ∈ others, missing.StandsAbove dependency := by
  rw [Value.lookup_graftAll_eq_iff there (sparing_brought spares others within fresh state),
    hidden_iff spares others within fresh state]

end

/-- A dependency whose value is there already is not brought by the others. -/
theorem sparing_own (own : dependency.isRemapped = false) (state : EvaluationState) :
    ∀ graft ∈ brought state ((ofTree tree).dependenciesFor name),
      Apart graft.1 dependency.destination.path ∨ Hides graft dependency.destination.path :=
  sparing_brought spares _ (fun _ listed => listed) (fresh_of_own own) state

/-- A value of the own module is seen unless a placeholder stands above it. -/
theorem lookup_own_iff (member : dependency ∈ (ofTree tree).dependenciesFor name)
    (produced : dependency.source? = some source) (isTable : (state.tree name.module).IsTable)
    (own : dependency.isRemapped = false) {part : Value}
    (written : (state.tree name.module).at? dependency.destination.path = some part) :
    (state.scope (ofTree tree) name).lookup dependency.destination.path = part ↔
      part = .null ∨ ¬(ofTree tree).Shadowed name dependency := by
  have there := (at?_ownScope_destination isTable member produced).trans written
  rw [EvaluationState.scope_eq_graftAll,
    lookup_graftAll_brought spares _ (fun _ listed => listed) (fresh_of_own own) _ there]
  simp [Shadowed, own]

/-- Up to its own turn nothing stands at the destination of a value that is brought along. -/
theorem at?_graftAll_brought {before after : List Dependency}
    (split : (ofTree tree).dependenciesFor name = before ++ dependency :: after)
    (state : EvaluationState) {scope : Value}
    (vacant : scope.at? dependency.destination.path = none) :
    (scope.graftAll (brought state before)).at? dependency.destination.path = none := by
  apply Value.at?_graftAll_of_none vacant
  apply sparing_brought spares before
  · intro dependent listed
    rw [split]
    exact List.mem_append_left _ listed
  · exact fun dependent listed _ => (ne_of_split split).1 dependent listed

end

private theorem pair_sublist_iff {before after : List Dependency}
    (fresh : ∀ dependent ∈ before, dependent ≠ dependency) :
    [dependency, dependent].Sublist (before ++ dependency :: after) ↔ dependent ∈ after := by
  induction before with
  | nil => rw [List.nil_append, List.cons_sublist_cons, List.singleton_sublist]
  | cons first rest induction =>
      have below := induction fun given listed => fresh given (List.mem_cons_of_mem _ listed)
      rw [← below, List.cons_append]
      constructor
      · intro inside
        cases inside with
        | cons _ inside => exact inside
        | cons_cons => exact absurd rfl (fresh dependency List.mem_cons_self)
      · exact List.Sublist.cons _

/-- A value that is brought along is seen unless a placeholder comes after it. -/
theorem lookup_brought_iff (spares : (ofTree tree).Spares name dependency)
    (member : dependency ∈ (ofTree tree).dependenciesFor name)
    (vacant : (ownScope (ofTree tree) state name.module).at? dependency.destination.path = none)
    (remapped : dependency.isRemapped = true) :
    (state.scope (ofTree tree) name).lookup dependency.destination.path =
        state.valueOf dependency.origin ↔
      state.valueOf dependency.origin = .null ∨
        ¬(ofTree tree).Shadowed name dependency := by
  rcases List.append_of_mem member with ⟨before, after, split⟩
  rcases ne_of_split split with ⟨earlier, later⟩
  have still := at?_graftAll_brought spares split state vacant
  have placed := Value.at?_graft_of_none (state.valueOf dependency.origin) still
  have seen := lookup_graftAll_brought spares after
    (fun dependent listed => by
      rw [split]
      exact List.mem_append_right _ (List.mem_cons_of_mem _ listed))
    (fun dependent listed _ => later dependent listed) state placed
  rw [EvaluationState.scope_eq_graftAll, split, EvaluationState.brought_append,
    Value.graftAll_append, EvaluationState.brought_cons_of_isRemapped state remapped]
  refine seen.trans (or_congr_right (not_congr ?_))
  rw [Shadowed]
  constructor
  · rintro ⟨missing, listed, above⟩
    refine ⟨missing, ?_, above, fun _ => ?_⟩
    · rw [split]
      exact List.mem_append_right _ (List.mem_cons_of_mem _ listed)
    · rw [split]
      exact (pair_sublist_iff earlier).mpr listed
  · rintro ⟨missing, _, above, order⟩
    have inside := order remapped
    rw [split] at inside
    exact ⟨missing, (pair_sublist_iff earlier).mp inside, above⟩

/-- The value of a source is seen by its reader exactly if it is null or no placeholder
of the reader stands above it. -/
theorem lookup_destination_iff {evaluator : Evaluator} {evaluation : Evaluation}
    {before after : List FullName} (readsBack : (ofTree tree).ReadsBack)
    (prefixFree : PrefixFree (ofTree tree).names)
    (evaluated : Evaluation.ofAnalysis evaluator (ofTree tree) = .ok evaluation)
    (split : evaluation.schedule.order = before ++ name :: after)
    (member : dependency ∈ (ofTree tree).dependenciesFor name)
    (produced : dependency.source? = some source) (different : source ≠ name) :
    ((run (ofTree tree) evaluator .empty before).scope (ofTree tree) name).lookup
        dependency.destination.path =
      ((run (ofTree tree) evaluator .empty before).tree source.module).lookup source.path ↔
    ((run (ofTree tree) evaluator .empty before).tree source.module).lookup source.path =
        .null ∨
      ¬(ofTree tree).Shadowed name dependency := by
  have scheduled := (Evaluation.eq_of_ofAnalysis evaluated).1
  have earlier := source_mem_before readsBack scheduled split member produced different
  have spares := spares_of_prefixFree prefixFree member produced
  have named : ∀ other ∈ before, other ∈ (ofTree tree).names := fun other listed =>
    mem_names_of_mem_order scheduled (by rw [split]; exact List.mem_append_left _ listed)
  have nonempty : ∀ other ∈ before, other.path ≠ [] := fun other listed =>
    paths_ne_nil tree other (named other listed)
  have isTable : ((run (ofTree tree) evaluator .empty before).tree name.module).IsTable :=
    EvaluationState.isTable_run nonempty (EvaluationState.isTable_empty _)
  have sourceNamed := source_mem_names member produced
  rcases (standsOut_of_prefixFree readsBack prefixFree sourceNamed).exists_at?_stays evaluator
    scheduled sourceNamed split earlier with ⟨part, written, _⟩
  cases remapped : dependency.isRemapped with
  | false =>
      have same := source_eq_destination produced remapped
      have inModule : source.module = name.module := by
        rw [same]
        exact destination_module member
      rw [inModule] at written
      rw [inModule, Value.lookup_of_at? written]
      rw [same] at written
      exact lookup_own_iff spares member produced isTable remapped written
  | true =>
      have vacant := (EvaluationState.blocked_run_empty (ofTree tree) evaluator
        (destination_ne_nil member produced)
        (fun other listed sameModule =>
          (apart_of_isRemapped member produced remapped (named other listed) sameModule).symm)).at?
      rw [← EvaluationState.valueOf_of_source? _ produced (nonempty source earlier)]
      exact lookup_brought_iff spares member
        ((at?_ownScope_destination isTable member produced).trans vacant) remapped

theorem lookup_destination_iff_sampleTree :
    ((run (ofTree sampleTree) Expression.evaluateIn .empty [⟨[], ["local", "size"]⟩]).scope
        (ofTree sampleTree) ⟨[], ["local", "total"]⟩).lookup ["local", "size"] =
      ((run (ofTree sampleTree) Expression.evaluateIn .empty [⟨[], ["local", "size"]⟩]).tree
        []).lookup ["local", "size"] ↔
    ((run (ofTree sampleTree) Expression.evaluateIn .empty [⟨[], ["local", "size"]⟩]).tree
        []).lookup ["local", "size"] = .null ∨
      ¬(ofTree sampleTree).Shadowed ⟨[], ["local", "total"]⟩
        ⟨⟨[], ["local", "size"]⟩, .term ⟨[], ["local", "size"]⟩⟩ :=
  have evaluated := Evaluation.ofAnalysis_of_schedule Expression.evaluateIn schedule_sampleTree
  have split : sampleSchedule.order =
      [⟨[], ["local", "size"]⟩] ++ ⟨[], ["local", "total"]⟩ :: [] := rfl
  have member : ⟨⟨[], ["local", "size"]⟩, .term ⟨[], ["local", "size"]⟩⟩ ∈
      (ofTree sampleTree).dependenciesFor ⟨[], ["local", "total"]⟩ := by decide +kernel
  lookup_destination_iff (by decide +kernel) (by decide +kernel) evaluated split member rfl
    (by decide)

/-- A local, and a resource that refers to it and to the whole of `local`. -/
def shadowText : String :=
  "locals \x7b x = 1 \x7d\n" ++
    "resource \"a\" \"b\" \x7b\nv = local.x\nw = length([local])\n\x7d\n"

/-- The reference to the whole of `local` hides the local from the same term. -/
theorem exists_hidden_value : ∃ tree evaluation,
    ModuleTree.ofText shadowText = .ok tree ∧ (ofTree tree).ReadsBack ∧
    PrefixFree (ofTree tree).names ∧
    Evaluation.ofAnalysis Expression.evaluateIn (ofTree tree) = .ok evaluation ∧
    ∃ before name after dependency source,
      evaluation.schedule.order = before ++ name :: after ∧
      dependency ∈ (ofTree tree).dependenciesFor name ∧ dependency.source? = some source ∧
      source ≠ name ∧
      ((run (ofTree tree) Expression.evaluateIn .empty before).scope (ofTree tree) name).lookup
          dependency.destination.path ≠
        ((run (ofTree tree) Expression.evaluateIn .empty before).tree source.module).lookup
          source.path := by
  rcases ModuleTree.exists_ofText shadowText
      (fun tree =>
        (ofTree tree).ReadsBack && PrefixFree (ofTree tree).names &&
        ((ofTree tree).schedule = .ok ⟨[⟨[], ["local", "x"]⟩, ⟨[], ["a", "b"]⟩], []⟩ : Bool) &&
        (⟨⟨[], ["local", "x"]⟩, .term ⟨[], ["local", "x"]⟩⟩ ∈
          (ofTree tree).dependenciesFor ⟨[], ["a", "b"]⟩ : Bool) &&
        (((run (ofTree tree) Expression.evaluateIn .empty [⟨[], ["local", "x"]⟩]).scope
          (ofTree tree) ⟨[], ["a", "b"]⟩).lookup ["local", "x"]).kind == "null" &&
        (((run (ofTree tree) Expression.evaluateIn .empty [⟨[], ["local", "x"]⟩]).tree
          []).lookup ["local", "x"]).kind == "number")
      (by decide +kernel) with ⟨tree, loaded, checked⟩
  simp only [Bool.and_eq_true, decide_eq_true_eq, beq_iff_eq] at checked
  rcases checked with ⟨⟨⟨⟨⟨readsBack, prefixFree⟩, scheduled⟩, member⟩, hidden⟩, written⟩
  refine ⟨tree, _, loaded, readsBack, prefixFree,
    Evaluation.ofAnalysis_of_schedule Expression.evaluateIn scheduled,
    [⟨[], ["local", "x"]⟩], ⟨[], ["a", "b"]⟩, [],
    ⟨⟨[], ["local", "x"]⟩, .term ⟨[], ["local", "x"]⟩⟩, ⟨[], ["local", "x"]⟩, rfl, member, rfl,
    by decide, ?_⟩
  intro same
  rw [same, written] at hidden
  exact absurd hidden (by decide)

end Analysis

end Groundplan
