import Groundplan.Proofs.Alignment
import Groundplan.Proofs.Modules
/-!
Calls that two trees share. A call loads the same modules in both and passes the same
arguments; the rest of the trees can differ. What the modules below the call read is
resolved alike, and leads to terms below the call or to its inputs.
-/

namespace Groundplan

namespace FullName

/-- A name of a term below a call, or of an input of the call. -/
inductive Inner (caller : ModuleName) (call : String) : FullName → Prop where
  | below {name : FullName} (start : caller ++ [call] <+: name.module) : Inner caller call name
  | input (argument : String) : Inner caller call ⟨caller, ["input", call, argument]⟩

variable {caller : ModuleName} {call : String}

theorem inner_iff {name : FullName} :
    Inner caller call name ↔ caller ++ [call] <+: name.module ∨
      name = ⟨caller, ["input", call, name.path.getLastD ""]⟩ := by
  constructor
  · intro inner
    cases inner with
    | below start => exact .inl start
    | input argument => exact .inr rfl
  · rintro (start | same)
    · exact .below start
    · exact same ▸ .input _

instance (name : FullName) : Decidable (Inner caller call name) :=
  decidable_of_iff _ inner_iff.symm

/-- A variable of a module below a call is an input below the call, or of the call itself. -/
theorem Inner.of_asModuleInput? {module : ModuleName} (below : caller ++ [call] <+: module)
    {declared : String} {input : FullName}
    (passed : asModuleInput? ⟨module, ["var", declared]⟩ = some input) :
    Inner caller call input := by
  rcases asModuleInput?_eq_some passed with ⟨last, _, _, shape, isLast, same⟩
  cases shape
  rcases below with ⟨rest, inside⟩
  subst inside
  rcases List.eq_nil_or_concat rest with none | ⟨front, final, split⟩
  · subst none
    simp only [List.append_nil, List.getLast?_append, List.getLast?_singleton, Option.some_or,
      Option.some.injEq] at isLast
    subst isLast
    rw [same]
    simpa using Inner.input declared
  · subst split
    refine .below ?_
    rw [same]
    simp [List.concat_eq_append, ← List.append_assoc]

end FullName

open FullName (Inner)

/-- Whether a call is the same in two trees: it loads modules with the same terms, each in
the same directory as seen from the root, and passes the same arguments. -/
structure SharesCall (left right : ModuleTree) (caller : ModuleName) (call : String) : Prop where
  terms : ∀ module, caller ++ [call] <+: module →
    (left.at? module).map (fun tree => tree.ownTerms module) =
      (right.at? module).map fun tree => tree.ownTerms module
  directories : ∀ module, caller ++ [call] <+: module →
    EvaluationState.modulePath (Analysis.ofTree left) module =
      EvaluationState.modulePath (Analysis.ofTree right) module
  inputs : ∀ argument, ⟨caller, ["input", call, argument]⟩ ∈ (Analysis.ofTree left).names ↔
    ⟨caller, ["input", call, argument]⟩ ∈ (Analysis.ofTree right).names

namespace SharesCall

open Analysis (ofTree)

variable {left right : ModuleTree} {caller : ModuleName} {call : String}

/-- A module with the same called modules below it is the same. -/
theorem of_at?_eq (same : left.at? (caller ++ [call]) = right.at? (caller ++ [call]))
    (root : left.site.directory = right.site.directory)
    (inputs : ∀ argument, ⟨caller, ["input", call, argument]⟩ ∈ (ofTree left).names ↔
      ⟨caller, ["input", call, argument]⟩ ∈ (ofTree right).names) :
    SharesCall left right caller call := by
  have below : ∀ module, caller ++ [call] <+: module → left.at? module = right.at? module := by
    rintro module ⟨rest, inside⟩
    rw [← inside, ModuleTree.at?_append left (caller ++ [call]),
      ModuleTree.at?_append right (caller ++ [call]), same]
  refine ⟨fun module start => by rw [below module start], fun module start => ?_, inputs⟩
  rw [EvaluationState.modulePath, EvaluationState.modulePath]
  simp only [Analysis.find?_modules, below module start, ModuleTree.at?_nil, Option.map_some]
  cases right.at? module with
  | none => rfl
  | some module =>
      exact congrArg (fun directory => EvaluationState.relativeDirectory directory
        module.site.directory) root

variable (shares : SharesCall left right caller call)
include shares

/-! ## Terms below the call -/

theorem find?_terms_eq {name : FullName} (below : caller ++ [call] <+: name.module) :
    Table.find? name (ofTree left).terms = Table.find? name (ofTree right).terms := by
  have same := shares.terms name.module below
  rw [Analysis.find?_terms, Analysis.find?_terms]
  cases inLeft : left.at? name.module with
  | none =>
      rw [inLeft, Option.map_none, eq_comm, Option.map_eq_none_iff] at same
      rw [same]
  | some module =>
      rw [inLeft, Option.map_some, eq_comm, Option.map_eq_some_iff] at same
      rcases same with ⟨other, inRight, terms⟩
      rw [inRight, Option.bind_some, Option.bind_some, terms]

theorem mem_names_iff {name : FullName} (inner : Inner caller call name) :
    name ∈ (ofTree left).names ↔ name ∈ (ofTree right).names := by
  cases inner with
  | input argument => exact shares.inputs argument
  | below start =>
      rw [Analysis.names, Analysis.names, Table.mem_keys_iff_find?, Table.mem_keys_iff_find?,
        shares.find?_terms_eq start]

/-! ## References below the call -/

theorem resolve?_eq {module : ModuleName} (below : caller ++ [call] <+: module)
    (reference : Reference) :
    Dependency.resolve? (ofTree left).terms module reference =
      Dependency.resolve? (ofTree right).terms module reference := by
  apply Dependency.resolve?_congr
  · exact fun path => shares.find?_terms_eq below
  · exact fun next path => shares.find?_terms_eq (below.trans (List.prefix_append module [next]))
  · intro declared input passed
    have same := shares.mem_names_iff (Inner.of_asModuleInput? below passed)
    rwa [Bool.eq_iff_iff, Table.has_iff_mem_keys, Table.has_iff_mem_keys]

theorem dependenciesFor_eq {name : FullName} (below : caller ++ [call] <+: name.module) :
    (ofTree right).dependenciesFor name = (ofTree left).dependenciesFor name := by
  cases found : Table.find? name (ofTree left).terms with
  | none =>
      have unknown : name ∉ Table.keys (ofTree left).dependencies := by
        rw [Analysis.keys_dependencies]
        exact Table.find?_eq_none_iff.mp found
      have unknownRight : name ∉ Table.keys (ofTree right).dependencies := by
        rw [Analysis.keys_dependencies, ← shares.mem_names_iff (.below below)]
        exact Table.find?_eq_none_iff.mp found
      rw [Analysis.dependenciesFor, Analysis.dependenciesFor, Table.find?_eq_none_iff.mpr unknown,
        Table.find?_eq_none_iff.mpr unknownRight]
  | some term =>
      have foundRight := (shares.find?_terms_eq below).symm.trans found
      rw [Analysis.dependenciesFor_eq left found, Analysis.dependenciesFor_eq right foundRight,
        Dependency.ofTerm, Dependency.ofTerm]
      simp only [funext (shares.resolve?_eq below)]

end SharesCall

namespace Analysis

variable {tree : ModuleTree} {caller : ModuleName} {call : String} {name source : FullName}
  {dependency : Dependency}

/-- What a term below a call reads follows from the terms below the call and its inputs. -/
theorem exists_inner_wanted (below : caller ++ [call] <+: name.module)
    (member : dependency ∈ (ofTree tree).dependenciesFor name) :
    ∃ wanted : FullName, wanted.module = name.module ∧
      Resolution ((ofTree tree).names.filter fun given => Inner caller call given) wanted
        dependency := by
  rcases exists_wanted member with ⟨wanted, inModule, resolution, _⟩
  refine ⟨wanted, inModule, resolution.filter ?_ ?_ ?_⟩
  · intro given _ sameModule
    exact decide_eq_true (.below (by rwa [sameModule, inModule]))
  · intro output rewritten given _ sameModule
    rcases FullName.asModuleOutput?_eq_some rewritten with ⟨next, _, _, _, same⟩
    apply decide_eq_true
    apply Inner.below
    rw [sameModule, same, inModule]
    exact below.trans (List.prefix_append _ _)
  · intro declared input passed
    rw [inModule] at passed
    exact decide_eq_true (Inner.of_asModuleInput? below passed)

theorem inner_of_source (below : caller ++ [call] <+: name.module)
    (member : dependency ∈ (ofTree tree).dependenciesFor name)
    (produced : dependency.source? = some source) : Inner caller call source := by
  rcases exists_inner_wanted below member with ⟨wanted, _, resolution⟩
  have named := resolution.source_named produced
  exact of_decide_eq_true (List.mem_filter.mp named).2

end Analysis

end Groundplan
