import Groundplan.Proofs.Names
import Groundplan.Proofs.Resolution
/-!
References of a whole tree. Every reference of every term has its dependency, no
dependency comes from anywhere else, and the missing terms are exactly the
references that lead to nothing.
-/

namespace Groundplan

/-! ## The dependencies of a term -/

namespace Dependency

private theorem mem_foldl_once {dependencies taken : List Dependency} {dependency : Dependency} :
    dependency ∈ dependencies.foldl
        (fun taken dependency =>
          if taken.contains dependency then taken else taken ++ [dependency]) taken ↔
      dependency ∈ taken ∨ dependency ∈ dependencies := by
  induction dependencies generalizing taken with
  | nil => simp
  | cons first rest induction =>
      rw [List.foldl_cons, induction]
      by_cases known : first ∈ taken
      · simp only [List.contains_iff_mem, known, if_true, List.mem_cons]
        constructor
        · exact Or.imp id Or.inr
        · rintro (member | same | member)
          · exact Or.inl member
          · exact Or.inl (same ▸ known)
          · exact Or.inr member
      · simp [known, or_assoc]

private theorem nodup_foldl_once (dependencies : List Dependency) {taken : List Dependency}
    (nodup : taken.Nodup) :
    (dependencies.foldl
      (fun taken dependency =>
        if taken.contains dependency then taken else taken ++ [dependency]) taken).Nodup := by
  induction dependencies generalizing taken with
  | nil => exact nodup
  | cons first rest induction =>
      rw [List.foldl_cons]
      apply induction
      split
      · exact nodup
      · next fresh =>
          have absent : first ∉ taken := by simpa using fresh
          exact List.nodup_append.mpr ⟨nodup, List.pairwise_singleton _ _, by
            intro left inTaken right inSingle same
            rw [List.mem_singleton.mp inSingle] at same
            exact absent (same ▸ inTaken)⟩

theorem mem_ofTerm {terms : NameTable Term} {module : ModuleName} {term : Term}
    {dependency : Dependency} :
    dependency ∈ ofTerm terms module term ↔
      ∃ reference ∈ term.dependencies, resolve? terms module reference = some dependency := by
  rw [ofTerm, mem_foldl_once, List.mem_filterMap]
  simp

theorem nodup_ofTerm (terms : NameTable Term) (module : ModuleName) (term : Term) :
    (ofTerm terms module term).Nodup :=
  nodup_foldl_once _ List.nodup_nil

end Dependency

namespace Analysis

variable {tree : ModuleTree}

theorem paths_ne_nil (tree : ModuleTree) : ∀ name ∈ (ofTree tree).names, name.path ≠ [] :=
  fun _ named => (termPath_of_mem_names tree named).ne_nil

theorem exists_term {name : FullName} (named : name ∈ (ofTree tree).names) :
    ∃ term, Table.find? name (ofTree tree).terms = some term :=
  Table.exists_find?_of_mem_keys named

theorem exists_term_of_mem {name : FullName} {dependency : Dependency}
    (member : dependency ∈ (ofTree tree).dependenciesFor name) :
    ∃ term, Table.find? name (ofTree tree).terms = some term := by
  apply exists_term
  rw [← keys_dependencies]
  cases found : Table.find? name (ofTree tree).dependencies with
  | none => simp [dependenciesFor, found] at member
  | some dependencies => exact Table.mem_keys_iff_find?.mpr ⟨dependencies, found⟩

/-- A dependency of a term is the resolution of one of its references. -/
theorem exists_reference {name : FullName} {term : Term}
    (found : Table.find? name (ofTree tree).terms = some term) {dependency : Dependency}
    (member : dependency ∈ (ofTree tree).dependenciesFor name) :
    ∃ reference ∈ term.dependencies,
      Dependency.resolve? (ofTree tree).terms name.module reference = some dependency := by
  rw [dependenciesFor_eq tree found] at member
  exact Dependency.mem_ofTerm.mp member

theorem mem_dependenciesFor {name : FullName} {term : Term}
    (found : Table.find? name (ofTree tree).terms = some term) {reference : Reference}
    (read : reference ∈ term.dependencies) {dependency : Dependency}
    (resolved : Dependency.resolve? (ofTree tree).terms name.module reference =
      some dependency) :
    dependency ∈ (ofTree tree).dependenciesFor name := by
  rw [dependenciesFor_eq tree found]
  exact Dependency.mem_ofTerm.mpr ⟨reference, read, resolved⟩

/-- A dependency is that of a name whose first key is not a fixed one. -/
theorem exists_wanted {name : FullName} {dependency : Dependency}
    (member : dependency ∈ (ofTree tree).dependenciesFor name) :
    ∃ wanted : FullName, wanted.module = name.module ∧
      Resolution (ofTree tree).names wanted dependency ∧
      ∀ key rest, wanted.path = key :: rest → key ∉ Dependency.contextRoots := by
  rcases exists_term_of_mem member with ⟨term, found⟩
  rcases exists_reference found member with ⟨reference, _, resolved⟩
  refine ⟨Dependency.target name.module reference, rfl,
    Dependency.resolution_of_resolve? (paths_ne_nil tree) resolved, ?_⟩
  intro key rest shape
  have outside := Dependency.not_mem_contextRoots_of_resolve? resolved
  rcases Accessor.eq_of_splitKeys shape with ⟨others, same, _⟩
  rw [Reference.root, same] at outside
  exact outside

theorem source_mem_names {name source : FullName} {dependency : Dependency}
    (member : dependency ∈ (ofTree tree).dependenciesFor name)
    (produced : dependency.source? = some source) : source ∈ (ofTree tree).names := by
  rcases exists_wanted member with ⟨_, _, resolution, _⟩
  exact resolution.source_named produced

/-! ## Missing terms -/

private theorem mem_foldl_missing {dependencies : List Dependency} {taken : List String}
    {text : String} :
    text ∈ dependencies.foldl
        (fun taken dependency =>
          if dependency.source?.isNone then Table.insertKey dependency.destination.text taken
          else taken) taken ↔
      text ∈ taken ∨
        ∃ dependency ∈ dependencies, dependency.source? = none ∧
          dependency.destination.text = text := by
  induction dependencies generalizing taken with
  | nil => simp
  | cons first rest induction =>
      rw [List.foldl_cons, induction]
      cases produced : first.source? with
      | some source => simp [produced]
      | none =>
          simp only [Option.isNone_none, if_true, Table.mem_insertKey, List.mem_cons,
            exists_eq_or_imp, produced, true_and]
          rw [eq_comm (a := text), or_assoc, or_left_comm]

theorem mem_missingTerms {analysis : Analysis} {text : String} :
    text ∈ analysis.missingTerms ↔
      ∃ entry ∈ analysis.dependencies, ∃ dependency ∈ entry.2,
        dependency.source? = none ∧ dependency.destination.text = text := by
  rw [missingTerms, mem_foldl_missing]
  simp only [List.not_mem_nil, false_or, List.mem_flatMap]
  constructor
  · rintro ⟨dependency, ⟨entry, listed, member⟩, missing⟩
    exact ⟨entry, listed, dependency, member, missing⟩
  · rintro ⟨entry, listed, dependency, member, missing⟩
    exact ⟨dependency, ⟨entry, listed, member⟩, missing⟩

private theorem mem_dependenciesOf {terms : NameTable Term} (ordered : Table.Ordered terms)
    {entry : FullName × List Dependency} (member : entry ∈ dependenciesOf terms) :
    ∃ term, Table.find? entry.1 terms = some term ∧
      entry.2 = Dependency.ofTerm terms entry.1.module term := by
  rcases List.mem_map.mp member with ⟨⟨name, term⟩, listed, same⟩
  subst same
  exact ⟨term, ordered.find?_eq_some_iff.mpr listed, rfl⟩

theorem mem_missingTerms_of_mem {name : FullName} {dependency : Dependency}
    (member : dependency ∈ (ofTree tree).dependenciesFor name)
    (unproduced : dependency.source? = none) :
    dependency.destination.text ∈ (ofTree tree).missingTerms := by
  rw [dependenciesFor] at member
  cases found : Table.find? name (ofTree tree).dependencies with
  | none => simp [found] at member
  | some dependencies =>
      rw [found] at member
      exact mem_missingTerms.mpr
        ⟨_, Table.mem_of_find? found, dependency, member, unproduced, rfl⟩

theorem exists_missing_reference {text : String} (missing : text ∈ (ofTree tree).missingTerms) :
    ∃ name term reference dependency,
      Table.find? name (ofTree tree).terms = some term ∧ reference ∈ term.dependencies ∧
        Dependency.resolve? (ofTree tree).terms name.module reference = some dependency ∧
        dependency.source? = none ∧ dependency.destination.text = text := by
  rcases mem_missingTerms.mp missing with
    ⟨⟨name, dependencies⟩, listed, dependency, member, unproduced, printed⟩
  rw [ofTree_dependencies] at listed
  rcases mem_dependenciesOf (ordered_terms tree) listed with ⟨term, found, same⟩
  rw [same] at member
  rcases Dependency.mem_ofTerm.mp member with ⟨reference, read, resolved⟩
  exact ⟨name, term, reference, dependency, found, read, resolved, unproduced, printed⟩

/-! ## All references -/

/-- What a dependency has to be for a reference to `wanted`. -/
structure Accounts (analysis : Analysis) (wanted : FullName) (dependency : Dependency) :
    Prop where
  rule : Resolution analysis.names wanted dependency
  sameModule : dependency.destination.module = wanted.module
  start : dependency.destination.path <+: wanted.path
  named : ∀ source, dependency.source? = some source → source ∈ analysis.names
  longest : ∀ source, dependency.source? = some source → HasStart analysis.names wanted →
    IsLongestStart analysis.names wanted source
  noTerm : dependency.source? = none → ¬HasStart analysis.names wanted
  noOutput : dependency.source? = none →
    ∀ output, wanted.asModuleOutput? = some output → ¬HasStart analysis.names output
  noInput : dependency.source? = none →
    ∀ input, wanted.asModuleInput? = some input → input ∉ analysis.names
  noVariable : dependency.source? = none → ∀ parts, wanted.asVariable? = some parts →
    parts.definition ∉ analysis.names ∧
      ∀ input, parts.reference.asModuleInput? = some input → input ∉ analysis.names
  reported : dependency.source? = none → dependency.destination.text ∈ analysis.missingTerms
  placeholder : dependency.source? = none →
    dependency.destination = wanted ∧ dependency.origin = .placeholder wanted.path.text

/-- An input with more than one key after that of its call would have too long a path. -/
private theorem asModuleInput?_of_mem_names {wanted input : FullName}
    (rewritten : wanted.asModuleInput? = some input) (named : input ∈ (ofTree tree).names) :
    ∃ parts, wanted.asVariable? = some parts ∧
      parts.reference.asModuleInput? = some input := by
  rcases FullName.asModuleInput?_eq_some rewritten with
    ⟨call, declared, trailing, shape, last, same⟩
  subst same
  have bounded := (termPath_of_mem_names tree named).length_le
  have short : trailing = [] := by
    apply List.eq_nil_of_length_eq_zero
    simp only [List.length_cons] at bounded
    omega
  subst short
  refine ⟨⟨⟨wanted.module, ["variable", declared]⟩, ⟨wanted.module, ["var", declared]⟩, []⟩,
    ?_, ?_⟩
  · simp [FullName.asVariable?, shape]
  · simp [FullName.asModuleInput?, last]

private theorem accounts_of_resolution {name wanted : FullName} {dependency : Dependency}
    (member : dependency ∈ (ofTree tree).dependenciesFor name)
    (resolution : Resolution (ofTree tree).names wanted dependency) :
    (ofTree tree).Accounts wanted dependency where
  rule := resolution
  sameModule := resolution.sameModule
  start := resolution.destination_prefix (paths_ne_nil tree)
  named _ produced := resolution.source_named produced
  longest _ produced := resolution.source_longest produced
  noTerm unproduced := by
    cases resolution with
    | missing noTerm => exact noTerm
    | _ => cases unproduced
  noOutput unproduced := by
    cases resolution with
    | missing _ noOutput => exact noOutput
    | _ => cases unproduced
  noInput unproduced := by
    cases resolution with
    | missing _ _ noInput =>
        intro input rewritten named
        rcases asModuleInput?_of_mem_names rewritten named with ⟨parts, split, called⟩
        exact noInput parts split input called named
    | _ => cases unproduced
  noVariable unproduced := by
    cases resolution with
    | missing _ _ noInput noDefinition =>
        exact fun parts split => ⟨noDefinition parts split, noInput parts split⟩
    | _ => cases unproduced
  reported unproduced := mem_missingTerms_of_mem member unproduced
  placeholder unproduced := by
    rw [resolution.eq_missing unproduced]
    exact ⟨rfl, rfl⟩

/-- No reference is dropped and none leads to the wrong term. -/
theorem references_accounted (tree : ModuleTree) :
    (∀ name term, Table.find? name (ofTree tree).terms = some term →
      ∀ reference ∈ term.dependencies, reference.root ∉ Dependency.contextRoots →
        ∃ dependency ∈ (ofTree tree).dependenciesFor name,
          Dependency.resolve? (ofTree tree).terms name.module reference = some dependency ∧
          (ofTree tree).Accounts (Dependency.target name.module reference) dependency) ∧
    (∀ text ∈ (ofTree tree).missingTerms, ∃ name term reference dependency,
      Table.find? name (ofTree tree).terms = some term ∧ reference ∈ term.dependencies ∧
        reference.root ∉ Dependency.contextRoots ∧
        Dependency.resolve? (ofTree tree).terms name.module reference = some dependency ∧
        dependency.source? = none ∧ dependency.destination.text = text) := by
  constructor
  · intro name term found reference read outside
    rcases Dependency.exists_resolve? (ofTree tree).terms name.module outside with
      ⟨dependency, resolved⟩
    have member := mem_dependenciesFor found read resolved
    have resolution := Dependency.resolution_of_resolve? (paths_ne_nil tree) resolved
    exact ⟨dependency, member, resolved, accounts_of_resolution member resolution⟩
  · intro text missing
    rcases exists_missing_reference missing with
      ⟨name, term, reference, dependency, found, read, resolved, unproduced, printed⟩
    exact ⟨name, term, reference, dependency, found, read,
      Dependency.not_mem_contextRoots_of_resolve? resolved, resolved, unproduced, printed⟩

/-- A list of a local and of a variable that nothing declares. -/
def sampleTotal : Expression :=
  .list [.traversal (.read "local") [.member "size", .member "width"],
    .traversal (.read "var") [.member "depth"]]

/-- A module of two locals, one of which reads the other. -/
def sampleTree : ModuleTree :=
  ⟨⟨"/r", ["/r/main.tf"], none⟩,
    { ModuleContent.empty with
      locals := [("size", .object [.named "width" (.number (.ofNat 3))]), ("total", sampleTotal)] },
    [], [], []⟩

theorem references_accounted_sampleTree :
    (∃ dependency ∈ (ofTree sampleTree).dependenciesFor ⟨[], ["local", "total"]⟩,
      Dependency.resolve? (ofTree sampleTree).terms []
        ⟨[.key "local", .key "size", .key "width"], []⟩ = some dependency ∧
      (ofTree sampleTree).Accounts ⟨[], ["local", "size", "width"]⟩ dependency) ∧
    ∃ name term reference dependency,
      Table.find? name (ofTree sampleTree).terms = some term ∧ reference ∈ term.dependencies ∧
        reference.root ∉ Dependency.contextRoots ∧
        Dependency.resolve? (ofTree sampleTree).terms name.module reference =
          some dependency ∧
        dependency.source? = none ∧ dependency.destination.text = "var.depth" :=
  ⟨(references_accounted sampleTree).1 ⟨[], ["local", "total"]⟩ (.ofExpression sampleTotal)
      (by rfl) ⟨[.key "local", .key "size", .key "width"], []⟩ (by decide) (by decide),
    (references_accounted sampleTree).2 "var.depth" (by decide +kernel)⟩

end Analysis

end Groundplan
