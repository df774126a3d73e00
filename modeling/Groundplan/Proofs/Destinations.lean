import Groundplan.Proofs.Grafts
import Groundplan.Proofs.References
/-!
Destinations of the dependencies of one term. When no name is a proper start of
another, a value from a source can only be overlapped by the placeholder of a
reference to something above it.
-/

namespace Groundplan

open Value (Apart)

/-- Whether no name is a proper start of another name of its module. -/
def PrefixFree (names : List FullName) : Prop :=
  ∀ name ∈ names, ∀ other ∈ names, name.module = other.module → name.path <+: other.path →
    name = other

instance (names : List FullName) : Decidable (PrefixFree names) :=
  inferInstanceAs (Decidable (∀ name ∈ names, ∀ other ∈ names, name.module = other.module →
    name.path <+: other.path → name = other))

theorem PrefixFree.apart {names : List FullName} (prefixFree : PrefixFree names)
    {name other : FullName} (named : name ∈ names) (otherNamed : other ∈ names)
    (sameModule : name.module = other.module) (different : name ≠ other) :
    Apart name.path other.path :=
  ⟨fun start => different (prefixFree name named other otherNamed sameModule start),
    fun start => different (prefixFree other otherNamed name named sameModule.symm start).symm⟩

/-- A missing reference whose destination is a proper start of that of another
dependency. -/
structure Dependency.StandsAbove (missing dependency : Dependency) : Prop where
  unproduced : missing.source? = none
  start : missing.destination.path <+: dependency.destination.path
  proper : missing.destination.path ≠ dependency.destination.path

namespace Resolution

variable {names : List FullName} {wanted other : FullName} {dependency dependent : Dependency}
  {source : FullName}

/-! ## Values from other places -/

theorem eq_of_hasStart (resolution : Resolution names wanted dependency)
    (hasStart : HasStart names wanted) :
    ∃ found, IsLongestStart names wanted found ∧ dependency = ⟨found, .term found⟩ := by
  cases resolution with
  | term longest => exact ⟨_, longest, rfl⟩
  | output noTerm => exact absurd hasStart noTerm
  | input noTerm => exact absurd hasStart noTerm
  | definition noTerm => exact absurd hasStart noTerm
  | missing noTerm => exact absurd hasStart noTerm

/-- The paths that values from other places have in a module. -/
inductive CarriedPath : LocalName → Prop where
  | output (call label : String) : CarriedPath ["module", call, label]
  | var (declared : String) : CarriedPath ["var", declared]

/-- No term has a path that properly extends that of a carried value. -/
theorem CarriedPath.eq_of_prefix {path longer : LocalName} (carried : CarriedPath path)
    (shape : TermPath longer) (start : path <+: longer) : path = longer := by
  cases carried with
  | output call label =>
      rcases start with ⟨rest, same⟩
      subst same
      rcases shape.head_of_three with impossible | impossible
      · simp at impossible
      · simp at impossible
  | var declared =>
      rcases start with ⟨rest, same⟩
      subst same
      cases rest with
      | nil => rfl
      | cons next others =>
          rcases shape.head_of_three with impossible | impossible
          · simp at impossible
          · simp at impossible

theorem CarriedPath.exists_label {call : String} {tail : LocalName}
    (carried : CarriedPath ("module" :: call :: tail)) : ∃ label, tail = [label] := by
  generalize same : "module" :: call :: tail = path at carried
  cases carried with
  | output _ label => exact ⟨label, (by simpa using same : _ ∧ _).2⟩
  | var => simp at same

section Shapes

variable (shapes : ∀ name ∈ names, TermPath name.path)
include shapes

theorem carriedPath (resolution : Resolution names wanted dependency)
    (produced : dependency.source? = some source) (noTerm : ¬HasStart names wanted) :
    CarriedPath dependency.destination.path := by
  cases resolution with
  | term longest => exact absurd longest.hasStart noTerm
  | @output output found _ rewritten longest =>
      rcases output_destination (fun name named => (shapes name named).ne_nil) rewritten longest
        with ⟨call, tail, atPath, _, destination, _⟩
      have shape := shapes found longest.named
      rw [atPath] at shape
      rw [destination]
      generalize same : "output" :: tail = path at shape
      cases shape with
      | pair _ label => cases same; exact .output call label
      | data => simp at same
      | input => simp at same
  | input _ rewritten =>
      rcases FullName.asVariable?_eq_some rewritten with ⟨declared, trailing, _, same⟩
      subst same
      exact .var declared
  | definition _ rewritten =>
      rcases FullName.asVariable?_eq_some rewritten with ⟨declared, trailing, _, same⟩
      subst same
      exact .var declared
  | missing => cases produced

/-- A value that comes from another place stands apart from all terms. -/
theorem apart_of_noTerm (resolution : Resolution names wanted dependency)
    (produced : dependency.source? = some source) (noTerm : ¬HasStart names wanted)
    {name : FullName} (named : name ∈ names) (sameModule : name.module = wanted.module) :
    Apart dependency.destination.path name.path := by
  have start := resolution.destination_prefix fun name named => (shapes name named).ne_nil
  have notBelow : ¬name.path <+: dependency.destination.path := fun below =>
    noTerm ⟨name, named, sameModule, below.trans start⟩
  refine ⟨?_, notBelow⟩
  intro above
  have carried := resolution.carriedPath shapes produced noTerm
  have same := carried.eq_of_prefix (shapes name named) above
  exact notBelow (same ▸ List.prefix_rfl)

theorem noTerm_of_prefix (resolution : Resolution names wanted dependency)
    (produced : dependency.source? = some source) (noTerm : ¬HasStart names wanted)
    (sameModule : other.module = wanted.module)
    (start : dependency.destination.path <+: other.path) : ¬HasStart names other := by
  rintro ⟨name, named, inModule, below⟩
  have apart := resolution.apart_of_noTerm shapes produced noTerm named (inModule.trans sameModule)
  rcases List.prefix_or_prefix_of_prefix start below with above | above
  · exact apart.1 above
  · exact apart.2 above

end Shapes

/-- What a reference to a variable gets when it is not to a term. -/
theorem variable_cases (resolution : Resolution names wanted dependency)
    (noTerm : ¬HasStart names wanted) {parts : FullName.VariableParts}
    (split : wanted.asVariable? = some parts) :
    (∃ input, parts.reference.asModuleInput? = some input ∧ input ∈ names ∧
      dependency = ⟨parts.reference, .term input⟩) ∨
    (∀ input, parts.reference.asModuleInput? = some input → input ∉ names) ∧
      (parts.definition ∈ names → dependency = ⟨parts.reference, .term parts.definition⟩) := by
  have noOutput : wanted.asModuleOutput? = none := by
    rcases FullName.asVariable?_eq_some split with ⟨declared, trailing, shape, _⟩
    simp [FullName.asModuleOutput?, shape]
  cases resolution with
  | term longest => exact absurd longest.hasStart noTerm
  | output _ rewritten => rw [noOutput] at rewritten; cases rewritten
  | @input given input _ rewritten called named =>
      cases split.symm.trans rewritten
      exact Or.inl ⟨input, called, named, rfl⟩
  | definition _ rewritten noInput _ =>
      cases split.symm.trans rewritten
      exact Or.inr ⟨noInput, fun _ => rfl⟩
  | missing _ _ noInput noDefinition =>
      exact Or.inr ⟨noInput parts split, fun named => absurd named (noDefinition parts split)⟩

/-- What a reference to an output of a called module gets when it is not to a term. -/
theorem output_cases (resolution : Resolution names wanted dependency)
    (noTerm : ¬HasStart names wanted) {output : FullName}
    (rewritten : wanted.asModuleOutput? = some output) (hasStart : HasStart names output) :
    ∃ found, IsLongestStart names output found ∧
      dependency = ⟨⟨wanted.module, wanted.path.take 2 ++ found.path.drop 1⟩, .term found⟩ := by
  have noVariable : wanted.asVariable? = none := by
    rcases FullName.asModuleOutput?_eq_some rewritten with ⟨call, first, rest, shape, _⟩
    simp [FullName.asVariable?, shape]
  cases resolution with
  | term longest => exact absurd longest.hasStart noTerm
  | @output given found _ same longest =>
      cases rewritten.symm.trans same
      exact ⟨found, longest, rfl⟩
  | input _ split => rw [noVariable] at split; cases split
  | definition _ split => rw [noVariable] at split; cases split
  | missing _ noOutput => exact absurd hasStart (noOutput output rewritten)

/-! ## References below a destination -/

private theorem asVariable?_of_prefix {parts : FullName.VariableParts}
    (split : wanted.asVariable? = some parts) (sameModule : other.module = wanted.module)
    (start : parts.reference.path <+: other.path) :
    ∃ trailing, other.asVariable? = some ⟨parts.definition, parts.reference, trailing⟩ := by
  rcases FullName.asVariable?_eq_some split with ⟨declared, trailing, _, same⟩
  subst same
  rcases start with ⟨rest, shape⟩
  exact ⟨rest, by simp [FullName.asVariable?, ← shape, sameModule]⟩

private theorem asModuleOutput?_of_prefix {call label : String}
    (start : ["module", call, label] <+: other.path) :
    ∃ rest, other.path = "module" :: call :: label :: rest ∧
      other.asModuleOutput? = some ⟨other.module ++ [call], "output" :: label :: rest⟩ := by
  rcases start with ⟨rest, shape⟩
  exact ⟨rest, shape.symm, by simp [FullName.asModuleOutput?, ← shape]⟩

variable (shapes : ∀ name ∈ names, TermPath name.path) (prefixFree : PrefixFree names)
include shapes prefixFree

private theorem eq_of_prefix_output {output found : FullName} (noTerm : ¬HasStart names wanted)
    (rewritten : wanted.asModuleOutput? = some output)
    (longest : IsLongestStart names output found) (second : Resolution names other dependent)
    (sameModule : other.module = wanted.module)
    (start : wanted.path.take 2 ++ found.path.drop 1 <+: other.path) :
    dependent = ⟨⟨wanted.module, wanted.path.take 2 ++ found.path.drop 1⟩, .term found⟩ := by
  have nonempty : ∀ name ∈ names, name.path ≠ [] := fun name named => (shapes name named).ne_nil
  have first : Resolution names wanted
      ⟨⟨wanted.module, wanted.path.take 2 ++ found.path.drop 1⟩, .term found⟩ :=
    .output noTerm rewritten longest
  have otherNoTerm := first.noTerm_of_prefix shapes rfl noTerm sameModule start
  have carried := first.carriedPath shapes rfl noTerm
  rcases output_destination nonempty rewritten longest with
    ⟨call, tail, atPath, inModule, destination, _⟩
  rw [destination] at start carried
  rcases carried.exists_label with ⟨label, single⟩
  subst single
  rcases asModuleOutput?_of_prefix start with ⟨rest, shape, otherRewritten⟩
  have below : found.path <+: "output" :: label :: rest := by rw [atPath]; simp
  have foundModule : found.module = other.module ++ [call] := by rw [inModule, sameModule]
  rcases second.output_cases otherNoTerm otherRewritten
    ⟨found, longest.named, foundModule, below⟩ with ⟨beyond, longer, same⟩
  have equal : found = beyond :=
    prefixFree found longest.named beyond longer.named
      (foundModule.trans longer.sameModule.symm)
      (longer.longest found longest.named foundModule below)
  subst equal
  rw [same, sameModule, destination, shape, atPath]
  rfl

/-- A reference below the destination of a value from a source gets that value. -/
theorem eq_of_prefix (first : Resolution names wanted dependency)
    (produced : dependency.source? = some source) (second : Resolution names other dependent)
    (sameModule : other.module = wanted.module)
    (start : dependency.destination.path <+: other.path) : dependent = dependency := by
  by_cases hasStart : HasStart names wanted
  · rcases first.eq_of_hasStart hasStart with ⟨found, longest, same⟩
    subst same
    have inModule := longest.sameModule.trans sameModule.symm
    rcases second.eq_of_hasStart ⟨found, longest.named, inModule, start⟩ with
      ⟨beyond, longer, same⟩
    have below := longer.longest found longest.named inModule start
    have equal := prefixFree found longest.named beyond longer.named
      (inModule.trans longer.sameModule.symm) below
    rw [same, equal]
  · have otherNoTerm := first.noTerm_of_prefix shapes produced hasStart sameModule start
    cases first with
    | term longest => exact absurd longest.hasStart hasStart
    | output _ rewritten longest =>
        exact eq_of_prefix_output shapes prefixFree hasStart rewritten longest second sameModule
          start
    | @input parts input _ rewritten called named =>
        rcases asVariable?_of_prefix rewritten sameModule start with ⟨trailing, split⟩
        rcases second.variable_cases otherNoTerm split with
          ⟨given, same, _, equal⟩ | ⟨noInput, _⟩
        · cases called.symm.trans same
          exact equal
        · exact absurd named (noInput input called)
    | @definition parts _ rewritten noInput named =>
        rcases asVariable?_of_prefix rewritten sameModule start with ⟨trailing, split⟩
        rcases second.variable_cases otherNoTerm split with
          ⟨given, same, givenNamed, _⟩ | ⟨_, defined⟩
        · exact absurd givenNamed (noInput given same)
        · exact defined named
    | missing => cases produced

/-- Two dependencies with sources stand at the same place or apart. -/
theorem eq_or_apart (first : Resolution names wanted dependency)
    (produced : dependency.source? = some source) (second : Resolution names other dependent)
    (sameModule : other.module = wanted.module) :
    dependent = dependency ∨ Apart dependent.destination.path dependency.destination.path ∨
      dependent.StandsAbove dependency := by
  have nonempty : ∀ name ∈ names, name.path ≠ [] := fun name named => (shapes name named).ne_nil
  by_cases same : dependent = dependency
  · exact Or.inl same
  · right
    have notBelow : ¬dependency.destination.path <+: dependent.destination.path := fun start =>
      same (first.eq_of_prefix shapes prefixFree produced second sameModule
        (start.trans (second.destination_prefix nonempty)))
    by_cases above : dependent.destination.path <+: dependency.destination.path
    · right
      refine ⟨?_, above, fun equal => notBelow (equal ▸ List.prefix_rfl)⟩
      cases dependentSource : dependent.source? with
      | none => rfl
      | some given =>
          have equal := second.eq_of_prefix shapes prefixFree dependentSource first
            sameModule.symm (above.trans (first.destination_prefix nonempty))
          exact absurd equal.symm same
    · exact Or.inl ⟨above, notBelow⟩

end Resolution

/-! ## The dependencies of a term of a tree -/

namespace Analysis

variable {tree : ModuleTree} {name source : FullName} {dependency dependent : Dependency}

theorem shapes (tree : ModuleTree) : ∀ name ∈ (ofTree tree).names, TermPath name.path :=
  fun _ named => termPath_of_mem_names tree named

theorem destination_ne_nil (member : dependency ∈ (ofTree tree).dependenciesFor name)
    (produced : dependency.source? = some source) :
    dependency.destination.path ≠ [] := by
  rcases exists_wanted member with ⟨wanted, _, resolution, _⟩
  by_cases hasStart : HasStart (ofTree tree).names wanted
  · rcases resolution.eq_of_hasStart hasStart with ⟨found, longest, same⟩
    rw [same]
    exact paths_ne_nil tree found longest.named
  · intro empty
    have carried := resolution.carriedPath (shapes tree) produced hasStart
    rw [empty] at carried
    cases carried

/-- The first key of a destination is not a fixed one. -/
theorem exists_destination_head (member : dependency ∈ (ofTree tree).dependenciesFor name)
    (produced : dependency.source? = some source) :
    ∃ key rest, dependency.destination.path = key :: rest ∧
      key ∉ Dependency.contextRoots := by
  rcases exists_wanted member with ⟨wanted, _, resolution, outside⟩
  have start := resolution.destination_prefix (paths_ne_nil tree)
  cases destination : dependency.destination.path with
  | nil => exact absurd destination (destination_ne_nil member produced)
  | cons key rest =>
      rw [destination] at start
      rcases start with ⟨others, same⟩
      exact ⟨key, rest, rfl, outside key (rest ++ others) same.symm⟩

/-- Whether every other dependency of a term stands apart from a given one, or is a
missing one above it. -/
def Spares (analysis : Analysis) (name : FullName) (dependency : Dependency) : Prop :=
  ∀ dependent ∈ analysis.dependenciesFor name, dependent ≠ dependency →
    Apart dependent.destination.path dependency.destination.path ∨
      dependent.StandsAbove dependency

/-- The names that count are those that the dependencies of the term follow from. -/
theorem spares_of_resolution {analysis : Analysis} {names : List FullName}
    (shapes : ∀ given ∈ names, TermPath given.path) (prefixFree : PrefixFree names)
    (resolved : ∀ given ∈ analysis.dependenciesFor name, ∃ wanted : FullName,
      wanted.module = name.module ∧ Resolution names wanted given)
    (member : dependency ∈ analysis.dependenciesFor name)
    (produced : dependency.source? = some source) : analysis.Spares name dependency := by
  intro dependent otherMember different
  rcases resolved dependency member with ⟨wanted, inModule, resolution⟩
  rcases resolved dependent otherMember with ⟨other, otherModule, otherResolution⟩
  have cases := resolution.eq_or_apart shapes prefixFree produced otherResolution
    (otherModule.trans inModule.symm)
  exact cases.resolve_left different

theorem spares_of_prefixFree (prefixFree : PrefixFree (ofTree tree).names)
    (member : dependency ∈ (ofTree tree).dependenciesFor name)
    (produced : dependency.source? = some source) : (ofTree tree).Spares name dependency :=
  spares_of_resolution (shapes tree) prefixFree
    (fun _ listed =>
      have ⟨wanted, inModule, resolution, _⟩ := exists_wanted listed
      ⟨wanted, inModule, resolution⟩)
    member produced

/-- A value that is brought along stands apart from all terms of the module. -/
theorem apart_of_isRemapped (member : dependency ∈ (ofTree tree).dependenciesFor name)
    (produced : dependency.source? = some source)
    (remapped : dependency.isRemapped = true) {other : FullName}
    (named : other ∈ (ofTree tree).names) (sameModule : other.module = name.module) :
    Apart dependency.destination.path other.path := by
  rcases exists_wanted member with ⟨wanted, inModule, resolution, _⟩
  refine resolution.apart_of_noTerm (shapes tree) produced ?_ named
    (sameModule.trans inModule.symm)
  intro hasStart
  rcases resolution.eq_of_hasStart hasStart with ⟨found, _, same⟩
  rw [same] at remapped
  simp [Dependency.isRemapped, Dependency.source?] at remapped

theorem destination_module (member : dependency ∈ (ofTree tree).dependenciesFor name) :
    dependency.destination.module = name.module := by
  rcases exists_wanted member with ⟨wanted, inModule, resolution, _⟩
  exact resolution.sameModule.trans inModule

/-- A dependency that is not remapped is on a term of the module itself. -/
theorem source_eq_destination (produced : dependency.source? = some source)
    (own : dependency.isRemapped = false) : source = dependency.destination := by
  rw [Dependency.isRemapped, produced, bne_eq_false_iff_eq] at own
  exact Option.some.inj own

end Analysis

end Groundplan
