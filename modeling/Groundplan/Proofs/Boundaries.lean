import Groundplan.Proofs.Modules
import Groundplan.Proofs.References
/-!
Module boundaries. What a module reads from a module that it calls leads to the output
there, and what a called module reads from a variable leads to the argument of the call,
or to the definition of the variable where no call passes one.
-/

namespace Groundplan

namespace ModuleContent.HasTerm

variable {content : ModuleContent}

/-- Only resources have paths that start with a key of their own choice. -/
theorem exists_resource_of_head {key : String} {rest : LocalName}
    (declares : content.HasTerm (key :: rest))
    (other : key ∉ ["variable", "local", "output", "provider", "input", "data"]) :
    ∃ resource ∈ content.resources, resource.isData = false ∧ resource.resourceType = key := by
  generalize shape : key :: rest = path at declares
  cases declares with
  | @ofResource resource declared =>
      rw [Resource.path] at shape
      cases isData : resource.isData with
      | true =>
          rw [isData] at shape
          exact absurd (by simp [(List.cons.inj shape).1]) other
      | false =>
          rw [isData] at shape
          exact ⟨resource, declared, isData, (List.cons.inj shape).1.symm⟩
  | _ => exact absurd (by simp [(List.cons.inj shape).1]) other

/-- A path of an input is that of an argument of a call of its name. -/
theorem exists_call_of_input {call argument : String}
    (declares : content.HasTerm ["input", call, argument]) :
    ∃ made ∈ content.calls, made.name = call ∧ argument ∈ Table.keys made.arguments := by
  generalize shape : ["input", call, argument] = path at declares
  cases declares with
  | @ofResource resource declared =>
      rw [Resource.path] at shape
      cases isData : resource.isData with
      | true => simp [isData] at shape
      | false => simp [isData] at shape
  | @ofInput made passed member listed =>
      simp only [List.cons.injEq, true_and, and_true] at shape
      exact ⟨made, member, shape.1.symm, shape.2 ▸ listed⟩
  | _ => simp [FullName.providerConfig] at shape

end ModuleContent.HasTerm

namespace ModuleTree

/-- Whether no resource is of a type that is the first key of references across a
module boundary. -/
def NoBoundaryTypes (tree : ModuleTree) : Prop :=
  ∀ chain module, tree.at? chain = some module → ∀ resource ∈ module.content.resources,
    resource.isData = false → resource.resourceType ≠ "var" ∧ resource.resourceType ≠ "module"

theorem noBoundaryTypes_of_names {tree : ModuleTree}
    (plain : ∀ name ∈ (Analysis.ofTree tree).names,
      name.path.head? ≠ some "var" ∧ name.path.head? ≠ some "module") :
    tree.NoBoundaryTypes := by
  intro chain module placed resource declared isManaged
  have named : ⟨chain, resource.path⟩ ∈ (Analysis.ofTree tree).names :=
    Analysis.mem_names_iff.mpr ⟨module, placed, .ofResource declared⟩
  simpa [Resource.path, isManaged] using plain _ named

/-- The tree of a root module and the modules beside it, each a file with its text. -/
def ofTexts (files : List (String × String)) : Except Failure ModuleTree :=
  load (Files.ofList files) [] "/r" .empty

theorem exists_ofTexts (files : List (String × String)) (check : ModuleTree → Bool)
    (checked : (ofTexts files).toOption.any check = true) :
    ∃ tree, ofTexts files = .ok tree ∧ check tree = true :=
  exists_of_check (ofTexts files) check checked

end ModuleTree

namespace Analysis

variable {tree : ModuleTree}

/-- Whether every reference in a module that starts with some keys has the given
dependency. -/
def Wires (analysis : Analysis) (module : ModuleName) (start : LocalName)
    (dependency : Dependency) : Prop :=
  ∀ name term, name.module = module → Table.find? name analysis.terms = some term →
    ∀ reference ∈ term.dependencies, start <+: (Accessor.splitKeys reference.accessor).1 →
      Dependency.resolve? analysis.terms module reference = some dependency ∧
        dependency ∈ analysis.dependenciesFor name

theorem wires_of_resolution {module : ModuleName} {key : String} {rest : LocalName}
    {dependency : Dependency} (outside : key ∉ Dependency.contextRoots)
    (unique : ∀ trailing found,
      Resolution (ofTree tree).names ⟨module, key :: rest ++ trailing⟩ found →
        found = dependency) :
    (ofTree tree).Wires module (key :: rest) dependency := by
  intro name term placed found reference read start
  rcases start with ⟨trailing, keys⟩
  rcases Accessor.eq_of_splitKeys keys.symm with ⟨others, same, _⟩
  have root : reference.root = key := by rw [Reference.root, same]
  rcases Dependency.exists_resolve? (ofTree tree).terms module (root ▸ outside) with
    ⟨given, resolved⟩
  have resolution := Dependency.resolution_of_resolve? (paths_ne_nil tree) resolved
  rw [Dependency.target, ← keys] at resolution
  have isGiven := unique trailing given resolution
  subst isGiven
  exact ⟨resolved, mem_dependenciesFor found read (placed ▸ resolved)⟩

/-- References across a boundary never lead to a term of their own module directly. -/
theorem not_hasStart_of_noBoundaryTypes (plain : tree.NoBoundaryTypes) (module : ModuleName)
    {key : String} (crosses : key = "var" ∨ key = "module") (rest : LocalName) :
    ¬HasStart (ofTree tree).names ⟨module, key :: rest⟩ := by
  rintro ⟨other, named, _, start⟩
  rcases mem_names_iff.mp named with ⟨holder, placed, declares⟩
  cases path : other.path with
  | nil => exact paths_ne_nil tree other named path
  | cons head others =>
      rw [path] at start declares
      rw [(List.cons_prefix_cons.mp start).1] at declares
      have unusual : key ∉ ["variable", "local", "output", "provider", "input", "data"] := by
        rcases crosses with same | same <;> subst same <;> decide
      rcases declares.exists_resource_of_head unusual with ⟨resource, listed, isManaged, typed⟩
      have apart := plain other.module holder placed resource listed isManaged
      rcases crosses with same | same
      · exact apart.1 (typed.trans same)
      · exact apart.2 (typed.trans same)

theorem eq_output_of_longest {module : ModuleName} {output : String} {trailing : LocalName}
    {found : FullName} (named : ⟨module, ["output", output]⟩ ∈ (ofTree tree).names)
    (longest : IsLongestStart (ofTree tree).names ⟨module, "output" :: output :: trailing⟩ found) :
    found = ⟨module, ["output", output]⟩ := by
  have within := longest.longest _ named rfl (by simp)
  have shape := termPath_of_mem_names tree longest.named
  rcases found with ⟨owner, path⟩
  rw [FullName.mk.injEq]
  refine ⟨longest.sameModule, ?_⟩
  dsimp only at within shape
  cases shape with
  | pair => exact (within.eq_of_length rfl).symm
  | data => simp at within
  | input => simp at within

variable {caller : ModuleName} {call : String} {parent child : ModuleTree}

/-- What is read from a called module leads to its output. -/
theorem wires_output (plain : tree.NoBoundaryTypes)
    (placed : tree.at? (caller ++ [call]) = some child) {output : String}
    (declared : output ∈ Table.keys child.content.outputs) :
    (ofTree tree).Wires caller ["module", call, output]
      ⟨⟨caller, ["module", call, output]⟩, .term ⟨caller ++ [call], ["output", output]⟩⟩ := by
  have named : ⟨caller ++ [call], ["output", output]⟩ ∈ (ofTree tree).names :=
    mem_names_iff.mpr ⟨child, placed, .ofOutput declared⟩
  apply wires_of_resolution (by decide)
  intro trailing found resolution
  have noTerm := not_hasStart_of_noBoundaryTypes plain caller (.inr rfl)
    (call :: output :: trailing)
  cases resolution with
  | term longest => exact absurd longest.hasStart noTerm
  | output _ rewritten longest =>
      cases rewritten
      rw [eq_output_of_longest named longest]
      rfl
  | input _ rewritten => cases rewritten
  | definition _ rewritten => cases rewritten
  | missing _ noOutput =>
      exact absurd ⟨_, named, rfl, by simp⟩ (noOutput _ rfl)

/-- What a called module reads from a variable leads to the argument of the call. -/
theorem wires_input (plain : tree.NoBoundaryTypes) (placed : tree.at? caller = some parent)
    {made : ModuleCall} (listed : made ∈ parent.content.calls) {argument : String}
    (passed : argument ∈ Table.keys made.arguments) :
    (ofTree tree).Wires (caller ++ [made.name]) ["var", argument]
      ⟨⟨caller ++ [made.name], ["var", argument]⟩,
        .term ⟨caller, ["input", made.name, argument]⟩⟩ := by
  have named : ⟨caller, ["input", made.name, argument]⟩ ∈ (ofTree tree).names :=
    mem_names_iff.mpr ⟨parent, placed, .ofInput listed passed⟩
  have called : FullName.asModuleInput? ⟨caller ++ [made.name], ["var", argument]⟩ =
      some ⟨caller, ["input", made.name, argument]⟩ := by
    simp [FullName.asModuleInput?]
  apply wires_of_resolution (by decide)
  intro trailing found resolution
  have noTerm := not_hasStart_of_noBoundaryTypes plain (caller ++ [made.name])
    (.inl rfl) (argument :: trailing)
  cases resolution with
  | term longest => exact absurd longest.hasStart noTerm
  | output _ rewritten => cases rewritten
  | input _ rewritten given =>
      cases rewritten
      rw [called] at given
      cases given
      rfl
  | definition _ rewritten noInput =>
      cases rewritten
      exact absurd named (noInput _ called)
  | missing _ _ noInput => exact absurd named (noInput _ rfl _ called)

/-- What a module reads from a variable that no call passes leads to its definition. -/
theorem wires_definition (plain : tree.NoBoundaryTypes) {module : ModuleName}
    (placed : tree.at? module = some child) {name : String}
    (declared : name ∈ Table.keys child.content.defaults)
    (unpassed : ∀ input, FullName.asModuleInput? ⟨module, ["var", name]⟩ = some input →
      input ∉ (ofTree tree).names) :
    (ofTree tree).Wires module ["var", name]
      ⟨⟨module, ["var", name]⟩, .term ⟨module, ["variable", name]⟩⟩ := by
  have named : ⟨module, ["variable", name]⟩ ∈ (ofTree tree).names :=
    mem_names_iff.mpr ⟨child, placed, .ofVariable declared⟩
  apply wires_of_resolution (by decide)
  intro trailing found resolution
  have noTerm := not_hasStart_of_noBoundaryTypes plain module (.inl rfl)
    (name :: trailing)
  cases resolution with
  | term longest => exact absurd longest.hasStart noTerm
  | output _ rewritten => cases rewritten
  | input _ rewritten given isNamed =>
      cases rewritten
      exact absurd isNamed (unpassed _ given)
  | definition _ rewritten =>
      cases rewritten
      rfl
  | missing _ _ _ noDefinition => exact absurd named (noDefinition _ rfl)

theorem input_not_mem_names (placed : tree.at? caller = some parent) {argument : String}
    (unpassed : ∀ made ∈ parent.content.calls, made.name = call →
      argument ∉ Table.keys made.arguments) :
    ⟨caller, ["input", call, argument]⟩ ∉ (ofTree tree).names := by
  intro named
  rcases mem_names_iff.mp named with ⟨holder, found, declares⟩
  rw [placed] at found
  cases found
  rcases declares.exists_call_of_input with ⟨made, listed, same, passed⟩
  exact unpassed made listed same passed

/-- Both sides of every call are wired to each other, and the root module to itself. -/
theorem boundaries_wired (tree : ModuleTree) (plain : tree.NoBoundaryTypes) :
    (∀ caller call parent child, tree.at? caller = some parent →
      tree.at? (caller ++ [call]) = some child →
        (∀ output ∈ Table.keys child.content.outputs,
          (ofTree tree).Wires caller ["module", call, output]
            ⟨⟨caller, ["module", call, output]⟩,
              .term ⟨caller ++ [call], ["output", output]⟩⟩) ∧
        (∀ made ∈ parent.content.calls, made.name = call →
          ∀ argument ∈ Table.keys made.arguments,
            (ofTree tree).Wires (caller ++ [call]) ["var", argument]
              ⟨⟨caller ++ [call], ["var", argument]⟩,
                .term ⟨caller, ["input", call, argument]⟩⟩) ∧
        (∀ name ∈ Table.keys child.content.defaults,
          (∀ made ∈ parent.content.calls, made.name = call →
            name ∉ Table.keys made.arguments) →
          (ofTree tree).Wires (caller ++ [call]) ["var", name]
            ⟨⟨caller ++ [call], ["var", name]⟩,
              .term ⟨caller ++ [call], ["variable", name]⟩⟩)) ∧
    ∀ name ∈ Table.keys tree.content.defaults,
      (ofTree tree).Wires [] ["var", name]
        ⟨⟨[], ["var", name]⟩, .term ⟨[], ["variable", name]⟩⟩ := by
  refine ⟨fun caller call parent child placed inside => ⟨?_, ?_, ?_⟩, ?_⟩
  · intro output declared
    exact wires_output plain inside declared
  · intro made listed same argument passed
    subst same
    exact wires_input plain placed listed passed
  · intro name declared unpassed
    apply wires_definition plain inside declared
    intro input rewritten
    have same : input = ⟨caller, ["input", call, name]⟩ := by
      simpa [FullName.asModuleInput?, eq_comm] using rewritten
    rw [same]
    exact input_not_mem_names placed unpassed
  · intro name declared
    apply wires_definition plain tree.at?_nil declared
    intro input rewritten
    cases rewritten

/-- A module of a variable, an output of it, and a local that reads it. -/
def netModule : ModuleTree :=
  ⟨⟨"/r/net", ["/r/net/main.tf"], none⟩,
    { ModuleContent.empty with
      defaults := [("size", some (.number (.ofNat 1))), ("zone", none)]
      locals := [("area", .list [.traversal (.read "var") [.member "size"],
        .traversal (.read "var") [.member "zone"]])]
      outputs := [("id", .string "net")] },
    [], [], []⟩

/-- A call that passes one of two variables. -/
def netCall : ModuleCall :=
  ⟨"net", some "./net", [("size", .number (.ofNat 3))], none, none, ⟨"/r/main.tf", .start, .start⟩⟩

/-- A module that calls another one and reads its output. -/
def netTree : ModuleTree :=
  ⟨⟨"/r", ["/r/main.tf"], none⟩,
    { ModuleContent.empty with
      locals := [("id", .traversal (.read "module") [.member "net", .member "id"])]
      calls := [netCall] },
    [(netCall, .loaded netModule)], [], []⟩

theorem boundaries_wired_netTree :
    ⟨⟨[], ["module", "net", "id"]⟩, .term ⟨["net"], ["output", "id"]⟩⟩ ∈
        (ofTree netTree).dependenciesFor ⟨[], ["local", "id"]⟩ ∧
      ⟨⟨["net"], ["var", "size"]⟩, .term ⟨[], ["input", "net", "size"]⟩⟩ ∈
        (ofTree netTree).dependenciesFor ⟨["net"], ["local", "area"]⟩ ∧
      ⟨⟨["net"], ["var", "zone"]⟩, .term ⟨["net"], ["variable", "zone"]⟩⟩ ∈
        (ofTree netTree).dependenciesFor ⟨["net"], ["local", "area"]⟩ := by
  have plain : netTree.NoBoundaryTypes :=
    ModuleTree.noBoundaryTypes_of_names (by decide +kernel)
  have wired := (boundaries_wired netTree plain).1 [] "net" netTree netModule rfl rfl
  refine ⟨?_, ?_, ?_⟩
  · exact (wired.1 "id" (by decide) ⟨[], ["local", "id"]⟩ _ rfl rfl
      ⟨[.key "module", .key "net", .key "id"], []⟩ (by decide) (by decide)).2
  · exact (wired.2.1 netCall List.mem_cons_self rfl "size" (by decide) ⟨["net"], ["local", "area"]⟩ _
      rfl rfl ⟨[.key "var", .key "size"], []⟩ (by decide) (by decide)).2
  · exact (wired.2.2 "zone" (by decide) (by decide) ⟨["net"], ["local", "area"]⟩ _
      rfl rfl ⟨[.key "var", .key "zone"], []⟩ (by decide) (by decide)).2

/-- Two calls of one name, of which only the first passes a variable that the module of
the second declares. -/
def twiceCalled : List (String × String) :=
  [("/r/main.tf",
      "module \"x\" \x7b\n source = \"./a\"\n foo = 1\n\x7d\n" ++
        "module \"x\" \x7b\n source = \"./b\"\n bar = 2\n\x7d\n"),
    ("/r/a/main.tf", "variable \"foo\" \x7b\x7d\n"),
    ("/r/b/main.tf",
      "variable \"foo\" \x7b\n default = 5\n\x7d\nvariable \"bar\" \x7b\x7d\n" ++
        "locals \x7b\n f = var.foo\n\x7d\n")]

/-- Whether a call of `x` does not pass the variable `foo` that its module declares. -/
private def leavesOut (call : ModuleCall × CallResult ModuleTree) : Bool :=
  match call.2 with
  | .loaded child =>
      call.1.name == "x" && ("foo" ∈ Table.keys child.content.defaults : Bool) &&
        ("foo" ∉ Table.keys call.1.arguments : Bool)
  | _ => false

/-- Calls of one name share their inputs, so that a call that does not pass a variable
can hide the definition of it all the same. -/
theorem exists_hidden_definition : ∃ tree,
    ModuleTree.ofTexts twiceCalled = .ok tree ∧ tree.NoBoundaryTypes ∧
    ∃ call child name, (call, .loaded child) ∈ tree.calls ∧
      name ∈ Table.keys child.content.defaults ∧ name ∉ Table.keys call.arguments ∧
      ¬(ofTree tree).Wires [call.name] ["var", name]
        ⟨⟨[call.name], ["var", name]⟩, .term ⟨[call.name], ["variable", name]⟩⟩ := by
  rcases ModuleTree.exists_ofTexts twiceCalled
      (fun tree =>
        (∀ name ∈ (ofTree tree).names,
          name.path.head? ≠ some "var" ∧ name.path.head? ≠ some "module" : Bool) &&
        tree.calls.any leavesOut &&
        ((Table.find? ⟨["x"], ["local", "f"]⟩ (ofTree tree).terms).any fun term =>
          ((⟨[.key "var", .key "foo"], []⟩ : Reference) ∈ term.dependencies : Bool)) &&
        (Dependency.resolve? (ofTree tree).terms ["x"] ⟨[.key "var", .key "foo"], []⟩ =
          some ⟨⟨["x"], ["var", "foo"]⟩, .term ⟨[], ["input", "x", "foo"]⟩⟩ : Bool))
      (by decide +kernel) with ⟨tree, loaded, checked⟩
  simp only [Bool.and_eq_true, decide_eq_true_eq, List.any_eq_true, Option.any_eq_true] at checked
  rcases checked with ⟨⟨⟨plain, ⟨call, result⟩, listed, called⟩, term, found, read⟩, resolved⟩
  refine ⟨tree, loaded, ModuleTree.noBoundaryTypes_of_names plain, ?_⟩
  cases result with
  | loaded child =>
      simp only [leavesOut, Bool.and_eq_true, decide_eq_true_eq, beq_iff_eq] at called
      rcases called with ⟨⟨same, declared⟩, unpassed⟩
      refine ⟨call, child, "foo", listed, declared, unpassed, ?_⟩
      rw [same]
      intro wired
      have claimed := (wired ⟨["x"], ["local", "f"]⟩ term rfl found _ read (by decide)).1
      rw [resolved] at claimed
      exact absurd (Option.some.inj claimed) (by decide)
  | _ => cases called

end Analysis

end Groundplan
