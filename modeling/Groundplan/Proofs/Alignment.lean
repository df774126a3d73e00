import Groundplan.Proofs.Scopes
import Groundplan.Proofs.Sightings
/-!
Two states, of one pass or of passes over two trees. A term sees its scopes alike if each
of its sources is the same in both states, as far as it is read, or leads to nothing in either.
-/

namespace Groundplan

open EvaluationState (brought ownScope)
open Value (Apart Blocked Hides)

namespace Value

/-- A graft that is apart from the start of a path, or hides it, does so with the whole path. -/
theorem sparing_of_start {graft : List String × Value} {path longer : List String}
    (start : path <+: longer) (sparing : Apart graft.1 path ∨ Hides graft path) :
    Apart graft.1 longer ∨ Hides graft longer := by
  rcases sparing with apart | hides
  · refine .inl ⟨fun below => ?_, fun above => apart.2 (start.trans above)⟩
    exact (List.prefix_or_prefix_of_prefix below start).elim apart.1 apart.2
  · refine .inr ⟨hides.start.trans start, fun same => ?_, hides.text⟩
    exact hides.proper (hides.start.eq_of_length_le (same ▸ start.length_le))

end Value

namespace Analysis

/-! ## Variables of a module -/

/-- The terms of a module. -/
def moduleTerms (analysis : Analysis) (module : ModuleName) : List Term :=
  (analysis.terms.filter fun entry => entry.1.module = module).map Prod.snd

/-- The names of variables that every scope has or that the terms of a module bind. -/
def reserved (analysis : Analysis) (module : ModuleName) : List String :=
  Dependency.contextRoots ++ (analysis.moduleTerms module).flatMap Term.iterators

/-- The names of the variables that the terms of a module read. -/
def rootsRead (analysis : Analysis) (module : ModuleName) : List String :=
  (analysis.moduleTerms module).flatMap fun term => term.reads.map Reference.root

/-- Whether no variable of a module is taken for the first key of one of its names. -/
structure KeysApart (analysis : Analysis) (module : ModuleName) : Prop where
  unreserved : ∀ name ∈ analysis.names, name.module = module → ∀ key ∈ name.path.head?,
    key ∉ analysis.reserved module
  declared : ∀ name ∈ analysis.names, name.module = module → ∀ key ∈ name.path.head?,
    ∀ read ∈ analysis.rootsRead module, Expression.identifierOf key = read → key = read

/-- Whether moreover no variable of a module is taken for another one. Variables that are
read are identifiers, so this is about names of iterators that are none. -/
structure WellScoped (analysis : Analysis) (module : ModuleName) : Prop
    extends KeysApart analysis module where
  separate : ∀ key ∈ analysis.reserved module ++ analysis.rootsRead module,
    ∀ read ∈ analysis.rootsRead module, Expression.identifierOf key = read → key = read

instance (analysis : Analysis) (module : ModuleName) : Decidable (analysis.WellScoped module) :=
  decidable_of_iff
    ((∀ name ∈ analysis.names, name.module = module → ∀ key ∈ name.path.head?,
        key ∉ analysis.reserved module) ∧
      (∀ name ∈ analysis.names, name.module = module → ∀ key ∈ name.path.head?,
        ∀ read ∈ analysis.rootsRead module, Expression.identifierOf key = read → key = read) ∧
      ∀ key ∈ analysis.reserved module ++ analysis.rootsRead module,
        ∀ read ∈ analysis.rootsRead module, Expression.identifierOf key = read → key = read)
    ⟨fun parts => ⟨⟨parts.1, parts.2.1⟩, parts.2.2⟩,
      fun wellScoped => ⟨wellScoped.unreserved, wellScoped.declared, wellScoped.separate⟩⟩

variable {analysis : Analysis} {name : FullName} {term : Term}

theorem mem_moduleTerms (found : Table.find? name analysis.terms = some term) :
    term ∈ analysis.moduleTerms name.module :=
  List.mem_map.mpr ⟨(name, term), List.mem_filter.mpr ⟨Table.mem_of_find? found, by simp⟩, rfl⟩

theorem mem_rootsRead (found : Table.find? name analysis.terms = some term)
    {reference : Reference} (read : reference ∈ term.reads) :
    reference.root ∈ analysis.rootsRead name.module :=
  List.mem_flatMap.mpr ⟨term, mem_moduleTerms found, List.mem_map.mpr ⟨reference, read, rfl⟩⟩

theorem mem_reserved_of_isBound (found : Table.find? name analysis.terms = some term)
    {key : String} (isBound : Term.IsBound term.iterators key) :
    key ∈ analysis.reserved name.module := by
  rcases isBound with same | same | member
  · exact List.mem_append_left _ (by simp [same, Dependency.contextRoots])
  · exact List.mem_append_left _ (by simp [same, Dependency.contextRoots])
  · exact List.mem_append_right _
      (List.mem_flatMap.mpr ⟨term, mem_moduleTerms found, member⟩)

theorem exists_root_of_mem {tree : ModuleTree}
    (found : Table.find? name (ofTree tree).terms = some term) {dependency : Dependency}
    (member : dependency ∈ (ofTree tree).dependenciesFor name) :
    ∃ root ∈ (ofTree tree).rootsRead name.module, ∃ rest,
      dependency.destination.path = root :: rest := by
  rcases exists_reference found member with ⟨reference, depends, resolved⟩
  have read := Term.mem_reads_of_mem_dependencies term depends
  refine ⟨reference.root, mem_rootsRead found read, ?_⟩
  have resolution := Dependency.resolution_of_resolve? (paths_ne_nil tree) resolved
  have start := resolution.destination_prefix (paths_ne_nil tree)
  rw [Dependency.target, (Term.rooted_of_mem_reads term read).keys_eq] at start
  cases destination : dependency.destination.path with
  | cons key rest =>
      rw [destination] at start
      exact ⟨rest, by rw [(List.cons_prefix_cons.mp start).1]⟩
  | nil =>
      cases produced : dependency.source? with
      | some source => exact absurd destination (destination_ne_nil member produced)
      | none =>
          rw [resolution.eq_missing produced, Dependency.missing, Dependency.target,
            (Term.rooted_of_mem_reads term read).keys_eq] at destination
          cases destination

theorem isTable_scope {tree : ModuleTree}
    (found : Table.find? name (ofTree tree).terms = some term)
    {state : EvaluationState} (isTable : (state.tree name.module).IsTable) :
    (state.scope (ofTree tree) name).IsTable := by
  rw [EvaluationState.scope_eq_graftAll]
  apply Value.isTable_graftAll (EvaluationState.isTable_ownScope isTable)
  intro graft listed
  rcases EvaluationState.mem_brought.mp listed with ⟨dependency, member, _, same⟩
  rcases exists_root_of_mem found member with ⟨root, _, rest, destination⟩
  rw [same, destination]
  exact List.cons_ne_nil root rest

/-! ## Two scopes of one term -/

/-- Whether two states cannot be told apart by the scope of a term: what its sources bring along
is the same in both, what it reads in its own module is the same along each reference, and
nothing stands apart from all terms of its module. -/
structure Aligned (left right : Analysis) (name : FullName) (first second : EvaluationState) :
    Prop where
  dependencies : right.dependenciesFor name = left.dependenciesFor name
  context : EvaluationState.context right name.module = EvaluationState.context left name.module
  firstTable : (first.tree name.module).IsTable
  secondTable : (second.tree name.module).IsTable
  sources : ∀ dependency ∈ left.dependenciesFor name, dependency.isRemapped = true →
    ∀ source, dependency.source? = some source →
      Value.SameAlong source.path (first.tree source.module) (second.tree source.module)
  own : ∀ term, Table.find? name left.terms = some term → ∀ reference ∈ term.reads,
    ∀ dependency ∈ left.dependenciesFor name, dependency.isRemapped = false →
      dependency.destination.path <+: (Accessor.splitKeys reference.accessor).1 →
        Value.SameAlong (Accessor.splitKeys reference.accessor).1 (first.tree name.module)
          (second.tree name.module)
  vacant : ∀ path, path ≠ [] →
    (∀ other ∈ left.names, other.module = name.module → Apart other.path path) →
      (first.tree name.module).at? path = none ∧ (second.tree name.module).at? path = none
  spares : ∀ dependency ∈ left.dependenciesFor name, ∀ source,
    dependency.source? = some source → left.Spares name dependency

/-- Whether the own modules agree on a path where a value of them stands on its way. -/
def SeesOwn (left : Analysis) (name : FullName) (first second : EvaluationState)
    (path : List String) : Prop :=
  ∀ dependency ∈ left.dependenciesFor name, dependency.isRemapped = false →
    dependency.destination.path <+: path →
      Value.AgreeOn path (first.tree name.module) (second.tree name.module)

variable {left right : ModuleTree} {first second : EvaluationState} {dependency : Dependency}
  {source : FullName}

section

variable (aligned : Aligned (ofTree left) (ofTree right) name first second)
include aligned

theorem Aligned.valueOf_eq (member : dependency ∈ (ofTree left).dependenciesFor name)
    (remapped : dependency.isRemapped = true) :
    second.valueOf dependency.origin = first.valueOf dependency.origin := by
  cases origin : dependency.origin with
  | placeholder => rfl
  | term source =>
      have produced : dependency.source? = some source := by rw [Dependency.source?, origin]
      have nonempty := paths_ne_nil left source (source_mem_names member produced)
      rw [EvaluationState.valueOf_term _ nonempty, EvaluationState.valueOf_term _ nonempty,
        (aligned.sources dependency member remapped source produced).lookup_eq]

/-- Both states bring the same to the scope of the term. -/
theorem Aligned.scope_eq :
    second.scope (ofTree right) name =
      (ownScope (ofTree right) second name.module).graftAll
        (brought first ((ofTree left).dependenciesFor name)) := by
  rw [EvaluationState.scope_eq_graftAll, aligned.dependencies]
  congr 1
  apply List.map_congr_left
  intro dependency listed
  rw [aligned.valueOf_eq (List.mem_filter.mp listed).1 (List.mem_filter.mp listed).2]

/-- What grafts leave at a path agrees if they agree on it at some point. -/
private theorem Aligned.agreeOn_scope {path : List String}
    {early late : List (List String × Value)}
    (grafts : brought first ((ofTree left).dependenciesFor name) = early ++ late)
    (agree : Value.AgreeOn path
      ((ownScope (ofTree left) first name.module).graftAll early)
      ((ownScope (ofTree right) second name.module).graftAll early)) :
    Value.AgreeOn path (first.scope (ofTree left) name) (second.scope (ofTree right) name) := by
  rw [aligned.scope_eq, EvaluationState.scope_eq_graftAll, grafts, Value.graftAll_append,
    Value.graftAll_append]
  exact agree.graftAll late

/-- Nothing stands under a key that no term of the module starts with. -/
private theorem Aligned.find?_of_not_firstKey {key : String}
    (free : ∀ other ∈ (ofTree left).names, other.module = name.module →
      other.path.head? ≠ some key) :
    Table.find? key (first.tree name.module).fields = none ∧
      Table.find? key (second.tree name.module).fields = none := by
  have apart : ∀ other ∈ (ofTree left).names, other.module = name.module →
      Apart other.path [key] := by
    intro other named sameModule
    have different := free other named sameModule
    cases path : other.path with
    | nil => exact absurd path (paths_ne_nil left other named)
    | cons first rest =>
        rw [path] at different
        exact Value.apart_cons.mpr fun same => absurd (congrArg some same) different
  simpa using aligned.vacant [key] (by simp) apart

theorem Aligned.agreeOn_of_not_firstKey {key : String}
    (free : ∀ other ∈ (ofTree left).names, other.module = name.module →
      other.path.head? ≠ some key) :
    Value.AgreeOn [key] (first.scope (ofTree left) name) (second.scope (ofTree right) name) := by
  rcases aligned.find?_of_not_firstKey free with ⟨inFirst, inSecond⟩
  apply aligned.agreeOn_scope (List.nil_append _).symm
  apply Value.AgreeOn.of_find? (EvaluationState.isTable_ownScope aligned.firstTable).1
    (EvaluationState.isTable_ownScope aligned.secondTable).1
  rw [EvaluationState.fields_ownScope aligned.firstTable,
    EvaluationState.fields_ownScope aligned.secondTable,
    Value.find?_mergeFields aligned.firstTable.2, Value.find?_mergeFields aligned.secondTable.2,
    inFirst, inSecond, aligned.context]

theorem Aligned.at?_ownScope_eq (member : dependency ∈ (ofTree left).dependenciesFor name)
    (produced : dependency.source? = some source) :
    (ownScope (ofTree left) first name.module).at? dependency.destination.path =
        (first.tree name.module).at? dependency.destination.path ∧
      (ownScope (ofTree right) second name.module).at? dependency.destination.path =
        (second.tree name.module).at? dependency.destination.path :=
  ⟨at?_ownScope_destination aligned.firstTable member produced,
    at?_ownScope_destination aligned.secondTable (aligned.dependencies ▸ member) produced⟩

/-- A value that is brought along agrees from its own turn on. -/
private theorem Aligned.agreeOn_brought {before after : List Dependency}
    (split : (ofTree left).dependenciesFor name = before ++ dependency :: after)
    (remapped : dependency.isRemapped = true) {part : Value}
    (inFirst : (((ownScope (ofTree left) first name.module).graftAll (brought first before)).graft
      dependency.destination.path (first.valueOf dependency.origin)).at?
        dependency.destination.path = some part)
    (inSecond : (((ownScope (ofTree right) second name.module).graftAll
      (brought first before)).graft dependency.destination.path
        (first.valueOf dependency.origin)).at? dependency.destination.path = some part) :
    Value.AgreeOn dependency.destination.path (first.scope (ofTree left) name)
      (second.scope (ofTree right) name) := by
  have grafts : brought first ((ofTree left).dependenciesFor name) =
      (brought first before ++
        [(dependency.destination.path, first.valueOf dependency.origin)]) ++
        brought first after := by
    rw [split, EvaluationState.brought_append,
      EvaluationState.brought_cons_of_isRemapped first remapped, List.append_assoc]
    rfl
  apply aligned.agreeOn_scope grafts
  rw [Value.graftAll_append, Value.graftAll_append]
  exact .of_at? inFirst inSecond

theorem Aligned.agreeOn_ownScope {key : String} {rest : List String}
    (free : key ∉ Dependency.contextRoots)
    (agree : Value.AgreeOn (key :: rest) (first.tree name.module) (second.tree name.module)) :
    Value.AgreeOn (key :: rest) (ownScope (ofTree left) first name.module)
      (ownScope (ofTree right) second name.module) := by
  rw [aligned.firstTable.eq_object, aligned.secondTable.eq_object] at agree
  rw [(EvaluationState.isTable_ownScope aligned.firstTable).eq_object,
    (EvaluationState.isTable_ownScope aligned.secondTable).eq_object]
  rcases agree.find?_cases with ⟨noFirst, noSecond⟩ | ⟨_, _, inFirst, inSecond, below⟩
  · exact .absent ((EvaluationState.find?_ownScope_of_not_mem aligned.firstTable free).trans noFirst)
      ((EvaluationState.find?_ownScope_of_not_mem aligned.secondTable free).trans noSecond)
  · exact .field ((EvaluationState.find?_ownScope_of_not_mem aligned.firstTable free).trans inFirst)
      ((EvaluationState.find?_ownScope_of_not_mem aligned.secondTable free).trans inSecond) below

/-- What comes from a dependency reads the same along a path below its destination. -/
theorem Aligned.agreeOn_path (member : dependency ∈ (ofTree left).dependenciesFor name)
    {path : List String} (start : dependency.destination.path <+: path)
    (seesOwn : (ofTree left).SeesOwn name first second path) :
    Value.AgreeOn path (first.scope (ofTree left) name) (second.scope (ofTree right) name) := by
  rcases List.append_of_mem member with ⟨before, after, split⟩
  cases produced : dependency.source? with
  | none =>
      have plain : (first.valueOf dependency.origin).isObject = false := by
        cases origin : dependency.origin with
        | term source => simp [Dependency.source?, origin] at produced
        | placeholder => rfl
      exact (aligned.agreeOn_brought split (isRemapped_of_missing produced)
        (Value.at?_graft_plain _ _ plain) (Value.at?_graft_plain _ _ plain)).of_start start
  | some source =>
      cases remapped : dependency.isRemapped with
      | false =>
          have agree := seesOwn dependency member remapped start
          rcases exists_destination_head member produced with ⟨key, rest, destination, free⟩
          rcases start with ⟨others, rfl⟩
          rw [destination, List.cons_append] at agree ⊢
          exact aligned.agreeOn_scope (List.nil_append _).symm
            (aligned.agreeOn_ownScope free agree)
      | true =>
          have spares := aligned.spares dependency member source produced
          have vacant := aligned.vacant _ (destination_ne_nil member produced)
            fun other named sameModule =>
              (apart_of_isRemapped member produced remapped named sameModule).symm
          have own := aligned.at?_ownScope_eq member produced
          have inFirst := Value.at?_graft_of_none (first.valueOf dependency.origin)
            (at?_graftAll_brought spares split first (own.1.trans vacant.1))
          have inSecond := Value.at?_graft_of_none (first.valueOf dependency.origin)
            (at?_graftAll_brought spares split first (own.2.trans vacant.2))
          exact (aligned.agreeOn_brought split remapped inFirst inSecond).of_start start

end

/-! ## What a term reads -/

/-- The first keys of a module that a variable can be read from are its own name. -/
theorem KeysApart.eq_root (keysApart : (ofTree left).KeysApart name.module)
    (found : Table.find? name (ofTree left).terms = some term) {reference : Reference}
    (read : reference ∈ term.reads) {other : FullName} (named : other ∈ (ofTree left).names)
    (sameModule : other.module = name.module) {key : String} (head : other.path.head? = some key)
    (declares : reference.MayDeclare key) : key = reference.root := by
  rcases declares with same | declared
  · exact same
  · exact keysApart.declared other named sameModule key head reference.root
      (mem_rootsRead found read) declared

/-- A term does not bind a variable with the name of a first key of its module itself. -/
theorem KeysApart.mem_dependencies (keysApart : (ofTree left).KeysApart name.module)
    (found : Table.find? name (ofTree left).terms = some term) {reference : Reference}
    (read : reference ∈ term.reads) {other : FullName} (named : other ∈ (ofTree left).names)
    (sameModule : other.module = name.module) (head : other.path.head? = some reference.root) :
    reference ∈ term.dependencies := by
  rcases Term.mem_reads term read with depends | isBound
  · exact depends
  · exact absurd (mem_reserved_of_isBound found isBound)
      (keysApart.unreserved other named sameModule reference.root head)

/-- A variable with the name of a first key of the module is a dependency of the term. -/
theorem KeysApart.exists_dependency (keysApart : (ofTree left).KeysApart name.module)
    (found : Table.find? name (ofTree left).terms = some term) {reference : Reference}
    (read : reference ∈ term.reads) {other : FullName} (named : other ∈ (ofTree left).names)
    (sameModule : other.module = name.module) (head : other.path.head? = some reference.root) :
    ∃ dependency ∈ (ofTree left).dependenciesFor name,
      dependency.destination.path <+: (Accessor.splitKeys reference.accessor).1 := by
  have depends := keysApart.mem_dependencies found read named sameModule head
  have outside : reference.root ∉ Dependency.contextRoots := fun inside =>
    keysApart.unreserved other named sameModule reference.root head
      (List.mem_append_left _ inside)
  rcases Dependency.exists_resolve? (ofTree left).terms name.module outside with
    ⟨dependency, resolved⟩
  have resolution := Dependency.resolution_of_resolve? (paths_ne_nil left) resolved
  exact ⟨dependency, mem_dependenciesFor found depends resolved,
    resolution.destination_prefix (paths_ne_nil left)⟩

section

variable (aligned : Aligned (ofTree left) (ofTree right) name first second)
  (keysApart : (ofTree left).KeysApart name.module)
  (found : Table.find? name (ofTree left).terms = some term) {reference : Reference}
  (read : reference ∈ term.reads)
include aligned keysApart found read

/-- A key under which a term reads a variable agrees on the rest of the reference. -/
private theorem Aligned.agreeOn_of_read
    (seesOwn : (ofTree left).SeesOwn name first second (Accessor.splitKeys reference.accessor).1)
    {key : String} (declares : reference.MayDeclare key) :
    Value.AgreeOn (key :: (Accessor.splitKeys reference.accessor).1.tail)
      (first.scope (ofTree left) name) (second.scope (ofTree right) name) := by
  have rooted := Term.rooted_of_mem_reads term read
  by_cases isFirst : ∃ other ∈ (ofTree left).names, other.module = name.module ∧
      other.path.head? = some key
  · rcases isFirst with ⟨other, named, sameModule, head⟩
    have isRoot := keysApart.eq_root found read named sameModule head declares
    subst isRoot
    rcases keysApart.exists_dependency found read named sameModule head with
      ⟨dependency, member, start⟩
    rw [← rooted.keys_eq]
    exact aligned.agreeOn_path member start seesOwn
  · have free : ∀ other ∈ (ofTree left).names, other.module = name.module →
        other.path.head? ≠ some key := fun other named sameModule head =>
      isFirst ⟨other, named, sameModule, head⟩
    exact (aligned.agreeOn_of_not_firstKey free).append _

/-- What is there in both states reads the same. -/
theorem Aligned.readsAlike
    (seesOwn : (ofTree left).SeesOwn name first second
      (Accessor.splitKeys reference.accessor).1) :
    Value.ReadsAlike (first.scope (ofTree left) name) (second.scope (ofTree right) name)
      reference := by
  have rooted := Term.rooted_of_mem_reads term read
  refine ⟨?_, fun key declared => ?_⟩
  · rw [rooted.keys_eq]
    exact aligned.agreeOn_of_read keysApart found read seesOwn (.inl rfl)
  · exact aligned.agreeOn_of_read keysApart found read seesOwn (.inr declared)

end

/-! ## What a term does not find -/

/-- A key that no other variable of the module is declared as does not stand in a scope. -/
private theorem blocked_graftAll_of_foreign {state : EvaluationState} {module : ModuleName}
    {analysis : Analysis} {key : String} (isTable : (state.tree module).IsTable)
    (free : key ∉ Dependency.contextRoots)
    (vacant : Table.find? key (state.tree module).fields = none)
    {grafts : List (List String × Value)} (elsewhere : ∀ graft ∈ grafts, Apart graft.1 [key])
    (rest : List String) :
    Blocked (key :: rest) ((ownScope analysis state module).graftAll grafts) := by
  have own : Blocked [key] (ownScope analysis state module) :=
    EvaluationState.blocked_ownScope isTable free (.absent isTable.isUnknown_eq vacant)
  exact (own.graftAll fun graft listed => .inl (elsewhere graft listed)).append rest

section

variable (wellScoped : (ofTree left).WellScoped name.module)
  (found : Table.find? name (ofTree left).terms = some term) {reference : Reference}
  (read : reference ∈ term.reads)
include wellScoped found read

/-- Only the variable of that name is declared as a variable of the module that is read. -/
theorem WellScoped.not_mem_of_ne {key : String} (different : key ≠ reference.root)
    (declares : reference.MayDeclare key) :
    key ∉ (ofTree left).reserved name.module ++ (ofTree left).rootsRead name.module :=
  fun member => different (declares.elim id
    (wellScoped.separate key member reference.root (mem_rootsRead found read)))

/-- What a term binds is not taken for a first key of its module. -/
theorem WellScoped.not_mayDeclare {other : FullName} (named : other ∈ (ofTree left).names)
    (sameModule : other.module = name.module) (head : other.path.head? = some reference.root)
    {key : String} (isBound : Term.IsBound term.iterators key) : ¬reference.MayDeclare key := by
  intro declares
  have reserved := mem_reserved_of_isBound found isBound
  by_cases same : key = reference.root
  · exact wellScoped.unreserved other named sameModule reference.root head (same ▸ reserved)
  · exact wellScoped.not_mem_of_ne found read same declares (List.mem_append_left _ reserved)

end

section

variable (aligned : Aligned (ofTree left) (ofTree right) name first second)
  (wellScoped : (ofTree left).WellScoped name.module)
  (found : Table.find? name (ofTree left).terms = some term) {reference : Reference}
  (read : reference ∈ term.reads)
include aligned wellScoped found read

/-- Under another name than its own a variable that is read stands in neither scope. -/
private theorem Aligned.blocked_of_ne {key : String} (different : key ≠ reference.root)
    (declares : reference.MayDeclare key) (rest : List String) :
    Blocked (key :: rest) (first.scope (ofTree left) name) ∧
      Blocked (key :: rest) (second.scope (ofTree right) name) := by
  have foreign := wellScoped.not_mem_of_ne found read different declares
  have free : key ∉ Dependency.contextRoots := fun inside =>
    foreign (List.mem_append_left _ (List.mem_append_left _ inside))
  have vacant := aligned.find?_of_not_firstKey fun other named sameModule head =>
    different (wellScoped.toKeysApart.eq_root found read named sameModule head declares)
  have elsewhere : ∀ graft ∈ brought first ((ofTree left).dependenciesFor name),
      Apart graft.1 [key] := by
    intro graft listed
    rcases EvaluationState.mem_brought.mp listed with ⟨dependency, member, _, same⟩
    rcases exists_root_of_mem found member with ⟨root, isRead, others, destination⟩
    rw [same, destination, Value.apart_cons]
    exact fun equal => absurd (List.mem_append_right _ (equal ▸ isRead)) foreign
  rw [aligned.scope_eq, EvaluationState.scope_eq_graftAll]
  exact ⟨blocked_graftAll_of_foreign aligned.firstTable free vacant.1 elsewhere rest,
    blocked_graftAll_of_foreign aligned.secondTable free vacant.2 elsewhere rest⟩

variable (member : dependency ∈ (ofTree left).dependenciesFor name)
  (own : dependency.isRemapped = false)
include member own

omit wellScoped found read in
/-- What is not there is not in a scope either. -/
private theorem Aligned.blocked_path {path : List String}
    (start : dependency.destination.path <+: path)
    (inFirst : Blocked path (first.tree name.module))
    (inSecond : Blocked path (second.tree name.module)) :
    Blocked path (first.scope (ofTree left) name) ∧
      Blocked path (second.scope (ofTree right) name) := by
  cases produced : dependency.source? with
  | none => rw [isRemapped_of_missing produced] at own; cases own
  | some source =>
      have sparing := fun graft listed => Value.sparing_of_start start
        (sparing_own (aligned.spares dependency member source produced) own first graft listed)
      rcases exists_destination_head member produced with ⟨key, rest, destination, free⟩
      rcases start with ⟨others, rfl⟩
      rw [aligned.scope_eq, EvaluationState.scope_eq_graftAll]
      rw [destination, List.cons_append] at inFirst inSecond sparing ⊢
      exact ⟨(EvaluationState.blocked_ownScope aligned.firstTable free inFirst).graftAll sparing,
        (EvaluationState.blocked_ownScope aligned.secondTable free inSecond).graftAll sparing⟩

/-- What is there in neither state is a reference to nothing. -/
theorem Aligned.leadsNowhere
    (start : dependency.destination.path <+: (Accessor.splitKeys reference.accessor).1)
    (inFirst : Blocked (Accessor.splitKeys reference.accessor).1 (first.tree name.module))
    (inSecond : Blocked (Accessor.splitKeys reference.accessor).1 (second.tree name.module)) :
    (first.scope (ofTree left) name).LeadsNowhere reference ∧
      (second.scope (ofTree right) name).LeadsNowhere reference := by
  have rooted := Term.rooted_of_mem_reads term read
  have known := aligned.blocked_path member own start inFirst inSecond
  have elsewhere := fun (key : String) (different : key ≠ reference.root) declares =>
    aligned.blocked_of_ne wellScoped found read different declares
      (Accessor.splitKeys reference.accessor).1.tail
  rw [rooted.keys_eq] at known
  constructor
  · intro key declares
    by_cases same : key = reference.root
    · exact same ▸ known.1
    · exact (elsewhere key same declares).1
  · intro key declares
    by_cases same : key = reference.root
    · exact same ▸ known.2
    · exact (elsewhere key same declares).2

end

section

variable (aligned : Aligned (ofTree left) (ofTree right) name first second)
include aligned

omit aligned in
theorem mem_names_of_own (member : dependency ∈ (ofTree left).dependenciesFor name)
    (own : dependency.isRemapped = false) : dependency.destination ∈ (ofTree left).names := by
  cases produced : dependency.source? with
  | none => rw [isRemapped_of_missing produced] at own; cases own
  | some source => exact source_eq_destination produced own ▸ source_mem_names member produced

/-- A term sees its two scopes alike. -/
theorem Aligned.seenAlike (wellScoped : (ofTree left).WellScoped name.module)
    (found : Table.find? name (ofTree left).terms = some term) {reference : Reference}
    (read : reference ∈ term.reads) :
    Value.SeenAlike term.iterators (first.scope (ofTree left) name)
      (second.scope (ofTree right) name) reference := by
  by_cases hidden : ∃ dependency ∈ (ofTree left).dependenciesFor name,
      dependency.isRemapped = false ∧
        dependency.destination.path <+: (Accessor.splitKeys reference.accessor).1 ∧
        Blocked (Accessor.splitKeys reference.accessor).1 (first.tree name.module) ∧
        Blocked (Accessor.splitKeys reference.accessor).1 (second.tree name.module)
  · rcases hidden with ⟨dependency, member, own, start, inFirst, inSecond⟩
    have nowhere := aligned.leadsNowhere wellScoped found read member own start inFirst inSecond
    have named := mem_names_of_own member own
    have head : dependency.destination.path.head? = some reference.root := by
      rw [(Term.rooted_of_mem_reads term read).keys_eq] at start
      cases destination : dependency.destination.path with
      | nil => exact absurd destination (paths_ne_nil left _ named)
      | cons key rest =>
          rw [destination] at start
          rw [(List.cons_prefix_cons.mp start).1, List.head?_cons]
    exact .nowhere (fun _ isBound => wellScoped.not_mayDeclare found read named
      (destination_module member) head isBound) nowhere.1 nowhere.2
  · refine .agree (aligned.readsAlike wellScoped.toKeysApart found read ?_)
    intro dependency member own start
    cases aligned.own term found reference read dependency member own start with
    | agree agree => exact agree
    | nothing inFirst inSecond =>
        exact absurd ⟨dependency, member, own, start, inFirst, inSecond⟩ hidden

/-- A term has the same value in both states. -/
theorem Aligned.value_eq (wellScoped : (ofTree left).WellScoped name.module)
    (found : Table.find? name (ofTree left).terms = some term)
    (foundRight : Table.find? name (ofTree right).terms = some term) :
    (term.evaluate Expression.evaluateIn (first.scope (ofTree left) name)).value =
      (term.evaluate Expression.evaluateIn (second.scope (ofTree right) name)).value :=
  Term.value_evaluate_eq (isTable_scope found aligned.firstTable)
    (isTable_scope foundRight aligned.secondTable) term (fun _ binds => binds)
    fun _ read => aligned.seenAlike wellScoped found read

end

end Analysis

end Groundplan
