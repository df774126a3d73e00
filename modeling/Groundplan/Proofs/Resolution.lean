import Groundplan.Proofs.Index
/-!
Resolution of references. A reference gets the term whose path is the longest
start of its own, or else the one that its rewriting across a module boundary
leads to, or else a placeholder; which of these it is follows from the names of
the terms alone.
-/

namespace Groundplan

/-! ## Longest starts -/

/-- Whether a name of the same module is a start of `wanted`. -/
def HasStart (names : List FullName) (wanted : FullName) : Prop :=
  ∃ other ∈ names, other.module = wanted.module ∧ other.path <+: wanted.path

/-- The name of the same module with the longest path that is a start of that of
`wanted`. -/
structure IsLongestStart (names : List FullName) (wanted found : FullName) : Prop where
  named : found ∈ names
  sameModule : found.module = wanted.module
  start : found.path <+: wanted.path
  longest : ∀ other ∈ names, other.module = wanted.module → other.path <+: wanted.path →
    other.path <+: found.path

/-- Only the names of one module count for the starts of a name. -/
theorem HasStart.of_filter {names : List FullName} {wanted : FullName} {keep : FullName → Bool}
    (hasStart : HasStart (names.filter keep) wanted) : HasStart names wanted :=
  have ⟨other, named, sameModule, start⟩ := hasStart
  ⟨other, (List.mem_filter.mp named).1, sameModule, start⟩

theorem IsLongestStart.filter {names : List FullName} {wanted found : FullName}
    (longest : IsLongestStart names wanted found) {keep : FullName → Bool}
    (kept : ∀ name ∈ names, name.module = wanted.module → keep name = true) :
    IsLongestStart (names.filter keep) wanted found where
  named := List.mem_filter.mpr ⟨longest.named, kept found longest.named longest.sameModule⟩
  sameModule := longest.sameModule
  start := longest.start
  longest other named := longest.longest other (List.mem_filter.mp named).1

theorem IsLongestStart.hasStart {names : List FullName} {wanted found : FullName}
    (longest : IsLongestStart names wanted found) : HasStart names wanted :=
  ⟨found, longest.named, longest.sameModule, longest.start⟩

namespace NameTable

theorem mem_starts {path start : LocalName} :
    start ∈ starts path ↔ start ≠ [] ∧ start <+: path := by
  simp only [starts, List.mem_map, List.mem_reverse, List.mem_range]
  constructor
  · rintro ⟨dropped, inside, same⟩
    subst same
    refine ⟨?_, List.take_prefix _ _⟩
    intro empty
    have length := congrArg List.length empty
    simp only [List.length_take, List.length_nil] at length
    omega
  · rintro ⟨nonempty, start_le⟩
    have positive : 0 < start.length := List.length_pos_iff.mpr nonempty
    have bounded := start_le.length_le
    refine ⟨start.length - 1, by omega, ?_⟩
    rw [Nat.sub_add_cancel positive]
    exact (List.prefix_iff_eq_take.mp start_le).symm

theorem starts_decreasing (path : LocalName) :
    (starts path).Pairwise fun longer shorter => shorter.length ≤ longer.length := by
  refine List.pairwise_map.mpr (List.pairwise_reverse.mpr (List.pairwise_lt_range.imp ?_))
  intro shorter longer less
  simp only [List.length_take]
  omega

variable {α : Type u} {table : NameTable α} {wanted found : FullName} {value : α}

theorem longestStart?_eq_some (nonempty : ∀ name ∈ Table.keys table, name.path ≠ [])
    (selected : longestStart? table wanted = some (found, value)) :
    IsLongestStart (Table.keys table) wanted found := by
  rcases List.findSome?_eq_some_iff.mp selected with ⟨longer, path, shorter, split, hit, missed⟩
  rcases Option.map_eq_some_iff.mp hit with ⟨entry, present, same⟩
  simp only [Prod.mk.injEq] at same
  rcases same with ⟨same, _⟩
  subst same
  have isStart : path ∈ starts wanted.path := by simp [split]
  refine ⟨Table.mem_keys_iff_find?.mpr ⟨entry, present⟩, rfl, (mem_starts.mp isStart).2, ?_⟩
  intro other named sameModule start
  have otherStart : other.path ∈ starts wanted.path :=
    mem_starts.mpr ⟨nonempty other named, start⟩
  rw [split] at otherStart
  rcases List.mem_append.mp otherStart with before | after
  · -- a longer start would have been found first
    have absent := missed other.path before
    rw [Option.map_eq_none_iff, ← sameModule, Table.find?_eq_none_iff] at absent
    exact absurd named absent
  · rcases List.mem_cons.mp after with same | after
    · exact same ▸ List.prefix_rfl
    · have decreasing := starts_decreasing wanted.path
      rw [split] at decreasing
      have shorter_le := (List.pairwise_cons.mp (List.pairwise_append.mp decreasing).2.1).1
        other.path after
      exact List.prefix_of_prefix_length_le start (mem_starts.mp isStart).2 shorter_le

theorem longestStart?_eq_none (nonempty : ∀ name ∈ Table.keys table, name.path ≠ [])
    (absent : longestStart? table wanted = none) : ¬HasStart (Table.keys table) wanted := by
  rintro ⟨other, named, sameModule, start⟩
  have isStart : other.path ∈ starts wanted.path :=
    mem_starts.mpr ⟨nonempty other named, start⟩
  have missed := List.findSome?_eq_none_iff.mp absent other.path isStart
  rw [Option.map_eq_none_iff, ← sameModule, Table.find?_eq_none_iff] at missed
  exact missed named

theorem longestStart?_congr {left right : NameTable α}
    (same : ∀ path, Table.find? ⟨wanted.module, path⟩ left =
      Table.find? ⟨wanted.module, path⟩ right) :
    longestStart? left wanted = longestStart? right wanted := by
  simp only [longestStart?, same]

end NameTable

/-! ## Rewritings across a module boundary -/

namespace FullName

theorem asModuleOutput?_eq_some {name output : FullName}
    (rewritten : name.asModuleOutput? = some output) :
    ∃ call first rest, name.path = "module" :: call :: first :: rest ∧
      output = ⟨name.module ++ [call], "output" :: first :: rest⟩ := by
  rw [asModuleOutput?] at rewritten
  split at rewritten
  · next call first rest shape =>
      exact ⟨call, first, rest, shape, (Option.some.inj rewritten).symm⟩
  · cases rewritten

theorem asVariable?_eq_some {name : FullName} {parts : VariableParts}
    (rewritten : name.asVariable? = some parts) :
    ∃ declared trailing, name.path = "var" :: declared :: trailing ∧
      parts = ⟨⟨name.module, ["variable", declared]⟩, ⟨name.module, ["var", declared]⟩,
        trailing⟩ := by
  rw [asVariable?] at rewritten
  split at rewritten
  · next declared trailing shape =>
      exact ⟨declared, trailing, shape, (Option.some.inj rewritten).symm⟩
  · cases rewritten

theorem asModuleInput?_eq_some {name input : FullName}
    (rewritten : name.asModuleInput? = some input) :
    ∃ call declared trailing, name.path = "var" :: declared :: trailing ∧
      name.module.getLast? = some call ∧
      input = ⟨name.module.dropLast, "input" :: call :: declared :: trailing⟩ := by
  rw [asModuleInput?] at rewritten
  split at rewritten
  · next declared trailing call shape last =>
      exact ⟨call, declared, trailing, shape, last, (Option.some.inj rewritten).symm⟩
  · cases rewritten

end FullName

/-! ## The rules of resolution -/

/-- The dependency of a reference to `wanted` among the terms `names`, by the rule
that gives it. A later rule counts only where no earlier one applies. -/
inductive Resolution (names : List FullName) (wanted : FullName) : Dependency → Prop where
  | term {found : FullName} (longest : IsLongestStart names wanted found) :
      Resolution names wanted ⟨found, .term found⟩
  | output {output found : FullName} (noTerm : ¬HasStart names wanted)
      (rewritten : wanted.asModuleOutput? = some output)
      (longest : IsLongestStart names output found) :
      Resolution names wanted
        ⟨⟨wanted.module, wanted.path.take 2 ++ found.path.drop 1⟩, .term found⟩
  | input {parts : FullName.VariableParts} {input : FullName} (noTerm : ¬HasStart names wanted)
      (rewritten : wanted.asVariable? = some parts)
      (called : parts.reference.asModuleInput? = some input) (named : input ∈ names) :
      Resolution names wanted ⟨parts.reference, .term input⟩
  | definition {parts : FullName.VariableParts} (noTerm : ¬HasStart names wanted)
      (rewritten : wanted.asVariable? = some parts)
      (noInput : ∀ input, parts.reference.asModuleInput? = some input → input ∉ names)
      (named : parts.definition ∈ names) :
      Resolution names wanted ⟨parts.reference, .term parts.definition⟩
  | missing (noTerm : ¬HasStart names wanted)
      (noOutput : ∀ output, wanted.asModuleOutput? = some output → ¬HasStart names output)
      (noInput : ∀ parts, wanted.asVariable? = some parts →
        ∀ input, parts.reference.asModuleInput? = some input → input ∉ names)
      (noDefinition : ∀ parts, wanted.asVariable? = some parts → parts.definition ∉ names) :
      Resolution names wanted (.missing wanted)

namespace Dependency

variable {terms : NameTable Term} {wanted : FullName} {dependency : Dependency}

private theorem resolution_of_toTerm?
    (nonempty : ∀ name ∈ Table.keys terms, name.path ≠ [])
    (resolved : toTerm? terms wanted = some dependency) :
    Resolution (Table.keys terms) wanted dependency := by
  rcases Option.map_eq_some_iff.mp resolved with ⟨⟨found, term⟩, selected, same⟩
  subst same
  exact .term (NameTable.longestStart?_eq_some nonempty selected)

private theorem resolution_of_toOutput?
    (nonempty : ∀ name ∈ Table.keys terms, name.path ≠ [])
    (noTerm : ¬HasStart (Table.keys terms) wanted)
    (resolved : toOutput? terms wanted = some dependency) :
    Resolution (Table.keys terms) wanted dependency := by
  rcases Option.bind_eq_some_iff.mp resolved with ⟨output, rewritten, crossed⟩
  rcases Option.bind_eq_some_iff.mp crossed with ⟨⟨found, term⟩, selected, same⟩
  have same := Option.some.inj same
  subst same
  exact .output noTerm rewritten (NameTable.longestStart?_eq_some nonempty selected)

private theorem noOutput_of_toOutput?
    (nonempty : ∀ name ∈ Table.keys terms, name.path ≠ [])
    (unresolved : toOutput? terms wanted = none) {output : FullName}
    (rewritten : wanted.asModuleOutput? = some output) :
    ¬HasStart (Table.keys terms) output := by
  cases selected : NameTable.longestStart? terms output with
  | none => exact NameTable.longestStart?_eq_none nonempty selected
  | some entry => simp [toOutput?, rewritten, selected] at unresolved

private theorem noInput_of_filter {parts : FullName.VariableParts} {input : FullName}
    (notPassed : (parts.reference.asModuleInput?.filter fun input => Table.has input terms) =
      none)
    (called : parts.reference.asModuleInput? = some input) : input ∉ Table.keys terms := by
  intro named
  simp [called, Table.has_iff_mem_keys.mpr named] at notPassed

private theorem resolution_of_toVariable?
    (noTerm : ¬HasStart (Table.keys terms) wanted)
    (resolved : toVariable? terms wanted = some dependency) :
    Resolution (Table.keys terms) wanted dependency := by
  rcases Option.bind_eq_some_iff.mp resolved with ⟨parts, rewritten, chosen⟩
  dsimp only at chosen
  split at chosen
  · next input passed =>
      have same := Option.some.inj chosen
      subst same
      rcases Option.filter_eq_some_iff.mp passed with ⟨called, named⟩
      exact .input noTerm rewritten called (Table.has_iff_mem_keys.mp named)
  · next notPassed =>
      split at chosen
      · next named =>
          have same := Option.some.inj chosen
          subst same
          exact .definition noTerm rewritten (fun input => noInput_of_filter notPassed)
            (Table.has_iff_mem_keys.mp named)
      · simp at chosen

private theorem resolution_of_none
    (nonempty : ∀ name ∈ Table.keys terms, name.path ≠ [])
    (noTerm : ¬HasStart (Table.keys terms) wanted)
    (noOutput : toOutput? terms wanted = none)
    (noVariable : toVariable? terms wanted = none) :
    Resolution (Table.keys terms) wanted (missing wanted) := by
  refine .missing noTerm (fun output => noOutput_of_toOutput? nonempty noOutput) ?_ ?_
  · intro parts rewritten input called
    simp only [toVariable?, rewritten, Option.bind_eq_bind, Option.bind_some] at noVariable
    split at noVariable
    · simp at noVariable
    · next notPassed => exact noInput_of_filter notPassed called
  · intro parts rewritten named
    simp only [toVariable?, rewritten, Option.bind_eq_bind, Option.bind_some] at noVariable
    split at noVariable
    · simp at noVariable
    · simp [Table.has_iff_mem_keys.mpr named] at noVariable

/-- A reference outside the context resolves by exactly one of the rules. -/
theorem resolution_of_resolve? (nonempty : ∀ name ∈ Table.keys terms, name.path ≠ [])
    {module : ModuleName} {reference : Reference}
    (resolved : resolve? terms module reference = some dependency) :
    Resolution (Table.keys terms) (target module reference) dependency := by
  rw [resolve?] at resolved
  split at resolved
  · simp at resolved
  · have same := Option.some.inj resolved
    subst same
    cases atTerm : toTerm? terms (target module reference) with
    | some dependency => exact resolution_of_toTerm? nonempty atTerm
    | none =>
        have noTerm : ¬HasStart (Table.keys terms) (target module reference) :=
          NameTable.longestStart?_eq_none nonempty (Option.map_eq_none_iff.mp atTerm)
        cases atOutput : toOutput? terms (target module reference) with
        | some dependency => exact resolution_of_toOutput? nonempty noTerm atOutput
        | none =>
            cases atVariable : toVariable? terms (target module reference) with
            | some dependency => exact resolution_of_toVariable? noTerm atVariable
            | none => exact resolution_of_none nonempty noTerm atOutput atVariable

theorem exists_resolve? (terms : NameTable Term) (module : ModuleName) {reference : Reference}
    (outside : reference.root ∉ contextRoots) :
    ∃ dependency, resolve? terms module reference = some dependency := by
  rw [resolve?, if_neg (by simpa using outside)]
  exact ⟨_, rfl⟩

theorem not_mem_contextRoots_of_resolve? {module : ModuleName} {reference : Reference}
    (resolved : resolve? terms module reference = some dependency) :
    reference.root ∉ contextRoots := by
  intro inside
  rw [resolve?, if_pos (by simpa using inside)] at resolved
  cases resolved

/-- A reference resolves alike where the terms of its module and of those that it calls are
the same, and the same variables are passed to its module. -/
theorem resolve?_congr {left right : NameTable Term} {module : ModuleName}
    (own : ∀ path, Table.find? ⟨module, path⟩ left = Table.find? ⟨module, path⟩ right)
    (called : ∀ call path, Table.find? ⟨module ++ [call], path⟩ left =
      Table.find? ⟨module ++ [call], path⟩ right)
    (passed : ∀ declared input, FullName.asModuleInput? ⟨module, ["var", declared]⟩ = some input →
      Table.has input left = Table.has input right) (reference : Reference) :
    resolve? left module reference = resolve? right module reference := by
  have atTerm : toTerm? left (target module reference) =
      toTerm? right (target module reference) := by
    rw [toTerm?, toTerm?, NameTable.longestStart?_congr own]
  have atOutput : toOutput? left (target module reference) =
      toOutput? right (target module reference) := by
    rw [toOutput?, toOutput?]
    refine Option.bind_congr fun output rewritten => ?_
    rcases FullName.asModuleOutput?_eq_some rewritten with ⟨call, first, rest, _, same⟩
    subst same
    rw [NameTable.longestStart?_congr (called call)]
  have atVariable : toVariable? left (target module reference) =
      toVariable? right (target module reference) := by
    rw [toVariable?, toVariable?]
    refine Option.bind_congr fun parts rewritten => ?_
    rcases FullName.asVariable?_eq_some rewritten with ⟨declared, trailing, _, same⟩
    subst same
    have input : (FullName.asModuleInput? ⟨module, ["var", declared]⟩).filter
          (fun input => Table.has input left) =
        (FullName.asModuleInput? ⟨module, ["var", declared]⟩).filter
          (fun input => Table.has input right) := by
      cases called : FullName.asModuleInput? ⟨module, ["var", declared]⟩ with
      | none => rfl
      | some input => rw [Option.filter_some, Option.filter_some, passed declared input called]
    have definition : Table.has ⟨module, ["variable", declared]⟩ left =
        Table.has ⟨module, ["variable", declared]⟩ right := by
      rw [Table.has, Table.has, own]
    simp only [target, input, definition]
    rfl
  rw [resolve?, resolve?]
  dsimp only
  rw [atTerm, atOutput, atVariable]

end Dependency

/-! ## What every resolution gives -/

namespace Resolution

variable {names : List FullName} {wanted : FullName} {dependency : Dependency}

theorem sameModule (resolution : Resolution names wanted dependency) :
    dependency.destination.module = wanted.module := by
  cases resolution with
  | term longest => exact longest.sameModule
  | output => rfl
  | input _ rewritten =>
      rcases FullName.asVariable?_eq_some rewritten with ⟨declared, trailing, _, same⟩
      rw [same]
  | definition _ rewritten =>
      rcases FullName.asVariable?_eq_some rewritten with ⟨declared, trailing, _, same⟩
      rw [same]
  | missing => rfl

/-- Where an output of a called module appears in the calling module. -/
theorem output_destination (nonempty : ∀ name ∈ names, name.path ≠ []) {output found : FullName}
    (rewritten : wanted.asModuleOutput? = some output)
    (longest : IsLongestStart names output found) :
    ∃ call tail, found.path = "output" :: tail ∧ found.module = wanted.module ++ [call] ∧
      wanted.path.take 2 ++ found.path.drop 1 = "module" :: call :: tail ∧
      "module" :: call :: tail <+: wanted.path := by
  rcases FullName.asModuleOutput?_eq_some rewritten with ⟨call, first, rest, shape, same⟩
  subst same
  have start := longest.start
  cases atPath : found.path with
  | nil => exact absurd atPath (nonempty found longest.named)
  | cons head tail =>
      rw [atPath] at start
      rcases List.cons_prefix_cons.mp start with ⟨same, start⟩
      subst same
      refine ⟨call, tail, rfl, longest.sameModule, by simp [shape], ?_⟩
      rw [shape]
      simpa using start

theorem destination_prefix (nonempty : ∀ name ∈ names, name.path ≠ [])
    (resolution : Resolution names wanted dependency) :
    dependency.destination.path <+: wanted.path := by
  cases resolution with
  | term longest => exact longest.start
  | output _ rewritten longest =>
      rcases output_destination nonempty rewritten longest with
        ⟨call, tail, _, _, destination, start⟩
      exact destination ▸ start
  | input _ rewritten =>
      rcases FullName.asVariable?_eq_some rewritten with ⟨declared, trailing, shape, same⟩
      simp [same, shape]
  | definition _ rewritten =>
      rcases FullName.asVariable?_eq_some rewritten with ⟨declared, trailing, shape, same⟩
      simp [same, shape]
  | missing => exact List.prefix_rfl

/-- What is brought from elsewhere is an output, an input or a variable, and no resource. -/
theorem source_head (nonempty : ∀ name ∈ names, name.path ≠ [])
    (resolution : Resolution names wanted dependency) {source : FullName}
    (produced : dependency.source? = some source) (remapped : dependency.isRemapped = true) :
    ∃ head rest, source.path = head :: rest ∧ head ∈ FullName.nonResourceHeads := by
  cases resolution with
  | term => simp [Dependency.isRemapped, Dependency.source?] at remapped
  | output _ rewritten longest =>
      rcases output_destination nonempty rewritten longest with ⟨call, tail, path, _⟩
      exact ⟨"output", _, by rw [← Option.some.inj produced, path], by decide⟩
  | input _ _ called =>
      rcases FullName.asModuleInput?_eq_some called with ⟨call, declared, trailing, _, _, same⟩
      exact ⟨"input", _, by rw [← Option.some.inj produced, same], by decide⟩
  | definition _ rewritten =>
      rcases FullName.asVariable?_eq_some rewritten with ⟨declared, trailing, _, same⟩
      exact ⟨"variable", _, by rw [← Option.some.inj produced, same], by decide⟩
  | missing => cases produced

theorem source_named (resolution : Resolution names wanted dependency) {source : FullName}
    (produced : dependency.source? = some source) : source ∈ names := by
  cases resolution with
  | term longest => exact Option.some.inj produced ▸ longest.named
  | output _ _ longest => exact Option.some.inj produced ▸ longest.named
  | input _ _ _ named => exact Option.some.inj produced ▸ named
  | definition _ _ _ named => exact Option.some.inj produced ▸ named
  | missing => cases produced

theorem source_longest (resolution : Resolution names wanted dependency) {source : FullName}
    (produced : dependency.source? = some source) (hasStart : HasStart names wanted) :
    IsLongestStart names wanted source := by
  cases resolution with
  | term longest => exact Option.some.inj produced ▸ longest
  | output noTerm => exact absurd hasStart noTerm
  | input noTerm => exact absurd hasStart noTerm
  | definition noTerm => exact absurd hasStart noTerm
  | missing noTerm => exact absurd hasStart noTerm

theorem eq_missing (resolution : Resolution names wanted dependency)
    (unproduced : dependency.source? = none) : dependency = .missing wanted := by
  cases resolution with
  | missing => rfl
  | _ => cases unproduced

/-- Only names of its own module, of the modules that it calls and of its inputs count for
what a reference gets. -/
theorem filter (resolution : Resolution names wanted dependency) {keep : FullName → Bool}
    (own : ∀ name ∈ names, name.module = wanted.module → keep name = true)
    (called : ∀ output, wanted.asModuleOutput? = some output →
      ∀ name ∈ names, name.module = output.module → keep name = true)
    (passed : ∀ declared input,
      FullName.asModuleInput? ⟨wanted.module, ["var", declared]⟩ = some input →
        keep input = true) :
    Resolution (names.filter keep) wanted dependency := by
  cases resolution with
  | term longest => exact .term (longest.filter own)
  | output noTerm rewritten longest =>
      exact .output (fun hasStart => noTerm hasStart.of_filter) rewritten
        (longest.filter (called _ rewritten))
  | @input parts input noTerm rewritten given named =>
      rcases FullName.asVariable?_eq_some rewritten with ⟨declared, _, _, same⟩
      subst same
      exact .input (fun hasStart => noTerm hasStart.of_filter) rewritten given
        (List.mem_filter.mpr ⟨named, passed declared input given⟩)
  | definition noTerm rewritten noInput named =>
      refine .definition (fun hasStart => noTerm hasStart.of_filter) rewritten
        (fun input given listed => noInput input given (List.mem_filter.mp listed).1) ?_
      rcases FullName.asVariable?_eq_some rewritten with ⟨declared, _, _, same⟩
      subst same
      exact List.mem_filter.mpr ⟨named, own _ named rfl⟩
  | missing noTerm noOutput noInput noDefinition =>
      exact .missing (fun hasStart => noTerm hasStart.of_filter)
        (fun output rewritten hasStart => noOutput output rewritten hasStart.of_filter)
        (fun parts split input given listed =>
          noInput parts split input given (List.mem_filter.mp listed).1)
        fun parts split listed => noDefinition parts split (List.mem_filter.mp listed).1

end Resolution

end Groundplan
