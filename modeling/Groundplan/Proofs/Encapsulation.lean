import Groundplan.Proofs.Instances
import Groundplan.Proofs.Patches
import Groundplan.Proofs.SharedCalls
/-!
Encapsulation of modules. Two evaluations whose trees share a call, with the same values
for its inputs, give the same values to all terms below it, if nothing else can be taken
for these terms and the attributes that others read of resources are the same as far as these
terms can tell.
-/

namespace Groundplan

open EvaluationState (run)
open FullName (Inner)

namespace Analysis

/-- Whether the terms below a call and its inputs cannot be taken for others. -/
structure Isolates (analysis : Analysis) (caller : ModuleName) (call : String) : Prop where
  standsOut : ∀ name ∈ analysis.names, Inner caller call name → analysis.StandsOut name
  wellScoped : ∀ name ∈ analysis.names, caller ++ [call] <+: name.module →
    analysis.WellScoped name.module

instance (analysis : Analysis) (caller : ModuleName) (call : String) :
    Decidable (analysis.Isolates caller call) :=
  decidable_of_iff
    ((∀ name ∈ analysis.names, Inner caller call name → analysis.StandsOut name) ∧
      ∀ name ∈ analysis.names, caller ++ [call] <+: name.module →
        analysis.WellScoped name.module)
    ⟨fun parts => ⟨parts.1, parts.2⟩, fun isolates => ⟨isolates.standsOut, isolates.wellScoped⟩⟩

/-- Whether two trees record the same attributes of a term, as far as a path can tell. -/
def RecordsAlike (left right : Analysis) (name : FullName) (path : LocalName) : Prop :=
  (PhantomAttributes.ofTerms left.terms).seen name path =
    (PhantomAttributes.ofTerms right.terms).seen name path

instance (left right : Analysis) (name : FullName) (path : LocalName) :
    Decidable (left.RecordsAlike right name path) :=
  inferInstanceAs (Decidable (_ = _))

/-- Whether the same attributes are recorded of each term that a reference below a call leads to
in its module, as far as the rest of the reference can tell. -/
def ReadsSameAttributes (left right : Analysis) (caller : ModuleName) (call : String) : Prop :=
  ∀ entry ∈ left.terms, caller ++ [call] <+: entry.1.module →
    ∀ wanted ∈ entry.2.dependencies.map (Dependency.target entry.1.module),
      ∀ found ∈ NameTable.longestStart? left.terms wanted,
        left.RecordsAlike right found.1 (wanted.path.drop found.1.path.length)

instance (left right : Analysis) (caller : ModuleName) (call : String) :
    Decidable (left.ReadsSameAttributes right caller call) :=
  inferInstanceAs (Decidable (∀ entry ∈ left.terms, caller ++ [call] <+: entry.1.module →
    ∀ wanted ∈ entry.2.dependencies.map (Dependency.target entry.1.module),
      ∀ found ∈ NameTable.longestStart? left.terms wanted,
        left.RecordsAlike right found.1 (wanted.path.drop found.1.path.length)))

variable {left right : ModuleTree} {caller : ModuleName} {call : String} {name : FullName}

/-! ## One tree -/

/-- The names below an isolated call are not starts of each other. -/
theorem Isolates.prefixFree (isolates : (ofTree left).Isolates caller call) :
    PrefixFree ((ofTree left).names.filter fun given => Inner caller call given) := by
  intro given member other otherMember sameModule start
  rcases List.mem_filter.mp member with ⟨named, _⟩
  rcases List.mem_filter.mp otherMember with ⟨otherNamed, inner⟩
  have standsOut := isolates.standsOut other otherNamed (of_decide_eq_true inner)
  by_cases same : given = other
  · exact same
  · exact absurd start (standsOut.apart given named sameModule same).1

theorem Isolates.spares (isolates : (ofTree left).Isolates caller call)
    (below : caller ++ [call] <+: name.module) {dependency : Dependency} {source : FullName}
    (member : dependency ∈ (ofTree left).dependenciesFor name)
    (produced : dependency.source? = some source) : (ofTree left).Spares name dependency :=
  spares_of_resolution
    (fun given kept => shapes left given (List.mem_filter.mp kept).1) isolates.prefixFree
    (fun _ listed => exists_inner_wanted below listed) member produced

/-- The term of an isolated call that stands at a start of a name is the one that the name
leads to. -/
theorem Isolates.longestStart?_eq (isolates : (ofTree left).Isolates caller call)
    (named : name ∈ (ofTree left).names) (inner : Inner caller call name) (wanted : FullName)
    (sameModule : name.module = wanted.module) (start : name.path <+: wanted.path) :
    ∃ term, NameTable.longestStart? (ofTree left).terms wanted = some (name, term) := by
  cases selected : NameTable.longestStart? (ofTree left).terms wanted with
  | none =>
      exact absurd ⟨name, named, sameModule, start⟩
        (NameTable.longestStart?_eq_none (paths_ne_nil left) selected)
  | some entry =>
      have longest := NameTable.longestStart?_eq_some (paths_ne_nil left) selected
      refine ⟨entry.2, ?_⟩
      by_cases same : entry.1 = name
      · rw [← same]
      · have apart := (isolates.standsOut name named inner).apart entry.1 longest.named
          (longest.sameModule.trans sameModule.symm) same
        exact absurd (longest.longest name named sameModule start) apart.2

/-- A resource that is recorded as an object is recorded with its fields in order. -/
theorem StandsOut.isTable_of_recorded {schedule : Schedule}
    (standsOut : (ofTree left).StandsOut name) (scheduled : (ofTree left).schedule = .ok schedule)
    (listed : name ∈ schedule.order) {head : String} {rest : LocalName}
    (path : name.path = head :: rest) (canName : head ∉ FullName.nonResourceHeads) {value : Value}
    (recorded : Table.find? name.text
      (run (ofTree left) Expression.evaluateIn .empty schedule.order).values = some value)
    (isObject : value.isObject = true) : value.IsTable := by
  rcases exists_term (mem_names_of_mem_order scheduled listed) with ⟨term, found⟩
  rcases List.append_of_mem listed with ⟨before, after, split⟩
  have isBlock : term.IsBlock := by
    rw [find?_terms] at found
    rcases Option.bind_eq_some_iff.mp found with ⟨module, _, own⟩
    exact ModuleTree.isBlock_of_find?_ownTerms own path canName
  rw [standsOut.find?_values _ scheduled split found, Option.some.injEq] at recorded
  subst recorded
  exact isBlock.isTable_evaluate isObject

/-! ## Two passes -/

/-- No attributes are recorded of what is no resource. -/
theorem recordsAlike_of_head {head : String} {rest : LocalName} (path : name.path = head :: rest)
    (noResource : head ∈ FullName.nonResourceHeads) (along : LocalName) :
    (ofTree left).RecordsAlike (ofTree right) name along := by
  have nothing (terms : NameTable Term) := PhantomAttributes.seen_eq_nil
    (PhantomAttributes.of_ofTerms_eq_nil terms path noResource) along
  exact (nothing _).trans (nothing _).symm

/-- Whether the passes over two trees record the same for a term. -/
def SameValue (left right : ModuleTree) (first second : Schedule) (name : FullName) : Prop :=
  Table.find? name.text (run (ofTree left) Expression.evaluateIn .empty first.order).values =
    Table.find? name.text (run (ofTree right) Expression.evaluateIn .empty second.order).values

/-- Schedules of two trees that share a call, with the conditions under which the terms below
it have the same values in both. -/
structure Counterparts (left right : ModuleTree) (caller : ModuleName) (call : String)
    (first second : Schedule) : Prop where
  shares : SharesCall left right caller call
  leftIsolates : (ofTree left).Isolates caller call
  rightIsolates : (ofTree right).Isolates caller call
  sameAttributes : (ofTree left).ReadsSameAttributes (ofTree right) caller call
  leftScheduled : (ofTree left).schedule = .ok first
  rightScheduled : (ofTree right).schedule = .ok second

namespace Counterparts

variable {first second : Schedule} (parts : Counterparts left right caller call first second)
include parts

/-- The patches of what is recorded for a term are the same along a path that tells the same
attributes. -/
theorem sameAlong_patch (named : name ∈ (ofTree left).names) (inner : Inner caller call name)
    (listed : name ∈ first.order) {value : Value}
    (recorded : Table.find? name.text
      (run (ofTree left) Expression.evaluateIn .empty first.order).values = some value)
    {rest : LocalName}
    (alike : (ofTree left).RecordsAlike (ofTree right) name rest) :
    Value.SameAlong rest ((PhantomAttributes.ofTerms (ofTree left).terms).patch name value)
      ((PhantomAttributes.ofTerms (ofTree right).terms).patch name value) := by
  have standsOut := parts.leftIsolates.standsOut name named inner
  cases path : name.path with
  | nil => exact absurd path (paths_ne_nil left name named)
  | cons head others =>
      -- What is no resource has no recorded attributes, and its fields need not be in order.
      by_cases noResource : head ∈ FullName.nonResourceHeads
      · have whole : (ofTree left).RecordsAlike (ofTree right) name [] :=
          recordsAlike_of_head path noResource []
        exact .agree (PhantomAttributes.patch_eq_of_of_eq whole value ▸ .same)
      · exact PhantomAttributes.sameAlong_patch
          (standsOut.isTable_of_recorded parts.leftScheduled listed path noResource recorded) alike

/-- What both passes have evaluated to the same value, or not yet, is the same in both along a
path that tells the same attributes. -/
theorem sameAlong {leftBefore leftAfter rightBefore rightAfter : List FullName}
    (leftSplit : first.order = leftBefore ++ leftAfter)
    (rightSplit : second.order = rightBefore ++ rightAfter)
    (named : name ∈ (ofTree left).names) (inner : Inner caller call name)
    (together : name ∈ leftBefore ↔ name ∈ rightBefore)
    (same : name ∈ leftBefore → SameValue left right first second name) {rest : LocalName}
    (alike : (ofTree left).RecordsAlike (ofTree right) name rest) :
    Value.SameAlong (name.path ++ rest)
      ((run (ofTree left) Expression.evaluateIn .empty leftBefore).tree name.module)
      ((run (ofTree right) Expression.evaluateIn .empty rightBefore).tree name.module) := by
  have rightNamed := (parts.shares.mem_names_iff inner).mp named
  have leftOut := parts.leftIsolates.standsOut name named inner
  have rightOut := parts.rightIsolates.standsOut name rightNamed inner
  by_cases listed : name ∈ leftBefore
  · rcases leftOut.exists_at? Expression.evaluateIn parts.leftScheduled named leftSplit listed
      with ⟨value, recorded, inLeft⟩
    rcases rightOut.exists_at? Expression.evaluateIn parts.rightScheduled rightNamed rightSplit
      (together.mp listed) with ⟨other, otherRecorded, inRight⟩
    have equal := recorded.symm.trans ((same listed).trans otherRecorded)
    cases equal
    exact .of_at? inLeft inRight
      (parts.sameAlong_patch named inner (by simp [leftSplit, listed]) recorded alike)
  · have leftBlocked := leftOut.blocked Expression.evaluateIn named
      (fun other member =>
        mem_names_of_mem_order parts.leftScheduled (by simp [leftSplit, member])) listed
    have rightBlocked := rightOut.blocked Expression.evaluateIn rightNamed
      (fun other member =>
        mem_names_of_mem_order parts.rightScheduled (by simp [rightSplit, member]))
      fun member => listed (together.mpr member)
    exact .nothing (leftBlocked.append rest) (rightBlocked.append rest)

section Turn

variable {leftBefore leftAfter rightBefore rightAfter : List FullName}
  (leftSplit : first.order = leftBefore ++ name :: leftAfter)
  (rightSplit : second.order = rightBefore ++ name :: rightAfter)
  (below : caller ++ [call] <+: name.module)
include leftSplit rightSplit below

/-- At the turn of a term both passes have evaluated the same of its sources. -/
theorem source_mem_before_iff {dependency : Dependency} {source : FullName}
    (member : dependency ∈ (ofTree left).dependenciesFor name)
    (produced : dependency.source? = some source) :
    source ∈ leftBefore ↔ source ∈ rightBefore := by
  have named : name ∈ (ofTree left).names :=
    mem_names_of_mem_order parts.leftScheduled (by simp [leftSplit])
  have rightNamed := (parts.shares.mem_names_iff (.below below)).mp named
  have leftAlone := (parts.leftIsolates.standsOut name named (.below below)).alone
  have rightAlone := (parts.rightIsolates.standsOut name rightNamed (.below below)).alone
  have sourceNamed := source_mem_names member produced
  have sourceInner := inner_of_source below member produced
  by_cases same : source = name
  · rw [same]
    exact iff_of_false (leftAlone.not_mem_of_split parts.leftScheduled leftSplit).1
      (rightAlone.not_mem_of_split parts.rightScheduled rightSplit).1
  · constructor
    · intro listed
      have reads := (mem_order_iff parts.leftScheduled sourceNamed).mp
        (by simp [leftSplit, listed])
      exact rightAlone.source_mem_before parts.rightScheduled rightSplit
        (parts.shares.dependenciesFor_eq below ▸ member) produced same reads
    · intro listed
      have reads := (mem_order_iff parts.rightScheduled
        ((parts.shares.mem_names_iff sourceInner).mp sourceNamed)).mp
          (by simp [rightSplit, listed])
      exact leftAlone.source_mem_before parts.leftScheduled leftSplit member produced same reads

variable (same : ∀ source ∈ leftBefore, Inner caller call source →
  SameValue left right first second source)
include same

/-- At the turn of a term its source is the same in both passes along a path that tells the same
attributes. -/
theorem sameAlong_source {dependency : Dependency} {source : FullName}
    (member : dependency ∈ (ofTree left).dependenciesFor name)
    (produced : dependency.source? = some source) {rest : LocalName}
    (alike : (ofTree left).RecordsAlike (ofTree right) source rest) :
    Value.SameAlong (source.path ++ rest)
      ((run (ofTree left) Expression.evaluateIn .empty leftBefore).tree source.module)
      ((run (ofTree right) Expression.evaluateIn .empty rightBefore).tree source.module) := by
  have inner := inner_of_source below member produced
  exact parts.sameAlong leftSplit rightSplit (source_mem_names member produced) inner
    (parts.source_mem_before_iff leftSplit rightSplit below member produced)
    (fun listed => same source listed inner) alike

/-- A source of the own module is the same in both passes along a reference to it. -/
theorem sameAlong_own {term : Term} (found : Table.find? name (ofTree left).terms = some term)
    {reference : Reference} (read : reference ∈ term.reads) {dependency : Dependency}
    (member : dependency ∈ (ofTree left).dependenciesFor name)
    (own : dependency.isRemapped = false)
    (start : dependency.destination.path <+: (Accessor.splitKeys reference.accessor).1) :
    Value.SameAlong (Accessor.splitKeys reference.accessor).1
      ((run (ofTree left) Expression.evaluateIn .empty leftBefore).tree name.module)
      ((run (ofTree right) Expression.evaluateIn .empty rightBefore).tree name.module) := by
  have produced : dependency.source? = some dependency.destination := by
    simpa [Dependency.isRemapped] using own
  have sourceNamed := source_mem_names member produced
  have sameModule : dependency.destination.module = name.module := destination_module member
  have inner := inner_of_source below member produced
  have named : name ∈ (ofTree left).names :=
    mem_names_of_mem_order parts.leftScheduled (by simp [leftSplit])
  have head : dependency.destination.path.head? = some reference.root := by
    rcases exists_destination_head member produced with ⟨key, rest, path, _⟩
    rw [(Term.rooted_of_mem_reads term read).keys_eq, path] at start
    rw [path, List.head?_cons, (List.cons_prefix_cons.mp start).1]
  have depends := (parts.leftIsolates.wellScoped name named below).mem_dependencies found read
    sourceNamed sameModule head
  rcases parts.leftIsolates.longestStart?_eq sourceNamed inner
    (Dependency.target name.module reference) sameModule start with ⟨_, leads⟩
  have alike := parts.sameAttributes (name, term) (Table.mem_of_find? found) below
    _ (List.mem_map_of_mem depends) _ leads
  rcases start with ⟨rest, keys⟩
  rw [Dependency.target, ← keys, List.drop_left] at alike
  rw [← keys, ← sameModule]
  exact parts.sameAlong_source leftSplit rightSplit below same member produced alike

/-- The two passes are aligned at the turn of a term if its sources have the same values. -/
theorem aligned :
    Aligned (ofTree left) (ofTree right) name
      (run (ofTree left) Expression.evaluateIn .empty leftBefore)
      (run (ofTree right) Expression.evaluateIn .empty rightBefore) := by
  have leftNamed : ∀ other ∈ leftBefore, other ∈ (ofTree left).names := fun other member =>
    mem_names_of_mem_order parts.leftScheduled (by simp [leftSplit, member])
  have rightNamed : ∀ other ∈ rightBefore, other ∈ (ofTree right).names := fun other member =>
    mem_names_of_mem_order parts.rightScheduled (by simp [rightSplit, member])
  refine ⟨parts.shares.dependenciesFor_eq below, ?context, ?firstTable, ?secondTable, ?sources,
    ?own, ?vacant, ?spares⟩
  case context =>
    rw [EvaluationState.context, EvaluationState.context,
      parts.shares.directories name.module below]
  case firstTable =>
    exact EvaluationState.isTable_run
      (fun other member => paths_ne_nil left other (leftNamed other member))
      (EvaluationState.isTable_empty _)
  case secondTable =>
    exact EvaluationState.isTable_run
      (fun other member => paths_ne_nil right other (rightNamed other member))
      (EvaluationState.isTable_empty _)
  case sources =>
    intro dependency member remapped source produced
    rcases exists_wanted member with ⟨_, _, resolution, _⟩
    rcases resolution.source_head (paths_ne_nil left) produced remapped with
      ⟨head, rest, path, noResource⟩
    have whole := parts.sameAlong_source leftSplit rightSplit below same member produced
      (recordsAlike_of_head path noResource [])
    rwa [List.append_nil] at whole
  case own =>
    intro term found reference read dependency member own start
    exact parts.sameAlong_own leftSplit rightSplit below same found read member own start
  case vacant =>
    intro path nonempty apart
    constructor
    · exact (EvaluationState.blocked_run_empty _ _ nonempty fun other member =>
        apart other (leftNamed other member)).at?
    · refine (EvaluationState.blocked_run_empty _ _ nonempty fun other member sameModule => ?_).at?
      have inner : Inner caller call other := .below (sameModule ▸ below)
      exact apart other ((parts.shares.mem_names_iff inner).mpr (rightNamed other member))
        sameModule
  case spares =>
    exact fun dependency member source produced => parts.leftIsolates.spares below member produced

/-- A step gives a term the same value in both passes. -/
theorem sameValue_of_turn : SameValue left right first second name := by
  have named : name ∈ (ofTree left).names :=
    mem_names_of_mem_order parts.leftScheduled (by simp [leftSplit])
  have rightNamed := (parts.shares.mem_names_iff (.below below)).mp named
  rcases exists_term named with ⟨term, found⟩
  have rightFound := (parts.shares.find?_terms_eq below).symm.trans found
  rw [SameValue,
    (parts.leftIsolates.standsOut name named (.below below)).find?_values _ parts.leftScheduled
      leftSplit found,
    (parts.rightIsolates.standsOut name rightNamed (.below below)).find?_values _
      parts.rightScheduled rightSplit rightFound,
    (parts.aligned leftSplit rightSplit below same).value_eq
      (parts.leftIsolates.wellScoped name named below) found rightFound]

end Turn

/-- Where the inputs have the same values, all terms below the call that come up to some point
of the first pass have the same values too. -/
theorem sameValue_of_mem
    (sameInputs : ∀ argument, ⟨caller, ["input", call, argument]⟩ ∈ (ofTree left).names →
      SameValue left right first second ⟨caller, ["input", call, argument]⟩)
    {before after : List FullName} (split : first.order = before ++ after)
    (same : ∀ source ∈ before, Inner caller call source →
      SameValue left right first second source) :
    ∀ source ∈ first.order, Inner caller call source →
      SameValue left right first second source := by
  induction after generalizing before with
  | nil => rwa [split, List.append_nil]
  | cons next rest induction =>
      apply induction (split.trans (List.append_cons before next rest))
      intro source listed inner
      rcases List.mem_append.mp listed with earlier | atTurn
      · exact same source earlier inner
      · have isNext := List.mem_singleton.mp atTurn
        subst isNext
        have named : source ∈ (ofTree left).names :=
          mem_names_of_mem_order parts.leftScheduled (by simp [split])
        cases inner with
        | input argument => exact sameInputs argument named
        | below below =>
            have reads := (mem_order_iff parts.leftScheduled named).mp (by simp [split])
            have rightNamed := (parts.shares.mem_names_iff (.below below)).mp named
            have inRight := (mem_order_iff parts.rightScheduled rightNamed).mpr reads
            rcases List.append_of_mem inRight with ⟨rightBefore, rightAfter, rightSplit⟩
            exact parts.sameValue_of_turn split rightSplit below same

end Counterparts

end Analysis

/-! ## Trees that share a call -/

/-- The content of a module of one file. -/
def ModuleContent.ofText (path text : String) : ModuleContent :=
  match Body.read? text with
  | some body => ModuleContent.empty.addFile ⟨path, text⟩ body
  | none => .empty

namespace ModuleTree

/-- A module that calls no other. -/
def leaf (content : ModuleContent) : ModuleTree :=
  ⟨⟨"/r/a", ["/r/a/main.tf"], none⟩, content, [], [], []⟩

/-- A root module whose calls all load the same module. -/
def calling (content : ModuleContent) (child : ModuleTree) : ModuleTree :=
  ⟨⟨"/r", ["/r/main.tf"], none⟩, content, content.calls.map fun call => (call, .loaded child),
    [], []⟩

theorem at?_calling {content : ModuleContent} {call : String} (child : ModuleTree)
    (called : call ∈ content.calls.map ModuleCall.name) :
    (calling content child).at? [call] = some child := by
  have entries : loadedCalls (calling content child).calls =
      content.calls.map fun made => (made.name, child) := by
    simp only [loadedCalls, calling, List.filterMap_map, Function.comp_def,
      List.filterMap_eq_map']
  rcases List.mem_map.mp called with ⟨made, member, named⟩
  have listed : call ∈ Table.keys (calling content child).children := by
    rw [children_eq, entries, Table.mem_keys_ofList]
    exact ⟨child, List.mem_map.mpr ⟨made, member, by rw [named]⟩⟩
  rcases Table.exists_find?_of_mem_keys listed with ⟨loaded, found⟩
  have entry := Table.mem_of_find? found
  rw [children_eq, entries] at entry
  rcases List.mem_map.mp (Table.mem_of_mem_ofList entry) with ⟨_, _, same⟩
  rw [at?, found, ← (Prod.mk.inj same).2]
  rfl

end ModuleTree

/-- Whether two values are there and are the same text. -/
def Value.sameText : Option Value → Option Value → Bool
  | some (.string left), some (.string right) => left = right
  | _, _ => false

theorem Value.eq_of_sameText {left right : Option Value} (same : sameText left right = true) :
    left = right := by
  unfold sameText at same
  split at same
  · rw [of_decide_eq_true same]
  · cases same

namespace Analysis

/-- Two root modules that call the same module, a term of that module, and a part of its
value. -/
structure Scenario where
  child : ModuleContent
  left : ModuleContent
  right : ModuleContent
  call : String
  reader : LocalName
  part : Accessor

namespace Scenario

def leftTree (scenario : Scenario) : ModuleTree := .calling scenario.left (.leaf scenario.child)

def rightTree (scenario : Scenario) : ModuleTree := .calling scenario.right (.leaf scenario.child)

def inputsOf (scenario : Scenario) (tree : ModuleTree) : List FullName :=
  (ofTree tree).names.filter fun name => name.module = [] ∧ Inner [] scenario.call name

/-- Whether both trees have the call, with the same texts for its inputs. -/
def sharesInputs (scenario : Scenario) (first second : EvaluationState) : Bool :=
  scenario.call ∈ scenario.left.calls.map ModuleCall.name &&
  scenario.call ∈ scenario.right.calls.map ModuleCall.name &&
  scenario.inputsOf scenario.leftTree = scenario.inputsOf scenario.rightTree &&
  (scenario.inputsOf scenario.leftTree).all fun name =>
    Value.sameText (Table.find? name.text first.values) (Table.find? name.text second.values)

section

variable {scenario : Scenario} {first second : EvaluationState}
  (shared : scenario.sharesInputs first second = true)
include shared

theorem sharesCall : SharesCall scenario.leftTree scenario.rightTree [] scenario.call := by
  simp only [sharesInputs, Bool.and_eq_true, decide_eq_true_eq] at shared
  rcases shared with ⟨⟨⟨inLeft, inRight⟩, same⟩, _⟩
  apply SharesCall.of_at?_eq
  · rw [List.nil_append]
    exact (ModuleTree.at?_calling _ inLeft).trans (ModuleTree.at?_calling _ inRight).symm
  · rfl
  · intro argument
    have isInput : ∀ tree, ⟨[], ["input", scenario.call, argument]⟩ ∈ scenario.inputsOf tree ↔
        ⟨[], ["input", scenario.call, argument]⟩ ∈ (ofTree tree).names := fun tree => by
      simp [inputsOf, Inner.input]
    rw [← isInput, ← isInput, same]

theorem sameInputs {argument : String}
    (named : ⟨[], ["input", scenario.call, argument]⟩ ∈ (ofTree scenario.leftTree).names) :
    Table.find? (FullName.text ⟨[], ["input", scenario.call, argument]⟩) first.values =
      Table.find? (FullName.text ⟨[], ["input", scenario.call, argument]⟩) second.values := by
  simp only [sharesInputs, Bool.and_eq_true, List.all_eq_true] at shared
  exact Value.eq_of_sameText (shared.2 ⟨[], ["input", scenario.call, argument]⟩
    (List.mem_filter.mpr ⟨named, by simp [Inner.input]⟩))

end

end Scenario

/-- The root module of a text. -/
def rootOf (text : String) : ModuleContent := .ofText "/r/main.tf" text

/-- The called module of a text. -/
def calledOf (text : String) : ModuleContent := .ofText "/r/a/main.tf" text

def earlyText : String := "module \"x\" \x7b\nsource = \"./a\"\nfoo = \"i\"\n\x7d\n"

/-- A call that passes a fixed text. -/
def earlyCall : ModuleContent := rootOf earlyText

def lateText : String :=
  "module \"x\" \x7b\nsource = \"./a\"\nfoo = z.z.v\n\x7d\n" ++
    "resource \"z\" \"z\" \x7b\nv = \"i\"\n\x7d\n"

/-- A call that passes the same text by way of a resource that comes late. -/
def lateCall : ModuleContent := rootOf lateText

/-- A module that is evaluated before its variable is known on the left, and after other things
on the right, which also reads an attribute of its resource that the module does not read. -/
def movedInput : Scenario where
  child := calledOf ("variable \"foo\" \x7b\x7d\n" ++
    "resource \"t\" \"b\" \x7b\nv = var.foo\n\x7d\nlocals \x7b\nk = t.b.v\n\x7d\n")
  left := earlyCall
  right := rootOf (lateText ++ "locals \x7b\np = module.x.t.b.arn\n\x7d\n")
  call := "x"
  reader := ["local", "k"]
  part := []

def earlySchedule : Schedule :=
  ⟨[⟨[], ["input", "x", "foo"]⟩, ⟨["x"], ["t", "b"]⟩, ⟨["x"], ["local", "k"]⟩,
    ⟨["x"], ["variable", "foo"]⟩], []⟩

def lateSchedule : Schedule :=
  ⟨[⟨[], ["local", "p"]⟩, ⟨["x"], ["variable", "foo"]⟩, ⟨[], ["z", "z"]⟩,
    ⟨[], ["input", "x", "foo"]⟩, ⟨["x"], ["t", "b"]⟩, ⟨["x"], ["local", "k"]⟩], []⟩

/-- Whether a term below a shared call has another value in the second tree, although the
inputs of the call have the same values. -/
def Leaks (left right : ModuleTree) (caller : ModuleName) (call : String) : Prop :=
  SharesCall left right caller call ∧
    ∃ leftEvaluation rightEvaluation,
      Evaluation.ofAnalysis Expression.evaluateIn (ofTree left) = .ok leftEvaluation ∧
      Evaluation.ofAnalysis Expression.evaluateIn (ofTree right) = .ok rightEvaluation ∧
      (∀ argument, ⟨caller, ["input", call, argument]⟩ ∈ (ofTree left).names →
        leftEvaluation.value? ⟨caller, ["input", call, argument]⟩ =
          rightEvaluation.value? ⟨caller, ["input", call, argument]⟩) ∧
      ∃ name ∈ (ofTree left).names, caller ++ [call] <+: name.module ∧
        leftEvaluation.value? name ≠ rightEvaluation.value? name

namespace Scenario

/-- The kind of the part of the value of the term. -/
def observed? (scenario : Scenario) (state : EvaluationState) : Option String :=
  (Table.find? (FullName.text ⟨[scenario.call], scenario.reader⟩) state.values).bind fun value =>
    (value.follow? scenario.part).map Value.kind

def leaks (scenario : Scenario) : Bool :=
  match (ofTree scenario.leftTree).schedule, (ofTree scenario.rightTree).schedule with
  | .ok first, .ok second =>
      let left := run (ofTree scenario.leftTree) Expression.evaluateIn .empty first.order
      let right := run (ofTree scenario.rightTree) Expression.evaluateIn .empty second.order
      scenario.sharesInputs left right &&
        ⟨[scenario.call], scenario.reader⟩ ∈ (ofTree scenario.leftTree).names &&
        scenario.observed? left ≠ scenario.observed? right
  | _, _ => false

theorem leaks_of_check {scenario : Scenario} (checked : scenario.leaks = true) :
    Leaks scenario.leftTree scenario.rightTree [] scenario.call := by
  rw [leaks] at checked
  split at checked
  · next first second leftScheduled rightScheduled =>
      simp only [Bool.and_eq_true, decide_eq_true_eq] at checked
      rcases checked with ⟨⟨shared, named⟩, different⟩
      refine ⟨sharesCall shared, _, _,
        Evaluation.ofAnalysis_of_schedule Expression.evaluateIn leftScheduled,
        Evaluation.ofAnalysis_of_schedule Expression.evaluateIn rightScheduled,
        fun _ isInput => sameInputs shared isInput, _, named, by simp, ?_⟩
      intro same
      rw [Evaluation.value?, Evaluation.value?] at same
      rw [observed?, observed?, same] at different
      exact different rfl
  · cases checked

end Scenario

def plainText : String := "module \"x\" \x7b\nsource = \"./a\"\n\x7d\n"

/-- The right tree reads an attribute of a resource of the called module. The resource gets
it as a phantom attribute, which the called module can see. -/
def readAttribute : Scenario where
  child := calledOf ("resource \"t\" \"b\" \x7b\x7d\n" ++
    "locals \x7b\nk = [for a in [\"arn\"] : t.b[a]]\n\x7d\n")
  left := rootOf plainText
  right := rootOf (plainText ++ "locals \x7b\np = module.x.t.b.arn\n\x7d\n")
  call := "x"
  reader := ["local", "k"]
  part := []

/-- Where a called module is not isolated, each for one of the reasons that there can be. On
the right something else of the tree is taken for a term or a variable of the module, or the
order of evaluation tells which of two things counts. -/
def confusions : List Scenario := [
  -- The text of another resource reads back as a term, which runs once more.
  { child := calledOf "resource \"t\" \"b\" \x7b\nv = t.b.w\nw = 1\n\x7d\n"
    left := rootOf plainText
    right := rootOf (plainText ++ "resource \".module\" \"x.t.b\" \x7b\x7d\n")
    call := "x"
    reader := ["t", "b"]
    part := [.key "v"] },
  -- A term that does not read back has the text of a term of another module.
  { child := calledOf "resource \"b\" \"c\" \x7b\x7d\ndata \"b\" \"c\" \x7b\x7d\n"
    left := rootOf "module \"x.data\" \x7b\nsource = \"./a\"\n\x7d\n"
    right := rootOf ("module \"x.data\" \x7b\nsource = \"./a\"\n\x7d\n" ++ plainText)
    call := "x.data"
    reader := ["b", "c"]
    part := [] },
  -- A resource stands above an input, and comes after it.
  { child := calledOf "locals \x7b\nk = var.foo\n\x7d\n"
    left := earlyCall
    right := rootOf (earlyText ++ "locals \x7b\nl = 2\n\x7d\n" ++
      "resource \"input\" \"x\" \x7b\nfoo = local.l\n\x7d\n")
    call := "x"
    reader := ["local", "k"]
    part := [] },
  -- A resource has the name of a variable that every scope has.
  { child := calledOf ("resource \"path\" \"m\" \x7b\nv = var.foo\n\x7d\n" ++
      "resource \"z\" \"r\" \x7b\nq = path.m\n\x7d\n")
    left := earlyCall
    right := lateCall
    call := "x"
    reader := ["z", "r"]
    part := [.key "q"] },
  -- Two types of resources are declared as one variable.
  { child := calledOf ("resource \"a_b\" \"x\" \x7b\x7d\n" ++
      "resource \"a~b\" \"y\" \x7b\nw = var.foo\n\x7d\n" ++
      "resource \"z\" \"n\" \x7b\nq = a_b.x\n\x7d\n")
    left := earlyCall
    right := lateCall
    call := "x"
    reader := ["z", "n"]
    part := [.key "q"] },
  -- An iterator is declared as the variable of a resource that reads itself.
  { child := calledOf ("resource \"a_b\" \"r\" \x7b\nv = var.foo\n\x7d\n" ++
      "resource \"a_b\" \"value\" \x7b\ndynamic \"a$b\" \x7b\nfor_each = [1]\n" ++
      "content \x7b\nw = a_b.value\n\x7d\n\x7d\n\x7d\n")
    left := earlyCall
    right := lateCall
    call := "x"
    reader := ["a_b", "value"]
    part := [.key "a$b", .index 0, .key "w"] }]

/-- Other things reach a called module that is not isolated, although the same attributes are
read of its resources. -/
theorem leaks_of_mem_confusions : ∀ scenario ∈ confusions,
    (ofTree scenario.leftTree).ReadsSameAttributes (ofTree scenario.rightTree) [] scenario.call ∧
      Leaks scenario.leftTree scenario.rightTree [] scenario.call := by
  have checked : ∀ scenario ∈ confusions,
      (ofTree scenario.leftTree).ReadsSameAttributes (ofTree scenario.rightTree) []
        scenario.call ∧ scenario.leaks := by
    decide +kernel
  exact fun scenario member =>
    ⟨(checked scenario member).1, Scenario.leaks_of_check (checked scenario member).2⟩

end Analysis

end Groundplan
