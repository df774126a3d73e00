import Groundplan.Proofs.Declarations
import Groundplan.Proofs.Materialization
/-!
Configurations of providers. Their terms are named without dots, and two names of
configurations give one term exactly if they are spelled alike: if they are the same once
every underscore is two dots. Names with an alias are spelled alike exactly if they only
differ in where the dot stands among underscores. A configuration that no other one of its
module is spelled like has a term of its own; of several that are spelled alike the last one
has the term of them all, and the records of all their resources tell about it.
-/

namespace Groundplan

namespace FullName

/-- A name with two dots for every underscore. -/
def dots (name : List Char) : List Char :=
  name.flatMap fun c => if c = '_' then ['.', '.'] else [c]

@[simp] theorem dots_nil : dots [] = [] := rfl

@[simp] theorem dots_underscore (rest : List Char) :
    dots ('_' :: rest) = '.' :: '.' :: dots rest := rfl

theorem dots_cons_of_ne {c : Char} (plain : c ≠ '_') (rest : List Char) :
    dots (c :: rest) = c :: dots rest := by
  rw [dots, List.flatMap_cons, if_neg plain]
  rfl

theorem dots_append (first second : List Char) :
    dots (first ++ second) = dots first ++ dots second :=
  List.flatMap_append

/-- Whether two names of configurations are the same once every underscore is two dots. -/
def SpelledAlike (left right : String) : Prop := dots left.toList = dots right.toList

instance (left right : String) : Decidable (SpelledAlike left right) :=
  inferInstanceAs (Decidable (dots left.toList = dots right.toList))

/-- The escaped name has underscores where the dots are. -/
theorem toList_escapeProvider (name : String) :
    (escapeProvider name).toList = (dots name.toList).map fun c => if c = '.' then '_' else c := by
  rw [escapeProvider, String.toList_ofList, dots, List.map_flatMap]
  congr 1
  funext c
  by_cases underscore : c = '_'
  · simp [underscore]
  · by_cases dot : c = '.' <;> simp [underscore, dot]

/-- An escaped name has no dots of its own, so all underscores can be taken for dots. -/
theorem dots_eq_map_escapeProvider (name : String) :
    dots name.toList = (escapeProvider name).toList.map fun c => if c = '_' then '.' else c := by
  rw [escapeProvider, String.toList_ofList, dots, List.map_flatMap]
  congr 1
  funext c
  by_cases underscore : c = '_'
  · simp [underscore]
  · by_cases dot : c = '.' <;> simp [underscore, dot]

theorem escapeProvider_eq_iff {left right : String} :
    escapeProvider left = escapeProvider right ↔ SpelledAlike left right := by
  constructor
  · intro same
    rw [SpelledAlike, dots_eq_map_escapeProvider, dots_eq_map_escapeProvider, same]
  · intro alike
    rw [← String.toList_inj, toList_escapeProvider, toList_escapeProvider, alike]

theorem providerConfig_eq_iff {module home : ModuleName} {left right : String} :
    providerConfig module left = providerConfig home right ↔
      module = home ∧ SpelledAlike left right := by
  rw [← escapeProvider_eq_iff]
  simp [providerConfig]

/-! ## Where the dot stands -/

/-- Plain names give an even number of dots. -/
theorem count_dots {name : List Char} (plain : '.' ∉ name) :
    (dots name).count '.' = 2 * name.count '_' := by
  induction name with
  | nil => rfl
  | cons c rest induction =>
      have counted := induction (List.not_mem_of_not_mem_cons plain)
      by_cases underscore : c = '_'
      · subst underscore
        rw [dots_underscore, List.count_cons_self, List.count_cons_self, List.count_cons_self,
          counted]
        omega
      · have notDot := (List.ne_of_not_mem_cons plain).symm
        rw [dots_cons_of_ne underscore, List.count_cons_of_ne notDot,
          List.count_cons_of_ne underscore, counted]

/-- A dot can be moved over underscores. -/
theorem dots_append_dot {moved : List Char} (underscores : ∀ c ∈ moved, c = '_')
    (rest : List Char) : dots moved ++ '.' :: rest = '.' :: (dots moved ++ rest) := by
  induction moved with
  | nil => rfl
  | cons c others induction =>
      rcases List.forall_mem_cons.mp underscores with ⟨rfl, below⟩
      rw [dots_underscore, List.cons_append, List.cons_append, induction below]
      rfl

theorem eq_nil_of_dots {name : List Char} (nothing : dots name = []) : name = [] := by
  cases name with
  | nil => rfl
  | cons c rest =>
      by_cases underscore : c = '_'
      · subst underscore
        cases nothing
      · rw [dots_cons_of_ne underscore] at nothing
        cases nothing

/-- The first letter of a plain name shows in its dots. -/
theorem cons_inj_of_dots {c d : Char} {long short rest : List Char} (notDot : c ≠ '.')
    (alsoNotDot : d ≠ '.') (same : dots (c :: long) = dots (d :: short) ++ rest) :
    c = d ∧ dots long = dots short ++ rest := by
  by_cases underscore : c = '_' <;> by_cases alsoUnderscore : d = '_'
  · subst underscore alsoUnderscore
    exact ⟨rfl, by simpa using same⟩
  · subst underscore
    rw [dots_cons_of_ne alsoUnderscore] at same
    exact absurd (List.head_eq_of_cons_eq same).symm alsoNotDot
  · subst alsoUnderscore
    rw [dots_cons_of_ne underscore] at same
    exact absurd (List.head_eq_of_cons_eq same) notDot
  · rw [dots_cons_of_ne underscore, dots_cons_of_ne alsoUnderscore, List.cons_append] at same
    exact List.cons_eq_cons.mp same

/-- Two plain names of which one is spelled like the start of the other. -/
theorem exists_append_of_dots {long short : List Char} {rest : List Char} (plain : '.' ∉ long)
    (plainShort : '.' ∉ short) (same : dots long = dots short ++ rest) :
    ∃ tail, long = short ++ tail ∧ rest = dots tail := by
  induction short generalizing long with
  | nil => exact ⟨long, rfl, same.symm⟩
  | cons d others induction =>
      cases long with
      | nil =>
          have nothing := (List.append_eq_nil_iff.mp same.symm).1
          cases eq_nil_of_dots nothing
      | cons c longer =>
          have notDot := (List.ne_of_not_mem_cons plain).symm
          have alsoNotDot := (List.ne_of_not_mem_cons plainShort).symm
          rcases cons_inj_of_dots notDot alsoNotDot same with ⟨rfl, below⟩
          rcases induction (List.not_mem_of_not_mem_cons plain)
            (List.not_mem_of_not_mem_cons plainShort) below with ⟨tail, rfl, found⟩
          exact ⟨tail, rfl, found⟩

theorem eq_of_dots {left right : List Char} (plainLeft : '.' ∉ left) (plainRight : '.' ∉ right)
    (same : dots left = dots right) : left = right := by
  rcases exists_append_of_dots plainLeft plainRight (same.trans (List.append_nil _).symm) with
    ⟨tail, rfl, nothing⟩
  rw [eq_nil_of_dots nothing.symm, List.append_nil]

/-- Only an underscore starts a plain name with a dot. -/
theorem exists_of_dots_eq_dot {name rest : List Char} (plain : '.' ∉ name)
    (starts : dots name = '.' :: rest) :
    ∃ others, name = '_' :: others ∧ rest = '.' :: dots others := by
  cases name with
  | nil => cases starts
  | cons c others =>
      by_cases underscore : c = '_'
      · subst underscore
        exact ⟨others, rfl, (List.tail_eq_of_cons_eq starts).symm⟩
      · rw [dots_cons_of_ne underscore] at starts
        exact absurd (List.head_eq_of_cons_eq starts) (List.ne_of_not_mem_cons plain).symm

/-- A dot can be moved over nothing else. -/
theorem underscores_of_dots {moved first second : List Char} (plainMoved : '.' ∉ moved)
    (plainFirst : '.' ∉ first) (plainSecond : '.' ∉ second)
    (same : '.' :: dots first = dots moved ++ '.' :: dots second) :
    (∀ c ∈ moved, c = '_') ∧ first = moved ++ second := by
  induction moved generalizing first with
  | nil =>
      have whole := eq_of_dots plainFirst plainSecond (List.tail_eq_of_cons_eq same)
      exact ⟨fun c member => absurd member List.not_mem_nil, whole⟩
  | cons c others induction =>
      by_cases underscore : c = '_'
      · subst underscore
        -- The first name goes on with a dot, so it starts with an underscore as well.
        rcases exists_of_dots_eq_dot plainFirst (List.tail_eq_of_cons_eq same) with
          ⟨rest, rfl, below⟩
        rcases induction (List.not_mem_of_not_mem_cons plainMoved)
          (List.not_mem_of_not_mem_cons plainFirst) below.symm with ⟨underscores, rfl⟩
        exact ⟨List.forall_mem_cons.mpr ⟨rfl, underscores⟩, rfl⟩
      · rw [dots_cons_of_ne underscore, List.cons_append] at same
        exact absurd (List.head_eq_of_cons_eq same) (List.ne_of_not_mem_cons plainMoved)

end FullName

/-- The name of a provider configuration: a provider, and an alias if it has one. -/
structure ProviderName where
  provider : String
  extra : Option String

namespace ProviderName

def text (name : ProviderName) : String :=
  match name.extra with
  | some extra => name.provider ++ "." ++ extra
  | none => name.provider

structure Dotless (name : ProviderName) : Prop where
  provider : '.' ∉ name.provider.toList
  extra : ∀ extra, name.extra = some extra → '.' ∉ extra.toList

/-- Whether two names differ in that underscores at the end of the one provider are at the
start of the other alias. -/
inductive Shifts : ProviderName → ProviderName → Prop where
  | past (provider moved extra : String) (underscores : ∀ c ∈ moved.toList, c = '_') :
      Shifts ⟨provider ++ moved, some extra⟩ ⟨provider, some (moved ++ extra)⟩

theorem dots_text (provider : String) (extra : Option String) :
    FullName.dots (text ⟨provider, extra⟩).toList = FullName.dots provider.toList ++
      (extra.map fun extra => '.' :: FullName.dots extra.toList).getD [] := by
  cases extra with
  | none => exact (List.append_nil _).symm
  | some extra =>
      rw [text, String.toList_append, String.toList_append, FullName.dots_append,
        FullName.dots_append, List.append_assoc]
      rfl

theorem Shifts.spelledAlike {left right : ProviderName} (shifts : left.Shifts right) :
    FullName.SpelledAlike left.text right.text := by
  cases shifts with
  | past provider moved extra underscores =>
      rw [FullName.SpelledAlike, dots_text, dots_text, String.toList_append, FullName.dots_append,
        Option.map_some, Option.map_some, Option.getD_some, Option.getD_some,
        String.toList_append, FullName.dots_append, List.append_assoc,
        FullName.dots_append_dot underscores]

/-- An even number of dots tells a name without an alias apart from all names with one. -/
theorem not_spelledAlike_of_alias {provider other extra : String} (plain : '.' ∉ provider.toList)
    (plainOther : '.' ∉ other.toList) (plainExtra : '.' ∉ extra.toList) :
    FullName.dots provider.toList ≠
      FullName.dots other.toList ++ '.' :: FullName.dots extra.toList := by
  intro same
  have counted := congrArg (List.count '.') same
  rw [List.count_append, List.count_cons_self, FullName.count_dots plain,
    FullName.count_dots plainOther, FullName.count_dots plainExtra] at counted
  omega

/-- A longer provider leaves a shorter alias, by underscores. -/
theorem shifts_of_dots {provider other extra otherExtra : String} {rest : List Char}
    (plain : '.' ∉ provider.toList) (plainOther : '.' ∉ other.toList)
    (plainExtra : '.' ∉ extra.toList) (plainOtherExtra : '.' ∉ otherExtra.toList)
    (longer : FullName.dots provider.toList = FullName.dots other.toList ++ rest)
    (below : '.' :: FullName.dots otherExtra.toList =
      rest ++ '.' :: FullName.dots extra.toList) :
    Shifts ⟨provider, some extra⟩ ⟨other, some otherExtra⟩ := by
  rcases FullName.exists_append_of_dots plain plainOther longer with ⟨moved, parts, rfl⟩
  have plainMoved : '.' ∉ moved := fun member =>
    plain (parts ▸ List.mem_append_right _ member)
  rcases FullName.underscores_of_dots plainMoved plainOtherExtra plainExtra below with
    ⟨underscores, otherParts⟩
  have isProvider : provider = other ++ String.ofList moved := by
    rw [← String.toList_inj, String.toList_append, String.toList_ofList, parts]
  have isOtherExtra : otherExtra = String.ofList moved ++ extra := by
    rw [← String.toList_inj, String.toList_append, String.toList_ofList, otherParts]
  rw [isProvider, isOtherExtra]
  exact .past other (String.ofList moved) extra (by rwa [String.toList_ofList])

/-- Names without dots in their parts are spelled alike only over underscores next to the dot
between the parts. -/
theorem spelledAlike_iff {left right : ProviderName} (inLeft : left.Dotless)
    (inRight : right.Dotless) : FullName.SpelledAlike left.text right.text ↔
      left = right ∨ left.Shifts right ∨ right.Shifts left := by
  constructor
  · intro alike
    rcases left with ⟨provider, extra⟩
    rcases right with ⟨other, otherExtra⟩
    have plain := inLeft.provider
    have plainOther := inRight.provider
    rw [FullName.SpelledAlike, dots_text, dots_text] at alike
    cases extra with
    | none =>
        rw [Option.map_none, Option.getD_none, List.append_nil] at alike
        cases otherExtra with
        | none =>
            rw [Option.map_none, Option.getD_none, List.append_nil] at alike
            cases String.toList_inj.mp (FullName.eq_of_dots plain plainOther alike)
            exact .inl rfl
        | some otherExtra =>
            exact absurd alike
              (not_spelledAlike_of_alias plain plainOther (inRight.extra otherExtra rfl))
    | some extra =>
        have plainExtra := inLeft.extra extra rfl
        cases otherExtra with
        | none =>
            rw [Option.map_none, Option.getD_none, List.append_nil] at alike
            exact absurd alike.symm (not_spelledAlike_of_alias plainOther plain plainExtra)
        | some otherExtra =>
            have plainOtherExtra := inRight.extra otherExtra rfl
            rcases List.append_eq_append_iff.mp alike with
              ⟨rest, longer, below⟩ | ⟨rest, longer, below⟩
            · exact .inr (.inr (shifts_of_dots plainOther plain plainOtherExtra plainExtra longer
                below))
            · exact .inr (.inl (shifts_of_dots plain plainOther plainExtra plainOtherExtra longer
                below))
  · rintro (rfl | shifts | shifts)
    · rfl
    · exact shifts.spelledAlike
    · exact shifts.spelledAlike.symm

end ProviderName

/-! ## The terms of configurations -/

namespace ModuleContent

/-- The configuration that counts for a name: the last one that is spelled like it. -/
def configurationFor? (content : ModuleContent) (provider : String) : Option Term :=
  (content.providers.reverse.find? fun entry => FullName.SpelledAlike entry.1 provider).map
    Prod.snd

/-- A configuration that no other one is spelled like counts for its own name. -/
theorem configurationFor?_eq_some {content : ModuleContent} {provider : String} {term : Term}
    (ordered : Table.Ordered content.providers) (declared : (provider, term) ∈ content.providers)
    (apart : ∀ other ∈ Table.keys content.providers,
      FullName.SpelledAlike other provider → other = provider) :
    content.configurationFor? provider = some term := by
  have member : (provider, term) ∈ content.providers.reverse := List.mem_reverse.mpr declared
  rw [configurationFor?]
  cases found : content.providers.reverse.find?
      fun entry => FullName.SpelledAlike entry.1 provider with
  | none =>
      have itself : FullName.SpelledAlike provider provider := rfl
      exact absurd (decide_eq_true itself) (List.find?_eq_none.mp found _ member)
  | some entry =>
      rcases entry with ⟨other, last⟩
      have listed := List.mem_reverse.mp (List.mem_of_find?_eq_some found)
      have alike := List.find?_some found
      cases apart other (List.mem_map_of_mem listed) (of_decide_eq_true alike)
      exact congrArg some (Table.eq_of_nodup_keys ordered.nodup_keys listed declared)

/-- The term that stands under the name of a configuration. A resource can stand there, too,
if no configuration does. -/
def configurationTerm? (content : ModuleContent) (module : ModuleName) (provider : String) :
    Option Term :=
  (content.configurationFor? provider).or
    ((Table.find? (FullName.providerConfig module provider) (content.resourceTable module)).map
      Resource.term)

end ModuleContent

namespace ModuleTree

theorem find?_ownTerms_of_providerConfig (tree : ModuleTree) (module : ModuleName)
    (provider : String) :
    Table.find? (FullName.providerConfig module provider) (tree.ownTerms module) =
      tree.content.configurationTerm? module provider := by
  have absent (kind : String) (different : kind ≠ "provider") (entries : List (FullName × Term))
      (ofKind : ∀ entry ∈ entries, entry.1.path.head? = some kind) :
      Table.find? (FullName.providerConfig module provider) (Table.ofList entries) = none := by
    refine Table.find?_ofList_eq_none fun entry member same => different ?_
    have head := ofKind entry member
    rw [same] at head
    exact (Option.some.inj head).symm
  have defaults := absent "variable" (by decide) (tree.content.defaults.map fun entry =>
    (⟨module, ["variable", entry.1]⟩, tree.variableTerm entry.1 entry.2))
    (List.forall_mem_map.mpr fun _ _ => rfl)
  have locals := absent "local" (by decide) (tree.content.locals.map fun entry =>
    (⟨module, ["local", entry.1]⟩, .ofExpression entry.2))
    (List.forall_mem_map.mpr fun _ _ => rfl)
  have outputs := absent "output" (by decide) (tree.content.outputs.map fun entry =>
    (⟨module, ["output", entry.1]⟩, .ofExpression entry.2))
    (List.forall_mem_map.mpr fun _ _ => rfl)
  have inputs := absent "input" (by decide) (tree.content.calls.flatMap fun call =>
    call.arguments.map fun argument =>
      (⟨module, ["input", call.name, argument.1]⟩, inputTerm call argument.2)) (by
    intro entry member
    rcases List.mem_flatMap.mp member with ⟨call, _, member⟩
    rcases List.mem_map.mp member with ⟨argument, _, rfl⟩
    rfl)
  have providers : Table.find? (FullName.providerConfig module provider)
      (Table.ofList (tree.content.providers.map fun entry =>
        (FullName.providerConfig module entry.1, entry.2))) =
      tree.content.configurationFor? provider := by
    rw [Table.find?_ofList, ModuleContent.configurationFor?, ← List.map_reverse, List.find?_map,
      Option.map_map]
    simp only [Function.comp_def, FullName.providerConfig_eq_iff, true_and]
  have resources := Table.find?_ofList_map (FullName.providerConfig module provider)
    (fun resource : Resource => (⟨module, resource.path⟩ : FullName)) Resource.term
    tree.content.resources
  rw [ownTerms, filterMap_term?_ownItems, Table.find?_ofList_append, inputs, Option.none_or,
    Table.find?_ofList_append, providers, Table.find?_ofList_append, outputs, Option.none_or,
    Table.find?_ofList_append, resources, Table.find?_ofList_append, locals, defaults,
    Option.or_none, Option.or_none, ModuleContent.configurationTerm?]
  rfl

end ModuleTree

/-- The configuration that a block at the top of a file declares. -/
def Block.configuration? (block : Block) : Option (ProviderName × Term) :=
  match block.kind, block.labels with
  | "provider", [provider] =>
      some (⟨provider, (block.body.value? "alias").bind Expression.fixedText?⟩,
        Term.ofBody block.body)
  | _, _ => none

theorem Declaration.provider?_ofBlock (block : Block) :
    (Declaration.ofBlock block).bind Declaration.provider? =
      block.configuration?.map fun entry => (entry.1.text, entry.2) := by
  unfold Declaration.ofBlock Declaration.ofBody Block.configuration?
  generalize block.kind = kind
  generalize block.labels = labels
  generalize block.body = body
  split
  · rfl
  · rfl
  · rfl
  · rfl
  · cases body.value? "value" <;> rfl
  · rfl
  · rfl
  · rfl
  · split <;> simp_all

/-- What becomes of the configurations that the blocks of a module declare: a name gives the
term of the last one that is spelled like it, which is the own one if no other one is. -/
structure ModuleTree.KeepsConfigurations (module : ModuleTree) (files : Files)
    (terms : NameTable Term) (name : ModuleName) : Prop where
  declared : ∃ blocks, ModuleContent.blocksOf? files module.site.files = some blocks ∧
    module.content.providers = Table.ofList
      ((blocks.filterMap Block.configuration?).map fun entry => (entry.1.text, entry.2))
  shared : ∀ provider, Table.find? (FullName.providerConfig name provider) terms =
    module.content.configurationTerm? name provider
  own : ∀ provider term, (provider, term) ∈ module.content.providers →
    (∀ other ∈ Table.keys module.content.providers,
      FullName.SpelledAlike other provider → other = provider) →
    module.content.configurationFor? provider = some term

/-! ## The records of resources -/

/-- What a record tells about the value of a configuration: the value itself, and the region
that it sets. -/
structure ResourceRecord.Tells (record : ResourceRecord) (configuration : Option Value) :
    Prop where
  region : Table.find? "region" record.details =
    (((configuration.bind Value.asObject?).bind (Table.find? "region")).bind
      Value.asString?).map .string
  configuration : ∃ fields, Table.find? "terraform" record.details = some (.object fields) ∧
    Table.find? "provider_config" fields = configuration.map Value.toJson

namespace Evaluation

/-- The value that a pass gives to a name: that of its term at its last turn. -/
inductive Gives (evaluation : Evaluation) (evaluator : Evaluator) (name : FullName) :
    Option Term → Option Value → Prop where
  | turn {term : Term} {before after : List FullName}
      (split : evaluation.schedule.order = before ++ name :: after) (last : name ∉ after) :
      Gives evaluation evaluator name (some term) (some (term.evaluate evaluator
        ((EvaluationState.run evaluation.analysis evaluator .empty before).scope
          evaluation.analysis name)).value)
  | absent : Gives evaluation evaluator name none none

variable {evaluation : Evaluation} {evaluator : Evaluator} {tree : ModuleTree} {name : FullName}

/-- A name that reads back has the value of its own term and of no other one. -/
theorem gives_of_wellFormed
    (evaluated : ofAnalysis evaluator (Analysis.ofTree tree) = .ok evaluation)
    (wellFormed : name.WellFormed) : evaluation.Gives evaluator name
      (Table.find? name (Analysis.ofTree tree).terms) (evaluation.value? name) := by
  rcases eq_of_ofAnalysis evaluated with ⟨scheduled, analyzed, state⟩
  have own : ∀ other ∈ evaluation.schedule.order, name.text = other.text → other = name := by
    intro other listed same
    have named := Analysis.mem_names_of_mem_order scheduled listed
    have reads := (Analysis.mem_order_iff scheduled named).mp listed
    exact FullName.eq_of_text (FullName.read_text_iff.mp reads) wellFormed same.symm
  cases found : Table.find? name (Analysis.ofTree tree).terms with
  | none =>
      have others : ∀ other ∈ evaluation.schedule.order, name.text ≠ other.text := by
        intro other listed same
        have named := Analysis.mem_names_of_mem_order scheduled listed
        rw [own other listed same] at named
        exact absurd named (Table.find?_eq_none_iff.mp found)
      rw [value?, state, EvaluationState.values_run_of_ne others]
      exact .absent
  | some term =>
      have named : name ∈ (Analysis.ofTree tree).names := Table.mem_keys_iff_find?.mpr ⟨term, found⟩
      have inOrder := (Analysis.mem_order_iff scheduled named).mpr
        (FullName.read_text_iff.mpr wellFormed)
      rcases List.eq_append_cons_of_mem (List.mem_reverse.mpr inOrder) with
        ⟨after, before, split, last⟩
      have turn : evaluation.schedule.order = before.reverse ++ name :: after.reverse := by
        rw [← List.reverse_reverse evaluation.schedule.order, split]
        simp
      have notAfter : name ∉ after.reverse := fun member => last (List.mem_reverse.mp member)
      have later : ∀ other ∈ after.reverse, name.text ≠ other.text := by
        intro other member same
        have listed : other ∈ evaluation.schedule.order := by
          rw [turn]
          exact List.mem_append_right _ (List.mem_cons_of_mem _ member)
        exact notAfter (own other listed same ▸ member)
      have recorded : evaluation.value? name = some (term.evaluate evaluator
          ((EvaluationState.run evaluation.analysis evaluator .empty before.reverse).scope
            evaluation.analysis name)).value := by
        rw [value?, state, turn, EvaluationState.run_append, EvaluationState.run_cons,
          EvaluationState.values_run_of_ne later, EvaluationState.values_step found, if_pos rfl,
          analyzed]
      rw [recorded]
      exact .turn turn notAfter

theorem tells_of_mem_recordsOf {details : ResourceDetails} {record : ResourceRecord}
    (member : record ∈ evaluation.recordsOf name details) :
    record.Tells
      (evaluation.value? (FullName.providerConfig name.module details.providerName)) := by
  have same : record.details = evaluation.recordDetails name details := by
    rw [recordsOf] at member
    split at member
    · rcases List.mem_map.mp member with ⟨item, _, rfl⟩
      rfl
    · rw [List.mem_singleton.mp member]
    · cases member
  rw [recordDetails] at same
  generalize evaluation.value? _ = configuration at same ⊢
  have terraform (region : Option Json) (fields : Table String Json) :
      Table.find? "terraform" ((region.map fun value => ("region", value)).toList ++
        [("terraform", .object fields)]) = some (.object fields) := by
    cases region <;> rfl
  refine ⟨?_, _, same ▸ terraform _ _, ?_⟩
  · rw [same]
    cases ((configuration.bind Value.asObject?).bind (Table.find? "region")).bind
      Value.asString? <;> rfl
  · cases configuration <;> cases details.providerVersion <;> rfl

end Evaluation

namespace Analysis

variable {files : Files} {registry : Registry} {directory : String} {paths : List String}
  {inputs : VariableInputs} {tree module : ModuleTree} {evaluator : Evaluator}
  {evaluation : Evaluation} {name : ModuleName}

theorem keepsConfigurations
    (loaded : ModuleTree.loadFiles files registry directory paths inputs = .ok tree)
    (placed : tree.at? name = some module) :
    module.KeepsConfigurations files (ofTree tree).terms name := by
  rcases ModuleContent.declares_of_read (ModuleTree.read_of_at? loaded placed) with
    ⟨blocks, listed, declares⟩
  refine ⟨⟨blocks, listed, ?_⟩, fun provider => ?_, fun provider term => ?_⟩
  · rw [declares.providers, List.filterMap_filterMap, List.map_filterMap]
    simp only [Declaration.provider?_ofBlock]
  · rw [find?_terms, FullName.providerConfig]
    dsimp only
    rw [placed, Option.bind_some]
    exact ModuleTree.find?_ownTerms_of_providerConfig module name provider
  · exact ModuleContent.configurationFor?_eq_some
      (declares.providers ▸ Table.ordered_ofList _)

/-- Configurations go by the spelling of their names. Two names give one term exactly if they
are spelled alike, which names without dots in their parts are only over underscores next to
the dot between the parts. Every configuration that no other one of its module is spelled
like has a term of its own, and the records of a resource tell about the value of the last
configuration that is spelled like the name that the resource asks for. -/
theorem configurations_by_spelling
    (loaded : ModuleTree.loadFiles files registry directory paths inputs = .ok tree)
    (evaluated : Evaluation.ofAnalysis evaluator (ofTree tree) = .ok evaluation) :
    (∀ module home provider other,
      FullName.providerConfig module provider = FullName.providerConfig home other ↔
        module = home ∧ FullName.SpelledAlike provider other) ∧
    (∀ left right : ProviderName, left.Dotless → right.Dotless →
      (FullName.SpelledAlike left.text right.text ↔
        left = right ∨ left.Shifts right ∨ right.Shifts left)) ∧
    (∀ name module, tree.at? name = some module →
      module.KeepsConfigurations files (ofTree tree).terms name) ∧
    ∀ name details, (name, details) ∈ evaluation.analysis.resources →
      ∃ module, tree.at? name.module = some module ∧
        (∃ resource ∈ module.content.resources, resource.path = name.path ∧
          details = module.content.details resource) ∧
        ((FullName.providerConfig name.module details.providerName).WellFormed →
          ∀ record ∈ evaluation.recordsOf name details, ∃ configuration,
            record.Tells configuration ∧
            evaluation.Gives evaluator
              (FullName.providerConfig name.module details.providerName)
              (module.content.configurationTerm? name.module details.providerName)
              configuration) := by
  refine ⟨fun _ _ _ _ => FullName.providerConfig_eq_iff,
    fun _ _ inLeft inRight => ProviderName.spelledAlike_iff inLeft inRight,
    fun _ _ placed => keepsConfigurations loaded placed, ?_⟩
  intro name details member
  have analyzed := (Evaluation.eq_of_ofAnalysis evaluated).2.1
  have ordered : Table.Ordered (ofTree tree).resources := Table.ordered_ofList _
  have found := ordered.find?_eq_some_iff.mpr (analyzed ▸ member)
  rw [find?_resources] at found
  rcases Option.bind_eq_some_iff.mp found with ⟨module, placed, found⟩
  rcases Option.map_eq_some_iff.mp found with ⟨resource, found, isDetails⟩
  rcases ModuleContent.of_find?_resourceTable found with ⟨declared, same⟩
  refine ⟨module, placed, ⟨resource, declared, (congrArg FullName.path same).symm,
    isDetails.symm⟩, ?_⟩
  intro wellFormed record isRecord
  refine ⟨_, Evaluation.tells_of_mem_recordsOf isRecord, ?_⟩
  rw [← (keepsConfigurations loaded placed).shared]
  exact Evaluation.gives_of_wellFormed evaluated wellFormed

/-- A provider with and without an alias, and a resource that asks for the alias. -/
def aliasedText : String :=
  "provider \"a\" \x7b\n region = \"one\"\n\x7d\n" ++
  "provider \"a\" \x7b\n alias = \"b_c\"\n region = \"two\"\n\x7d\n" ++
  "resource \"t\" \"x\" \x7b\n provider = a.b_c\n\x7d\n"

/-- The region of a record, if it has one. -/
def regionOf (record : ResourceRecord) : Option String :=
  match Table.find? "region" record.details with
  | some (.string region) => some region
  | _ => none

/-- The record of a resource has the region of the configuration that the resource asks for. -/
theorem configurations_by_spelling_aliased : ∃ paths tree evaluation details record term value,
    ModuleTree.loadFiles (Files.ofList [("/r/main.tf", aliasedText)]) [] "/r" paths .empty =
      .ok tree ∧
    Evaluation.ofAnalysis Expression.evaluateIn (ofTree tree) = .ok evaluation ∧
    (⟨[], ["t", "x"]⟩, details) ∈ evaluation.analysis.resources ∧
    details.providerName = "a.b_c" ∧
    (FullName.providerConfig [] "a.b_c").WellFormed ∧
    record ∈ evaluation.recordsOf ⟨[], ["t", "x"]⟩ details ∧
    Table.find? "a.b_c" tree.content.providers = some term ∧
    evaluation.Gives Expression.evaluateIn (FullName.providerConfig [] "a.b_c") (some term)
      (some value) ∧
    record.Tells (some value) ∧ regionOf record = some "two" := by
  rcases ModuleTree.exists_ofText aliasedText
      (fun tree => (Evaluation.ofAnalysis Expression.evaluateIn (ofTree tree)).toOption.any
        fun evaluation =>
          (Table.find? ⟨[], ["t", "x"]⟩ evaluation.analysis.resources).any fun details =>
            (details.providerName = "a.b_c" : Bool) &&
            (Table.find? "a.b_c" tree.content.providers).isSome &&
            ((Table.keys tree.content.providers).all fun other =>
              !decide (FullName.SpelledAlike other "a.b_c") || decide (other = "a.b_c")) &&
            (evaluation.recordsOf ⟨[], ["t", "x"]⟩ details).any fun record =>
              (regionOf record = some "two" : Bool))
      (by decide +kernel) with ⟨tree, loaded, checked⟩
  rcases ModuleTree.exists_of_check _ _ checked with ⟨evaluation, evaluated, checked⟩
  rcases (Option.any_eq_true _ _).mp checked with ⟨details, found, checked⟩
  simp only [Bool.and_eq_true, decide_eq_true_eq] at checked
  rcases checked with ⟨⟨⟨asked, declared⟩, apart⟩, checked⟩
  rcases List.any_eq_true.mp checked with ⟨record, isRecord, region⟩
  rcases Option.isSome_iff_exists.mp declared with ⟨term, declared⟩
  rcases ModuleTree.exists_loadFiles_of_load loaded with ⟨paths, _, fromFiles⟩
  have wellFormed : (FullName.providerConfig [] "a.b_c").WellFormed :=
    FullName.read_text_iff.mp (by decide +kernel)
  have member := Table.mem_of_find? found
  rcases configurations_by_spelling fromFiles evaluated with ⟨_, _, kept, records⟩
  rcases records _ _ member with ⟨module, placed, _, told⟩
  cases placed
  rw [asked] at told
  rcases told wellFormed record isRecord with ⟨configuration, tells, gives⟩
  have own := (kept [] tree rfl).own "a.b_c" term (Table.mem_of_find? declared) (by
    intro other listed alike
    simpa [alike] using List.all_eq_true.mp apart other listed)
  rw [ModuleContent.configurationTerm?, own, Option.some_or] at gives
  cases gives with
  | turn split last =>
      exact ⟨paths, tree, evaluation, details, record, term, _, fromFiles, evaluated, member,
        asked, wellFormed, isRecord, declared, .turn split last, tells, of_decide_eq_true region⟩

/-- Two configurations whose names only differ in the side of the dot that an underscore is
on, and a resource for each. -/
def sharedText : String :=
  "provider \"a_\" \x7b\n alias = \"b\"\n region = \"one\"\n\x7d\n" ++
  "provider \"a\" \x7b\n alias = \"_b\"\n region = \"two\"\n\x7d\n" ++
  "resource \"t\" \"x\" \x7b\n provider = a_.b\n\x7d\n" ++
  "resource \"t\" \"y\" \x7b\n provider = a._b\n\x7d\n"

/-- Two configurations share a term, and a resource of the one has the region of the other. -/
theorem exists_configurations_shared : ∃ tree evaluation details record term,
    ModuleTree.ofText sharedText = .ok tree ∧
    Evaluation.ofAnalysis Expression.evaluateIn (ofTree tree) = .ok evaluation ∧
    Table.keys tree.content.providers = ["a._b", "a_.b"] ∧
    FullName.providerConfig [] "a._b" = FullName.providerConfig [] "a_.b" ∧
    (⟨[], ["t", "y"]⟩, details) ∈ evaluation.analysis.resources ∧
    details.providerName = "a._b" ∧
    record ∈ evaluation.recordsOf ⟨[], ["t", "y"]⟩ details ∧ regionOf record = some "one" ∧
    Table.find? "a._b" tree.content.providers = some term ∧
    (((term.evaluate Expression.evaluateIn (.object [])).value.asObject?.bind
      (Table.find? "region")).bind Value.asString?) = some "two" := by
  rcases ModuleTree.exists_ofText sharedText
      (fun tree => (Evaluation.ofAnalysis Expression.evaluateIn (ofTree tree)).toOption.any
        fun evaluation =>
          (Table.keys tree.content.providers = ["a._b", "a_.b"] : Bool) &&
          ((Table.find? "a._b" tree.content.providers).any fun term =>
            (((term.evaluate Expression.evaluateIn (.object [])).value.asObject?.bind
              (Table.find? "region")).bind Value.asString? = some "two" : Bool)) &&
          (Table.find? ⟨[], ["t", "y"]⟩ evaluation.analysis.resources).any fun details =>
            (details.providerName = "a._b" : Bool) &&
            (evaluation.recordsOf ⟨[], ["t", "y"]⟩ details).any fun record =>
              (regionOf record = some "one" : Bool))
      (by decide +kernel) with ⟨tree, loaded, checked⟩
  rcases ModuleTree.exists_of_check _ _ checked with ⟨evaluation, evaluated, checked⟩
  simp only [Bool.and_eq_true, decide_eq_true_eq] at checked
  rcases checked with ⟨⟨keys, configured⟩, checked⟩
  rcases (Option.any_eq_true _ _).mp configured with ⟨term, declared, region⟩
  rcases (Option.any_eq_true _ _).mp checked with ⟨details, found, checked⟩
  simp only [Bool.and_eq_true, decide_eq_true_eq] at checked
  rcases checked with ⟨asked, checked⟩
  rcases List.any_eq_true.mp checked with ⟨record, isRecord, told⟩
  exact ⟨tree, evaluation, details, record, term, loaded, evaluated, keys, by decide,
    Table.mem_of_find? found, asked, isRecord, of_decide_eq_true told, declared,
    of_decide_eq_true region⟩

end Analysis

end Groundplan
