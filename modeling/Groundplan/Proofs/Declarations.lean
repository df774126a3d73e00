import Groundplan.Proofs.Loading
import Mathlib.Data.List.Perm.Basic
/-!
Declarations. The content of a module is the tables of what its blocks declare, so it does
not matter where and in which order the blocks are written if none repeats another.
-/

namespace Groundplan

/-! ## Blocks without their places -/

def Span.nowhere : Span := ⟨0, 0⟩

def Setting.plain (setting : Setting) : Setting := { setting with span := .nowhere }

namespace Block

mutual

/-- A block without the places at which it and its parts are written. -/
def plain : Block → Block
  | ⟨kind, labels, _, settings, blocks⟩ =>
      ⟨kind, labels, .nowhere, settings.map Setting.plain, plainAll blocks⟩

def plainAll : List Block → List Block
  | [] => []
  | block :: rest => plain block :: plainAll rest

end

theorem plainAll_eq_map (blocks : List Block) : plainAll blocks = blocks.map plain := by
  induction blocks with
  | nil => rfl
  | cons block rest induction => rw [plainAll, induction, List.map_cons]

theorem kind_plain (block : Block) : block.plain.kind = block.kind := by
  rcases block with ⟨kind, labels, span, settings, blocks⟩
  rw [plain]

theorem labels_plain (block : Block) : block.plain.labels = block.labels := by
  rcases block with ⟨kind, labels, span, settings, blocks⟩
  rw [plain]

end Block

namespace Term

open Block (plain plainAll)

theorem settingTable_plain (skipped : List String) (settings : List Setting) :
    settingTable skipped (settings.map Setting.plain) = settingTable skipped settings := by
  rw [settingTable, settingTable, List.filter_map, List.map_map]
  rfl

theorem find?_plain (key : String) (settings : List Setting) :
    (settings.map Setting.plain).find? (fun setting => setting.key == key) =
      (settings.find? fun setting => setting.key == key).map Setting.plain := by
  rw [List.find?_map]
  rfl

theorem settingValue?_plain (key : String) (settings : List Setting) :
    settingValue? key (settings.map Setting.plain) = settingValue? key settings := by
  rw [settingValue?, find?_plain, Option.map_map]
  rfl

theorem dynamicIterator_plain (kind : String) (settings : List Setting) :
    dynamicIterator kind (settings.map Setting.plain) = dynamicIterator kind settings := by
  rw [dynamicIterator, dynamicIterator, find?_plain]
  cases settings.find? fun setting => setting.key == "iterator" with
  | none => rfl
  | some setting =>
      rcases setting with ⟨key, span, value⟩
      cases value <;> rfl

mutual

theorem nestedOf_plain (skipped : List String) : (blocks : List Block) →
    (taken : Table String (List Term)) →
    nestedOf skipped (plainAll blocks) taken = nestedOf skipped blocks taken
  | [], _ => rfl
  | block :: rest, taken => by
      rw [plainAll, nestedOf, nestedOf, Block.kind_plain, nestedOne_plain block]
      simp only [nestedOf_plain skipped rest]

theorem nestedOne_plain : (block : Block) → nestedOne block.plain = nestedOne block
  | ⟨kind, labels, span, settings, blocks⟩ => by
      rw [plain]
      by_cases dynamic : kind = "dynamic"
      · subst dynamic
        rw [nestedOne, nestedOne, contentOf_plain blocks]
        simp only [settingValue?_plain, dynamicIterator_plain]
      · rw [nestedOne, nestedOne, settingTable_plain, nestedOf_plain [] blocks] <;> exact dynamic

theorem contentOf_plain : (blocks : List Block) →
    contentOf (plainAll blocks) = contentOf blocks
  | [] => rfl
  | ⟨kind, labels, span, settings, blocks⟩ :: rest => by
      rw [plainAll, plain, contentOf, contentOf, contentOf_plain rest, settingTable_plain,
        nestedOf_plain [] blocks]

end

end Term

namespace Body

def plain (body : Body) : Body := ⟨body.settings.map Setting.plain, Block.plainAll body.blocks⟩

theorem body_plain (block : Block) : block.plain.body = block.body.plain := by
  rcases block with ⟨kind, labels, span, settings, blocks⟩
  rw [Block.plain]
  rfl

theorem value?_plain (body : Body) (key : String) : body.plain.value? key = body.value? key :=
  Term.settingValue?_plain key body.settings

theorem ofBody_plain (body : Body) : Term.ofBody body.plain = Term.ofBody body := by
  rw [Term.ofBody, Term.ofBody, value?_plain, value?_plain, plain, Term.settingTable_plain,
    Term.nestedOf_plain]

theorem providerOf_plain (resourceType : String) (body : Body) :
    Resource.providerOf resourceType body.plain = Resource.providerOf resourceType body := by
  rw [Resource.providerOf, Resource.providerOf, value?_plain]

theorem configurationName_plain (provider : String) (body : Body) :
    ModuleContent.configurationName provider body.plain =
      ModuleContent.configurationName provider body := by
  rw [ModuleContent.configurationName, ModuleContent.configurationName, value?_plain]

theorem blocksOf_plain (body : Body) (kind : String) :
    body.plain.blocksOf kind = (body.blocksOf kind).map Block.plain := by
  have kinds : (fun block : Block => block.kind == kind) ∘ Block.plain =
      fun block => block.kind == kind := funext fun block => by
    rw [Function.comp_apply, Block.kind_plain]
  rw [blocksOf, blocksOf, plain, Block.plainAll_eq_map, List.filter_map, kinds]

theorem callOf_plain (name : String) (body : Body) (location : SourceRange) :
    ModuleContent.callOf name body.plain location = ModuleContent.callOf name body location := by
  have arguments := Term.settingTable_plain ModuleCall.metaArguments body.settings
  unfold ModuleContent.callOf
  simp only [value?_plain]
  congr 1

theorem flatMap_settings_plain (blocks : List Block) (f : Setting → α)
    (plain : ∀ setting : Setting, f setting.plain = f setting) :
    ((blocks.map Block.plain).flatMap Block.settings).map f =
      (blocks.flatMap Block.settings).map f := by
  induction blocks with
  | nil => rfl
  | cons block rest induction =>
      rcases block with ⟨kind, labels, span, settings, blocks⟩
      rw [List.map_cons, List.flatMap_cons, List.flatMap_cons, List.map_append, List.map_append,
        induction, Block.plain, List.map_map]
      congr 1
      exact List.map_congr_left fun setting _ => plain setting

end Body

/-! ## What a block declares -/

/-- The block of what is written nowhere. -/
def SourceBlock.nowhere : SourceBlock := ⟨⟨"", ""⟩, ⟨"", [], .nowhere, [], []⟩⟩

def Resource.plain (resource : Resource) : Resource := { resource with block := .nowhere }

def ModuleCall.plain (call : ModuleCall) : ModuleCall :=
  { call with location := SourceBlock.nowhere.range }

/-- What a block at the top of a file declares, apart from where it is written. -/
inductive Declaration where
  | variable (name : String) (fallback : Option Expression)
  | locals (entries : List (String × Expression))
  | resource (resource : Resource)
  | output (name : String) (value : Expression)
  | provider (configuration : String) (term : Term)
  | call (call : ModuleCall)
  | requirements (entries : List (String × RequiredProvider))

namespace Declaration

def ofBody (kind : String) (labels : List String) (body : Body) : Option Declaration :=
  match kind, labels with
  | "variable", [name] => some (.variable name (body.value? "default"))
  | "locals", [] => some (.locals (body.settings.map fun setting => (setting.key, setting.value)))
  | "resource", [resourceType, label] =>
      some (.resource (.ofBody false resourceType label body .nowhere))
  | "data", [resourceType, label] =>
      some (.resource (.ofBody true resourceType label body .nowhere))
  | "output", [name] => (body.value? "value").map (.output name)
  | "provider", [name] =>
      some (.provider (ModuleContent.configurationName name body) (Term.ofBody body))
  | "module", [name] => some (.call (ModuleContent.callOf name body SourceBlock.nowhere.range))
  | "terraform", [] =>
      some (.requirements (((body.blocksOf "required_providers").flatMap Block.settings).map
        fun setting => (setting.key, .ofExpression setting.value)))
  | _, _ => none

def ofBlock (block : Block) : Option Declaration := ofBody block.kind block.labels block.body

theorem ofBlock_plain (block : Block) : ofBlock block.plain = ofBlock block := by
  rw [ofBlock, ofBlock, Block.kind_plain, Block.labels_plain, Body.body_plain]
  generalize block.kind = kind
  generalize block.labels = labels
  generalize block.body = body
  unfold ofBody
  split
  · rw [Body.value?_plain]
  · simp [Body.plain, Setting.plain]
  · simp only [Resource.ofBody, Body.providerOf_plain, Body.ofBody_plain]
  · simp only [Resource.ofBody, Body.providerOf_plain, Body.ofBody_plain]
  · rw [Body.value?_plain]
  · rw [Body.configurationName_plain, Body.ofBody_plain]
  · rw [Body.callOf_plain]
  · rw [Body.blocksOf_plain, Body.flatMap_settings_plain _ _ fun _ => rfl]
  · rfl

end Declaration

/-! ## Content as tables of declarations -/

namespace Declaration

def default? : Declaration → Option (String × Option Expression)
  | .variable name fallback => some (name, fallback)
  | _ => none

def localEntries : Declaration → List (String × Expression)
  | .locals entries => entries
  | _ => []

def resource? : Declaration → Option Resource
  | .resource declared => some declared
  | _ => none

def output? : Declaration → Option (String × Expression)
  | .output name value => some (name, value)
  | _ => none

def provider? : Declaration → Option (String × Term)
  | .provider configuration term => some (configuration, term)
  | _ => none

def call? : Declaration → Option ModuleCall
  | .call made => some made
  | _ => none

def requiredEntries : Declaration → List (String × RequiredProvider)
  | .requirements entries => entries
  | _ => []

/-- Whether nothing is declared twice. -/
structure Distinct (declarations : List Declaration) : Prop where
  defaults : ((declarations.filterMap default?).map Prod.fst).Nodup
  locals : ((declarations.flatMap localEntries).map Prod.fst).Nodup
  resources : ((declarations.filterMap resource?).map Resource.path).Nodup
  outputs : ((declarations.filterMap output?).map Prod.fst).Nodup
  providers : ((declarations.filterMap provider?).map Prod.fst).Nodup
  requiredProviders : ((declarations.flatMap requiredEntries).map Prod.fst).Nodup
  calls : ((declarations.filterMap call?).map ModuleCall.name).Nodup

instance (declarations : List Declaration) : Decidable (Distinct declarations) :=
  decidable_of_iff
    (((declarations.filterMap default?).map Prod.fst).Nodup ∧
      ((declarations.flatMap localEntries).map Prod.fst).Nodup ∧
      ((declarations.filterMap resource?).map Resource.path).Nodup ∧
      ((declarations.filterMap output?).map Prod.fst).Nodup ∧
      ((declarations.filterMap provider?).map Prod.fst).Nodup ∧
      ((declarations.flatMap requiredEntries).map Prod.fst).Nodup ∧
      ((declarations.filterMap call?).map ModuleCall.name).Nodup)
    ⟨fun parts => ⟨parts.1, parts.2.1, parts.2.2.1, parts.2.2.2.1, parts.2.2.2.2.1,
        parts.2.2.2.2.2.1, parts.2.2.2.2.2.2⟩,
      fun distinct => ⟨distinct.defaults, distinct.locals, distinct.resources, distinct.outputs,
        distinct.providers, distinct.requiredProviders, distinct.calls⟩⟩

end Declaration

namespace ModuleContent

/-- Whether a content is what declarations add up to. -/
structure Declares (content : ModuleContent) (declarations : List Declaration) : Prop where
  defaults : content.defaults = Table.ofList (declarations.filterMap Declaration.default?)
  locals : content.locals = Table.ofList (declarations.flatMap Declaration.localEntries)
  resources : content.resources.map Resource.plain =
    (declarations.filterMap Declaration.resource?).map Resource.plain
  outputs : content.outputs = Table.ofList (declarations.filterMap Declaration.output?)
  providers : content.providers = Table.ofList (declarations.filterMap Declaration.provider?)
  requiredProviders : content.requiredProviders =
    Table.ofList (declarations.flatMap Declaration.requiredEntries)
  calls : content.calls.map ModuleCall.plain =
    (declarations.filterMap Declaration.call?).map ModuleCall.plain

theorem declares_empty : empty.Declares [] := ⟨rfl, rfl, rfl, rfl, rfl, rfl, rfl⟩

/-- Add a declaration that is written at some place. -/
def declare (place : SourceBlock) (content : ModuleContent) : Declaration → ModuleContent
  | .variable name fallback =>
      { content with defaults := Table.insert name fallback content.defaults }
  | .locals entries =>
      { content with locals := Table.union content.locals (Table.ofList entries) }
  | .resource resource =>
      { content with resources := content.resources ++ [{ resource with block := place }] }
  | .output name value => { content with outputs := Table.insert name value content.outputs }
  | .provider configuration term =>
      { content with providers := Table.insert configuration term content.providers }
  | .call call =>
      { content with calls := content.calls ++ [{ call with location := place.range }] }
  | .requirements entries =>
      { content with
        requiredProviders := entries.foldl
          (fun providers entry => Table.insert entry.1 entry.2 providers)
          content.requiredProviders }

theorem addBlock_eq (source : Source) (file : Body) (content : ModuleContent) (block : Block) :
    addBlock source file content block =
      ((Declaration.ofBlock block).map (declare
        ⟨source, (file.findBlock? block.kind block.labels).getD block⟩ content)).getD content := by
  rcases block with ⟨kind, labels, span, settings, blocks⟩
  unfold addBlock Declaration.ofBlock Declaration.ofBody
  dsimp only
  split
  · rfl
  · rfl
  · rfl
  · rfl
  · next name => cases Body.value? _ "value" <;> rfl
  · rfl
  · rfl
  · simp only [Option.map_some, Option.getD_some, declare, List.foldl_map]
  · simp_all

theorem Declares.declare {content : ModuleContent} {declarations : List Declaration}
    (declares : content.Declares declarations) (place : SourceBlock) (declaration : Declaration) :
    (content.declare place declaration).Declares (declarations ++ [declaration]) := by
  have union := Table.union_ofList (Table.ordered_ofList (declarations.flatMap
    Declaration.localEntries))
  rcases declares with ⟨defaults, locals, resources, outputs, providers, required, calls⟩
  -- A declaration adds to one of the fields and leaves the others alone.
  cases declaration <;> refine ⟨?_, ?_, ?_, ?_, ?_, ?_, ?_⟩ <;>
    simp [ModuleContent.declare, Table.ofList_append, List.filterMap_cons, defaults, locals,
      resources, outputs, providers, required, calls, union, Declaration.default?,
      Declaration.localEntries, Declaration.resource?, Declaration.output?,
      Declaration.provider?, Declaration.call?, Declaration.requiredEntries, Resource.plain,
      ModuleCall.plain]

/-- The blocks at the top of files, in order, if all of the files can be read. -/
def blocksOf? (files : Files) (paths : List String) : Option (List Block) :=
  (paths.mapM fun path => (files.read path).toOption.bind Body.read?).map fun bodies =>
    bodies.flatMap Body.blocks

theorem Declares.addFile {content : ModuleContent} {declarations : List Declaration}
    (declares : content.Declares declarations) (source : Source) (body : Body) :
    (content.addFile source body).Declares
      (declarations ++ body.blocks.filterMap Declaration.ofBlock) := by
  rw [ModuleContent.addFile]
  generalize body.blocks = blocks
  induction blocks generalizing content declarations with
  | nil => simpa using declares
  | cons block rest induction =>
      rw [List.foldl_cons, addBlock_eq]
      cases declared : Declaration.ofBlock block with
      | none =>
          rw [List.filterMap_cons_none declared]
          exact induction declares
      | some declaration =>
          rw [List.filterMap_cons_some declared, ← List.singleton_append, ← List.append_assoc]
          exact induction (declares.declare _ declaration)

/-- Files that can be read have a content, which is what their blocks declare. -/
theorem exists_declares {files : Files} {paths : List String} {blocks : List Block}
    (listed : blocksOf? files paths = some blocks) :
    ∃ content, read files paths = .ok content ∧
      content.Declares (blocks.filterMap Declaration.ofBlock) := by
  rcases Option.map_eq_some_iff.mp listed with ⟨bodies, parsed, rfl⟩
  have general (paths : List String) : ∀ (bodies : List Body) (start : ModuleContent)
      (declarations : List Declaration),
      (paths.mapM fun path => (files.read path).toOption.bind Body.read?) = some bodies →
      start.Declares declarations →
      ∃ content, paths.foldlM (readFile files) start = .ok content ∧ content.Declares
        (declarations ++ (bodies.flatMap Body.blocks).filterMap Declaration.ofBlock) := by
    induction paths with
    | nil =>
        intro bodies start declarations parsed declares
        cases parsed
        exact ⟨start, rfl, by simpa using declares⟩
    | cons path rest induction =>
        intro bodies start declarations parsed declares
        rw [List.mapM_cons] at parsed
        rcases Option.bind_eq_some_iff.mp parsed with ⟨body, first, parsed⟩
        rcases Option.bind_eq_some_iff.mp parsed with ⟨others, further, same⟩
        cases same
        rcases Option.bind_eq_some_iff.mp first with ⟨text, found, reads⟩
        have done : readFile files start path = .ok (start.addFile ⟨path, text⟩ body) :=
          readFile_eq_ok_iff.mpr ⟨text, body, by
            cases given : files.read path with
            | error error => simp [given, Except.toOption] at found
            | ok text => simpa [given, Except.toOption] using found, reads, rfl⟩
        rcases induction others _ _ further (declares.addFile ⟨path, text⟩ body) with
          ⟨content, whole, all⟩
        refine ⟨content, foldlM_cons_eq_ok_iff.mpr ⟨_, done, whole⟩, ?_⟩
        rw [List.flatMap_cons, List.filterMap_append, ← List.append_assoc]
        exact all
  simpa [read_eq] using general paths bodies .empty [] parsed declares_empty

/-- A content that was read is what the blocks of its files declare. -/
theorem declares_of_read {files : Files} {paths : List String} {content : ModuleContent}
    (done : read files paths = .ok content) : ∃ blocks, blocksOf? files paths = some blocks ∧
      content.Declares (blocks.filterMap Declaration.ofBlock) := by
  have parsed (paths : List String) : ∀ start, paths.foldlM (readFile files) start = .ok content →
      ∃ bodies, (paths.mapM fun path => (files.read path).toOption.bind Body.read?) =
        some bodies := by
    induction paths with
    | nil => exact fun _ _ => ⟨[], rfl⟩
    | cons path rest induction =>
        intro start done
        rcases foldlM_cons_eq_ok_iff.mp done with ⟨middle, first, others⟩
        rcases readFile_eq_ok_iff.mp first with ⟨text, body, reads, taken, rfl⟩
        rcases induction _ others with ⟨bodies, further⟩
        refine ⟨body :: bodies, ?_⟩
        rw [List.mapM_cons, further, reads, Except.toOption, Option.bind_some, taken]
        rfl
  rcases parsed paths .empty (read_eq files paths ▸ done) with ⟨bodies, listed⟩
  have blocks : blocksOf? files paths = some (bodies.flatMap Body.blocks) := by
    rw [blocksOf?, listed, Option.map_some]
  rcases exists_declares blocks with ⟨other, again, declares⟩
  cases done.symm.trans again
  exact ⟨_, blocks, declares⟩

/-- Whether two contents declare the same, each thing once, in whatever order. -/
structure Reordered (left right : ModuleContent) : Prop where
  defaults : left.defaults = right.defaults
  locals : left.locals = right.locals
  outputs : left.outputs = right.outputs
  providers : left.providers = right.providers
  requiredProviders : left.requiredProviders = right.requiredProviders
  resources : (left.resources.map Resource.plain).Perm (right.resources.map Resource.plain)
  calls : (left.calls.map ModuleCall.plain).Perm (right.calls.map ModuleCall.plain)
  paths : (left.resources.map Resource.path).Nodup
  names : (left.calls.map ModuleCall.name).Nodup

theorem reordered_of_perm {left right : ModuleContent} {first second : List Declaration}
    (inLeft : left.Declares first) (inRight : right.Declares second) (perm : first.Perm second)
    (distinct : Declaration.Distinct first) : left.Reordered right where
  defaults := by
    rw [inLeft.defaults, inRight.defaults]
    exact Table.ofList_perm (perm.filterMap _) distinct.defaults
  locals := by
    rw [inLeft.locals, inRight.locals]
    exact Table.ofList_perm (perm.flatMap_right _) distinct.locals
  outputs := by
    rw [inLeft.outputs, inRight.outputs]
    exact Table.ofList_perm (perm.filterMap _) distinct.outputs
  providers := by
    rw [inLeft.providers, inRight.providers]
    exact Table.ofList_perm (perm.filterMap _) distinct.providers
  requiredProviders := by
    rw [inLeft.requiredProviders, inRight.requiredProviders]
    exact Table.ofList_perm (perm.flatMap_right _) distinct.requiredProviders
  resources := by
    rw [inLeft.resources, inRight.resources]
    exact (perm.filterMap _).map _
  calls := by
    rw [inLeft.calls, inRight.calls]
    exact (perm.filterMap _).map _
  paths := by
    have same := congrArg (List.map Resource.path) inLeft.resources
    rw [List.map_map, List.map_map] at same
    exact same ▸ distinct.resources
  names := by
    have same := congrArg (List.map ModuleCall.name) inLeft.calls
    rw [List.map_map, List.map_map] at same
    exact same ▸ distinct.calls

end ModuleContent

end Groundplan
