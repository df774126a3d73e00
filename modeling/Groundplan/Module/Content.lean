import Groundplan.Body.Reader
import Groundplan.Failure
import Groundplan.Source
import Groundplan.Term
/-!
The content of a module: what its files declare, whichever file a declaration
stands in. Of two declarations with one name the later one counts, except for
resources and calls, which are all kept.
-/

namespace Groundplan

structure Resource where
  isData : Bool
  resourceType : String
  label : String
  /-- The provider configuration it uses: a provider, or a provider and an alias. -/
  providerName : String
  term : Term
  isBlock : term.IsBlock
  block : SourceBlock

def Resource.path (resource : Resource) : LocalName :=
  (if resource.isData then ["data"] else []) ++ [resource.resourceType, resource.label]

structure ModuleCall where
  name : String
  /-- The source of the called module, if it is a fixed text. -/
  source : Option String
  arguments : Table String Expression
  count : Option Expression
  forEach : Option Expression
  location : SourceRange

structure RequiredProvider where
  source : Option String
  version : Option String

structure ModuleContent where
  /-- The variables, each with its default if it has one. -/
  defaults : Table String (Option Expression)
  locals : Table String Expression
  resources : List Resource
  outputs : Table String Expression
  providers : Table String Term
  requiredProviders : Table String RequiredProvider
  calls : List ModuleCall

structure ResourceDetails where
  isData : Bool
  resourceType : String
  providerName : String
  providerType : String
  providerVersion : Option String
  isReplicated : Bool
  block : SourceBlock

namespace ModuleCall

/-- Arguments that say how a call is made and are not passed on. -/
def metaArguments : List String :=
  ["source", "version", "count", "for_each", "providers", "depends_on"]

end ModuleCall

def Expression.fixedText? (expression : Expression) : Option String :=
  match expression.literalValue with
  | .ok (.string text) => some text
  | _ => none

namespace RequiredProvider

/-- A requirement is a version, or an object with a source and a version. -/
def ofExpression (expression : Expression) : RequiredProvider :=
  match expression.literalValue with
  | .ok (.string version) => ⟨none, some version⟩
  | .ok (.object fields) =>
      ⟨(Table.find? "source" fields).bind Value.asString?,
        (Table.find? "version" fields).bind Value.asString?⟩
  | _ => ⟨none, none⟩

end RequiredProvider

namespace Resource

/-- The provider that a type belongs to by its name. -/
def impliedProvider (resourceType : String) : String :=
  String.ofList (resourceType.toList.takeWhile (· != '_'))

/-- The provider configuration that the settings of a resource ask for. -/
def providerOf (resourceType : String) (body : Body) : String :=
  match (body.value? "provider").bind fun value => value.references.head? with
  | some reference => reference.accessor.text
  | none => impliedProvider resourceType

/-- The resource that a block declares; `block` says where it is written. -/
def ofBody (isData : Bool) (resourceType label : String) (body : Body) (block : SourceBlock) :
    Resource :=
  ⟨isData, resourceType, label, providerOf resourceType body, Term.ofBody body,
    Term.isBlock_ofBody body, block⟩

end Resource

namespace ModuleContent

def empty : ModuleContent := ⟨[], [], [], [], [], [], []⟩

private def settingEntries (settings : List Setting) : List (String × Expression) :=
  settings.map fun setting => (setting.key, setting.value)

/-- The name of a provider configuration: the provider, and its alias if it has
one. -/
def configurationName (provider : String) (body : Body) : String :=
  match (body.value? "alias").bind Expression.fixedText? with
  | some extra => provider ++ "." ++ extra
  | none => provider

def callOf (name : String) (body : Body) (location : SourceRange) : ModuleCall where
  name := name
  source := (body.value? "source").bind Expression.fixedText?
  arguments := Table.ofList (settingEntries
    (body.settings.filter fun setting => !ModuleCall.metaArguments.contains setting.key))
  count := body.value? "count"
  forEach := body.value? "for_each"
  location := location

/-- Add the declaration of a block at the top of a file. A block is taken to be
written where the first block of the file with its kind and labels is. -/
def addBlock (source : Source) (file : Body) (content : ModuleContent) (block : Block) :
    ModuleContent :=
  let body := block.body
  let located : SourceBlock := ⟨source, (file.findBlock? block.kind block.labels).getD block⟩
  match block.kind, block.labels with
  | "variable", [name] =>
      { content with defaults := Table.insert name (body.value? "default") content.defaults }
  | "locals", [] =>
      { content with
        locals := Table.union content.locals (Table.ofList (settingEntries body.settings)) }
  | "resource", [resourceType, label] =>
      { content with
        resources := content.resources ++ [.ofBody false resourceType label body located] }
  | "data", [resourceType, label] =>
      { content with
        resources := content.resources ++ [.ofBody true resourceType label body located] }
  | "output", [name] =>
      match body.value? "value" with
      | some value => { content with outputs := Table.insert name value content.outputs }
      | none => content
  | "provider", [name] =>
      { content with
        providers :=
          Table.insert (configurationName name body) (Term.ofBody body) content.providers }
  | "module", [name] =>
      { content with calls := content.calls ++ [callOf name body located.range] }
  | "terraform", [] =>
      let required := (body.blocksOf "required_providers").flatMap Block.settings
      { content with
        requiredProviders := required.foldl
          (fun providers setting =>
            Table.insert setting.key (.ofExpression setting.value) providers)
          content.requiredProviders }
  | _, _ => content

def addFile (content : ModuleContent) (source : Source) (body : Body) : ModuleContent :=
  body.blocks.foldl (addBlock source body) content

def read (files : Files) (paths : List String) : Except Failure ModuleContent :=
  paths.foldlM
    (fun content path =>
      match files.read path with
      | .error error => .error (.unreadable error)
      | .ok text =>
          match Body.read? text with
          | none => .error (.problem (.parse path Body.syntaxReport))
          | some body => .ok (content.addFile ⟨path, text⟩ body))
    empty

/-- The provider of a configuration: its name up to the alias. -/
def providerLocalName (configuration : String) : String :=
  String.ofList (configuration.toList.takeWhile (· != '.'))

def lastPart (source : String) : String :=
  String.ofList ((source.toList.reverse.takeWhile (· != '/')).reverse)

/-- What is known of a resource of the module without evaluation. -/
def details (content : ModuleContent) (resource : Resource) : ResourceDetails :=
  let provider := providerLocalName resource.providerName
  let required := Table.find? provider content.requiredProviders
  { isData := resource.isData
    resourceType := resource.resourceType
    providerName := resource.providerName
    providerType := ((required.bind RequiredProvider.source).map lastPart).getD provider
    providerVersion := required.bind RequiredProvider.version
    isReplicated := resource.term.count.isSome || resource.term.forEach.isSome
    block := resource.block }

end ModuleContent

end Groundplan
