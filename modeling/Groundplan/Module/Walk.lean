import Groundplan.Module.Tree
/-!
The items of a module tree in the order in which they are visited: a module, its
variables, locals, resources, outputs, provider configurations and the inputs of
its calls, and then the modules that it calls, by name.
-/

namespace Groundplan

structure ModuleDetails where
  directory : String
  files : List String
  missingRemote : List String
  location : Option SourceRange

inductive ModuleItem where
  | module (name : ModuleName) (details : ModuleDetails)
  | resource (name : FullName) (details : ResourceDetails)
  | term (name : FullName) (term : Term)

namespace ModuleTree

def details (tree : ModuleTree) : ModuleDetails :=
  ⟨tree.site.directory, tree.site.files, tree.missingSources, tree.site.location⟩

/-- The term of a variable: the given value, or else the default, or else
something unknown. -/
def variableTerm (tree : ModuleTree) (name : String) (fallback : Option Expression) : Term :=
  match Table.find? name tree.given, fallback with
  | some value, _ => .ofValue value
  | none, some expression => .ofExpression expression
  | none, none => .ofValue .unknown

/-- The term of an argument of a call. Every instance of a called module has the
input of the first one. -/
def inputTerm (call : ModuleCall) (argument : Expression) : Term :=
  (((Term.ofExpression argument).withCount call.count).withForEach call.forEach).firstInstance

def ownItems (tree : ModuleTree) (name : ModuleName) : List ModuleItem :=
  let content := tree.content
  let expressionItem (kind : String) (entry : String × Expression) : ModuleItem :=
    .term ⟨name, [kind, entry.1]⟩ (.ofExpression entry.2)
  .module name tree.details ::
    (content.defaults.map fun entry =>
      .term ⟨name, ["variable", entry.1]⟩ (tree.variableTerm entry.1 entry.2)) ++
    content.locals.map (expressionItem "local") ++
    (content.resources.flatMap fun resource =>
      [.resource ⟨name, resource.path⟩ (content.details resource),
        .term ⟨name, resource.path⟩ resource.term]) ++
    content.outputs.map (expressionItem "output") ++
    (content.providers.map fun entry =>
      .term (FullName.providerConfig name entry.1) entry.2) ++
    content.calls.flatMap fun call => call.arguments.map fun argument =>
      .term ⟨name, ["input", call.name, argument.1]⟩ (inputTerm call argument.2)

mutual

def itemsAt (name : ModuleName) : ModuleTree → List ModuleItem
  | ⟨site, content, calls, given, variableProblems⟩ =>
      ownItems ⟨site, content, calls, given, variableProblems⟩ name ++
        (Table.ofList (childItems name calls)).values.flatten

/-- The items below each call that was loaded. -/
def childItems (name : ModuleName) :
    List (ModuleCall × CallResult ModuleTree) → List (String × List ModuleItem)
  | [] => []
  | (call, .loaded child) :: rest =>
      (call.name, itemsAt (name ++ [call.name]) child) :: childItems name rest
  | _ :: rest => childItems name rest

end

def items (tree : ModuleTree) : List ModuleItem := tree.itemsAt []

end ModuleTree

end Groundplan
