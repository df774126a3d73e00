/-!
Problems that loading and evaluating a configuration can meet. A parse error of
the root module and a dependency cycle end the run; every other problem is
collected, so that one broken module or term does not hide the rest.
-/

namespace Groundplan

abbrev Diagnostic := String

inductive Problem where
  | parse (path message : String)
  | dependencyCycle (nodes : List String)
  | missingRemoteSubmodules (directory : String) (sources : List String)
  | submoduleLoad (name message : String)
  | moduleCycle (name directory : String)
  | variableFile (path message : String)
  | badDependencyKey (key : String)
  | missingTerm (name : String)
  | evaluation (term : String) (diagnostics : List Diagnostic)
deriving DecidableEq

namespace Problem

def isFatal : Problem → Bool
  | parse _ _ => true
  | dependencyCycle _ => true
  | _ => false

def message : Problem → String
  | parse path message => "failed to parse " ++ path ++ ": " ++ message
  | dependencyCycle nodes => "dependency cycle between: " ++ ", ".intercalate nodes
  | missingRemoteSubmodules directory sources =>
      "Could not load some remote submodules that are used by '" ++ directory ++
        "'. Run 'terraform init' if you would like to include them in the evaluation: " ++
        ", ".intercalate sources
  | submoduleLoad name message => "Error loading submodule '" ++ name ++ "': " ++ message
  | moduleCycle name directory =>
      "module '" ++ name ++ "' at " ++ directory ++ " is already being loaded, skipping"
  | variableFile path message => "failed to load variable file " ++ path ++ ": " ++ message
  | badDependencyKey key => "Bad dependency key: " ++ key
  | missingTerm name => "Missing term " ++ name
  | evaluation term diagnostics =>
      "evaluating " ++ term ++ ": " ++ "; ".intercalate diagnostics

end Problem

end Groundplan
