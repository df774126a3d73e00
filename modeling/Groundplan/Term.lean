import Groundplan.Body
import Groundplan.Expression.Outcome
/-!
Terms, the units of evaluation. A term is an expression, a fixed value, or a
block of settings and nested terms. A term with a count or a collection stands
for a list of instances, each evaluated with an iteration variable of its own.
-/

namespace Groundplan

/-- What a term computes, with nested terms of type `τ`. The settings and the
kinds of blocks are tables. -/
inductive TermBody (τ : Type) where
  | expression (expression : Expression)
  | value (value : Value)
  | block (settings : List (String × Expression)) (blocks : List (String × List τ))

structure Term where
  body : TermBody Term
  count : Option Expression
  forEach : Option Expression
  /-- The name of the iteration variable of `forEach` if it is not `each`. -/
  iterator : Option String
  /-- Whether only the first instance is wanted, by itself. -/
  firstOnly : Bool

namespace Term

def ofTermBody (body : TermBody Term) : Term := ⟨body, none, none, none, false⟩

def ofExpression (expression : Expression) : Term := ofTermBody (.expression expression)

def ofValue (value : Value) : Term := ofTermBody (.value value)

def withCount (term : Term) (count : Option Expression) : Term := { term with count }

def withForEach (term : Term) (forEach : Option Expression) : Term := { term with forEach }

/-- The term of the first instance alone. -/
def firstInstance (term : Term) : Term := { term with firstOnly := true }

def iteratorName (term : Term) : String := term.iterator.getD "each"

/-- Whether a term is evaluated to a list of instances. -/
def isReplicated (term : Term) : Bool :=
  !term.firstOnly && (term.count.isSome || term.forEach.isSome)

/-! ## Terms of bodies -/

/-- Settings and blocks that say how a block is evaluated and are no part of
what it describes. -/
def metaArguments : List String :=
  ["count", "for_each", "depends_on", "provider", "lifecycle", "provisioner", "connection"]

/-- Add a nested term at the end of those of its kind. -/
def addNested (kind : String) (term : Term) (blocks : Table String (List Term)) :
    Table String (List Term) :=
  Table.alter kind (fun earlier => earlier.getD [] ++ [term]) blocks

def settingTable (skipped : List String) (settings : List Setting) :
    Table String Expression :=
  Table.ofList ((settings.filter fun setting => !skipped.contains setting.key).map fun setting =>
    (setting.key, setting.value))

/-- The iteration variable of a dynamic block of kind `kind`. -/
def dynamicIterator (kind : String) (settings : List Setting) : String :=
  match settings.find? fun setting => setting.key == "iterator" with
  | some ⟨_, _, .read name⟩ => name
  | _ => kind

def settingValue? (key : String) (settings : List Setting) : Option Expression :=
  (settings.find? fun setting => setting.key == key).map Setting.value

mutual

/-- The nested terms of blocks, in order. -/
def nestedOf (skipped : List String) : List Block → Table String (List Term) →
    Table String (List Term)
  | [], taken => taken
  | block :: rest, taken =>
      if skipped.contains block.kind then nestedOf skipped rest taken
      else
        match nestedOne block with
        | some (kind, term) => nestedOf skipped rest (addNested kind term taken)
        | none => nestedOf skipped rest taken

/-- The nested term of a block and its kind. A dynamic block stands for a
replicated block of the kind that is its label. -/
def nestedOne : Block → Option (String × Term)
  | ⟨"dynamic", labels, _, settings, blocks⟩ =>
      labels.head?.map fun kind =>
        (kind,
          { ofTermBody ((contentOf blocks).getD (.block [] [])) with
            forEach := settingValue? "for_each" settings
            iterator := some (dynamicIterator kind settings) })
  | ⟨kind, _, _, settings, blocks⟩ =>
      some (kind, ofTermBody (.block (settingTable [] settings) (nestedOf [] blocks [])))

/-- The content of a dynamic block, which is its first block of that kind. -/
def contentOf : List Block → Option (TermBody Term)
  | [] => none
  | ⟨kind, _, _, settings, blocks⟩ :: rest =>
      if kind = "content" then
        some (.block (settingTable [] settings) (nestedOf [] blocks []))
      else contentOf rest

end

/-- The term of the body of a block that stands at the top of a module. -/
def ofBody (body : Body) : Term where
  body := .block (settingTable metaArguments body.settings) (nestedOf metaArguments body.blocks [])
  count := body.value? "count"
  forEach := body.value? "for_each"
  iterator := none
  firstOnly := false

/-- Whether a term is a block, of which every instance is wanted. -/
structure IsBlock (term : Term) : Prop where
  body : ∃ settings blocks, term.body = .block settings blocks
  everyInstance : term.firstOnly = false

theorem isBlock_ofBody (body : Body) : (ofBody body).IsBlock := ⟨⟨_, _, rfl⟩, rfl⟩

/-! ## References -/

/-- Whether a term itself binds a variable for its body. -/
def binds (term : Term) (name : String) : Bool :=
  (term.count.isSome && name == "count") || (term.forEach.isSome && name == term.iteratorName)

def optionalReferences (expression : Option Expression) : List Reference :=
  (expression.map Expression.references).getD []

mutual

/-- The references of a term to variables that it does not bind itself. -/
def dependencies : Term → List Reference
  | ⟨body, count, forEach, iterator, firstOnly⟩ =>
      let term : Term := ⟨body, count, forEach, iterator, firstOnly⟩
      optionalReferences count ++ optionalReferences forEach ++
        (bodyReferences body).filter fun reference => !term.binds reference.root

def bodyReferences : TermBody Term → List Reference
  | .expression expression => expression.references
  | .value _ => []
  | .block settings blocks =>
      settings.flatMap (fun setting => setting.2.references) ++ blockDependencies blocks

def blockDependencies : List (String × List Term) → List Reference
  | [] => []
  | (_, terms) :: rest => termDependencies terms ++ blockDependencies rest

def termDependencies : List Term → List Reference
  | [] => []
  | term :: rest => dependencies term ++ termDependencies rest

end

/-! ## Instances -/

/-- The number of instances that a count asks for. An unknown or absent count
asks for one. -/
def instanceCount? : Value → Option Nat
  | .unknown => some 1
  | .null => some 1
  | .number (.integer value) => if 0 ≤ value then some (min value (signedLimit - 1)).toNat else none
  | .number (.binary value) =>
      match value.toInt? with
      | some whole => if 0 ≤ whole then some (min whole (signedLimit - 1)).toNat else none
      | none => none
  | _ => none

def countBinding (position : Nat) : Value := .nest ["count", "index"] (.ofNat position)

def itemBinding (iterator : String) (key : Option Value) (value : Value) : Value :=
  .nest [iterator] (.object ((key.map fun key => ("key", key)).toList ++ [("value", value)]))

/-- The bindings of the items of a collection, and a diagnostic if it is none.
The items of a set are their own keys, those of a list have no keys. -/
def itemBindings (iterator : String) (isSet : Bool) : Value → List Value × List Diagnostic
  | .unknown => ([itemBinding iterator (some .unknown) .unknown], [])
  | .object fields =>
      (fields.map fun field => itemBinding iterator (some (.string field.1)) field.2, [])
  | .list items =>
      (items.map fun item => itemBinding iterator (if isSet then some item else none) item, [])
  | other => ([], ["for_each expects a map, set or list, got " ++ other.kind])

/-- The bindings of the instances of a term, unless it stands for itself alone. -/
def bindings? (evaluator : Evaluator) (scope : Value) (term : Term) :
    Option (List Value × List Diagnostic) :=
  match term.count, term.forEach with
  | some count, _ =>
      let outcome := evaluator count scope
      match instanceCount? outcome.value with
      | some number => some ((List.range number).map countBinding, outcome.diagnostics)
      | none =>
          some ([], outcome.diagnostics ++
            ["count must be a non-negative whole number, got " ++ outcome.value.kind])
  | none, some forEach =>
      let outcome := evaluator forEach scope
      let (bindings, diagnostics) :=
        itemBindings term.iteratorName (forEach.isCallTo "toset") outcome.value
      some (bindings, outcome.diagnostics ++ diagnostics)
  | none, none => none

/-! ## Evaluation -/

/-- Join the instances of a term: to a list, or to the first one by itself,
which is unknown when there is none. -/
def joinInstances (firstOnly : Bool) (diagnostics : List Diagnostic) (instances : List Outcome) :
    Outcome where
  value :=
    if firstOnly then (instances.head?.map Outcome.value).getD .unknown
    else .list (instances.map Outcome.value)
  diagnostics := diagnostics ++ instances.flatMap Outcome.diagnostics

mutual

/-- Evaluate a term. An expression that fails counts as null, and everything
else is evaluated all the same. -/
def evaluate (evaluator : Evaluator) (scope : Value) : Term → Outcome
  | ⟨body, count, forEach, iterator, firstOnly⟩ =>
      match bindings? evaluator scope ⟨body, count, forEach, iterator, firstOnly⟩ with
      | some (bindings, diagnostics) =>
          let chosen := if firstOnly then bindings.take 1 else bindings
          joinInstances firstOnly diagnostics
            (chosen.map fun binding => evaluateBody evaluator (scope.merge binding) body)
      | none => evaluateBody evaluator scope body

def evaluateBody (evaluator : Evaluator) (scope : Value) : TermBody Term → Outcome
  | .expression expression => evaluator expression scope
  | .value value => ⟨value, []⟩
  | .block settings blocks =>
      let results := settings.map fun setting => (setting.1, evaluator setting.2 scope)
      let (fields, diagnostics) := evaluateBlocks evaluator scope blocks
      { value := .ofEntries ((results.map fun result => (result.1, result.2.value)) ++ fields)
        diagnostics := results.flatMap (fun result => result.2.diagnostics) ++ diagnostics }

/-- The field of every kind of nested block: the list of its instances. -/
def evaluateBlocks (evaluator : Evaluator) (scope : Value) :
    List (String × List Term) → List (String × Value) × List Diagnostic
  | [] => ([], [])
  | (kind, terms) :: rest =>
      let (items, diagnostics) := evaluateTerms evaluator scope terms
      let (fields, others) := evaluateBlocks evaluator scope rest
      ((kind, .list items) :: fields, diagnostics ++ others)

/-- The values of nested terms; the instances of a replicated one stand side by
side with the others. -/
def evaluateTerms (evaluator : Evaluator) (scope : Value) :
    List Term → List Value × List Diagnostic
  | [] => ([], [])
  | term :: rest =>
      let outcome := evaluate evaluator scope term
      let items :=
        match outcome.value with
        | .list items => if term.isReplicated then items else [.list items]
        | other => [other]
      let (others, diagnostics) := evaluateTerms evaluator scope rest
      (items ++ others, outcome.diagnostics ++ diagnostics)

end

end Term

end Groundplan
