import Groundplan.Proofs.FreeVariables
import Groundplan.Proofs.Sightings
/-!
Completeness of dependencies. A term comes out the same, diagnostics included, in any two
scopes that have the same under every variable that its dependencies start with, as long as
neither scope has a variable that the term or a term nested in it binds.
-/

namespace Groundplan

namespace Value

variable {left right : Value} {name : String}

/-- Whether two objects of variables have the same under a variable: in the field of its name
and in every other field that is declared as it. -/
def SameVariable (left right : Value) (name : String) : Prop :=
  ∀ key, key = name ∨ Expression.identifierOf key = name →
    Table.find? key left.fields = Table.find? key right.fields

/-- A binding adds the same to what is the same. -/
theorem SameVariable.merge {bound : List String} {binding : Value}
    (same : SameVariable left right name) (isBinding : Term.IsBinding bound binding) :
    SameVariable (left.merge binding) (right.merge binding) name := by
  rcases isBinding with ⟨given, rest, value, _, rfl⟩
  intro key declares
  change Table.find? key (left.graft (given :: rest) value).fields =
    Table.find? key (right.graft (given :: rest) value).fields
  rw [graft_cons, graft_cons, fields_object, fields_object, Table.find?_insert, Table.find?_insert]
  split
  · next equal => rw [← equal, same key declares]
  · exact same key declares

private theorem SameVariable.declares {key : String} {value : Value}
    (same : SameVariable left right name)
    (declares : Expression.Declares left.fields name key value) :
    Expression.Declares right.fields name key value := by
  refine ⟨?_, declares.declared, fun other member equal => declares.last other ?_ equal⟩
  · rw [← same key (.inr declares.declared), declares.found]
  · rw [Table.mem_keys_iff_find?] at member ⊢
    rwa [same other (.inr equal)]

theorem SameVariable.lookup_eq (leftTable : left.IsTable) (rightTable : right.IsTable)
    (same : SameVariable left right name) :
    (Expression.scopeOf left).lookup name = (Expression.scopeOf right).lookup name := by
  rw [← Expression.scopeOf_fields left, ← Expression.scopeOf_fields right]
  by_cases declared : ∃ key ∈ Table.keys left.fields, Expression.identifierOf key = name
  · rcases declared with ⟨_, member, isDeclared⟩
    rcases Expression.exists_declares leftTable.2 member isDeclared with ⟨key, value, declares⟩
    rw [Expression.lookup_scopeOf_of_declares leftTable.2 declares,
      Expression.lookup_scopeOf_of_declares rightTable.2 (same.declares declares)]
  · have undeclared : ∀ key ∈ Table.keys right.fields, Expression.identifierOf key ≠ name := by
      intro key member equal
      rw [Table.mem_keys_iff_find?, ← same key (.inr equal), ← Table.mem_keys_iff_find?] at member
      exact declared ⟨key, member, equal⟩
    rw [Expression.lookup_scopeOf_eq_none_iff.mpr undeclared]
    exact Expression.lookup_scopeOf_eq_none_iff.mpr fun key member equal =>
      declared ⟨key, member, equal⟩

theorem SameVariable.reachesUnknown_eq {reference : Reference} (rooted : reference.Rooted)
    (leftTable : left.IsTable) (rightTable : right.IsTable)
    (same : SameVariable left right reference.root) :
    left.reachesUnknown reference.accessor = right.reachesUnknown reference.accessor := by
  apply AgreeOn.reachesUnknown_eq
  rw [rooted.keys_eq]
  exact .of_find? leftTable.1 rightTable.1 (same reference.root (.inl rfl))

end Value

open Value (SameVariable)

/-! ## Expressions -/

namespace Expression

variable {left right : Value} {expression : Expression}

/-- An expression comes out the same where its free variables are the same. -/
theorem evaluateIn_congr (leftTable : left.IsTable) (rightTable : right.IsTable)
    (same : ∀ name ∈ expression.freeVariables, SameVariable left right name) :
    expression.evaluateIn left = expression.evaluateIn right := by
  have unknown : expression.readsUnknown left = expression.readsUnknown right := by
    rw [readsUnknown, readsUnknown, Bool.eq_iff_iff, List.any_eq_true, List.any_eq_true]
    refine exists_congr fun reference => and_congr_right fun member => ?_
    have root := same _ (map_root_references expression ▸ List.mem_map_of_mem member)
    rw [root.reachesUnknown_eq (rooted_of_mem expression member) leftTable rightTable]
  have value : expression.evaluate (scopeOf left) = expression.evaluate (scopeOf right) :=
    evaluate_congr expression fun name member => (same name member).lookup_eq leftTable rightTable
  rw [evaluateIn, evaluateIn, unknown, value]

end Expression

/-! ## Terms -/

namespace Term

/-- The names that a term binds for its body. -/
def ownNames (term : Term) : List String :=
  (if term.count.isSome then ["count"] else []) ++
    if term.forEach.isSome then [term.iteratorName] else []

theorem mem_ownNames {term : Term} {name : String} :
    name ∈ term.ownNames ↔ term.binds name = true := by
  rw [ownNames, binds]
  cases term.count <;> cases term.forEach <;> simp

mutual

/-- The names that a term and the terms nested in it bind. -/
def boundNames : Term → List String
  | ⟨body, count, forEach, iterator, firstOnly⟩ =>
      ownNames ⟨body, count, forEach, iterator, firstOnly⟩ ++ bodyNames body

def bodyNames : TermBody Term → List String
  | .expression _ => []
  | .value _ => []
  | .block _ blocks => blockNames blocks

def blockNames : List (String × List Term) → List String
  | [] => []
  | (_, terms) :: rest => termNames terms ++ blockNames rest

def termNames : List Term → List String
  | [] => []
  | term :: rest => boundNames term ++ termNames rest

end

variable {left right : Value}

theorem bindings?_congr {evaluator : Evaluator} (term : Term)
    (counts : ∀ count ∈ term.count, evaluator count left = evaluator count right)
    (collections : ∀ forEach ∈ term.forEach, evaluator forEach left = evaluator forEach right) :
    bindings? evaluator left term = bindings? evaluator right term := by
  rw [bindings?, bindings?]
  cases counted : term.count with
  | some count => simp only [counts count counted]
  | none =>
      cases iterated : term.forEach with
      | some forEach => simp only [collections forEach iterated]
      | none => rfl

/-- Whether two scopes are the same to references and to names that are bound. -/
def SameScopes (left right : Value) (references : List Reference) (bound : List String) : Prop :=
  (∀ reference ∈ references, SameVariable left right reference.root) ∧
    ∀ name ∈ bound, SameVariable left right name

namespace SameScopes

variable {references : List Reference} {bound : List String}

theorem mono {fewer : List Reference} {fewerBound : List String}
    (same : SameScopes left right references bound)
    (subset : ∀ reference ∈ fewer, reference ∈ references)
    (boundSubset : ∀ name ∈ fewerBound, name ∈ bound) :
    SameScopes left right fewer fewerBound :=
  ⟨fun reference member => same.1 reference (subset reference member),
    fun name member => same.2 name (boundSubset name member)⟩

theorem merge {binding : Value} {iterators : List String}
    (same : SameScopes left right references bound) (isBinding : IsBinding iterators binding) :
    SameScopes (left.merge binding) (right.merge binding) references bound :=
  ⟨fun reference member => (same.1 reference member).merge isBinding,
    fun name member => (same.2 name member).merge isBinding⟩

theorem evaluateIn_eq {expression : Expression} (leftTable : left.IsTable)
    (rightTable : right.IsTable)
    (same : SameScopes left right expression.references bound) :
    expression.evaluateIn left = expression.evaluateIn right := by
  apply Expression.evaluateIn_congr leftTable rightTable
  intro name member
  rw [← Expression.map_root_references] at member
  rcases List.mem_map.mp member with ⟨reference, listed, rfl⟩
  exact same.1 reference listed

/-- What the body of a term reads is a dependency of the term, or bound by it. -/
theorem body {term : Term} (same : SameScopes left right term.dependencies term.boundNames) :
    SameScopes left right (bodyReferences term.body) (bodyNames term.body) := by
  rcases term with ⟨body, count, forEach, iterator, firstOnly⟩
  constructor
  · intro reference member
    cases binds : Term.binds ⟨body, count, forEach, iterator, firstOnly⟩ reference.root with
    | true => exact same.2 _ (List.mem_append_left _ (mem_ownNames.mpr binds))
    | false =>
        apply same.1 reference
        rw [dependencies]
        exact List.mem_append_right _
          (List.mem_filter.mpr ⟨member, by rw [binds, Bool.not_false]⟩)
  · intro name member
    exact same.2 name (List.mem_append_right _ member)

theorem bindings?_eq {term : Term} (leftTable : left.IsTable) (rightTable : right.IsTable)
    (same : SameScopes left right term.dependencies term.boundNames) :
    bindings? Expression.evaluateIn left term = bindings? Expression.evaluateIn right term := by
  rcases term with ⟨body, count, forEach, iterator, firstOnly⟩
  simp only [SameScopes, dependencies, List.mem_append] at same
  apply bindings?_congr
  · rintro counted rfl
    have read : SameScopes left right counted.references [] :=
      ⟨fun reference member => same.1 reference (.inl (.inl member)), by simp⟩
    exact read.evaluateIn_eq leftTable rightTable
  · rintro iterated rfl
    have read : SameScopes left right iterated.references [] :=
      ⟨fun reference member => same.1 reference (.inl (.inr member)), by simp⟩
    exact read.evaluateIn_eq leftTable rightTable

end SameScopes

mutual

/-- A term comes out the same in scopes that are the same to it. -/
theorem evaluate_congr {left right : Value} (leftTable : left.IsTable)
    (rightTable : right.IsTable) : (term : Term) →
    SameScopes left right term.dependencies term.boundNames →
    term.evaluate Expression.evaluateIn left = term.evaluate Expression.evaluateIn right
  | ⟨body, count, forEach, iterator, firstOnly⟩, same => by
      rw [evaluate, evaluate, same.bindings?_eq leftTable rightTable]
      cases found : bindings? Expression.evaluateIn right
          ⟨body, count, forEach, iterator, firstOnly⟩ with
      | none => exact evaluateBody_congr leftTable rightTable body same.body
      | some given =>
          rcases given with ⟨bindings, diagnostics⟩
          dsimp only
          congr 1
          apply List.map_congr_left
          intro binding member
          have listed : binding ∈ bindings := by
            split at member
            · exact List.mem_of_mem_take member
            · exact member
          have isBinding := isBinding_of_bindings? found binding listed
          exact evaluateBody_congr (isTable_merge leftTable isBinding)
            (isTable_merge rightTable isBinding) body (same.body.merge isBinding)

theorem evaluateBody_congr {left right : Value} (leftTable : left.IsTable)
    (rightTable : right.IsTable) : (body : TermBody Term) →
    SameScopes left right (bodyReferences body) (bodyNames body) →
    evaluateBody Expression.evaluateIn left body = evaluateBody Expression.evaluateIn right body
  | .expression expression, same => by
      rw [evaluateBody, evaluateBody]
      exact same.evaluateIn_eq leftTable rightTable
  | .value value, _ => by rw [evaluateBody, evaluateBody]
  | .block settings blocks, same => by
      have results : settings.map (fun setting => (setting.1, setting.2.evaluateIn left)) =
          settings.map fun setting => (setting.1, setting.2.evaluateIn right) := by
        apply List.map_congr_left
        intro setting member
        have inSetting : SameScopes left right setting.2.references
            (bodyNames (.block settings blocks)) :=
          same.mono (fun reference listed =>
            List.mem_append_left _ (List.mem_flatMap.mpr ⟨setting, member, listed⟩)) fun _ => id
        rw [inSetting.evaluateIn_eq leftTable rightTable]
      have nested := evaluateBlocks_congr leftTable rightTable blocks
        (same.mono (fun _ => List.mem_append_right _) fun _ => id)
      rw [evaluateBody, evaluateBody, results, nested]

theorem evaluateBlocks_congr {left right : Value} (leftTable : left.IsTable)
    (rightTable : right.IsTable) : (blocks : List (String × List Term)) →
    SameScopes left right (blockDependencies blocks) (blockNames blocks) →
    evaluateBlocks Expression.evaluateIn left blocks =
      evaluateBlocks Expression.evaluateIn right blocks
  | [], _ => by rw [evaluateBlocks, evaluateBlocks]
  | (_, terms) :: rest, same => by
      rw [evaluateBlocks, evaluateBlocks,
        evaluateTerms_congr leftTable rightTable terms
          (same.mono (fun _ => List.mem_append_left _) fun _ => List.mem_append_left _),
        evaluateBlocks_congr leftTable rightTable rest
          (same.mono (fun _ => List.mem_append_right _) fun _ => List.mem_append_right _)]

theorem evaluateTerms_congr {left right : Value} (leftTable : left.IsTable)
    (rightTable : right.IsTable) : (terms : List Term) →
    SameScopes left right (termDependencies terms) (termNames terms) →
    evaluateTerms Expression.evaluateIn left terms = evaluateTerms Expression.evaluateIn right terms
  | [], _ => by rw [evaluateTerms, evaluateTerms]
  | term :: rest, same => by
      rw [evaluateTerms, evaluateTerms,
        evaluate_congr leftTable rightTable term
          (same.mono (fun _ => List.mem_append_left _) fun _ => List.mem_append_left _),
        evaluateTerms_congr leftTable rightTable rest
          (same.mono (fun _ => List.mem_append_right _) fun _ => List.mem_append_right _)]

end

/-- A term depends on nothing but the variables that its dependencies start with, and the
references of an expression start with its free variables, in order and no others. -/
theorem dependencies_complete :
    (∀ (term : Term) (left right : Value), left.IsTable → right.IsTable →
      (∀ reference ∈ term.dependencies, SameVariable left right reference.root) →
      (∀ name ∈ term.boundNames,
        Table.find? name left.fields = none ∧ Table.find? name right.fields = none ∧
        ∀ key, Expression.identifierOf key = name →
          Table.find? key left.fields = Table.find? key right.fields) →
      term.evaluate Expression.evaluateIn left = term.evaluate Expression.evaluateIn right) ∧
    (∀ expression : Expression,
      expression.references.map Reference.root = expression.freeVariables) ∧
    ∀ (expression : Expression) (left right : Scope),
      (∀ reference ∈ expression.references,
        left.lookup reference.root = right.lookup reference.root) →
      expression.evaluate left = expression.evaluate right := by
  refine ⟨?_, Expression.map_root_references, ?_⟩
  · intro term left right leftTable rightTable same unbound
    refine evaluate_congr leftTable rightTable term ⟨same, fun name member key declares => ?_⟩
    rcases unbound name member with ⟨noLeft, noRight, others⟩
    rcases declares with rfl | declared
    · rw [noLeft, noRight]
    · exact others key declared
  · intro expression left right same
    refine Expression.evaluate_congr expression fun name member => ?_
    rw [← Expression.map_root_references] at member
    rcases List.mem_map.mp member with ⟨reference, listed, rfl⟩
    exact same reference listed

/-- A term with an instance for each list of rules, and in it a block for each rule. -/
def ruleTerm : Term where
  body := .block [("size", .traversal (.read "local") [.member "size"])]
    [("rule", [{
      body := .block [("port", .traversal (.read "rule") [.member "value"])] []
      count := none
      forEach := some (.traversal (.read "each") [.member "value"])
      iterator := some "rule"
      firstOnly := false }])]
  count := none
  forEach := some (.traversal (.read "var") [.member "rules"])
  iterator := none
  firstOnly := false

/-- Variables for the rules, and one that they do not read. -/
def ruleScope (other : Value) : Value :=
  .object [("local", .object [("size", .ofNat 1)]), ("other", other),
    ("var", .object [("rules", .list [.list [.ofNat 80, .ofNat 443]])])]

theorem dependencies_complete_rules :
    (ruleScope .null).IsTable ∧ (ruleScope .unknown).IsTable ∧
    (ruleTerm.dependencies.map Reference.root = ["var", "local"]) ∧
    ruleTerm.boundNames = ["each", "rule"] ∧
    (ruleTerm.evaluate Expression.evaluateIn (ruleScope .null)).diagnostics = [] ∧
    ruleTerm.evaluate Expression.evaluateIn (ruleScope .null) =
      ruleTerm.evaluate Expression.evaluateIn (ruleScope .unknown) := by
  have isTable (other : Value) : (ruleScope other).IsTable := by
    refine ⟨rfl, ?_⟩
    rw [ruleScope, Value.fields_object, Table.ordered_iff_keys]
    simp only [Table.keys_cons, Table.keys_nil]
    decide
  have elsewhere (key : String) (different : key ≠ "other") :
      Table.find? key (ruleScope .null).fields = Table.find? key (ruleScope .unknown).fields := by
    simp only [ruleScope, Value.fields_object, Table.find?, Std.LawfulEqCmp.compare_eq_iff_eq,
      different, if_false]
  have roots : ruleTerm.dependencies.map Reference.root = ["var", "local"] := by decide +kernel
  have bound : ruleTerm.boundNames = ["each", "rule"] := by decide
  have unrelated : Expression.identifierOf "other" = "other" := by decide +kernel
  refine ⟨isTable _, isTable _, roots, bound, by decide +kernel, ?_⟩
  apply dependencies_complete.1 _ _ _ (isTable _) (isTable _)
  · intro reference member key declares
    have root := roots ▸ List.mem_map_of_mem (f := Reference.root) member
    refine elsewhere key fun same => ?_
    subst same
    rw [unrelated, or_self] at declares
    rw [← declares] at root
    simp at root
  · intro name member
    rw [bound] at member
    have either : name = "each" ∨ name = "rule" := by simpa using member
    refine ⟨by rcases either with rfl | rfl <;> rfl, by rcases either with rfl | rfl <;> rfl, ?_⟩
    refine fun key declared => elsewhere key fun same => ?_
    subst same
    rw [unrelated] at declared
    rw [← declared] at either
    simp at either

/-- Agreement under the names alone is not enough: another field can be declared as the same
variable. -/
theorem exists_clash : ∃ (term : Term) (left right : Value), left.IsTable ∧ right.IsTable ∧
    ¬(term.count.isSome ∧ term.forEach.isSome) ∧
    (∀ reference ∈ term.dependencies,
      Table.find? reference.root left.fields = Table.find? reference.root right.fields) ∧
    (∀ name ∈ term.boundNames,
      Table.find? name left.fields = none ∧ Table.find? name right.fields = none) ∧
    term.evaluate Expression.evaluateIn left ≠ term.evaluate Expression.evaluateIn right := by
  refine ⟨.ofExpression (.read "foo_bar"), .object [("foo_bar", .ofNat 1)],
    .object [("foo_bar", .ofNat 1), ("foo~bar", .string "two")], ⟨rfl, ?_⟩, ⟨rfl, ?_⟩, by decide,
    ?_, by decide, ?_⟩
  · exact Table.ordered_iff_keys.mpr (by decide)
  · exact Table.ordered_iff_keys.mpr (by decide)
  · intro reference member
    have root : reference.root = "foo_bar" := by
      rw [List.mem_singleton.mp member]
      rfl
    rw [root]
    rfl
  · intro same
    have kinds := congrArg (fun outcome => outcome.value.kind) same
    revert kinds
    decide +kernel

end Term

end Groundplan
