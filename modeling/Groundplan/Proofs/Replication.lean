import Groundplan.Proofs.Shadowing
import Groundplan.Proofs.Unknowns
/-!
Replication. A term with a count or a collection is a list of its instances. Asked for its first
instance alone it gives the first item of that list, and notes no more than the whole list does.
-/

namespace Groundplan.Term

variable {evaluator : Evaluator} {scope : Value} {term : Term}

/-! ## Instances of terms -/

theorem exists_iterationName? (replicates : term.count.isSome ∨ term.forEach.isSome) :
    ∃ name, term.iterationName? = some name := by
  rw [iterationName?]
  cases counted : term.count with
  | some count => exact ⟨_, rfl⟩
  | none =>
      cases iterates : term.forEach with
      | some collection => exact ⟨_, rfl⟩
      | none => simp [counted, iterates] at replicates

theorem evaluate_of_unreplicated (uncounted : term.count = none) (iterates : term.forEach = none)
    (evaluator : Evaluator) (scope : Value) :
    term.evaluate evaluator scope = evaluateBody evaluator scope term.body := by
  rcases term with ⟨body, count, forEach, iterator, firstOnly⟩
  cases uncounted
  cases iterates
  rw [evaluate, bindings?]

/-- The values of the instances of a term. -/
def instanceValues (evaluator : Evaluator) (scope : Value) (term : Term) : List Value :=
  (term.bodyScopes evaluator scope).map fun inner => (evaluateBody evaluator inner term.body).value

/-- A term with a count or a collection is a list of its instances, and another one is what
its only instance is. -/
theorem value_evaluate (evaluator : Evaluator) (scope : Value)
    (everyInstance : term.firstOnly = false) :
    (term.isReplicated = true ∧
      (term.evaluate evaluator scope).value = .list (instanceValues evaluator scope term)) ∨
    (term.isReplicated = false ∧
      instanceValues evaluator scope term = [(term.evaluate evaluator scope).value]) := by
  rw [isReplicated, everyInstance]
  by_cases replicates : term.count.isSome ∨ term.forEach.isSome
  · left
    rcases exists_iterationName? replicates with ⟨name, named⟩
    rcases exists_bindings? named evaluator scope with ⟨bindings, diagnostics, found⟩
    refine ⟨by simpa using replicates, ?_⟩
    rw [evaluate_of_bindings? found, joinInstances, everyInstance, instanceValues]
    simp
  · right
    rw [not_or, Option.not_isSome_iff_eq_none, Option.not_isSome_iff_eq_none] at replicates
    have unnamed : term.iterationName? = none := by
      rw [iterationName?, replicates.1, replicates.2]
    refine ⟨by simp [replicates], ?_⟩
    rw [instanceValues, bodyScopes_of_unnamed unnamed,
      evaluate_of_unreplicated replicates.1 replicates.2]
    rfl

/-! ## First instances -/

/-- The term of all instances: that of a list, if the term is replicated. -/
def allInstances (term : Term) : Term := { term with firstOnly := false }

/-- A term stands either for all its instances or for the first one alone. -/
theorem eq_allInstances_or_eq_firstInstance (term : Term) :
    term = term.allInstances ∨ term = term.firstInstance := by
  rcases term with ⟨body, count, forEach, iterator, firstOnly⟩
  cases firstOnly with
  | false => exact .inl rfl
  | true => exact .inr rfl

/-- The first instance is evaluated in the first of the scopes of all instances. -/
theorem bodyScopes_firstInstance (evaluator : Evaluator) (scope : Value) (term : Term) :
    term.firstInstance.bodyScopes evaluator scope =
      (term.allInstances.bodyScopes evaluator scope).take 1 := by
  have alike : bindings? evaluator scope term.firstInstance =
      bindings? evaluator scope term.allInstances := rfl
  rw [bodyScopes, bodyScopes, alike]
  cases bindings? evaluator scope term.allInstances with
  | none => rfl
  | some found => exact List.map_take

/-- A term that stands for itself alone is its own first instance. -/
theorem evaluate_alone (uncounted : term.count = none) (iterates : term.forEach = none)
    (evaluator : Evaluator) (scope : Value) :
    term.firstInstance.evaluate evaluator scope = term.allInstances.evaluate evaluator scope := by
  have first : term.firstInstance.count = none := uncounted
  have whole : term.allInstances.count = none := uncounted
  rw [evaluate_of_unreplicated first iterates, evaluate_of_unreplicated whole iterates]
  rfl

/-- The instances of a term, joined to a list or cut down to the first one. -/
theorem exists_instances (replicates : term.count.isSome ∨ term.forEach.isSome)
    (evaluator : Evaluator) (scope : Value) : ∃ diagnostics instances,
      term.allInstances.evaluate evaluator scope = joinInstances false diagnostics instances ∧
      term.firstInstance.evaluate evaluator scope =
        joinInstances true diagnostics (instances.take 1) := by
  rcases exists_iterationName? replicates with ⟨name, named⟩
  have whole : term.allInstances.iterationName? = some name := named
  rcases exists_bindings? whole evaluator scope with ⟨bindings, diagnostics, found⟩
  refine ⟨diagnostics, _, evaluate_of_bindings? found, ?_⟩
  have first : bindings? evaluator scope term.firstInstance = some (bindings, diagnostics) := found
  rw [evaluate_of_bindings? first, bodyScopes_firstInstance, List.map_take]
  rfl

/-- The first instance by itself is the first one of the list, or unknown. -/
theorem value_joinInstances_take (diagnostics : List Diagnostic) (instances : List Outcome) :
    (joinInstances true diagnostics (instances.take 1)).value =
      (instances.map Outcome.value).head?.getD .unknown := by
  cases instances <;> rfl

theorem diagnostics_joinInstances_take (diagnostics : List Diagnostic) (instances : List Outcome) :
    (joinInstances true diagnostics (instances.take 1)).diagnostics <+:
      (joinInstances false diagnostics instances).diagnostics := by
  refine (List.prefix_append_right_inj diagnostics).mpr ?_
  calc
    (instances.take 1).flatMap Outcome.diagnostics
    _ <+: (instances.take 1).flatMap Outcome.diagnostics ++
        (instances.drop 1).flatMap Outcome.diagnostics := List.prefix_append _ _
    _ = instances.flatMap Outcome.diagnostics := by
        rw [← List.flatMap_append, List.take_append_drop]

/-- The first instance alone has the value of the first item of all instances, or is unknown
where there are none, and its diagnostics are a start of theirs. Without a count and without a
collection it is all there is. -/
theorem evaluate_firstInstance (evaluator : Evaluator) (scope : Value) (term : Term) :
    (term.count.isSome ∨ term.forEach.isSome →
      ∃ items, (term.allInstances.evaluate evaluator scope).value = .list items ∧
        (term.firstInstance.evaluate evaluator scope).value = items.head?.getD .unknown) ∧
    (term.count = none → term.forEach = none →
      (term.firstInstance.evaluate evaluator scope).value =
        (term.allInstances.evaluate evaluator scope).value) ∧
    (term.firstInstance.evaluate evaluator scope).diagnostics <+:
      (term.allInstances.evaluate evaluator scope).diagnostics ∧
    (term = term.allInstances ∨ term = term.firstInstance) := by
  have alone (uncounted : term.count = none) (iterates : term.forEach = none) :=
    evaluate_alone uncounted iterates evaluator scope
  refine ⟨?_, fun uncounted iterates => congrArg Outcome.value (alone uncounted iterates), ?_,
    eq_allInstances_or_eq_firstInstance term⟩
  · intro replicates
    rcases exists_instances replicates evaluator scope with ⟨diagnostics, instances, whole, first⟩
    rw [whole, first, value_joinInstances_take]
    exact ⟨_, rfl, rfl⟩
  · by_cases replicates : term.count.isSome ∨ term.forEach.isSome
    · rcases exists_instances replicates evaluator scope with
        ⟨diagnostics, instances, whole, first⟩
      rw [whole, first]
      exact diagnostics_joinInstances_take diagnostics instances
    · rw [not_or, Option.not_isSome_iff_eq_none, Option.not_isSome_iff_eq_none] at replicates
      have same := congrArg Outcome.diagnostics (alone replicates.1 replicates.2)
      exact same ▸ List.prefix_rfl

/-- Two instances that read their own numbers. -/
def numbered : Term :=
  (ofExpression (.read "count")).withCount (some (.number (.ofNat 2)))

theorem value_evaluate_numbered : (numbered.evaluate Expression.evaluateIn (.object [])).value =
    .list [.object [("index", .ofNat 0)], .object [("index", .ofNat 1)]] := by
  have alone (position : Nat) : (Value.object []).merge (countBinding position) =
      countBinding position := Value.graft_empty (List.cons_ne_nil _ _) _
  have scopes : numbered.bodyScopes Expression.evaluateIn (.object []) =
      [countBinding 0, countBinding 1] := by
    rw [← alone 0, ← alone 1]
    rfl
  have first : (Expression.read "count").evaluate (Expression.scopeOf (countBinding 0)) =
      .ok (.object [("index", .number (.ofNat 0))]) := rfl
  have second : (Expression.read "count").evaluate (Expression.scopeOf (countBinding 1)) =
      .ok (.object [("index", .number (.ofNat 1))]) := rfl
  rcases value_evaluate Expression.evaluateIn (.object []) (rfl : numbered.firstOnly = false) with
    ⟨_, value⟩ | ⟨single, _⟩
  · rw [value, instanceValues, scopes, numbered, withCount, ofExpression, ofTermBody]
    simp only [List.map_cons, List.map_nil, evaluateBody]
    rw [Expression.evaluateIn_of_evaluate (by decide +kernel) first,
      Expression.evaluateIn_of_evaluate (by decide +kernel) second]
    rfl
  · cases single

theorem evaluate_firstInstance_numbered :
    (numbered.evaluate Expression.evaluateIn (.object [])).value =
        .list [.object [("index", .ofNat 0)], .object [("index", .ofNat 1)]] ∧
      (numbered.firstInstance.evaluate Expression.evaluateIn (.object [])).value =
        .object [("index", .ofNat 0)] := by
  rcases (evaluate_firstInstance Expression.evaluateIn (.object []) numbered).1 (.inl rfl) with
    ⟨items, whole, first⟩
  have same : items = [.object [("index", .ofNat 0)], .object [("index", .ofNat 1)]] := by
    have listed := whole.symm.trans value_evaluate_numbered
    cases listed
    rfl
  rw [same] at first
  exact ⟨value_evaluate_numbered, first⟩

end Groundplan.Term
