import Groundplan.Expression.Evaluation
import Groundplan.Proofs.Names
/-!
What an expression reads. Its references start with their variables, and the names that
loops bind are the same inside a loop wherever it is evaluated.
-/

namespace Groundplan

/-! ## Bound names -/

theorem Scope.lookup_cons_of_ne {name given : String} (different : name ≠ given) (value : Datum)
    (scope : Scope) : List.lookup name ((given, value) :: scope) = scope.lookup name := by
  rw [List.lookup_cons, beq_eq_false_iff_ne.mpr different]

namespace Scope

/-- Whether two scopes bind the same to each of some names. -/
def BindAlike (left right : Scope) (bound : List String) : Prop :=
  ∀ name ∈ bound, left.lookup name = right.lookup name

theorem BindAlike.cons {left right : Scope} {bound : List String}
    (alike : BindAlike left right bound) (given : String) (value : Datum) :
    BindAlike ((given, value) :: left) ((given, value) :: right) (given :: bound) := by
  intro name member
  by_cases same : name = given
  · simp [same]
  · rw [lookup_cons_of_ne same, lookup_cons_of_ne same]
    exact alike name ((List.mem_cons.mp member).resolve_left same)

theorem BindAlike.bind {left right : Scope} {bound : List String}
    (alike : BindAlike left right bound) (names : LoopNames) (entry : Datum × Datum) :
    BindAlike (names.bind entry left) (names.bind entry right) (bound ++ names.all) := by
  intro name member
  cases key : names.key with
  | none =>
      have inner := alike.cons names.value entry.2
      simp only [LoopNames.bind, key]
      apply inner
      simpa [LoopNames.all, key, or_comm] using member
  | some given =>
      have inner := (alike.cons given entry.1).cons names.value entry.2
      simp only [LoopNames.bind, key]
      apply inner
      simp only [LoopNames.all, key, Option.toList_some, List.mem_append, List.mem_cons,
        List.not_mem_nil, or_false] at member
      simp only [List.mem_cons]
      rcases member with outer | isKey | isValue
      · exact Or.inr (Or.inr outer)
      · exact Or.inr (Or.inl isKey)
      · exact Or.inl isValue

end Scope

/-! ## Expressions -/

namespace Expression

/-- Only a template of a single interpolation is not evaluated to a text. -/
theorem template_cases (parts : List TemplatePart) :
    (∃ value, parts = [.interpolation value]) ∨
      ∀ scope, evaluate scope (template parts) =
        (evaluateParts scope parts).map Datum.string := by
  by_cases single : ∃ value, parts = [.interpolation value]
  · exact Or.inl single
  · refine Or.inr fun scope => ?_
    rw [evaluate]
    · rfl
    · exact fun value same => single ⟨value, same⟩

theorem evaluate_traversal (scope : Scope) (base : Expression) (steps : List TraversalStep) :
    evaluate scope (traversal base steps) =
      evaluate scope base >>= fun datum => follow scope (.one datum) steps := by
  rw [evaluate]

theorem referencesIn_traversal (bound : List String) (base : Expression)
    (steps : List TraversalStep) :
    (∃ name, base = read name) ∨
      referencesIn bound (traversal base steps) =
        referencesIn bound base ++ referencesInSteps bound steps := by
  cases base with
  | read name => exact Or.inl ⟨name, rfl⟩
  | _ => exact Or.inr rfl

end Expression

/-! ## Roots of references -/

namespace Reference

/-- Whether the first key of a reference is its variable. -/
def Rooted (reference : Reference) : Prop :=
  ∃ rest, (Accessor.splitKeys reference.accessor).1 = reference.root :: rest

theorem rooted_ofSteps (name : String) (steps : List TraversalStep) :
    (ofSteps name steps).Rooted := by
  rw [Rooted, ofSteps, Accessor.splitKeys_key]
  exact ⟨_, rfl⟩

end Reference

namespace Expression

theorem rooted_of_mem_readFrom {bound : List String} {name : String}
    {steps : List TraversalStep} {reference : Reference}
    (member : reference ∈ readFrom bound name steps) : reference.Rooted := by
  rw [readFrom] at member
  split at member
  · cases member
  · rw [List.mem_singleton.mp member]
    exact Reference.rooted_ofSteps name steps

mutual

theorem rooted_of_mem {reference : Reference} : (expression : Expression) →
    ∀ {bound}, reference ∈ referencesIn bound expression → reference.Rooted
  | null, _, member => by rw [referencesIn] at member; cases member
  | bool _, _, member => by rw [referencesIn] at member; cases member
  | number _, _, member => by rw [referencesIn] at member; cases member
  | string _, _, member => by rw [referencesIn] at member; cases member
  | list items, _, member => by
      rw [referencesIn] at member
      exact rooted_of_mem_items items member
  | object items, _, member => by
      rw [referencesIn] at member
      exact rooted_of_mem_object items member
  | template parts, _, member => by
      rw [referencesIn] at member
      exact rooted_of_mem_parts parts member
  | read name, _, member => by
      rw [referencesIn] at member
      exact rooted_of_mem_readFrom member
  | traversal base steps, bound, member => by
      rcases referencesIn_traversal bound base steps with ⟨name, same⟩ | references
      · subst same
        rw [referencesIn] at member
        rcases List.mem_append.mp member with member | member
        · exact rooted_of_mem_readFrom member
        · exact rooted_of_mem_steps steps member
      · rw [references] at member
        rcases List.mem_append.mp member with member | member
        · exact rooted_of_mem base member
        · exact rooted_of_mem_steps steps member
  | call _ arguments _, _, member => by
      rw [referencesIn] at member
      exact rooted_of_mem_items arguments member
  | group inner, _, member => by
      rw [referencesIn] at member
      exact rooted_of_mem inner member
  | conditional condition whenTrue whenFalse, _, member => by
      simp only [referencesIn, List.mem_append] at member
      rcases member with (member | member) | member
      · exact rooted_of_mem condition member
      · exact rooted_of_mem whenTrue member
      · exact rooted_of_mem whenFalse member
  | unary _ operand, _, member => by
      rw [referencesIn] at member
      exact rooted_of_mem operand member
  | binary _ left right, _, member => by
      simp only [referencesIn, List.mem_append] at member
      rcases member with member | member
      · exact rooted_of_mem left member
      · exact rooted_of_mem right member
  | listLoop _ collection result condition, _, member => by
      simp only [referencesIn, List.mem_append] at member
      rcases member with (member | member) | member
      · exact rooted_of_mem collection member
      · exact rooted_of_mem result member
      · exact rooted_of_mem condition member
  | objectLoop _ collection key value condition _, _, member => by
      simp only [referencesIn, List.mem_append] at member
      rcases member with ((member | member) | member) | member
      · exact rooted_of_mem collection member
      · exact rooted_of_mem key member
      · exact rooted_of_mem value member
      · exact rooted_of_mem condition member

theorem rooted_of_mem_items {reference : Reference} : (items : List Expression) →
    ∀ {bound}, reference ∈ referencesInItems bound items → reference.Rooted
  | [], _, member => by rw [referencesInItems] at member; cases member
  | item :: rest, _, member => by
      simp only [referencesInItems, List.mem_append] at member
      rcases member with member | member
      · exact rooted_of_mem item member
      · exact rooted_of_mem_items rest member

theorem rooted_of_mem_object {reference : Reference} : (items : List ObjectItem) →
    ∀ {bound}, reference ∈ referencesInObject bound items → reference.Rooted
  | [], _, member => by rw [referencesInObject] at member; cases member
  | .named _ value :: rest, _, member => by
      simp only [referencesInObject, List.mem_append] at member
      rcases member with member | member
      · exact rooted_of_mem value member
      · exact rooted_of_mem_object rest member
  | .computed key value :: rest, _, member => by
      simp only [referencesInObject, List.mem_append] at member
      rcases member with (member | member) | member
      · exact rooted_of_mem key member
      · exact rooted_of_mem value member
      · exact rooted_of_mem_object rest member

theorem rooted_of_mem_steps {reference : Reference} : (steps : List TraversalStep) →
    ∀ {bound}, reference ∈ referencesInSteps bound steps → reference.Rooted
  | [], _, member => by rw [referencesInSteps] at member; cases member
  | .index position :: rest, _, member => by
      simp only [referencesInSteps, List.mem_append] at member
      rcases member with member | member
      · exact rooted_of_mem position member
      · exact rooted_of_mem_steps rest member
  | .member _ :: rest, _, member => rooted_of_mem_steps rest member
  | .position _ :: rest, _, member => rooted_of_mem_steps rest member
  | .memberSplat :: rest, _, member => rooted_of_mem_steps rest member
  | .fullSplat :: rest, _, member => rooted_of_mem_steps rest member

theorem rooted_of_mem_parts {reference : Reference} : (parts : List TemplatePart) →
    ∀ {bound}, reference ∈ referencesInParts bound parts → reference.Rooted
  | [], _, member => by rw [referencesInParts] at member; cases member
  | .literal _ :: rest, _, member => by
      rw [referencesInParts] at member
      exact rooted_of_mem_parts rest member
  | .interpolation value :: rest, _, member => by
      simp only [referencesInParts, List.mem_append] at member
      rcases member with member | member
      · exact rooted_of_mem value member
      · exact rooted_of_mem_parts rest member
  | .choice condition whenTrue whenFalse :: rest, _, member => by
      simp only [referencesInParts, List.mem_append] at member
      rcases member with ((member | member) | member) | member
      · exact rooted_of_mem condition member
      · exact rooted_of_mem_parts whenTrue member
      · exact rooted_of_mem_parts whenFalse member
      · exact rooted_of_mem_parts rest member
  | .loop _ collection body :: rest, _, member => by
      simp only [referencesInParts, List.mem_append] at member
      rcases member with (member | member) | member
      · exact rooted_of_mem collection member
      · exact rooted_of_mem_parts body member
      · exact rooted_of_mem_parts rest member

end

end Expression

end Groundplan
