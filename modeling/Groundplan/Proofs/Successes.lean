import Groundplan.Proofs.Reads
/-!
Successful evaluation. An expression that evaluates without an error keeps its value
in every scope that gives its references the same parts; a reference that leads to
nothing says nothing about the other scope.
-/

namespace Groundplan

/-! ## Results that succeed alike -/

namespace Evaluated

variable {α β : Type}

/-- Whether the right result is that of the left one wherever the left one succeeds. -/
def Refines (left right : Evaluated α) : Prop := ∀ value, left = .ok value → right = .ok value

namespace Refines

theorem refl (result : Evaluated α) : Refines result result := fun _ done => done

theorem of_eq {left right : Evaluated α} (equal : left = right) : Refines left right :=
  equal ▸ refl left

theorem exists_of_bind {first : Evaluated α} {next : α → Evaluated β} {result : β}
    (done : first >>= next = .ok result) :
    ∃ value, first = .ok value ∧ next value = .ok result := by
  cases first with
  | error => cases done
  | ok value => exact ⟨value, rfl, done⟩

theorem bind {left right : Evaluated α} {leftNext rightNext : α → Evaluated β}
    (first : Refines left right) (next : ∀ value, Refines (leftNext value) (rightNext value)) :
    Refines (left >>= leftNext) (right >>= rightNext) := by
  intro result done
  rcases exists_of_bind done with ⟨value, reached, done⟩
  rw [first value reached]
  exact next value result done

theorem ite {condition : Bool} {leftTrue leftFalse rightTrue rightFalse : Evaluated α}
    (whenTrue : Refines leftTrue rightTrue) (whenFalse : Refines leftFalse rightFalse) :
    Refines (if condition then leftTrue else leftFalse)
      (if condition then rightTrue else rightFalse) := by
  cases condition with
  | true => exact whenTrue
  | false => exact whenFalse

theorem mapM {left right : α → Evaluated β} (each : ∀ item, Refines (left item) (right item))
    (items : List α) : Refines (items.mapM left) (items.mapM right) := by
  induction items with
  | nil => exact refl _
  | cons item rest induction =>
      rw [List.mapM_cons, List.mapM_cons]
      exact (each item).bind fun value => induction.bind fun values => refl _

theorem foldlM {left right : β → α → Evaluated β}
    (each : ∀ taken item, Refines (left taken item) (right taken item)) (items : List α)
    (taken : β) : Refines (items.foldlM left taken) (items.foldlM right taken) := by
  induction items generalizing taken with
  | nil => exact refl _
  | cons item rest induction =>
      rw [List.foldlM_cons, List.foldlM_cons]
      exact (each taken item).bind induction

end Refines

end Evaluated

/-! ## Parts of data -/

namespace Datum

/-- The part of a datum that an accessor leads to. -/
def walk (datum : Datum) : Accessor → Evaluated Datum
  | [] => .ok datum
  | .key name :: rest => datum.member name >>= fun part => part.walk rest
  | .index position :: rest => datum.item position >>= fun part => part.walk rest

end Datum

namespace TraversalStep

/-- The segments of the steps that are known without evaluation. -/
def knownSegments (steps : List TraversalStep) : Accessor :=
  (steps.takeWhile fun step => step.segment?.isSome).filterMap segment?

/-- The steps from the first one on that is not known. -/
def afterKnown (steps : List TraversalStep) : List TraversalStep :=
  steps.dropWhile fun step => step.segment?.isSome

theorem knownSegments_cons {step : TraversalStep} {segment : Segment}
    (known : step.segment? = some segment) (rest : List TraversalStep) :
    knownSegments (step :: rest) = segment :: knownSegments rest := by
  simp [knownSegments, known]

theorem afterKnown_cons {step : TraversalStep} {segment : Segment}
    (known : step.segment? = some segment) (rest : List TraversalStep) :
    afterKnown (step :: rest) = afterKnown rest := by
  simp [afterKnown, known]

theorem known_of_none {step : TraversalStep} (unknown : step.segment? = none)
    (rest : List TraversalStep) :
    knownSegments (step :: rest) = [] ∧ afterKnown (step :: rest) = step :: rest := by
  simp [knownSegments, afterKnown, unknown]

theorem afterKnown_suffix (steps : List TraversalStep) : afterKnown steps <:+ steps :=
  List.dropWhile_suffix _

end TraversalStep

namespace Expression

/-- A known step goes along its segment. -/
theorem follow_step {step : TraversalStep} {segment : Segment}
    (known : step.segment? = some segment) (scope : Scope) (datum : Datum)
    (rest : List TraversalStep) :
    follow scope (.one datum) (step :: rest) =
      datum.walk [segment] >>= fun part => follow scope (.one part) rest := by
  have single : ∀ reached : Evaluated Datum, (reached >>= fun part => part.walk []) = reached := by
    intro reached
    cases reached <;> rfl
  cases step with
  | member name =>
      cases known
      rw [follow, Datum.walk, single, Place.member]
      cases datum.member name <;> rfl
  | position position =>
      cases known
      rw [follow, Datum.walk, single]
      rfl
  | index given =>
      cases given with
      | string key =>
          cases known
          rw [follow, Datum.walk, single, evaluate]
          rfl
      | number value =>
          rw [TraversalStep.segment?, Option.map_eq_some_iff] at known
          rcases known with ⟨position, unsigned, same⟩
          subst same
          rw [follow, Datum.walk, single, evaluate]
          simp only [bind, Except.bind, Datum.indexed, unsigned, Place.datum]
      | _ => cases known
  | memberSplat => cases known
  | fullSplat => cases known

/-- Following steps from a datum is going along the known ones and following the
rest from there. -/
theorem follow_known (scope : Scope) (steps : List TraversalStep) (datum : Datum) :
    follow scope (.one datum) steps =
      datum.walk (TraversalStep.knownSegments steps) >>= fun part =>
        follow scope (.one part) (TraversalStep.afterKnown steps) := by
  induction steps generalizing datum with
  | nil => rfl
  | cons step rest induction =>
      cases known : step.segment? with
      | none =>
          rw [(TraversalStep.known_of_none known rest).1,
            (TraversalStep.known_of_none known rest).2]
          rfl
      | some segment =>
          rw [TraversalStep.knownSegments_cons known, TraversalStep.afterKnown_cons known,
            follow_step known]
          cases segment with
          | key name =>
              rw [Datum.walk, Datum.walk]
              cases datum.member name with
              | error => rfl
              | ok part => exact induction part
          | index position =>
              rw [Datum.walk, Datum.walk]
              cases datum.item position with
              | error => rfl
              | ok part => exact induction part

end Expression

/-! ## Scopes that give the same parts -/

/-- The part that a reference leads to in a scope. -/
def Scope.part (scope : Scope) (reference : Reference) : Evaluated Datum :=
  scope.lookup reference.root |>.elim (.error (.undefinedVariable reference.root)) fun datum =>
    datum.walk reference.accessor.tail

/-- Whether what a reference leads to in the left scope is there in the right one too. -/
def Scope.Gives (left right : Scope) (reference : Reference) : Prop :=
  Evaluated.Refines (left.part reference) (right.part reference)

namespace Scope.Gives

variable {left right : Scope} {reference : Reference}

theorem cons (gives : Gives left right reference) (name : String) (value : Datum) :
    Gives ((name, value) :: left) ((name, value) :: right) reference := by
  by_cases same : reference.root = name
  · apply Evaluated.Refines.of_eq
    simp [Scope.part, same]
  · simpa only [Gives, Scope.part, lookup_cons_of_ne same] using gives

theorem bind (gives : Gives left right reference) (names : LoopNames) (entry : Datum × Datum) :
    Gives (names.bind entry left) (names.bind entry right) reference := by
  cases key : names.key with
  | none => simpa only [LoopNames.bind, key] using gives.cons names.value entry.2
  | some bound =>
      simpa only [LoopNames.bind, key] using (gives.cons bound entry.1).cons names.value entry.2

end Scope.Gives

namespace Expression

open Evaluated (Refines)

/-- What a variable and its steps come to, by way of the part that its reference
leads to. -/
theorem evaluate_read_steps (scope : Scope) (name : String) (steps : List TraversalStep) :
    evaluate scope (traversal (read name) steps) =
      scope.part (.ofSteps name steps) >>= fun part =>
        follow scope (.one part) (TraversalStep.afterKnown steps) := by
  have root : (Reference.ofSteps name steps).root = name := rfl
  have tail : (Reference.ofSteps name steps).accessor.tail =
      TraversalStep.knownSegments steps := rfl
  rw [evaluate_traversal, evaluate, Scope.part, root, tail]
  cases scope.lookup name with
  | none => rfl
  | some datum => exact follow_known scope steps datum

/-- The same for a variable by itself. -/
theorem evaluate_read (scope : Scope) (name : String) :
    evaluate scope (read name) = scope.part (.ofSteps name []) := by
  have root : (Reference.ofSteps name []).root = name := rfl
  rw [evaluate, Scope.part, root]
  cases scope.lookup name <;> rfl

mutual

theorem evaluate_refines {bound : List String} {left right : Scope}
    (binds : left.BindAlike right bound) : (expression : Expression) →
    (∀ reference ∈ referencesIn bound expression, left.Gives right reference) →
    Refines (evaluate left expression) (evaluate right expression)
  | null, _ => .of_eq (by rw [evaluate, evaluate])
  | bool _, _ => .of_eq (by rw [evaluate, evaluate])
  | number _, _ => .of_eq (by rw [evaluate, evaluate])
  | string _, _ => .of_eq (by rw [evaluate, evaluate])
  | list items, gives => by
      rw [referencesIn] at gives
      rw [evaluate, evaluate]
      exact (evaluateItems_refines binds items gives).bind fun values => .refl _
  | object items, gives => by
      rw [referencesIn] at gives
      rw [evaluate, evaluate]
      exact (evaluateObject_refines binds items gives []).bind fun fields => .refl _
  | template parts, gives => by
      rw [referencesIn] at gives
      rcases template_cases parts with ⟨value, single⟩ | joined
      · subst single
        rw [evaluate, evaluate]
        exact evaluate_refines binds value fun reference member =>
          gives reference (List.mem_append_left _ member)
      · rw [joined, joined]
        exact (evaluateParts_refines binds parts gives).bind fun text => .refl _
  | read name, gives => by
      by_cases isBound : name ∈ bound
      · exact .of_eq (by rw [evaluate, evaluate, binds name isBound])
      · rw [evaluate_read, evaluate_read]
        exact gives _ (by simp [referencesIn, readFrom, isBound])
  | traversal base steps, gives => by
      have later := follow_refines binds steps fun reference member => by
        rcases referencesIn_traversal bound base steps with ⟨name, same⟩ | references
        · subst same
          exact gives reference (List.mem_append_right _ member)
        · exact gives reference (references ▸ List.mem_append_right _ member)
      by_cases free : ∃ name, base = read name ∧ name ∉ bound
      · rcases free with ⟨name, same, isFree⟩
        subst same
        rw [evaluate_read_steps, evaluate_read_steps]
        -- The parts before the first step that is not known can differ: only the part
        -- that the known steps lead to is given.
        have given := gives (.ofSteps name steps) (by simp [referencesIn, readFrom, isFree])
        exact Refines.bind given fun part =>
          later _ (TraversalStep.afterKnown_suffix steps) (.one part)
      · rw [evaluate_traversal, evaluate_traversal]
        have first : Refines (evaluate left base) (evaluate right base) := by
          rcases referencesIn_traversal bound base steps with ⟨name, same⟩ | references
          · subst same
            have isBound : name ∈ bound := Classical.byContradiction fun isFree =>
              free ⟨name, rfl, isFree⟩
            exact .of_eq (by rw [evaluate, evaluate, binds name isBound])
          · exact evaluate_refines binds base fun reference member =>
              gives reference (references ▸ List.mem_append_left _ member)
        exact first.bind fun datum => later _ (List.suffix_refl steps) _
  | call function arguments spread, gives => by
      rw [referencesIn] at gives
      rw [evaluate, evaluate]
      cases Function.named? function with
      | none => exact .refl _
      | some found =>
          exact (evaluateItems_refines binds arguments gives).bind fun given => .refl _
  | group inner, gives => by
      rw [referencesIn] at gives
      rw [evaluate, evaluate]
      exact evaluate_refines binds inner gives
  | conditional condition whenTrue whenFalse, gives => by
      simp only [referencesIn, List.mem_append] at gives
      rw [evaluate, evaluate]
      apply (evaluate_refines binds condition fun reference member =>
        gives reference (.inl (.inl member))).bind
      intro chosen
      apply (Refines.refl chosen.asBool).bind
      intro holds
      exact .ite
        (evaluate_refines binds whenTrue fun reference member =>
          gives reference (.inl (.inr member)))
        (evaluate_refines binds whenFalse fun reference member => gives reference (.inr member))
  | unary operator operand, gives => by
      rw [referencesIn] at gives
      rw [evaluate, evaluate]
      exact (evaluate_refines binds operand gives).bind fun value => .refl _
  | binary operator first second, gives => by
      simp only [referencesIn, List.mem_append] at gives
      rw [evaluate, evaluate]
      apply (evaluate_refines binds first fun reference member =>
        gives reference (.inl member)).bind
      intro value
      exact (evaluate_refines binds second fun reference member =>
        gives reference (.inr member)).bind fun other => .refl _
  | listLoop names collection result condition, gives => by
      simp only [referencesIn, List.mem_append] at gives
      rw [evaluate, evaluate]
      apply (evaluate_refines binds collection fun reference member =>
        gives reference (.inl (.inl member))).bind
      intro collected
      apply (Refines.refl collected.entries).bind
      intro entries
      refine (Refines.mapM (fun entry => ?_) entries).bind fun results => .refl _
      have inner := binds.bind names entry
      apply (evaluate_refines inner condition fun reference member =>
        (gives reference (.inr member)).bind names entry).bind
      intro chosen
      apply (Refines.refl chosen.asBool).bind
      intro holds
      exact .ite
        ((evaluate_refines inner result fun reference member =>
          (gives reference (.inl (.inr member))).bind names entry).bind fun value => .refl _)
        (.refl _)
  | objectLoop names collection key value condition grouped, gives => by
      simp only [referencesIn, List.mem_append] at gives
      rw [evaluate, evaluate]
      apply (evaluate_refines binds collection fun reference member =>
        gives reference (.inl (.inl (.inl member)))).bind
      intro collected
      apply (Refines.refl collected.entries).bind
      intro entries
      refine (Refines.foldlM (fun fields entry => ?_) entries []).bind fun results => .refl _
      have inner := binds.bind names entry
      apply (evaluate_refines inner condition fun reference member =>
        (gives reference (.inr member)).bind names entry).bind
      intro chosen
      apply (Refines.refl chosen.asBool).bind
      intro holds
      refine .ite ?_ (.refl _)
      apply (evaluate_refines inner key fun reference member =>
        (gives reference (.inl (.inl (.inr member)))).bind names entry).bind
      intro named
      apply (Refines.refl named.asKey).bind
      intro text
      exact (evaluate_refines inner value fun reference member =>
        (gives reference (.inl (.inr member))).bind names entry).bind fun added => .refl _

theorem evaluateItems_refines {bound : List String} {left right : Scope}
    (binds : left.BindAlike right bound) : (items : List Expression) →
    (∀ reference ∈ referencesInItems bound items, left.Gives right reference) →
    Refines (evaluateItems left items) (evaluateItems right items)
  | [], _ => .of_eq (by rw [evaluateItems, evaluateItems])
  | item :: rest, gives => by
      simp only [referencesInItems, List.mem_append] at gives
      rw [evaluateItems, evaluateItems]
      apply (evaluate_refines binds item fun reference member =>
        gives reference (.inl member)).bind
      intro value
      exact (evaluateItems_refines binds rest fun reference member =>
        gives reference (.inr member)).bind fun values => .refl _

theorem evaluateObject_refines {bound : List String} {left right : Scope}
    (binds : left.BindAlike right bound) : (items : List ObjectItem) →
    (∀ reference ∈ referencesInObject bound items, left.Gives right reference) →
    ∀ fields, Refines (evaluateObject left fields items) (evaluateObject right fields items)
  | [], _, fields => .of_eq (by rw [evaluateObject, evaluateObject])
  | .named key value :: rest, gives, fields => by
      simp only [referencesInObject, List.mem_append] at gives
      rw [evaluateObject, evaluateObject]
      apply (evaluate_refines binds value fun reference member =>
        gives reference (.inl member)).bind
      intro added
      exact evaluateObject_refines binds rest (fun reference member =>
        gives reference (.inr member)) _
  | .computed key value :: rest, gives, fields => by
      simp only [referencesInObject, List.mem_append] at gives
      rw [evaluateObject, evaluateObject]
      apply (evaluate_refines binds key fun reference member =>
        gives reference (.inl (.inl member))).bind
      intro named
      apply (Refines.refl named.asKey).bind
      intro text
      apply (evaluate_refines binds value fun reference member =>
        gives reference (.inl (.inr member))).bind
      intro added
      exact evaluateObject_refines binds rest (fun reference member =>
        gives reference (.inr member)) _

/-- For every tail of the steps, since the known ones at their start are not followed
one by one. -/
theorem follow_refines {bound : List String} {left right : Scope}
    (binds : left.BindAlike right bound) : (steps : List TraversalStep) →
    (∀ reference ∈ referencesInSteps bound steps, left.Gives right reference) →
    ∀ later, later <:+ steps → ∀ place, Refines (follow left place later) (follow right place later)
  | [], _, later, isLater, place => by
      rw [List.suffix_nil.mp isLater]
      exact .of_eq (by rw [follow, follow])
  | step :: rest, gives, later, isLater, place => by
      have below := follow_refines binds rest fun reference member => by
        apply gives reference
        cases step with
        | index position => exact List.mem_append_right _ member
        | _ => exact member
      rcases List.suffix_cons_iff.mp isLater with whole | isLater
      · subst whole
        cases step with
        | member name =>
            rw [follow, follow]
            exact (Refines.refl _).bind fun next => below _ (List.suffix_refl rest) _
        | index position =>
            have given := evaluate_refines binds position fun reference member =>
              gives reference (List.mem_append_left _ member)
            rw [follow, follow]
            apply given.bind
            intro reached
            exact (Refines.refl _).bind fun next => below _ (List.suffix_refl rest) _
        | position position =>
            rw [follow, follow]
            exact (Refines.refl _).bind fun next => below _ (List.suffix_refl rest) _
        | memberSplat =>
            rw [follow, follow]
            exact below _ (List.suffix_refl rest) _
        | fullSplat =>
            rw [follow, follow]
            exact (Refines.mapM (fun item => below _ (List.suffix_refl rest) _) _).bind
              fun items => .refl _
      · exact below later isLater place

theorem evaluateParts_refines {bound : List String} {left right : Scope}
    (binds : left.BindAlike right bound) : (parts : List TemplatePart) →
    (∀ reference ∈ referencesInParts bound parts, left.Gives right reference) →
    Refines (evaluateParts left parts) (evaluateParts right parts)
  | [], _ => .of_eq (by rw [evaluateParts, evaluateParts])
  | .literal text :: rest, gives => by
      rw [referencesInParts] at gives
      rw [evaluateParts, evaluateParts]
      exact (evaluateParts_refines binds rest gives).bind fun others => .refl _
  | .interpolation value :: rest, gives => by
      simp only [referencesInParts, List.mem_append] at gives
      rw [evaluateParts, evaluateParts]
      apply (evaluate_refines binds value fun reference member =>
        gives reference (.inl member)).bind
      intro datum
      exact (evaluateParts_refines binds rest fun reference member =>
        gives reference (.inr member)).bind fun others => .refl _
  | .choice condition whenTrue whenFalse :: rest, gives => by
      simp only [referencesInParts, List.mem_append] at gives
      rw [evaluateParts, evaluateParts]
      apply (evaluate_refines binds condition fun reference member =>
        gives reference (.inl (.inl (.inl member)))).bind
      intro chosen
      apply (Refines.refl chosen.asBool).bind
      intro holds
      have others := evaluateParts_refines binds rest fun reference member =>
        gives reference (.inr member)
      exact .ite
        ((evaluateParts_refines binds whenTrue fun reference member =>
          gives reference (.inl (.inl (.inr member)))).bind fun text => others.bind fun _ => .refl _)
        ((evaluateParts_refines binds whenFalse fun reference member =>
          gives reference (.inl (.inr member))).bind fun text => others.bind fun _ => .refl _)
  | .loop names collection body :: rest, gives => by
      simp only [referencesInParts, List.mem_append] at gives
      rw [evaluateParts, evaluateParts]
      apply (evaluate_refines binds collection fun reference member =>
        gives reference (.inl (.inl member))).bind
      intro collected
      apply (Refines.refl collected.entries).bind
      intro entries
      have bodies := fun entry =>
        evaluateParts_refines (binds.bind names entry) body fun reference member =>
          (gives reference (.inl (.inr member))).bind names entry
      have others := evaluateParts_refines binds rest fun reference member =>
        gives reference (.inr member)
      exact (Refines.mapM bodies entries).bind fun texts => others.bind fun _ => .refl _

end

end Expression

end Groundplan
