import Groundplan.Expression.Outcome
import Groundplan.Proofs.TermReads
import Groundplan.Proofs.Variables
/-!
What terms see of their scopes. A term comes out with the same value in two scopes if
each of its references reads the same in both, or leads to nothing in either: then the
expression around it fails in both.
-/

namespace Groundplan

namespace Reference

/-- Whether a field of this name can be declared as the variable of a reference. -/
def MayDeclare (reference : Reference) (key : String) : Prop :=
  key = reference.root ∨ Expression.identifierOf key = reference.root

theorem Rooted.keys_eq {reference : Reference} (rooted : reference.Rooted) :
    (Accessor.splitKeys reference.accessor).1 =
      reference.root :: (Accessor.splitKeys reference.accessor).1.tail := by
  rcases rooted with ⟨rest, keys⟩
  rw [keys, List.tail_cons]

theorem Rooted.splitKeys_cons {reference : Reference} (rooted : reference.Rooted)
    (key : String) :
    (Accessor.splitKeys (.key key :: reference.accessor.tail)).1 =
      key :: (Accessor.splitKeys reference.accessor).1.tail := by
  rcases rooted with ⟨rest, keys⟩
  rcases Accessor.eq_of_splitKeys keys with ⟨others, same, below⟩
  rw [Accessor.splitKeys_key, keys, same, List.tail_cons, List.tail_cons, below]

end Reference

namespace Value

/-! ## References that read the same -/

theorem AgreeOn.symm {path : List String} {left right : Value} (agree : AgreeOn path left right) :
    AgreeOn path right left := by
  induction agree with
  | same => exact .same
  | absent noLeft noRight => exact .absent noRight noLeft
  | field inLeft inRight _ induction => exact .field inRight inLeft induction

/-- Whether a reference reads the same in two objects of variables. Every field that is
declared under the name of the variable counts. -/
structure ReadsAlike (left right : Value) (reference : Reference) : Prop where
  known : AgreeOn (Accessor.splitKeys reference.accessor).1 left right
  declared : ∀ key, Expression.identifierOf key = reference.root →
    AgreeOn (key :: (Accessor.splitKeys reference.accessor).1.tail) left right

theorem ReadsAlike.merge {left right : Value} {reference : Reference}
    (alike : ReadsAlike left right reference) (added : Value) :
    ReadsAlike (left.merge added) (right.merge added) reference :=
  ⟨alike.known.merge added, fun key declared => (alike.declared key declared).merge added⟩

theorem AgreeOn.find?_cases {key : String} {rest : List String}
    {left right : List (String × Value)}
    (agree : AgreeOn (key :: rest) (object left) (object right)) :
    (Table.find? key left = none ∧ Table.find? key right = none) ∨
      ∃ leftPart rightPart, Table.find? key left = some leftPart ∧
        Table.find? key right = some rightPart ∧ AgreeOn rest leftPart rightPart := by
  cases agree with
  | same =>
      cases found : Table.find? key left with
      | none => exact Or.inl ⟨rfl, rfl⟩
      | some part => exact Or.inr ⟨part, part, rfl, rfl, .same⟩
  | absent noLeft noRight => exact Or.inl ⟨noLeft, noRight⟩
  | field inLeft inRight below => exact Or.inr ⟨_, _, inLeft, inRight, below⟩

theorem ReadsAlike.symm {left right : Value} {reference : Reference}
    (alike : ReadsAlike left right reference) : ReadsAlike right left reference :=
  ⟨alike.known.symm, fun key declared => (alike.declared key declared).symm⟩

/-- Whether a reference leads to nothing, whichever field declares its variable. -/
def LeadsNowhere (value : Value) (reference : Reference) : Prop :=
  ∀ key, reference.MayDeclare key →
    Blocked (key :: (Accessor.splitKeys reference.accessor).1.tail) value

/-- Whether expressions cannot tell two objects of variables apart by a reference. The
names `bound` are those that can be bound on the way to the reference. -/
inductive SeenAlike (bound : List String) (left right : Value) (reference : Reference) : Prop
    where
  | agree (alike : ReadsAlike left right reference)
  | nowhere (free : ∀ key, Term.IsBound bound key → ¬reference.MayDeclare key)
      (inLeft : left.LeadsNowhere reference) (inRight : right.LeadsNowhere reference)

namespace SeenAlike

variable {bound : List String} {left right : Value} {reference : Reference}

theorem symm (alike : SeenAlike bound left right reference) :
    SeenAlike bound right left reference := by
  cases alike with
  | agree alike => exact .agree alike.symm
  | nowhere free inLeft inRight => exact .nowhere free inRight inLeft

theorem leadsNowhere_graft {value : Value} {key : String} (free : ¬reference.MayDeclare key)
    (nowhere : value.LeadsNowhere reference) (rest : List String) (added : Value) :
    (value.graft (key :: rest) added).LeadsNowhere reference := by
  intro other declares
  apply (nowhere other declares).graft_of_apart
  rw [apart_cons]
  intro same
  exact absurd (same ▸ declares) free

/-- A binding is the same in both scopes. -/
theorem graft (alike : SeenAlike bound left right reference) {key : String}
    (isBound : Term.IsBound bound key) (rest : List String) (added : Value) :
    SeenAlike bound (left.graft (key :: rest) added) (right.graft (key :: rest) added)
      reference := by
  cases alike with
  | agree alike => exact .agree (alike.merge _)
  | nowhere free inLeft inRight =>
      exact .nowhere free (leadsNowhere_graft (free key isBound) inLeft rest added)
        (leadsNowhere_graft (free key isBound) inRight rest added)

theorem reachesUnknown_eq (rooted : reference.Rooted)
    (alike : SeenAlike bound left right reference) :
    left.reachesUnknown reference.accessor = right.reachesUnknown reference.accessor := by
  cases alike with
  | agree alike => exact alike.known.reachesUnknown_eq
  | nowhere _ inLeft inRight =>
      have noLeft := inLeft reference.root (.inl rfl)
      have noRight := inRight reference.root (.inl rfl)
      rw [← rooted.keys_eq] at noLeft noRight
      rw [noLeft.reachesUnknown, noRight.reachesUnknown]

/-- What a reference leads to in the one scope is there in the other one too. -/
theorem gives (rooted : reference.Rooted) (leftTable : left.IsTable) (rightTable : right.IsTable)
    (alike : SeenAlike bound left right reference) :
    (Expression.scopeOf left).Gives (Expression.scopeOf right) reference := by
  intro datum found
  rcases Expression.exists_follow? leftTable.2 found with
    ⟨key, field, part, declares, follows, same⟩
  have split := rooted.splitKeys_cons key
  cases alike with
  | nowhere _ inLeft =>
      have blocked := inLeft key (.inr declares.declared)
      rw [← split] at blocked
      rw [blocked.follow?] at follows
      cases follows
  | agree alike =>
      have agree := alike.declared key declares.declared
      rw [← split] at agree
      rw [agree.follow?_eq] at follows
      rcases Option.bind_eq_some_iff.mp follows with ⟨other, inRight, _⟩
      rw [same]
      refine Expression.part_of_follow? rightTable.2 ⟨inRight, declares.declared, ?_⟩ follows
      intro candidate member equal
      apply declares.last candidate _ equal
      have shared := alike.declared candidate equal
      rw [leftTable.eq_object, rightTable.eq_object] at shared
      rcases shared.find?_cases with ⟨_, noRight⟩ | ⟨_, _, inLeft, _⟩
      · exact absurd member (Table.find?_eq_none_iff.mp noRight)
      · exact Table.mem_keys_of_mem (Table.mem_of_find? inLeft)

end SeenAlike

end Value

/-! ## Expressions -/

namespace Expression

variable {bound : List String} {left right : Value} {expression : Expression}

theorem readsUnknown_eq
    (alike : ∀ reference ∈ expression.references, Value.SeenAlike bound left right reference) :
    expression.readsUnknown left = expression.readsUnknown right := by
  have reaches := fun reference member =>
    (alike reference member).reachesUnknown_eq (rooted_of_mem expression member)
  rw [readsUnknown, readsUnknown, Bool.eq_iff_iff, List.any_eq_true, List.any_eq_true]
  constructor
  · rintro ⟨reference, member, unknown⟩
    exact ⟨reference, member, reaches reference member ▸ unknown⟩
  · rintro ⟨reference, member, unknown⟩
    exact ⟨reference, member, (reaches reference member).symm ▸ unknown⟩

theorem evaluate_refines_of_seenAlike (leftTable : left.IsTable) (rightTable : right.IsTable)
    (alike : ∀ reference ∈ expression.references, Value.SeenAlike bound left right reference) :
    Evaluated.Refines (expression.evaluate (scopeOf left))
      (expression.evaluate (scopeOf right)) :=
  evaluate_refines (fun _ member => absurd member List.not_mem_nil) expression
    fun reference member =>
      (alike reference member).gives (rooted_of_mem expression member) leftTable rightTable

/-- Expressions that see the same have the same value; they can fail for different
reasons. -/
theorem value_evaluateIn_eq (leftTable : left.IsTable) (rightTable : right.IsTable)
    (alike : ∀ reference ∈ expression.references, Value.SeenAlike bound left right reference) :
    (expression.evaluateIn left).value = (expression.evaluateIn right).value := by
  have rightward := evaluate_refines_of_seenAlike leftTable rightTable alike
  have leftward := evaluate_refines_of_seenAlike rightTable leftTable fun reference member =>
    (alike reference member).symm
  rw [evaluateIn, evaluateIn, readsUnknown_eq alike]
  cases expression.readsUnknown right with
  | true => rfl
  | false =>
      cases inLeft : expression.evaluate (scopeOf left) with
      | ok datum => rw [rightward datum inLeft]
      | error =>
          cases inRight : expression.evaluate (scopeOf right) with
          | ok datum =>
              rw [leftward datum inRight] at inLeft
              cases inLeft
          | error => rfl

end Expression

/-! ## Terms -/

namespace Term

/-- Whether a value binds one of the names that terms can bind. -/
def IsBinding (bound : List String) (binding : Value) : Prop :=
  ∃ key rest value, IsBound bound key ∧ binding = .nest (key :: rest) value

theorem isTable_merge {bound : List String} {scope binding : Value} (isTable : scope.IsTable)
    (isBinding : IsBinding bound binding) : (scope.merge binding).IsTable := by
  rcases isBinding with ⟨key, rest, value, _, same⟩
  subst same
  exact Value.isTable_graft isTable (List.cons_ne_nil key rest) value

theorem seenAlike_merge {bound : List String} {left right binding : Value}
    {reference : Reference} (alike : Value.SeenAlike bound left right reference)
    (isBinding : IsBinding bound binding) :
    Value.SeenAlike bound (left.merge binding) (right.merge binding) reference := by
  rcases isBinding with ⟨key, rest, value, isBound, same⟩
  subst same
  exact alike.graft isBound rest value

theorem isBound_iteratorName (term : Term) : IsBound term.iterators term.iteratorName := by
  rcases term with ⟨body, count, forEach, iterator, firstOnly⟩
  cases iterator with
  | none => exact .inr (.inl rfl)
  | some name => exact .inr (.inr (List.mem_cons_self))

theorem isBinding_of_mem_itemBindings {bound : List String} {iterator : String} {isSet : Bool}
    (isBound : IsBound bound iterator) {collection binding : Value}
    (member : binding ∈ (itemBindings iterator isSet collection).1) :
    IsBinding bound binding := by
  have isBinding : ∀ key value, IsBinding bound (itemBinding iterator key value) :=
    fun key value => ⟨iterator, [], _, isBound, rfl⟩
  cases collection with
  | unknown =>
      rw [List.mem_singleton.mp member]
      exact isBinding _ _
  | object fields =>
      rcases List.mem_map.mp member with ⟨field, _, same⟩
      rw [← same]
      exact isBinding _ _
  | list items =>
      rcases List.mem_map.mp member with ⟨item, _, same⟩
      rw [← same]
      exact isBinding _ _
  | _ => cases member

theorem isBinding_of_bindings? {evaluator : Evaluator} {scope : Value} {term : Term}
    {bindings : List Value} {diagnostics : List Diagnostic}
    (found : bindings? evaluator scope term = some (bindings, diagnostics)) :
    ∀ binding ∈ bindings, IsBinding term.iterators binding := by
  intro binding member
  rw [bindings?] at found
  split at found
  · dsimp only at found
    split at found
    · cases found
      rcases List.mem_map.mp member with ⟨position, _, same⟩
      exact ⟨"count", ["index"], .ofNat position, .inl rfl, same.symm⟩
    · cases found
      cases member
  · cases found
    exact isBinding_of_mem_itemBindings term.isBound_iteratorName member
  · cases found

theorem isBinding_mono {fewer more : List String} (subset : ∀ name ∈ fewer, name ∈ more)
    {binding : Value} (isBinding : IsBinding fewer binding) : IsBinding more binding := by
  rcases isBinding with ⟨key, rest, value, isBound, same⟩
  exact ⟨key, rest, value, isBound.mono subset, same⟩

/-- The bindings of a term follow from the values that it asks for. -/
theorem bindings?_eq {bound : List String} {left right : Value} (leftTable : left.IsTable)
    (rightTable : right.IsTable) (term : Term)
    (alike : ∀ reference ∈ optionalReferences term.count ++ optionalReferences term.forEach,
      Value.SeenAlike bound left right reference) :
    (bindings? Expression.evaluateIn left term).map Prod.fst =
      (bindings? Expression.evaluateIn right term).map Prod.fst := by
  rw [bindings?, bindings?]
  cases counted : term.count with
  | some count =>
      have same : (count.evaluateIn left).value = (count.evaluateIn right).value :=
        Expression.value_evaluateIn_eq leftTable rightTable fun reference member =>
          alike reference
            (List.mem_append_left _ (by simpa [optionalReferences, counted] using member))
      dsimp only
      rw [same]
      cases instanceCount? (count.evaluateIn right).value <;> rfl
  | none =>
      cases iterated : term.forEach with
      | some forEach =>
          have same : (forEach.evaluateIn left).value = (forEach.evaluateIn right).value :=
            Expression.value_evaluateIn_eq leftTable rightTable fun reference member =>
              alike reference
                (List.mem_append_right _ (by simpa [optionalReferences, iterated] using member))
          dsimp only
          rw [same]
          rfl
      | none => rfl

theorem value_joinInstances_eq {firstOnly : Bool} {left right : List Outcome}
    (leftDiagnostics rightDiagnostics : List Diagnostic)
    (same : left.map Outcome.value = right.map Outcome.value) :
    (joinInstances firstOnly leftDiagnostics left).value =
      (joinInstances firstOnly rightDiagnostics right).value := by
  rw [joinInstances, joinInstances]
  dsimp only
  rw [← List.head?_map, ← List.head?_map, same]

mutual

/-- A term has the same value in scopes that it sees alike. -/
theorem value_evaluate_eq {bound : List String} {left right : Value} (leftTable : left.IsTable)
    (rightTable : right.IsTable) : (term : Term) → (∀ name ∈ term.iterators, name ∈ bound) →
    (∀ reference ∈ term.reads, Value.SeenAlike bound left right reference) →
    (term.evaluate Expression.evaluateIn left).value =
      (term.evaluate Expression.evaluateIn right).value
  | ⟨body, count, forEach, iterator, firstOnly⟩, subset, alike => by
      simp only [reads, List.mem_append] at alike
      have bodySubset : ∀ name ∈ bodyIterators body, name ∈ bound := fun name member =>
        subset name (List.mem_append_right _ member)
      have sameBindings := bindings?_eq leftTable rightTable
        ⟨body, count, forEach, iterator, firstOnly⟩ fun reference member =>
          alike reference (.inl (List.mem_append.mp member))
      rw [evaluate, evaluate]
      cases inLeft : bindings? Expression.evaluateIn left
          ⟨body, count, forEach, iterator, firstOnly⟩ with
      | none =>
          rw [inLeft, Option.map_none, eq_comm, Option.map_eq_none_iff] at sameBindings
          rw [sameBindings]
          exact value_evaluateBody_eq leftTable rightTable body bodySubset
            fun reference member => alike reference (.inr member)
      | some given =>
          rcases given with ⟨bindings, diagnostics⟩
          rw [inLeft, Option.map_some, eq_comm, Option.map_eq_some_iff] at sameBindings
          rcases sameBindings with ⟨⟨others, otherDiagnostics⟩, inRight, same⟩
          dsimp only at same
          subst same
          rw [inRight]
          apply value_joinInstances_eq
          rw [List.map_map, List.map_map]
          apply List.map_congr_left
          intro binding member
          have listed : binding ∈ others := by
            split at member
            · exact List.mem_of_mem_take member
            · exact member
          have isBinding := isBinding_mono subset (isBinding_of_bindings? inRight binding listed)
          exact value_evaluateBody_eq (isTable_merge leftTable isBinding)
            (isTable_merge rightTable isBinding) body bodySubset fun reference member =>
              seenAlike_merge (alike reference (.inr member)) isBinding

theorem value_evaluateBody_eq {bound : List String} {left right : Value}
    (leftTable : left.IsTable) (rightTable : right.IsTable) : (body : TermBody Term) →
    (∀ name ∈ bodyIterators body, name ∈ bound) →
    (∀ reference ∈ bodyReads body, Value.SeenAlike bound left right reference) →
    (evaluateBody Expression.evaluateIn left body).value =
      (evaluateBody Expression.evaluateIn right body).value
  | .expression expression, _, alike => by
      rw [evaluateBody, evaluateBody]
      exact Expression.value_evaluateIn_eq leftTable rightTable alike
  | .value value, _, _ => by rw [evaluateBody, evaluateBody]
  | .block settings blocks, subset, alike => by
      simp only [bodyReads, List.mem_append] at alike
      have results : settings.map (fun setting => (setting.1, (setting.2.evaluateIn left).value)) =
          settings.map (fun setting => (setting.1, (setting.2.evaluateIn right).value)) := by
        apply List.map_congr_left
        intro setting member
        rw [Expression.value_evaluateIn_eq leftTable rightTable fun reference listed =>
          alike reference (.inl (List.mem_flatMap.mpr ⟨setting, member, listed⟩))]
      have fields := fst_evaluateBlocks_eq leftTable rightTable blocks subset
        fun reference member => alike reference (.inr member)
      rw [evaluateBody, evaluateBody]
      simp only [List.map_map, Function.comp_def, results, fields]

theorem fst_evaluateBlocks_eq {bound : List String} {left right : Value}
    (leftTable : left.IsTable) (rightTable : right.IsTable) :
    (blocks : List (String × List Term)) → (∀ name ∈ blockIterators blocks, name ∈ bound) →
    (∀ reference ∈ blockReads blocks, Value.SeenAlike bound left right reference) →
    (evaluateBlocks Expression.evaluateIn left blocks).1 =
      (evaluateBlocks Expression.evaluateIn right blocks).1
  | [], _, _ => by rw [evaluateBlocks, evaluateBlocks]
  | (_, terms) :: rest, subset, alike => by
      simp only [blockReads, List.mem_append] at alike
      have items := fst_evaluateTerms_eq leftTable rightTable terms
        (fun name member => subset name (List.mem_append_left _ member))
        fun reference member => alike reference (.inl member)
      have fields := fst_evaluateBlocks_eq leftTable rightTable rest
        (fun name member => subset name (List.mem_append_right _ member))
        fun reference member => alike reference (.inr member)
      rw [evaluateBlocks, evaluateBlocks]
      simp only [items, fields]

theorem fst_evaluateTerms_eq {bound : List String} {left right : Value}
    (leftTable : left.IsTable) (rightTable : right.IsTable) : (terms : List Term) →
    (∀ name ∈ termIterators terms, name ∈ bound) →
    (∀ reference ∈ termReads terms, Value.SeenAlike bound left right reference) →
    (evaluateTerms Expression.evaluateIn left terms).1 =
      (evaluateTerms Expression.evaluateIn right terms).1
  | [], _, _ => by rw [evaluateTerms, evaluateTerms]
  | term :: rest, subset, alike => by
      simp only [termReads, List.mem_append] at alike
      have value := value_evaluate_eq leftTable rightTable term
        (fun name member => subset name (List.mem_append_left _ member))
        fun reference member => alike reference (.inl member)
      have others := fst_evaluateTerms_eq leftTable rightTable rest
        (fun name member => subset name (List.mem_append_right _ member))
        fun reference member => alike reference (.inr member)
      rw [evaluateTerms, evaluateTerms]
      simp only [value, others]

end

end Term

end Groundplan
