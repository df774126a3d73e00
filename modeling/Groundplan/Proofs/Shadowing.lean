import Groundplan.Proofs.Grafts
import Groundplan.Term
/-!
Iteration variables. The body of an instance is evaluated in the scope of its term, with the
binding of the instance merged into it. A merge keeps what its left side has more, so the
variable holds the binding alone exactly if the scope has nothing more under its name.
-/

namespace Groundplan

/-! ## Merges of values in order -/

namespace Value

mutual

/-- Whether the fields of every object in a value are in strict order. -/
def Canonical : Value → Prop
  | list items => CanonicalItems items
  | object fields => Table.Ordered fields ∧ CanonicalFields fields
  | _ => True

def CanonicalItems : List Value → Prop
  | [] => True
  | item :: rest => item.Canonical ∧ CanonicalItems rest

def CanonicalFields : List (String × Value) → Prop
  | [] => True
  | (_, value) :: rest => value.Canonical ∧ CanonicalFields rest

end

theorem canonicalItems_iff {items : List Value} :
    CanonicalItems items ↔ ∀ item ∈ items, item.Canonical := by
  induction items with
  | nil => simp [CanonicalItems]
  | cons item rest induction => rw [CanonicalItems, induction, List.forall_mem_cons]

theorem canonicalFields_iff {fields : List (String × Value)} :
    CanonicalFields fields ↔ ∀ field ∈ fields, field.2.Canonical := by
  induction fields with
  | nil => simp [CanonicalFields]
  | cons field rest induction => rw [CanonicalFields, induction, List.forall_mem_cons]

theorem canonical_list {items : List Value} :
    (list items).Canonical ↔ ∀ item ∈ items, item.Canonical := by
  rw [Canonical, canonicalItems_iff]

theorem canonical_object {fields : List (String × Value)} :
    (object fields).Canonical ↔ Table.Ordered fields ∧ ∀ field ∈ fields, field.2.Canonical := by
  rw [Canonical, canonicalFields_iff]

theorem Canonical.ordered {value : Value} (canonical : value.Canonical) :
    Table.Ordered value.fields := by
  cases value with
  | object fields => exact (canonical_object.mp canonical).1
  | _ => exact Table.ordered_nil

theorem Canonical.part {value part : Value} {key : String} (canonical : value.Canonical)
    (found : Table.find? key value.fields = some part) : part.Canonical := by
  rw [isObject_of_find? found] at canonical
  exact (canonical_object.mp canonical).2 _ (Table.mem_of_find? found)

theorem canonical_ofEntries {entries : List (String × Value)}
    (canonical : ∀ entry ∈ entries, entry.2.Canonical) : (ofEntries entries).Canonical :=
  canonical_object.mpr ⟨Table.ordered_ofList entries,
    fun _ member => canonical _ (Table.mem_of_mem_ofList member)⟩

/-- Induction over the fields of a value, the fields of these and so on. -/
theorem induction_fields {motive : Value → Prop}
    (step : ∀ value, (∀ key part, Table.find? key value.fields = some part → motive part) →
      motive value) (value : Value) : motive value := by
  refine step value fun key part found => ?_
  have smaller : sizeOf part < sizeOf value := by
    have listed := List.sizeOf_lt_of_mem (Table.mem_of_find? found)
    rw [isObject_of_find? found, object.sizeOf_spec]
    rw [Prod.mk.sizeOf_spec] at listed
    omega
  exact induction_fields step part
termination_by sizeOf value

/-- A merge has the fields of both objects. -/
theorem find?_fields_merge {left right : Value} (isTable : right.IsTable) (key : String) :
    Table.find? key (left.merge right).fields =
      match Table.find? key right.fields with
      | some value =>
          some (((Table.find? key left.fields).map fun earlier => earlier.merge value).getD value)
      | none => Table.find? key left.fields := by
  cases right with
  | object rights =>
      cases left with
      | object lefts =>
          rw [merge]
          exact find?_mergeFields isTable.2 key
      | _ =>
          simp only [merge, fields_object]
          cases Table.find? key rights <;> rfl
  | _ => cases isTable.1

theorem Canonical.merge {left right : Value} (inLeft : left.Canonical)
    (inRight : right.Canonical) : (left.merge right).Canonical := by
  induction right using induction_fields generalizing left with
  | step right induction =>
      rcases merge_cases left right with same | ⟨lefts, rights, rfl, rfl, same⟩
      · rwa [same]
      · have leftOrdered : Table.Ordered lefts := inLeft.ordered
        have rightOrdered : Table.Ordered rights := inRight.ordered
        have ordered : Table.Ordered (mergeFields lefts rights) := ordered_mergeFields leftOrdered
        rw [same, canonical_object]
        refine ⟨ordered, fun field member => ?_⟩
        have found : Table.find? field.1 (mergeFields lefts rights) = some field.2 :=
          ordered.find?_eq_some_iff.mpr member
        rw [find?_mergeFields rightOrdered] at found
        cases inRights : Table.find? field.1 rights with
        | none =>
            rw [inRights] at found
            exact inLeft.part found
        | some given =>
            rw [inRights, Option.some.injEq] at found
            rw [← found]
            cases inLefts : Table.find? field.1 lefts with
            | none => exact inRight.part inRights
            | some earlier =>
                exact induction field.1 given inRights (inLeft.part inLefts) (inRight.part inRights)

/-- A path to something that a merge of `own` into `earlier` keeps, but `own` does not have. -/
inductive LeftOver : Value → Value → List String → Prop where
  | field {earlier own part : Value} {key : String} (isObject : own.isObject = true)
      (found : Table.find? key earlier.fields = some part)
      (missing : Table.find? key own.fields = none) : LeftOver earlier own [key]
  | deeper {earlier own part ownPart : Value} {key : String} {rest : List String}
      (found : Table.find? key earlier.fields = some part)
      (ownFound : Table.find? key own.fields = some ownPart)
      (leftOver : LeftOver part ownPart rest) : LeftOver earlier own (key :: rest)

/-- What is left over stands in the merge as it stood before it. -/
theorem LeftOver.at?_merge {earlier own : Value} {path : List String}
    (leftOver : LeftOver earlier own path) (canonical : own.Canonical) :
    own.at? path = none ∧ ∃ part, earlier.at? path = some part ∧
      (earlier.merge own).at? path = some part := by
  induction leftOver with
  | @field earlier own part key isObject found missing =>
      rw [at?_cons, at?_cons, at?_cons, find?_fields_merge ⟨isObject, canonical.ordered⟩, found,
        missing]
      exact ⟨rfl, part, rfl, rfl⟩
  | @deeper earlier own part ownPart key rest found ownFound _ induction =>
      have isObject : own.isObject = true := by
        rw [isObject_of_find? ownFound]
        rfl
      rw [at?_cons, at?_cons, at?_cons, find?_fields_merge ⟨isObject, canonical.ordered⟩, found,
        ownFound]
      exact induction (canonical.part ownFound)

/-- A merge is its right side exactly if nothing is left over of its left side. -/
theorem merge_eq_right_iff {earlier own : Value} (earlierCanonical : earlier.Canonical)
    (ownCanonical : own.Canonical) :
    earlier.merge own = own ↔ ∀ path, ¬LeftOver earlier own path := by
  constructor
  · intro same path leftOver
    rcases leftOver.at?_merge ownCanonical with ⟨missing, part, _, kept⟩
    rw [same, missing] at kept
    cases kept
  · intro nothing
    induction own using induction_fields generalizing earlier with
    | step own induction =>
        rcases merge_cases earlier own with same | ⟨lefts, rights, rfl, rfl, same⟩
        · exact same
        · have leftOrdered : Table.Ordered lefts := earlierCanonical.ordered
          have rightOrdered : Table.Ordered rights := ownCanonical.ordered
          rw [same]
          congr 1
          apply Table.Ordered.ext (ordered_mergeFields leftOrdered) rightOrdered
          intro key
          rw [find?_mergeFields rightOrdered]
          cases inRights : Table.find? key rights with
          | none =>
              cases inLefts : Table.find? key lefts with
              | none => rfl
              | some part => exact absurd (.field rfl inLefts inRights) (nothing [key])
          | some given =>
              cases inLefts : Table.find? key lefts with
              | none => rfl
              | some part =>
                  have below := induction key given inRights (earlierCanonical.part inLefts)
                    (ownCanonical.part inRights)
                    fun path leftOver => nothing _ (.deeper inLefts inRights leftOver)
                  simp [below]

end Value

open Value (Canonical LeftOver)

/-! ## Scopes of instances -/

namespace Term

variable {evaluator : Evaluator} {scope : Value} {term : Term}

/-- The variable that the body of a term sees in each instance, if there are instances. A
count goes before a collection. -/
def iterationName? (term : Term) : Option String :=
  match term.count, term.forEach with
  | some _, _ => some "count"
  | none, some _ => some term.iteratorName
  | none, none => none

/-- The scopes in which the body of a term is evaluated, one for each instance. -/
def bodyScopes (evaluator : Evaluator) (scope : Value) (term : Term) : List Value :=
  match bindings? evaluator scope term with
  | some (bindings, _) =>
      (if term.firstOnly then bindings.take 1 else bindings).map scope.merge
  | none => [scope]

/-- An item of a collection, with its key if it has one. -/
inductive ItemAt : Value → Bool → Nat → Option Value → Value → Prop where
  | unknown {isSet : Bool} : ItemAt .unknown isSet 0 (some .unknown) .unknown
  | field {isSet : Bool} {fields : List (String × Value)} {position : Nat} {key : String}
      {value : Value} (listed : fields[position]? = some (key, value)) :
      ItemAt (.object fields) isSet position (some (.string key)) value
  | member {items : List Value} {position : Nat} {item : Value}
      (listed : items[position]? = some item) :
      ItemAt (.list items) true position (some item) item
  | item {items : List Value} {position : Nat} {item : Value}
      (listed : items[position]? = some item) : ItemAt (.list items) false position none item

/-- What the instance at a position binds: the whole value of its iteration variable. -/
inductive Binds (evaluator : Evaluator) (scope : Value) (term : Term) : Nat → Value → Prop where
  | index {count : Expression} {number position : Nat} (counted : term.count = some count)
      (asked : instanceCount? (evaluator count scope).value = some number)
      (inRange : position < number) :
      Binds evaluator scope term position (.object [("index", .ofNat position)])
  | keyed {collection : Expression} {position : Nat} {key value : Value}
      (uncounted : term.count = none) (iterates : term.forEach = some collection)
      (listed : ItemAt (evaluator collection scope).value (collection.isCallTo "toset") position
        (some key) value) :
      Binds evaluator scope term position (.object [("key", key), ("value", value)])
  | unkeyed {collection : Expression} {position : Nat} {value : Value}
      (uncounted : term.count = none) (iterates : term.forEach = some collection)
      (listed : ItemAt (evaluator collection scope).value (collection.isCallTo "toset") position
        none value) :
      Binds evaluator scope term position (.object [("value", value)])

theorem evaluate_of_bindings? {bindings : List Value} {diagnostics : List Diagnostic}
    (found : bindings? evaluator scope term = some (bindings, diagnostics)) :
    term.evaluate evaluator scope = joinInstances term.firstOnly diagnostics
      ((term.bodyScopes evaluator scope).map fun inner =>
        evaluateBody evaluator inner term.body) := by
  rcases term with ⟨body, count, forEach, iterator, firstOnly⟩
  rw [evaluate, bodyScopes, found, List.map_map]
  rfl

theorem getElem?_bodyScopes {bindings : List Value} {diagnostics : List Diagnostic}
    (found : bindings? evaluator scope term = some (bindings, diagnostics)) {position : Nat}
    {inner : Value} :
    (term.bodyScopes evaluator scope)[position]? = some inner ↔
      (term.firstOnly = true → position = 0) ∧
        ∃ binding, bindings[position]? = some binding ∧ scope.merge binding = inner := by
  rw [bodyScopes, found]
  cases term.firstOnly with
  | false => simp [List.getElem?_map]
  | true =>
      simp only [if_pos, List.getElem?_map, List.getElem?_take, Option.map_eq_some_iff,
        forall_const]
      by_cases first : position = 0
      · simp [first]
      · have later : ¬position < 1 := by omega
        simp [first, later]

theorem getElem?_itemBindings {iterator : String} {isSet : Bool} {collection : Value}
    {position : Nat} {binding : Value} :
    (itemBindings iterator isSet collection).1[position]? = some binding ↔
      ∃ key value, ItemAt collection isSet position key value ∧
        itemBinding iterator key value = binding := by
  constructor
  · intro listed
    cases collection with
    | unknown =>
        rcases List.getElem?_eq_some_iff.mp listed with ⟨first, rfl⟩
        rw [itemBindings, List.length_singleton, Nat.lt_one_iff] at first
        subst first
        exact ⟨_, _, .unknown, rfl⟩
    | object fields =>
        rw [itemBindings, List.getElem?_map, Option.map_eq_some_iff] at listed
        rcases listed with ⟨⟨key, value⟩, listed, rfl⟩
        exact ⟨_, _, .field listed, rfl⟩
    | list items =>
        rw [itemBindings, List.getElem?_map, Option.map_eq_some_iff] at listed
        rcases listed with ⟨item, listed, rfl⟩
        cases isSet with
        | true => exact ⟨_, _, .member listed, rfl⟩
        | false => exact ⟨_, _, .item listed, rfl⟩
    | _ => cases listed
  · rintro ⟨key, value, listed, rfl⟩
    cases listed with
    | unknown => rfl
    | field listed | member listed | item listed => simp [itemBindings, listed]

theorem binds_iff_of_count {count : Expression} (counted : term.count = some count)
    {position : Nat} {own : Value} :
    Binds evaluator scope term position own ↔
      ∃ number, instanceCount? (evaluator count scope).value = some number ∧ position < number ∧
        .object [("index", .ofNat position)] = own := by
  constructor
  · intro binds
    cases binds with
    | index given asked inRange =>
        rw [counted, Option.some.injEq] at given
        subst given
        exact ⟨_, asked, inRange, rfl⟩
    | keyed uncounted | unkeyed uncounted =>
        rw [counted] at uncounted
        cases uncounted
  · rintro ⟨number, asked, inRange, rfl⟩
    exact .index counted asked inRange

theorem binds_iff_of_forEach {collection : Expression} (uncounted : term.count = none)
    (iterates : term.forEach = some collection) {position : Nat} {own : Value} :
    Binds evaluator scope term position own ↔
      ∃ key value, ItemAt (evaluator collection scope).value (collection.isCallTo "toset") position
          key value ∧
        .object ((key.map fun key => ("key", key)).toList ++ [("value", value)]) = own := by
  constructor
  · intro binds
    cases binds with
    | index counted =>
        rw [uncounted] at counted
        cases counted
    | keyed _ given listed | unkeyed _ given listed =>
        rw [iterates, Option.some.injEq] at given
        subst given
        exact ⟨_, _, listed, rfl⟩
  · rintro ⟨_ | key, value, listed, rfl⟩
    · exact .unkeyed uncounted iterates listed
    · exact .keyed uncounted iterates listed

/-- The bindings of a term are what its instances bind, under the name of the variable. -/
theorem getElem?_bindings {name : String} (named : term.iterationName? = some name)
    {bindings : List Value} {diagnostics : List Diagnostic}
    (found : bindings? evaluator scope term = some (bindings, diagnostics)) {position : Nat}
    {binding : Value} :
    bindings[position]? = some binding ↔
      ∃ own, Binds evaluator scope term position own ∧ .nest [name] own = binding := by
  rw [iterationName?] at named
  rw [bindings?] at found
  cases counted : term.count with
  | some count =>
      rw [counted, Option.some.injEq] at named
      subst named
      simp only [binds_iff_of_count counted]
      rw [counted] at found
      cases asked : instanceCount? (evaluator count scope).value with
      | some number =>
          simp only [asked, Option.some.injEq, Prod.mk.injEq] at found
          rw [← found.1, List.getElem?_map, Option.map_eq_some_iff]
          constructor
          · rintro ⟨_, listed, rfl⟩
            rcases List.getElem?_eq_some_iff.mp listed with ⟨inRange, rfl⟩
            rw [List.length_range] at inRange
            rw [List.getElem_range]
            exact ⟨_, ⟨number, rfl, inRange, rfl⟩, rfl⟩
          · rintro ⟨_, ⟨_, again, inRange, rfl⟩, rfl⟩
            cases again
            exact ⟨position, List.getElem?_range inRange, rfl⟩
      | none =>
          simp only [asked, Option.some.injEq, Prod.mk.injEq] at found
          simp [← found.1]
  | none =>
      rw [counted] at named found
      cases iterates : term.forEach with
      | none =>
          rw [iterates] at named
          cases named
      | some collection =>
          rw [iterates] at named found
          simp only [Option.some.injEq, Prod.mk.injEq] at named found
          simp only [binds_iff_of_forEach counted iterates]
          rw [← found.1, getElem?_itemBindings, named]
          constructor
          · rintro ⟨key, value, listed, rfl⟩
            exact ⟨_, ⟨key, value, listed, rfl⟩, rfl⟩
          · rintro ⟨_, ⟨key, value, listed, rfl⟩, rfl⟩
            exact ⟨key, value, listed, rfl⟩

theorem exists_bindings? {name : String} (named : term.iterationName? = some name)
    (evaluator : Evaluator) (scope : Value) :
    ∃ bindings diagnostics, bindings? evaluator scope term = some (bindings, diagnostics) := by
  rw [iterationName?] at named
  rw [bindings?]
  cases counted : term.count with
  | some count =>
      dsimp only
      split <;> exact ⟨_, _, rfl⟩
  | none =>
      cases iterates : term.forEach with
      | some collection => exact ⟨_, _, rfl⟩
      | none =>
          rw [counted, iterates] at named
          cases named

theorem bodyScopes_of_unnamed (unnamed : term.iterationName? = none) :
    term.bodyScopes evaluator scope = [scope] := by
  rw [iterationName?] at unnamed
  rw [bodyScopes, bindings?]
  cases counted : term.count with
  | some count =>
      rw [counted] at unnamed
      cases unnamed
  | none =>
      cases iterates : term.forEach with
      | some collection =>
          rw [counted, iterates] at unnamed
          cases unnamed
      | none => rfl

/-- The scope of an instance: that of the term, with what the instance binds merged into it. -/
theorem getElem?_bodyScopes_iff {name : String} (named : term.iterationName? = some name)
    {position : Nat} {inner : Value} :
    (term.bodyScopes evaluator scope)[position]? = some inner ↔
      (term.firstOnly = true → position = 0) ∧
        ∃ own, Binds evaluator scope term position own ∧ scope.graft [name] own = inner := by
  rcases exists_bindings? named evaluator scope with ⟨_, _, found⟩
  simp only [getElem?_bodyScopes found, getElem?_bindings named found]
  refine and_congr_right fun _ => ?_
  constructor
  · rintro ⟨_, ⟨own, binds, rfl⟩, rfl⟩
    exact ⟨own, binds, rfl⟩
  · rintro ⟨own, binds, rfl⟩
    exact ⟨_, ⟨own, binds, rfl⟩, rfl⟩

theorem Binds.unique {name : String} (named : term.iterationName? = some name) {position : Nat}
    {own other : Value} (binds : Binds evaluator scope term position own)
    (again : Binds evaluator scope term position other) : own = other := by
  rcases exists_bindings? named evaluator scope with ⟨_, _, found⟩
  have first := (getElem?_bindings named found).mpr ⟨own, binds, rfl⟩
  have second := (getElem?_bindings named found).mpr ⟨other, again, rfl⟩
  rw [first] at second
  simpa [Value.nest] using second

/-- The scope of the instance that binds a value: that of the term with the value merged in. -/
theorem Binds.getElem?_bodyScopes {name : String} (named : term.iterationName? = some name)
    {position : Nat} {own : Value} (binds : Binds evaluator scope term position own)
    (chosen : term.firstOnly = true → position = 0) :
    (term.bodyScopes evaluator scope)[position]? = some (scope.graft [name] own) :=
  (getElem?_bodyScopes_iff named).mpr ⟨chosen, own, binds, rfl⟩

/-! ## Nested terms -/

/-- A term that the evaluation of `start` in `outer` evaluates in `scope`, and the iteration
variables that the terms above it bind. -/
inductive EvaluatedIn (evaluator : Evaluator) (start : Term) (outer : Value) :
    List String → Term → Value → Prop where
  | start : EvaluatedIn evaluator start outer [] start outer
  | nested {names : List String} {above term : Term} {scope inner : Value} {kind : String}
      {settings : List (String × Expression)} {blocks : List (String × List Term)}
      {terms : List Term} (reached : EvaluatedIn evaluator start outer names above scope)
      (isInstance : inner ∈ above.bodyScopes evaluator scope)
      (isBlock : above.body = .block settings blocks) (ofKind : (kind, terms) ∈ blocks)
      (listed : term ∈ terms) :
      EvaluatedIn evaluator start outer (above.iterationName?.toList ++ names) term inner

end Term

/-! ## Evaluators -/

/-- Whether an evaluator gives values in order where the variables are in order. -/
def Evaluator.Canonical (evaluator : Evaluator) : Prop :=
  ∀ expression scope, Value.Canonical scope → (evaluator expression scope).value.Canonical

namespace Datum

mutual

theorem canonical_toValue : (datum : Datum) → datum.toValue.Canonical
  | null => by simp [toValue, Value.Canonical]
  | bool value => by simp [toValue, Value.Canonical]
  | number value => by simp [toValue, Value.Canonical]
  | string value => by simp [toValue, Value.Canonical]
  | list items => by
      rw [toValue, Value.canonical_list]
      exact canonical_toValueItems items
  | object fields => by
      rw [toValue]
      exact Value.canonical_ofEntries (canonical_toValueFields fields)

theorem canonical_toValueItems : (items : List Datum) → ∀ item ∈ toValueItems items,
    item.Canonical
  | [] => by simp [toValueItems]
  | item :: rest => by
      rw [toValueItems, List.forall_mem_cons]
      exact ⟨canonical_toValue item, canonical_toValueItems rest⟩

theorem canonical_toValueFields : (fields : List (String × Datum)) →
    ∀ field ∈ toValueFields fields, field.2.Canonical
  | [] => by simp [toValueFields]
  | (_, value) :: rest => by
      rw [toValueFields, List.forall_mem_cons]
      exact ⟨canonical_toValue value, canonical_toValueFields rest⟩

end

end Datum

theorem Expression.canonical_evaluateIn : Evaluator.Canonical Expression.evaluateIn := by
  intro expression scope _
  rw [evaluateIn]
  split
  · simp [Value.Canonical]
  · split
    · exact Datum.canonical_toValue _
    · simp [Value.Canonical]

namespace Term

variable {evaluator : Evaluator} {start term : Term} {outer scope : Value} {names : List String}

theorem ItemAt.canonical {collection value : Value} {isSet : Bool} {position : Nat}
    {key : Option Value} (listed : ItemAt collection isSet position key value)
    (canonical : collection.Canonical) : (∀ given ∈ key, given.Canonical) ∧ value.Canonical := by
  cases listed with
  | unknown => simp [Value.Canonical]
  | field listed =>
      refine ⟨by simp [Value.Canonical], ?_⟩
      exact (Value.canonical_object.mp canonical).2 _ (List.mem_of_getElem? listed)
  | member listed =>
      have item := Value.canonical_list.mp canonical _ (List.mem_of_getElem? listed)
      exact ⟨by simpa using item, item⟩
  | item listed =>
      exact ⟨by simp, Value.canonical_list.mp canonical _ (List.mem_of_getElem? listed)⟩

theorem Binds.canonical {position : Nat} {own : Value}
    (binds : Binds evaluator scope term position own) (inOrder : evaluator.Canonical)
    (canonical : scope.Canonical) : own.Canonical := by
  cases binds with
  | index =>
      refine Value.canonical_object.mpr ⟨List.pairwise_singleton _ _, ?_⟩
      simp [Value.ofNat, Value.Canonical]
  | @keyed _ _ key value _ _ listed =>
      have parts := listed.canonical (inOrder _ _ canonical)
      have ordered : Table.Ordered [("key", key), ("value", value)] := by
        rw [Table.ordered_iff_keys]
        exact List.pairwise_pair.mpr (by decide : compare "key" "value" = .lt)
      refine Value.canonical_object.mpr ⟨ordered, ?_⟩
      simpa using parts
  | unkeyed _ _ listed =>
      have parts := listed.canonical (inOrder _ _ canonical)
      refine Value.canonical_object.mpr ⟨List.pairwise_singleton _ _, ?_⟩
      simpa using parts.2

/-- What is nested in a scope in order leaves it in order. -/
theorem canonical_of_mem_bodyScopes {inner : Value} (inOrder : evaluator.Canonical)
    (canonical : scope.Canonical) (isInstance : inner ∈ term.bodyScopes evaluator scope) :
    inner.Canonical := by
  cases named : term.iterationName? with
  | none =>
      rw [bodyScopes_of_unnamed named, List.mem_singleton] at isInstance
      exact isInstance ▸ canonical
  | some name =>
      rcases List.getElem?_of_mem isInstance with ⟨position, listed⟩
      rcases (getElem?_bodyScopes_iff named).mp listed with ⟨_, own, binds, rfl⟩
      have bound : (Value.nest [name] own).Canonical := by
        refine Value.canonical_object.mpr ⟨List.pairwise_singleton _ _, ?_⟩
        simpa [Value.nest] using binds.canonical inOrder canonical
      exact canonical.merge bound

theorem EvaluatedIn.canonical (reached : EvaluatedIn evaluator start outer names term scope)
    (inOrder : evaluator.Canonical) (canonical : outer.Canonical) : scope.Canonical := by
  induction reached with
  | start => exact canonical
  | nested _ isInstance _ _ _ induction =>
      exact canonical_of_mem_bodyScopes inOrder induction isInstance

theorem find?_graft_single (scope : Value) (name key : String) (own : Value) :
    Table.find? key (scope.graft [name] own).fields =
      if key = name then
        some (((Table.find? name scope.fields).map fun earlier => earlier.merge own).getD own)
      else Table.find? key scope.fields := by
  rw [Value.graft_cons, Value.fields_object, Table.find?_insert]
  rfl

/-- A variable that no term above binds is the one of the outermost scope. -/
theorem EvaluatedIn.find?_scope (reached : EvaluatedIn evaluator start outer names term scope)
    {name : String} (unbound : name ∉ names) :
    Table.find? name scope.fields = Table.find? name outer.fields := by
  induction reached with
  | start => rfl
  | @nested _ above _ _ _ _ _ _ _ _ isInstance _ _ _ induction =>
      rw [List.mem_append, not_or] at unbound
      rw [← induction unbound.2]
      cases named : above.iterationName? with
      | none =>
          rw [bodyScopes_of_unnamed named, List.mem_singleton] at isInstance
          rw [isInstance]
      | some other =>
          have different : name ≠ other := by
            rintro rfl
            exact unbound.1 (by simp [named])
          rcases List.getElem?_of_mem isInstance with ⟨position, listed⟩
          rcases (getElem?_bodyScopes_iff named).mp listed with ⟨_, own, _, rfl⟩
          rw [find?_graft_single, if_neg different]

/-- The body of every instance is evaluated in the scope of its term with one variable
changed. That variable has what the instance binds exactly if nothing is left over of what the
scope has under its name, and so it has if neither a term above nor the outermost scope has a
variable of that name. -/
theorem iteration_variable_exact_iff (inOrder : evaluator.Canonical) (canonical : outer.Canonical)
    (reached : EvaluatedIn evaluator start outer names term scope) {name : String}
    (named : term.iterationName? = some name) :
    (∃ diagnostics, term.evaluate evaluator scope =
      joinInstances term.firstOnly diagnostics
        ((term.bodyScopes evaluator scope).map fun inner =>
          evaluateBody evaluator inner term.body)) ∧
    (∀ position, (∃ inner, (term.bodyScopes evaluator scope)[position]? = some inner) ↔
      (term.firstOnly = true → position = 0) ∧
        ∃ own, Binds evaluator scope term position own) ∧
    ∀ position own inner, Binds evaluator scope term position own →
      (term.bodyScopes evaluator scope)[position]? = some inner →
        (∀ other, other ≠ name →
          Table.find? other inner.fields = Table.find? other scope.fields) ∧
        (Table.find? name inner.fields = some own ↔
          ∀ earlier, Table.find? name scope.fields = some earlier →
            ∀ path, ¬LeftOver earlier own path) ∧
        (∀ earlier path, Table.find? name scope.fields = some earlier →
          LeftOver earlier own path →
            own.at? path = none ∧ ∃ part, earlier.at? path = some part ∧
              inner.at? (name :: path) = some part) ∧
        (name ∉ names → Table.find? name outer.fields = none →
          Table.find? name inner.fields = some own) := by
  refine ⟨?_, fun position => ⟨?_, ?_⟩, ?_⟩
  · rcases exists_bindings? named evaluator scope with ⟨_, diagnostics, found⟩
    exact ⟨diagnostics, evaluate_of_bindings? found⟩
  · rintro ⟨inner, listed⟩
    rcases (getElem?_bodyScopes_iff named).mp listed with ⟨chosen, own, binds, _⟩
    exact ⟨chosen, own, binds⟩
  · rintro ⟨chosen, own, binds⟩
    exact ⟨_, binds.getElem?_bodyScopes named chosen⟩
  · intro position own inner binds listed
    rcases (getElem?_bodyScopes_iff named).mp listed with ⟨_, bound, again, rfl⟩
    rw [again.unique named binds]
    have scopeCanonical := reached.canonical inOrder canonical
    have ownCanonical := binds.canonical inOrder scopeCanonical
    have atName := find?_graft_single scope name name own
    rw [if_pos rfl] at atName
    refine ⟨?_, ?_, ?_, ?_⟩
    · intro other different
      rw [find?_graft_single, if_neg different]
    · rw [atName]
      cases found : Table.find? name scope.fields with
      | none => simp
      | some earlier =>
          have exact_iff := Value.merge_eq_right_iff (scopeCanonical.part found) ownCanonical
          simpa using exact_iff
    · intro earlier path found leftOver
      rcases leftOver.at?_merge ownCanonical with ⟨missing, part, before, after⟩
      refine ⟨missing, part, before, ?_⟩
      rw [Value.at?_cons, atName, found]
      exact after
    · intro unbound absent
      rw [atName, reached.find?_scope unbound, absent]
      rfl

/-- A block for each of some items. -/
def itemLoop (iterator : String) : Term where
  body := .block [("v", .read iterator)] []
  count := none
  forEach := some (.list [.object [.named "q" (.number (.ofNat 2))]])
  iterator := some iterator
  firstOnly := false

/-- A block for each of some rules, and in it a block for each of some items. -/
def ruleLoop (iterator : String) : Term where
  body := .block [] [("item", [itemLoop iterator])]
  count := none
  forEach := some (.object [.named "a" (.object [.named "p" (.number (.ofNat 1))])])
  iterator := some "rule"
  firstOnly := false

/-- The variables of the only instance of `ruleLoop`. -/
def ruleInstance : Value :=
  .object [("rule", .object [("key", .string "a"), ("value", .object [("p", .ofNat 1)])])]

/-- What the only instance of `itemLoop` binds. -/
def itemOwn : Value := .object [("value", .object [("q", .ofNat 2)])]

theorem evaluatedIn_itemLoop (iterator : String) :
    EvaluatedIn Expression.evaluateIn (ruleLoop iterator) (.object []) ["rule"]
      (itemLoop iterator) ruleInstance := by
  have binds : Binds Expression.evaluateIn (.object []) (ruleLoop iterator) 0
      (.object [("key", .string "a"), ("value", .object [("p", .ofNat 1)])]) :=
    .keyed rfl rfl (.field rfl)
  have isInstance := binds.getElem?_bodyScopes rfl fun _ => rfl
  rw [Value.graft_empty (List.cons_ne_nil _ _)] at isInstance
  exact .nested .start (List.mem_of_getElem? isInstance) rfl (List.mem_singleton.mpr rfl)
    (List.mem_singleton.mpr rfl)

theorem binds_itemLoop (iterator : String) :
    Binds Expression.evaluateIn ruleInstance (itemLoop iterator) 0 itemOwn :=
  .unkeyed rfl rfl (.item rfl)

theorem iteration_variable_exact_iff_itemLoop : ∃ inner,
    ((itemLoop "item").bodyScopes Expression.evaluateIn ruleInstance)[0]? = some inner ∧
    Table.find? "item" inner.fields = some itemOwn ∧
    Table.find? "rule" inner.fields = Table.find? "rule" ruleInstance.fields := by
  have whole := iteration_variable_exact_iff Expression.canonical_evaluateIn
    (Value.canonical_object.mpr ⟨Table.ordered_nil, by simp⟩) (evaluatedIn_itemLoop "item") rfl
  have binds := binds_itemLoop "item"
  rcases (whole.2.1 0).mpr ⟨fun _ => rfl, _, binds⟩ with ⟨inner, listed⟩
  rcases whole.2.2 0 _ inner binds listed with ⟨others, _, _, own⟩
  exact ⟨inner, listed, own (by decide) rfl, others "rule" (by decide)⟩

/-- Loops of one name: the inner variable still has the key of the outer one, and the fields
of its value. -/
theorem exists_left_over : ∃ scope inner own,
    EvaluatedIn Expression.evaluateIn (ruleLoop "rule") (.object []) ["rule"] (itemLoop "rule")
      scope ∧
    Binds Expression.evaluateIn scope (itemLoop "rule") 0 own ∧
    ((itemLoop "rule").bodyScopes Expression.evaluateIn scope)[0]? = some inner ∧
    own.at? ["key"] = none ∧ inner.at? ["rule", "key"] = some (.string "a") ∧
    own.at? ["value", "p"] = none ∧ inner.at? ["rule", "value", "p"] = some (.ofNat 1) ∧
    Table.find? "rule" inner.fields ≠ some own := by
  have listed : ((itemLoop "rule").bodyScopes Expression.evaluateIn ruleInstance)[0]? =
      some (ruleInstance.graft ["rule"] itemOwn) :=
    (binds_itemLoop "rule").getElem?_bodyScopes rfl fun _ => rfl
  have kept (path : List String) (apart : Value.Apart ["rule", "value", "q"] path) :
      (ruleInstance.graft ["rule"] itemOwn).at? path = ruleInstance.at? path :=
    Value.at?_graft_of_apart apart ruleInstance (.ofNat 2)
  have key := kept ["rule", "key"] (by decide)
  refine ⟨ruleInstance, _, itemOwn, evaluatedIn_itemLoop "rule", binds_itemLoop "rule", listed, rfl,
    key, rfl, kept ["rule", "value", "p"] (by decide), ?_⟩
  intro same
  rw [Value.at?_cons, same] at key
  cases key

end Term

end Groundplan
