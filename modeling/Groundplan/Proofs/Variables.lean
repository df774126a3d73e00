import Groundplan.Proofs.Agreement
import Groundplan.Proofs.Successes
/-!
Variables of a value. A scope is an object whose fields are declared as variables, each
under the identifier of its name, and a reference leads to a part of the last field that
declares its variable.
-/

namespace Groundplan

/-! ## Variables of a value -/

namespace Expression

theorem lookup_scopeOf_cons (key : String) (value : Value) (rest : List (String × Value))
    (name : String) :
    (scopeOf (.object ((key, value) :: rest))).lookup name =
      ((scopeOf (.object rest)).lookup name).or
        (if identifierOf key = name then some (Datum.ofValue value) else none) := by
  rw [scopeOf, scopeOf, List.map_cons, List.reverse_cons, List.lookup_append, List.lookup_cons]
  by_cases same : name = identifierOf key
  · simp [same]
  · simp [beq_eq_false_iff_ne.mpr same, Ne.symm same]

theorem lookup_scopeOf_eq_none_iff {fields : List (String × Value)} {name : String} :
    (scopeOf (.object fields)).lookup name = none ↔
      ∀ key ∈ Table.keys fields, identifierOf key ≠ name := by
  induction fields with
  | nil => simp [scopeOf]
  | cons first rest induction =>
      rcases first with ⟨key, value⟩
      rw [lookup_scopeOf_cons, Option.or_eq_none_iff, induction]
      simp [and_comm]

/-- The field that a variable is read from: the last one of its name. -/
structure Declares (fields : List (String × Value)) (name key : String) (value : Value) :
    Prop where
  found : Table.find? key fields = some value
  declared : identifierOf key = name
  last : ∀ other ∈ Table.keys fields, identifierOf other = name → compare key other ≠ .lt

theorem lookup_scopeOf_of_declares {fields : List (String × Value)}
    (ordered : Table.Ordered fields) {name key : String} {value : Value}
    (declares : Declares fields name key value) :
    (scopeOf (.object fields)).lookup name = some (Datum.ofValue value) := by
  induction fields with
  | nil => cases declares.found
  | cons first rest induction =>
      rcases first with ⟨other, given⟩
      have parts := List.pairwise_cons.mp ordered
      rw [lookup_scopeOf_cons]
      have found := declares.found
      by_cases same : key = other
      · subst same
        have unread : (scopeOf (.object rest)).lookup name = none := by
          rw [lookup_scopeOf_eq_none_iff]
          intro later member equal
          rcases List.mem_map.mp member with ⟨entry, listed, isLater⟩
          exact declares.last later (List.mem_cons_of_mem _ member) equal
            (isLater ▸ parts.1 entry listed)
        rw [Table.find?_cons_self] at found
        rw [unread, if_pos declares.declared, Option.some.inj found]
        rfl
      · rw [Table.find?_cons_of_ne same] at found
        have inRest : Declares rest name key value :=
          ⟨found, declares.declared, fun later member =>
            declares.last later (List.mem_cons_of_mem _ member)⟩
        rw [induction parts.2 inRest]
        rfl

theorem exists_declares {fields : List (String × Value)} (ordered : Table.Ordered fields)
    {name key : String} (member : key ∈ Table.keys fields) (declared : identifierOf key = name) :
    ∃ last value, Declares fields name last value := by
  induction fields generalizing key with
  | nil => cases member
  | cons first rest induction =>
      rcases first with ⟨other, given⟩
      have parts := List.pairwise_cons.mp ordered
      have before : ∀ later ∈ Table.keys rest, compare other later = .lt := by
        intro later listed
        rcases List.mem_map.mp listed with ⟨entry, inRest, isLater⟩
        exact isLater ▸ parts.1 entry inRest
      by_cases further : ∃ later ∈ Table.keys rest, identifierOf later = name
      · rcases further with ⟨later, listed, laterDeclared⟩
        rcases induction parts.2 listed laterDeclared with ⟨last, value, declares⟩
        have lastListed := Table.mem_keys_of_mem (Table.mem_of_find? declares.found)
        have after := before last lastListed
        refine ⟨last, value, ?_, declares.declared, ?_⟩
        · have different : last ≠ other := by
            intro same
            rw [same] at after
            simp at after
          rw [Table.find?_cons_of_ne different, declares.found]
        · intro candidate inFields equal
          rcases List.mem_cons.mp inFields with isFirst | inRest
          · rw [isFirst]
            intro less
            have gt := Std.OrientedCmp.gt_of_lt after
            rw [less] at gt
            cases gt
          · exact declares.last candidate inRest equal
      · have isFirst : key = other := by
          rcases List.mem_cons.mp member with same | inRest
          · exact same
          · exact absurd ⟨key, inRest, declared⟩ further
        subst isFirst
        refine ⟨key, given, Table.find?_cons_self _ _ _, declared, ?_⟩
        intro candidate inFields equal
        rcases List.mem_cons.mp inFields with same | inRest
        · simp [same]
        · exact absurd ⟨candidate, inRest, equal⟩ further

end Expression

namespace Value

/-! ## Parts at the end of an accessor -/

def items : Value → List Value
  | list items => items
  | _ => []

@[simp] theorem items_list (items : List Value) : (list items).items = items := rfl

/-- The part of a value that an accessor leads to. -/
def follow? : Value → Accessor → Option Value
  | value, [] => some value
  | value, .key key :: rest => (Table.find? key value.fields).bind fun part => part.follow? rest
  | value, .index position :: rest => value.items[position]?.bind fun part => part.follow? rest

/-- Whether an accessor leads to something is decided by agreement on its leading keys. -/
theorem AgreeOn.follow?_eq {left right : Value} {accessor : Accessor}
    (agree : AgreeOn (Accessor.splitKeys accessor).1 left right) :
    left.follow? accessor = right.follow? accessor := by
  generalize keys : (Accessor.splitKeys accessor).1 = path at agree
  induction agree generalizing accessor with
  | same => rfl
  | absent noLeft noRight =>
      rcases Accessor.eq_of_splitKeys keys with ⟨others, same, _⟩
      rw [same, follow?, follow?, fields_object, fields_object, noLeft, noRight]
  | field inLeft inRight _ induction =>
      rcases Accessor.eq_of_splitKeys keys with ⟨others, same, split⟩
      rw [same, follow?, follow?, fields_object, fields_object, inLeft, inRight]
      exact induction split

section Blocked

variable {value : Value} {accessor : Accessor}
  (blocked : Blocked (Accessor.splitKeys accessor).1 value)
include blocked

theorem Blocked.follow? : value.follow? accessor = none := by
  generalize keys : (Accessor.splitKeys accessor).1 = path at blocked
  induction blocked generalizing accessor with
  | absent _ missing =>
      rcases Accessor.eq_of_splitKeys keys with ⟨others, same, _⟩
      rw [same, Value.follow?, missing, Option.bind_none]
  | field found _ induction =>
      rcases Accessor.eq_of_splitKeys keys with ⟨others, same, split⟩
      rw [same, Value.follow?, found, Option.bind_some, induction split]

theorem Blocked.reachesUnknown : value.reachesUnknown accessor = false := by
  generalize keys : (Accessor.splitKeys accessor).1 = path at blocked
  induction blocked generalizing accessor with
  | @absent key rest value known missing =>
      rcases Accessor.eq_of_splitKeys keys with ⟨others, same, _⟩
      rw [same]
      cases value with
      | object fields =>
          rw [fields_object] at missing
          rw [Value.reachesUnknown, missing]
      | unknown => cases known
      | _ => simp [Value.reachesUnknown]
  | field found _ induction =>
      rcases Accessor.eq_of_splitKeys keys with ⟨others, same, split⟩
      rw [same, isObject_of_find? found, Value.reachesUnknown, found]
      exact induction split

end Blocked

end Value

namespace Datum

theorem lookup_ofValueFields (fields : List (String × Value)) (key : String) :
    (ofValueFields fields).lookup key = (Table.find? key fields).map ofValue := by
  induction fields with
  | nil => rfl
  | cons first rest induction =>
      rcases first with ⟨other, value⟩
      rw [ofValueFields]
      by_cases same : key = other
      · subst same
        rw [Table.find?_cons_self, List.lookup_cons_self, Option.map_some]
      · rw [Table.find?_cons_of_ne same, List.lookup_cons, beq_eq_false_iff_ne.mpr same]
        exact induction

theorem getElem?_ofValueItems (items : List Value) (position : Nat) :
    (ofValueItems items)[position]? = items[position]?.map ofValue := by
  induction items generalizing position with
  | nil => rfl
  | cons item rest induction =>
      cases position with
      | zero => rfl
      | succ before => exact induction before

theorem member_ofValue_eq_ok {value : Value} {key : String} {datum : Datum} :
    (ofValue value).member key = .ok datum ↔
      ∃ part, Table.find? key value.fields = some part ∧ datum = ofValue part := by
  cases value with
  | object fields =>
      rw [ofValue, member, lookup_ofValueFields, Value.fields_object]
      cases Table.find? key fields with
      | none => simp
      | some part => simp [eq_comm]
  | _ => simp [ofValue, member, Value.fields]

theorem item_ofValue_eq_ok {value : Value} {position : Nat} {datum : Datum} :
    (ofValue value).item position = .ok datum ↔
      ∃ part, value.items[position]? = some part ∧ datum = ofValue part := by
  cases value with
  | list items =>
      rw [ofValue, item, getElem?_ofValueItems, Value.items]
      cases items[position]? with
      | none => simp
      | some part => simp [eq_comm]
  | _ => simp [ofValue, item, Value.items]

/-- Going along an accessor in data is going along it in values. -/
theorem walk_ofValue_eq_ok {value : Value} {accessor : Accessor} {datum : Datum} :
    (ofValue value).walk accessor = .ok datum ↔
      ∃ part, value.follow? accessor = some part ∧ datum = ofValue part := by
  induction accessor generalizing value with
  | nil => simp [walk, Value.follow?, eq_comm]
  | cons segment rest induction =>
      cases segment with
      | key key =>
          rw [walk, Value.follow?]
          constructor
          · intro done
            rcases Evaluated.Refines.exists_of_bind done with ⟨next, reached, below⟩
            rcases member_ofValue_eq_ok.mp reached with ⟨part, found, same⟩
            subst same
            simpa [found] using induction.mp below
          · rintro ⟨part, found, same⟩
            rcases Option.bind_eq_some_iff.mp found with ⟨next, atKey, below⟩
            rw [member_ofValue_eq_ok.mpr ⟨next, atKey, rfl⟩]
            exact induction.mpr ⟨part, below, same⟩
      | index position =>
          rw [walk, Value.follow?]
          constructor
          · intro done
            rcases Evaluated.Refines.exists_of_bind done with ⟨next, reached, below⟩
            rcases item_ofValue_eq_ok.mp reached with ⟨part, found, same⟩
            subst same
            simpa [found] using induction.mp below
          · rintro ⟨part, found, same⟩
            rcases Option.bind_eq_some_iff.mp found with ⟨next, atPosition, below⟩
            rw [item_ofValue_eq_ok.mpr ⟨next, atPosition, rfl⟩]
            exact induction.mpr ⟨part, below, same⟩

end Datum

namespace Expression

/-! ## Parts that references lead to -/

theorem scopeOf_fields (value : Value) : scopeOf (.object value.fields) = scopeOf value := by
  cases value <;> rfl

variable {value part : Value} {reference : Reference} (ordered : Table.Ordered value.fields)
include ordered

/-- What a reference leads to is part of the field that declares its variable. -/
theorem exists_follow? {datum : Datum} (found : (scopeOf value).part reference = .ok datum) :
    ∃ key field part, Declares value.fields reference.root key field ∧
      value.follow? (.key key :: reference.accessor.tail) = some part ∧
      datum = Datum.ofValue part := by
  rw [← scopeOf_fields, Scope.part] at found
  by_cases declared : ∃ key ∈ Table.keys value.fields, identifierOf key = reference.root
  · rcases declared with ⟨_, member, isDeclared⟩
    rcases exists_declares ordered member isDeclared with ⟨key, field, declares⟩
    rw [lookup_scopeOf_of_declares ordered declares] at found
    rcases Datum.walk_ofValue_eq_ok.mp found with ⟨part, below, same⟩
    refine ⟨key, field, part, declares, ?_, same⟩
    rw [Value.follow?, declares.found]
    exact below
  · have undeclared := lookup_scopeOf_eq_none_iff.mpr fun key member same =>
      declared ⟨key, member, same⟩
    rw [undeclared] at found
    cases found

theorem part_of_follow? {key : String} {field : Value}
    (declares : Declares value.fields reference.root key field)
    (follows : value.follow? (.key key :: reference.accessor.tail) = some part) :
    (scopeOf value).part reference = .ok (Datum.ofValue part) := by
  rw [Value.follow?, declares.found] at follows
  rw [← scopeOf_fields, Scope.part, lookup_scopeOf_of_declares ordered declares]
  exact Datum.walk_ofValue_eq_ok.mpr ⟨part, follows, rfl⟩

end Expression

end Groundplan
