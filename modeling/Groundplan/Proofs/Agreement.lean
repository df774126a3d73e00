import Groundplan.Proofs.Grafts
import Groundplan.Proofs.Names
/-!
Agreement of values along a path: following the path and what comes after it
cannot tell the two values apart. Merging the same value into both keeps it.
-/

namespace Groundplan.Value

/-- Whether two values are the same as far as a path can tell. -/
inductive AgreeOn : List String → Value → Value → Prop where
  | same {path : List String} {value : Value} : AgreeOn path value value
  | absent {key : String} {rest : List String} {left right : List (String × Value)}
      (noLeft : Table.find? key left = none) (noRight : Table.find? key right = none) :
      AgreeOn (key :: rest) (object left) (object right)
  | field {key : String} {rest : List String} {left right : List (String × Value)}
      {leftPart rightPart : Value} (inLeft : Table.find? key left = some leftPart)
      (inRight : Table.find? key right = some rightPart)
      (below : AgreeOn rest leftPart rightPart) :
      AgreeOn (key :: rest) (object left) (object right)

namespace AgreeOn

variable {path : List String} {left right : Value}

theorem eq_of_nil (agree : AgreeOn [] left right) : left = right := by
  cases agree with
  | same => rfl

theorem append (agree : AgreeOn path left right) (rest : List String) :
    AgreeOn (path ++ rest) left right := by
  induction agree with
  | same => exact .same
  | absent noLeft noRight => exact .absent noLeft noRight
  | field inLeft inRight _ induction => exact .field inLeft inRight induction

theorem of_start {longer : List String} (agree : AgreeOn path left right)
    (start : path <+: longer) : AgreeOn longer left right := by
  rcases start with ⟨rest, same⟩
  exact same ▸ agree.append rest

/-- Values agree below a path if the parts at its end do. -/
theorem of_at?_append {rest : List String} {leftPart rightPart : Value}
    (inLeft : left.at? path = some leftPart) (inRight : right.at? path = some rightPart)
    (below : AgreeOn rest leftPart rightPart) : AgreeOn (path ++ rest) left right := by
  induction path generalizing left right with
  | nil =>
      cases inLeft
      cases inRight
      exact below
  | cons key others induction =>
      rcases Option.bind_eq_some_iff.mp inLeft with ⟨leftNext, leftKey, leftBelow⟩
      rcases Option.bind_eq_some_iff.mp inRight with ⟨rightNext, rightKey, rightBelow⟩
      rw [isObject_of_find? leftKey, isObject_of_find? rightKey]
      exact .field leftKey rightKey (induction leftBelow rightBelow)

theorem of_at? {part : Value} (inLeft : left.at? path = some part)
    (inRight : right.at? path = some part) : AgreeOn path left right := by
  have agree := of_at?_append inLeft inRight (.same : AgreeOn [] part part)
  rwa [List.append_nil] at agree

theorem lookup_eq (agree : AgreeOn path left right) : left.lookup path = right.lookup path := by
  induction agree with
  | same => rfl
  | absent noLeft noRight => rw [Value.lookup, Value.lookup, noLeft, noRight]
  | field inLeft inRight _ induction =>
      rw [Value.lookup, Value.lookup, inLeft, inRight]
      exact induction

theorem of_find? {key : String} {rest : List String} (leftTable : left.isObject = true)
    (rightTable : right.isObject = true)
    (equal : Table.find? key left.fields = Table.find? key right.fields) :
    AgreeOn (key :: rest) left right := by
  cases left with
  | object leftFields =>
      cases right with
      | object rightFields =>
          cases inRight : Table.find? key rightFields with
          | none => exact .absent (equal.trans inRight) inRight
          | some part => exact .field (equal.trans inRight) inRight .same
      | _ => cases rightTable
  | _ => cases leftTable

/-! ## Merging the same value -/

/-- What merging `given` leaves under a key. -/
private def mergedAt (given : List (String × Value)) (key : String) (earlier : Option Value) :
    Option Value :=
  given.foldl
    (fun found entry =>
      if key = entry.1 then
        some ((found.map fun part => part.merge entry.2).getD entry.2)
      else found) earlier

private theorem find?_mergeFields_eq (fields given : List (String × Value)) (key : String) :
    Table.find? key (mergeFields fields given) = mergedAt given key (Table.find? key fields) := by
  induction given generalizing fields with
  | nil => rw [mergeFields, mergedAt, List.foldl_nil]
  | cons first rest induction =>
      rcases first with ⟨other, value⟩
      rw [mergeFields_cons, induction, mergedAt, mergedAt, List.foldl_cons]
      by_cases same : key = other
      · subst same
        rw [Table.find?_insert_self, if_pos rfl]
      · rw [Table.find?_insert_of_ne same, if_neg same]

private theorem mergedAt_some {rest : List String}
    (keeps : ∀ {leftPart rightPart : Value}, AgreeOn rest leftPart rightPart →
      ∀ added, AgreeOn rest (leftPart.merge added) (rightPart.merge added))
    (given : List (String × Value)) (key : String) {leftPart rightPart : Value}
    (agree : AgreeOn rest leftPart rightPart) :
    ∃ leftNext rightNext, mergedAt given key (some leftPart) = some leftNext ∧
      mergedAt given key (some rightPart) = some rightNext ∧
      AgreeOn rest leftNext rightNext := by
  induction given generalizing leftPart rightPart with
  | nil => exact ⟨leftPart, rightPart, rfl, rfl, agree⟩
  | cons first others induction =>
      rw [mergedAt, mergedAt, List.foldl_cons, List.foldl_cons]
      by_cases same : key = first.1
      · rw [if_pos same, if_pos same]
        exact induction (keeps agree first.2)
      · rw [if_neg same, if_neg same]
        exact induction agree

theorem merge (agree : AgreeOn path left right) (added : Value) :
    AgreeOn path (left.merge added) (right.merge added) := by
  -- On the path, since a value can be merged into the same part more than once.
  induction path generalizing left right added with
  | nil => exact agree.eq_of_nil ▸ .same
  | cons key rest induction =>
      cases added with
      | object given =>
          cases agree with
          | same => exact .same
          | absent noLeft noRight =>
              rw [Value.merge, Value.merge]
              apply of_find? rfl rfl
              rw [fields_object, fields_object, find?_mergeFields_eq, find?_mergeFields_eq,
                noLeft, noRight]
          | field inLeft inRight below =>
              rw [Value.merge, Value.merge]
              rcases mergedAt_some induction given key below with
                ⟨leftNext, rightNext, leftMerged, rightMerged, next⟩
              apply AgreeOn.field _ _ next
              · rw [find?_mergeFields_eq, inLeft, leftMerged]
              · rw [find?_mergeFields_eq, inRight, rightMerged]
      | _ => rw [merge_plain rfl, merge_plain rfl]; exact .same

theorem graft (agree : AgreeOn path left right) (other : List String) (added : Value) :
    AgreeOn path (left.graft other added) (right.graft other added) :=
  agree.merge (nest other added)

theorem graftAll (agree : AgreeOn path left right) (grafts : List (List String × Value)) :
    AgreeOn path (left.graftAll grafts) (right.graftAll grafts) := by
  induction grafts generalizing left right with
  | nil => exact agree
  | cons first rest induction => exact induction (agree.graft first.1 first.2)

/-! ## Unknown parts -/

/-- Whether an accessor runs into something unknown is decided by agreement on its
leading keys. -/
theorem reachesUnknown_eq {accessor : Accessor}
    (agree : AgreeOn (Accessor.splitKeys accessor).1 left right) :
    left.reachesUnknown accessor = right.reachesUnknown accessor := by
  generalize keys : (Accessor.splitKeys accessor).1 = path at agree
  induction agree generalizing accessor with
  | same => rfl
  | absent noLeft noRight =>
      rcases Accessor.eq_of_splitKeys keys with ⟨others, same, _⟩
      rw [same, Value.reachesUnknown, Value.reachesUnknown, noLeft, noRight]
  | field inLeft inRight _ induction =>
      rcases Accessor.eq_of_splitKeys keys with ⟨others, same, split⟩
      rw [same, Value.reachesUnknown, Value.reachesUnknown, inLeft, inRight]
      exact induction split

end AgreeOn

/-! ## Paths that lead to nothing -/

/-- Whether two values cannot be told apart along a path, or it leads to nothing in either. -/
inductive SameAlong (path : List String) (left right : Value) : Prop where
  | agree (agree : AgreeOn path left right)
  | nothing (inLeft : Blocked path left) (inRight : Blocked path right)

theorem SameAlong.lookup_eq {path : List String} {left right : Value}
    (same : SameAlong path left right) : left.lookup path = right.lookup path := by
  cases same with
  | agree agree => exact agree.lookup_eq
  | nothing inLeft inRight => rw [inLeft.lookup, inRight.lookup]

theorem SameAlong.of_at? {path rest : List String} {left right leftPart rightPart : Value}
    (inLeft : left.at? path = some leftPart) (inRight : right.at? path = some rightPart)
    (below : SameAlong rest leftPart rightPart) : SameAlong (path ++ rest) left right := by
  cases below with
  | agree agree => exact .agree (.of_at?_append inLeft inRight agree)
  | nothing noLeft noRight =>
      exact .nothing (blocked_append inLeft noLeft) (blocked_append inRight noRight)

end Groundplan.Value
