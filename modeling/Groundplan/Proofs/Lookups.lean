import Groundplan.Proofs.Grafts
/-!
Lookups after grafts. A graft is seen at its own path and nowhere apart from it: a lookup at
another path changes only where the graft replaces something unknown that both paths run into.
-/

namespace Groundplan.Value

variable {tree : Value} {left right : List String}

theorem lookup_nil (tree : Value) : tree.lookup [] = tree := by
  cases tree <;> simp [lookup]

/-- Below a key, a lookup goes on in the part under the key. Without one, an unknown value stays
unknown and anything else gives null. -/
theorem lookup_cons (tree : Value) (key : String) (rest : List String) :
    tree.lookup (key :: rest) =
      match Table.find? key tree.fields with
      | some part => part.lookup rest
      | none => if tree.isUnknown then unknown else null := by
  cases tree with
  | object fields =>
      rw [lookup, fields_object]
      cases Table.find? key fields <;> rfl
  | _ => simp [lookup, fields, isUnknown]

theorem isUnknown_iff : tree.isUnknown = true ↔ tree = unknown := by
  cases tree <;> simp [isUnknown]

theorem fields_of_plain (plain : tree.isObject = false) : tree.fields = [] := by
  cases tree with
  | object => cases plain
  | _ => rfl

/-- Nothing but something unknown is seen as unknown where no fields lead on. -/
theorem lookup_of_plain_eq_unknown_iff (plain : tree.isObject = false) (path : List String) :
    tree.lookup path = unknown ↔ tree = unknown := by
  cases path with
  | nil => rw [lookup_nil]
  | cons key rest =>
      rw [lookup_cons, fields_of_plain plain]
      cases tree <;> simp [isUnknown]

theorem merge_of_plain (plain : tree.isObject = false) (value : Value) :
    tree.merge value = value := by
  rcases merge_cases tree value with same | ⟨fields, _, isObject, _⟩
  · exact same
  · rw [isObject] at plain
    cases plain

/-! ## At the path of a graft -/

/-- What is seen at the path of a graft is what was seen there, with the value merged into it. -/
theorem lookup_graft (tree value : Value) (path : List String) :
    (tree.graft path value).lookup path = (tree.lookup path).merge value := by
  induction path generalizing tree with
  | nil => rw [lookup_nil, lookup_nil, graft, nest]
  | cons key rest induction =>
      rw [graft_cons, lookup_cons, lookup_cons, fields_object, Table.find?_insert_self]
      cases Table.find? key tree.fields with
      | some part => exact induction part
      | none =>
          -- Whether nothing was there or something unknown, it was no object and is replaced.
          have noObject : (if tree.isUnknown then unknown else null).isObject = false := by
            split <;> rfl
          have nested : (nest rest value).lookup rest = value := lookup_of_at? (at?_nest rest value)
          rw [merge_of_plain noObject]
          exact nested

/-! ## At a path apart -/

/-- The longest start that two paths have in common. -/
def commonStart : List String → List String → List String
  | [], _ => []
  | _ :: _, [] => []
  | left :: lefts, right :: rights => if left = right then left :: commonStart lefts rights else []

theorem prefix_commonStart_iff {front : List String} :
    front <+: commonStart left right ↔ front <+: left ∧ front <+: right := by
  fun_induction commonStart left right generalizing front with
  | case1 right =>
      have starts : front <+: [] → front <+: right := fun empty =>
        empty.trans List.nil_prefix
      exact (and_iff_left_of_imp starts).symm
  | case2 key rest =>
      have starts : front <+: [] → front <+: key :: rest := fun empty =>
        empty.trans List.nil_prefix
      exact (and_iff_right_of_imp starts).symm
  | case3 key lefts rights induction =>
      cases front with
      | nil => simp
      | cons first rest =>
          rw [List.cons_prefix_cons, List.cons_prefix_cons, List.cons_prefix_cons, induction]
          exact and_and_left
  | case4 left lefts right rights different =>
      cases front with
      | nil => simp
      | cons first rest => grind

/-- What is seen apart from a graft stays as it was, unless it was hidden by something unknown
on the way that both paths have in common. -/
theorem lookup_graft_of_apart_iff (apart : Apart left right) (tree value : Value) :
    (tree.graft left value).lookup right = tree.lookup right ↔
      tree.lookup (commonStart left right) ≠ unknown := by
  induction left generalizing right tree with
  | nil => exact absurd apart (not_apart_nil right)
  | cons key rest induction =>
      cases right with
      | nil => exact absurd apart.symm (not_apart_nil _)
      | cons other others =>
          cases isObject : tree.isObject with
          | false =>
              -- The graft stands in place of the whole tree and has nothing apart from it.
              have whole : tree.graft (key :: rest) value = nest (key :: rest) value :=
                merge_of_plain isObject _
              have vacant : (nest (key :: rest) value).lookup (other :: others) = null :=
                (blocked_nest_of_apart apart value).lookup
              rw [whole, vacant, Ne, lookup_of_plain_eq_unknown_iff isObject, ← isUnknown_iff,
                lookup_cons, fields_of_plain isObject]
              cases tree.isUnknown <;> simp
          | true =>
              have known : tree.isUnknown = false := by
                cases tree with
                | unknown => cases isObject
                | _ => rfl
              rw [graft_cons, lookup_cons, lookup_cons, fields_object, commonStart]
              by_cases same : key = other
              · subst same
                have below := apart_cons.mp apart rfl
                rw [Table.find?_insert_self, if_pos rfl, lookup_cons]
                cases Table.find? key tree.fields with
                | some part => exact induction below part
                | none =>
                    have vacant : (nest rest value).lookup others = null :=
                      (blocked_nest_of_apart below value).lookup
                    simpa [known] using vacant
              · rw [Table.find?_insert_of_ne (Ne.symm same), if_neg same, lookup_nil, Ne,
                  ← isUnknown_iff, known]
                simp [isUnknown]

/-! ## Unknown parts -/

/-- Along keys, running into something unknown is what a lookup sees as unknown. -/
theorem reachesUnknown_ofLocal_iff (tree : Value) (path : List String) :
    tree.reachesUnknown (Accessor.ofLocal path) = true ↔ tree.lookup path = unknown := by
  induction path generalizing tree with
  | nil =>
      rw [lookup_nil, ← isUnknown_iff]
      cases tree <;> simp [Accessor.ofLocal, reachesUnknown, isUnknown]
  | cons key rest induction =>
      rw [lookup_cons]
      cases tree with
      | object fields =>
          rw [Accessor.ofLocal, List.map_cons, reachesUnknown, fields_object]
          cases Table.find? key fields with
          | some part => exact induction part
          | none => simp [isUnknown]
      | _ => simp [Accessor.ofLocal, reachesUnknown, fields, isUnknown]

/-- Grafting is local. A graft merges its value into what a lookup sees at its path. At a path
apart from it a lookup sees what it saw before exactly if it did not see something unknown
where the paths part. And a path of keys runs into something unknown exactly if a lookup at
its end sees that. -/
theorem graft_local (tree : Value) (path : List String) :
    (∀ value, (tree.merge (nest path value)).lookup path = (tree.lookup path).merge value) ∧
      (∀ value other, Apart path other →
        ((tree.merge (nest path value)).lookup other = tree.lookup other ↔
          tree.lookup (commonStart path other) ≠ unknown)) ∧
      (tree.reachesUnknown (Accessor.ofLocal path) = true ↔ tree.lookup path = unknown) := by
  refine ⟨fun value => lookup_graft tree value path, ?_, reachesUnknown_ofLocal_iff tree path⟩
  intro value other apart
  exact lookup_graft_of_apart_iff apart tree value

/-- A known network beside an unknown one. -/
def networks : Value :=
  object [("far", unknown), ("near", object [("id", string "n-1")])]

/-- The identifier of the known network stays when a size is grafted beside it; that of the
unknown one does not. -/
theorem graft_local_networks :
    Apart ["near", "size"] ["near", "id"] ∧ Apart ["far", "size"] ["far", "id"] ∧
      (networks.merge (nest ["near", "size"] (ofNat 8))).lookup ["near", "id"] = string "n-1" ∧
      networks.lookup ["far", "id"] = unknown ∧
      (networks.merge (nest ["far", "size"] (ofNat 8))).lookup ["far", "id"] ≠ unknown := by
  have near : Apart ["near", "size"] ["near", "id"] := by decide
  have far : Apart ["far", "size"] ["far", "id"] := by decide
  have known : networks.lookup (commonStart ["near", "size"] ["near", "id"]) ≠ unknown := by
    simp [networks, commonStart, lookup, Table.find?]
  have hidden : networks.lookup (commonStart ["far", "size"] ["far", "id"]) = unknown := by
    simp [networks, commonStart, lookup, Table.find?]
  have seen : networks.lookup ["far", "id"] = unknown := by
    simp [networks, lookup, Table.find?]
  refine ⟨near, far, ?_, seen, ?_⟩
  · rw [((graft_local networks ["near", "size"]).2.1 (ofNat 8) _ near).mpr known]
    simp [networks, lookup, Table.find?]
  · intro still
    have same := ((graft_local networks ["far", "size"]).2.1 (ofNat 8) _ far).mp
      (still.trans seen.symm)
    exact same hidden

end Groundplan.Value
