import Groundplan.Function.Collection
import Groundplan.Proofs.Calls
import Groundplan.Proofs.Equalities
import Mathlib.Data.List.Induction
/-!
Objects and the lists of their keys and values. The lists go together position by position: zipped
they are the object again, and the key at an index leads to the value there. An object zipped from
any two lists holds for a key the value where the key stands last.
-/

namespace Groundplan

namespace Datum

/-! ## Fields one after the other -/

/-- Store the entries of a list one after the other. -/
def insertFields (fields entries : List (String × Datum)) : List (String × Datum) :=
  entries.foldl (fun fields entry => insertField entry.1 entry.2 fields) fields

theorem insertField_of_fresh {key : String} {fields : List (String × Datum)}
    (fresh : key ∉ Table.keys fields) (value : Datum) :
    insertField key value fields = fields ++ [(key, value)] := by
  induction fields with
  | nil => rfl
  | cons field rest induction =>
      rw [Table.keys_cons, List.mem_cons, not_or] at fresh
      rw [insertField, if_neg (Ne.symm fresh.1), induction fresh.2, List.cons_append]

/-- Entries with keys of their own are added in their order. -/
theorem insertFields_of_nodup {fields entries : List (String × Datum)}
    (once : (Table.keys (fields ++ entries)).Nodup) :
    insertFields fields entries = fields ++ entries := by
  induction entries generalizing fields with
  | nil => rw [List.append_nil]; rfl
  | cons entry rest induction =>
      have fresh : entry.1 ∉ Table.keys fields := by
        rw [Table.keys, List.map_append, List.nodup_append] at once
        exact fun member => once.2.2 _ member _ List.mem_cons_self rfl
      have step : insertFields fields (entry :: rest) =
          insertFields (insertField entry.1 entry.2 fields) rest := rfl
      rw [step, insertField_of_fresh fresh, induction (by rwa [List.append_assoc]),
        List.append_assoc, List.singleton_append]

theorem lookup_cons_eq (field : String × Datum) (rest : List (String × Datum)) (key : String) :
    (field :: rest).lookup key = if key = field.1 then some field.2 else rest.lookup key := by
  rw [List.lookup_cons]
  by_cases same : key = field.1
  · rw [beq_iff_eq.mpr same, if_pos same]
  · rw [beq_false_of_ne same, if_neg same]

theorem lookup_insertField (key : String) (value : Datum) (fields : List (String × Datum))
    (wanted : String) : (insertField key value fields).lookup wanted =
      if wanted = key then some value else fields.lookup wanted := by
  induction fields with
  | nil => rw [insertField, lookup_cons_eq]
  | cons field rest induction =>
      rcases field with ⟨other, old⟩
      rw [insertField]
      by_cases same : other = key
      · rw [if_pos same, lookup_cons_eq, lookup_cons_eq, same]
        by_cases found : wanted = key
        · rw [if_pos found, if_pos found]
        · rw [if_neg found, if_neg found, if_neg found]
      · rw [if_neg same, lookup_cons_eq, lookup_cons_eq, induction]
        by_cases found : wanted = key
        · have apart : wanted ≠ other := fun equal => same (equal.symm.trans found)
          rw [if_neg apart, if_pos found, if_pos found]
        · rw [if_neg found, if_neg found]

/-- The last entry of a key counts, and without one what was stored before. -/
theorem lookup_insertFields (fields entries : List (String × Datum)) (key : String) :
    (insertFields fields entries).lookup key =
      (entries.reverse.lookup key).or (fields.lookup key) := by
  induction entries using List.reverseRecOn with
  | nil => rfl
  | append_singleton entries entry induction =>
      have step : insertFields fields (entries ++ [entry]) =
          insertField entry.1 entry.2 (insertFields fields entries) := List.foldl_concat ..
      rw [step, lookup_insertField, induction, List.reverse_concat, lookup_cons_eq]
      split <;> rfl

end Datum

namespace Function

open Datum

/-! ## Keys and values -/

section Object

variable {fields : List (String × Datum)} (once : (Table.keys fields).Nodup)

include once

/-- The fields of an object in the order of their keys. -/
theorem ofList_perm_fields : (Table.ofList fields).Perm fields := by
  have ordered := Table.ordered_ofList fields
  have apart {entries : List (String × Datum)} (nodup : (Table.keys entries).Nodup) :
      entries.Nodup := (List.pairwise_map.mp nodup).imp fun different same =>
    different (congrArg Prod.fst same)
  rw [List.perm_ext_iff_of_nodup (apart ordered.nodup_keys) (apart once)]
  rintro ⟨key, value⟩
  rw [← ordered.find?_eq_some_iff, Table.find?_ofList_eq_some_iff once]

end Object

theorem ascending_keys (fields : List (String × Datum)) :
    (Table.keys (Table.ofList fields)).Pairwise (· < ·) :=
  (Table.ordered_iff_keys.mp (Table.ordered_ofList fields)).imp compareOfLessAndEq_eq_lt.mp

theorem call_keys (fields : List (String × Datum)) :
    keys.call [.object fields] =
      .ok (.list ((Table.keys (Table.ofList fields)).map .string)) := rfl

theorem call_values (fields : List (String × Datum)) :
    values.call [.object fields] = .ok (.list (Table.values (Table.ofList fields))) := rfl

theorem call_lookup (fields : List (String × Datum)) (key : String) :
    lookup.call [.object fields, .string key] =
      (fields.lookup key).elim (.error (.missingKey key)) .ok := by
  have run : lookup.call [.object fields, .string key] =
    lookup.run [.object fields, .string key] := rfl
  have object : objectArgument [.object fields, .string key] 0 = .ok fields := rfl
  have text : stringArgument [.object fields, .string key] 1 = .ok key := rfl
  rw [run, lookup]
  dsimp only
  rw [object, text]
  simp only [bind, Except.bind]
  cases fields.lookup key <;> rfl

/-! ## Indices -/

/-- An index that words can count leads to an item, after the end of the list once more to the
first ones. -/
theorem call_element {items : List Datum} {item : Datum} {index : Nat}
    (small : index < signedLimit) (found : items[index % items.length]? = some item) :
    element.call [.list items, .number (.integer index)] = .ok item := by
  have whole : wholeArgument [.list items, .number (.integer index)] 1 = .ok (index : Int) :=
    wholeArgument_of_lt rfl (Int.ofNat_lt.mpr small)
  have listed : listArgument [.list items, .number (.integer index)] 0 = .ok items := rfl
  have filled : items.isEmpty = false := by
    cases items with
    | nil => cases found
    | cons => rfl
  have natural : ¬(index : Int) < 0 := by omega
  have run : element.call [.list items, .number (.integer index)] =
      element.run [.list items, .number (.integer index)] :=
    call_eq_run (Nat.le_refl _) (fun _ => Nat.le_refl _) rfl
  rw [run, element]
  dsimp only
  rw [listed, whole]
  simp only [bind, Except.bind, filled, natural, Int.toNat_natCast]
  rw [if_neg Bool.false_ne_true, if_neg not_false, found]
  rfl

/-! ## Zipped objects -/

theorem zipFields_strings (fields entries : List (String × Datum)) :
    zipFields fields (entries.map fun entry => (.string entry.1, entry.2)) =
      .ok (insertFields fields entries) := by
  induction entries generalizing fields with
  | nil => rfl
  | cons entry rest induction => exact induction _

theorem call_zipMap {names : List String} {items : List Datum}
    (long : names.length = items.length) :
    zipMap.call [.list (names.map .string), .list items] =
      .ok (.object (insertFields [] (names.zip items))) := by
  have run : zipMap.call [.list (names.map .string), .list items] =
    zipMap.run [.list (names.map .string), .list items] := rfl
  have entries : (names.map Datum.string).zip items =
      (names.zip items).map fun entry => (.string entry.1, entry.2) := List.zip_map_left
  have keys : listArgument [.list (names.map .string), .list items] 0 =
    .ok (names.map .string) := rfl
  have values : listArgument [.list (names.map .string), .list items] 1 = .ok items := rfl
  have equal : ¬((names.map Datum.string).length != items.length) = true := by
    simp [long]
  rw [run, zipMap]
  dsimp only
  rw [keys, values]
  simp only [bind, Except.bind, equal, entries, zipFields_strings]
  rfl

theorem lookup_zipped (names : List String) (items : List Datum) (key : String) :
    (insertFields [] (names.zip items)).lookup key = (names.zip items).reverse.lookup key := by
  rw [lookup_insertFields, List.lookup_nil, Option.or_none]

/-- A key of the first list has a last position there, and a zipped object holds for it the item
that the other list has at this position. -/
theorem exists_last_position {names : List String} {items : List Datum}
    (long : names.length = items.length) {key : String} (member : key ∈ names) :
    ∃ position value, names[position]? = some key ∧ items[position]? = some value ∧
      (∀ later : Nat, position < later → names[later]? ≠ some key) ∧
      (insertFields [] (names.zip items)).lookup key = some value := by
  have firsts : (names.zip items).map Prod.fst = names := List.map_fst_zip (Nat.le_of_eq long)
  have seconds : (names.zip items).map Prod.snd = items := List.map_snd_zip (Nat.le_of_eq long.symm)
  rw [lookup_zipped]
  generalize names.zip items = entries at firsts seconds
  subst firsts seconds
  rcases List.mem_map.mp member with ⟨entry, listed, isKey⟩
  have found : (entries.reverse.lookup key).isSome = true :=
    List.lookup_isSome_iff.mpr ⟨entry, List.mem_reverse.mpr listed, beq_iff_eq.mpr isKey.symm⟩
  rcases Option.isSome_iff_exists.mp found with ⟨value, isValue⟩
  -- what is before the entry in the reversed row is behind it in the row
  rcases List.lookup_eq_some_iff.mp isValue with ⟨behind, before, split, others⟩
  have whole : entries = before.reverse ++ (key, value) :: behind.reverse := by
    rw [← List.reverse_reverse entries, split]
    simp
  have here : entries[before.length]? = some (key, value) := by
    rw [whole, ← List.length_reverse, List.getElem?_append_right (Nat.le_refl _), Nat.sub_self,
      List.getElem?_cons_zero]
  refine ⟨before.length, value, ?_, ?_, fun later after same => ?_, isValue⟩
  · rw [List.getElem?_map, here, Option.map_some]
  · rw [List.getElem?_map, here, Option.map_some]
  · rw [List.getElem?_map, Option.map_eq_some_iff] at same
    rcases same with ⟨other, isOther, rfl⟩
    obtain ⟨more, rfl⟩ := Nat.exists_eq_add_of_lt after
    rw [whole, List.getElem?_append_right (by rw [List.length_reverse]; omega),
      List.length_reverse, Nat.add_assoc, Nat.add_sub_cancel_left, List.getElem?_cons_succ]
      at isOther
    have apart := others other (List.mem_reverse.mp (List.mem_of_getElem? isOther))
    simp at apart

section Object

variable {fields : List (String × Datum)}

/-- The lists of the keys and of the values of an object, zipped, are its fields in the order of
their keys. -/
theorem call_zipMap_lists (fields : List (String × Datum)) :
    zipMap.call [.list ((Table.keys (Table.ofList fields)).map .string),
      .list (Table.values (Table.ofList fields))] = .ok (.object (Table.ofList fields)) := by
  have ordered := Table.ordered_ofList fields
  have long : (Table.keys (Table.ofList fields)).length =
      (Table.values (Table.ofList fields)).length :=
    (List.length_map _).trans (List.length_map _).symm
  have zipped : (Table.keys (Table.ofList fields)).zip (Table.values (Table.ofList fields)) =
      Table.ofList fields := (List.zip_of_prod rfl rfl).symm
  have same : insertFields [] (Table.ofList fields) = Table.ofList fields :=
    insertFields_of_nodup ordered.nodup_keys
  rw [call_zipMap long, zipped, same]

theorem equal_ofList (held : (Datum.object fields).IsHeld) :
    (Datum.object (Table.ofList fields)).equal (.object fields) = true := by
  cases held with
  | object once parts =>
      have perm := ofList_perm_fields once
      refine equal_object_iff.mpr ⟨perm.length_eq, fun field member => ?_⟩
      have listed := perm.mem_iff.mp member
      exact ⟨field.2, (lookup_eq_some_iff once).mpr listed, equal_self (parts field listed)⟩

/-- At every index there is a key of the object in one list, and its value in the other. -/
theorem exists_field_at (once : (Table.keys fields).Nodup) (nonempty : fields ≠ []) {index : Nat}
    (small : index < signedLimit) : ∃ key value,
      element.call [.list ((Table.keys (Table.ofList fields)).map .string),
        .number (.integer index)] = .ok (.string key) ∧
      element.call [.list (Table.values (Table.ofList fields)), .number (.integer index)] =
        .ok value ∧
      lookup.call [.object fields, .string key] = .ok value := by
  have perm := ofList_perm_fields once
  have positive : 0 < (Table.ofList fields).length :=
    perm.length_eq ▸ List.length_pos_iff.mpr nonempty
  have inside := Nat.mod_lt index positive
  have field := List.getElem?_eq_getElem inside
  have listed := perm.mem_iff.mp (List.getElem_mem inside)
  generalize (Table.ofList fields)[index % (Table.ofList fields).length] = found at field listed
  refine ⟨found.1, found.2, call_element small ?_, call_element small ?_, ?_⟩
  · rw [List.length_map, Table.keys, List.length_map, List.getElem?_map, List.getElem?_map, field]
    rfl
  · rw [Table.values, List.length_map, List.getElem?_map, field]
    rfl
  · rw [call_lookup, (lookup_eq_some_iff once).mpr listed, Option.elim_some]

end Object

/-- The lists of the keys and of the values of an object go together, and an object zipped from two
lists holds for a key the value where it stands last. -/
theorem object_lists_agree :
    (∀ fields, (Datum.object fields).IsHeld →
      ∃ (names : List String) (items : List Datum) (zipped : List (String × Datum)),
        keys.call [.object fields] = .ok (.list (names.map .string)) ∧
        values.call [.object fields] = .ok (.list items) ∧
        names.Pairwise (· < ·) ∧
        zipMap.call [.list (names.map .string), .list items] = .ok (.object zipped) ∧
        zipped.Perm fields ∧ (Datum.object zipped).equal (.object fields) = true ∧
        (fields ≠ [] → ∀ index : Nat, index < signedLimit → ∃ key value,
          element.call [.list (names.map .string), .number (.integer index)] =
            .ok (.string key) ∧
          element.call [.list items, .number (.integer index)] = .ok value ∧
          lookup.call [.object fields, .string key] = .ok value)) ∧
    ∀ (names : List String) (items : List Datum), names.length = items.length → ∃ zipped,
      zipMap.call [.list (names.map .string), .list items] = .ok (.object zipped) ∧
      (∀ key ∈ names, ∃ position value,
        names[position]? = some key ∧ items[position]? = some value ∧
        (∀ later : Nat, position < later → names[later]? ≠ some key) ∧
        lookup.call [.object zipped, .string key] = .ok value) ∧
      ∀ key ∉ names, lookup.call [.object zipped, .string key] = .error (.missingKey key) := by
  constructor
  · intro fields held
    have once : (Table.keys fields).Nodup := by cases held; assumption
    exact ⟨_, _, _, call_keys fields, call_values fields, ascending_keys fields,
      call_zipMap_lists fields, ofList_perm_fields once, equal_ofList held,
      fun nonempty _ small => exists_field_at once nonempty small⟩
  · intro names items long
    refine ⟨_, call_zipMap long, fun key member => ?_, fun key absent => ?_⟩
    · rcases exists_last_position long member with ⟨position, value, isKey, isItem, last, found⟩
      refine ⟨position, value, isKey, isItem, last, ?_⟩
      rw [call_lookup, found, Option.elim_some]
    · have missing : (names.zip items).reverse.lookup key = none := by
        refine List.lookup_eq_none_iff.mpr fun entry member => bne_iff_ne.mpr fun same => ?_
        exact absent (same ▸ (List.of_mem_zip (List.mem_reverse.mp member)).1)
      rw [call_lookup, lookup_zipped, missing, Option.elim_none]

/-- Keys that are written out of order, and a list that holds a key twice. -/
theorem object_lists_agree_unordered :
    (∃ key value, (Datum.object [("b", .string "x"), ("a", .null)]).IsHeld ∧
      lookup.call [.object [("b", .string "x"), ("a", .null)], .string key] = .ok value ∧
      element.call [.list [.null, .string "x"], .number (.integer 3)] = .ok value) ∧
    ∃ zipped, zipMap.call [.list (["a", "b", "a"].map .string), .list [.null, .null, .bool true]] =
        .ok (.object zipped) ∧
      lookup.call [.object zipped, .string "a"] = .ok (.bool true) ∧
      lookup.call [.object zipped, .string "c"] = .error (.missingKey "c") := by
  constructor
  · have held : (Datum.object [("b", .string "x"), ("a", .null)]).IsHeld :=
      .object (by decide) (List.forall_mem_cons.mpr ⟨.string "x",
        List.forall_mem_cons.mpr ⟨.null, nofun⟩⟩)
    rcases object_lists_agree.1 _ held with ⟨names, items, zipped, -, isItems, -, -, -, -, fields⟩
    rcases fields (List.cons_ne_nil _ _) 3 (by decide) with ⟨key, value, -, inItems, found⟩
    have inOrder : values.call [.object [("b", .string "x"), ("a", .null)]] =
      .ok (.list [.null, .string "x"]) := rfl
    cases inOrder.symm.trans isItems
    exact ⟨key, value, held, found, inItems⟩
  · rcases object_lists_agree.2 ["a", "b", "a"] [.null, .null, .bool true] rfl with
      ⟨zipped, isZipped, listed, others⟩
    rcases listed "a" (by decide) with ⟨position, value, isKey, isItem, last, found⟩
    have isLast : value = .bool true := by
      match position, isKey, isItem, last with
      | 0, _, _, last => exact absurd rfl (last 2 (by decide))
      | 2, _, isItem, _ => exact (Option.some.inj isItem).symm
    exact ⟨zipped, isZipped, isLast ▸ found, others "c" (by decide)⟩

end Function

end Groundplan
