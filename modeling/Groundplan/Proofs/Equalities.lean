import Groundplan.Datum
import Groundplan.Proofs.Conversions
import Mathlib.Data.List.Forall2
import Mathlib.Data.List.Perm.Subperm
/-!
Equality of data. It takes no account of the order of the keys of an object, and it goes both ways
and holds of a datum and itself as long as objects have each key once. It need not be transitive:
a fraction can be equal to two integers.
-/

namespace Groundplan

/-! ## Numbers -/

theorem Binary64.compare?_swap (left right : Binary64) :
    compare? right left = (compare? left right).map Ordering.swap := by
  cases left <;> cases right
  case finite.finite significand exponent other otherExponent =>
    rw [compare?, compare?, aligned, aligned, Int.min_comm]
    exact congrArg some Std.OrientedOrd.eq_swap
  case infinite.infinite negative other =>
    cases negative <;> cases other <;> rfl
  case infinite.finite negative _ _ =>
    cases negative <;> rfl
  case finite.infinite _ _ negative =>
    cases negative <;> rfl
  all_goals rfl

namespace Number

theorem compare?_swap (left right : Number) :
    compare? right left = (compare? left right).map Ordering.swap := by
  cases left <;> cases right
  case integer.integer => exact congrArg some Std.OrientedOrd.eq_swap
  all_goals exact Binary64.compare?_swap _ _

theorem equal_comm (left right : Number) : left.equal right = right.equal left := by
  rw [equal, equal, compare?_swap left right]
  cases compare? left right with
  | none => rfl
  | some order => cases order <;> rfl

theorem equal_self {value : Number} (held : value.IsHeld) : value.equal value = true := by
  cases held with
  | integer => simp [equal, compare?]
  | @binary value finite =>
      cases value with
      | finite => simp [equal, compare?, toBinary, Binary64.compare?, Binary64.aligned]
      | infinite | notNumber => cases finite

end Number

namespace Datum

/-! ## Data -/

/-- Whether all numbers in a datum are held and all its objects have each key once. -/
inductive IsHeld : Datum → Prop where
  | null : IsHeld .null
  | bool (value : Bool) : IsHeld (.bool value)
  | number {value : Number} (held : value.IsHeld) : IsHeld (.number value)
  | string (value : String) : IsHeld (.string value)
  | list {items : List Datum} (parts : ∀ item ∈ items, IsHeld item) : IsHeld (.list items)
  | object {fields : List (String × Datum)} (once : (Table.keys fields).Nodup)
      (parts : ∀ field ∈ fields, IsHeld field.2) : IsHeld (.object fields)

theorem lookup_eq_some_iff {fields : List (String × Datum)} (once : (Table.keys fields).Nodup)
    {key : String} {value : Datum} : fields.lookup key = some value ↔ (key, value) ∈ fields := by
  have listed : ∀ other, fields.lookup key = some other → (key, other) ∈ fields := by
    intro other found
    rcases List.lookup_eq_some_iff.mp found with ⟨before, after, rfl, -⟩
    exact List.mem_append_right _ List.mem_cons_self
  refine ⟨listed value, fun member => ?_⟩
  have found : (fields.lookup key).isSome = true :=
    List.lookup_isSome_iff.mpr ⟨(key, value), member, beq_self_eq_true key⟩
  rcases Option.isSome_iff_exists.mp found with ⟨other, same⟩
  rw [same, Table.eq_of_nodup_keys once (listed other same) member]

theorem equalItems_iff {left right : List Datum} : equalItems left right = true ↔
    List.Forall₂ (fun item other => item.equal other = true) left right := by
  induction left generalizing right with
  | nil => cases right <;> simp [equalItems]
  | cons item rest induction => cases right <;> simp [equalItems, induction]

theorem equalFields_iff {left right : List (String × Datum)} : equalFields left right = true ↔
    ∀ field ∈ left, ∃ other, right.lookup field.1 = some other ∧ field.2.equal other = true := by
  induction left with
  | nil => simp [equalFields]
  | cons field rest induction =>
      rcases field with ⟨key, value⟩
      rw [equalFields, Bool.and_eq_true, induction, List.forall_mem_cons]
      refine and_congr_left' ?_
      cases right.lookup key <;> simp

theorem equal_object_iff {left right : List (String × Datum)} :
    (object left).equal (object right) = true ↔ left.length = right.length ∧
      ∀ field ∈ left, ∃ other, right.lookup field.1 = some other ∧ field.2.equal other = true := by
  rw [equal, Bool.and_eq_true, beq_iff_eq, equalFields_iff]

theorem equal_self {datum : Datum} (held : datum.IsHeld) : datum.equal datum = true := by
  induction held with
  | null => rfl
  | bool value => exact beq_self_eq_true value
  | number held => exact Number.equal_self held
  | string value => exact beq_self_eq_true value
  | @list items parts induction =>
      rw [equal, equalItems_iff, List.forall₂_same]
      exact induction
  | @object fields once parts induction =>
      rw [equal_object_iff]
      exact ⟨rfl, fun field member =>
        ⟨field.2, (lookup_eq_some_iff once).mpr member, induction field member⟩⟩

/-- As many keys that are all among some others are all of these. -/
theorem mem_keys_of_subset {left right : List (String × Datum)} (once : (Table.keys left).Nodup)
    (long : left.length = right.length) (subset : ∀ key ∈ Table.keys left, key ∈ Table.keys right)
    {key : String} (member : key ∈ Table.keys right) : key ∈ Table.keys left := by
  have short : (Table.keys right).length ≤ (Table.keys left).length := by
    rw [Table.keys, Table.keys, List.length_map, List.length_map]
    exact Nat.le_of_eq long.symm
  have same := (List.subperm_of_subset once subset).perm_of_length_le short
  exact same.mem_iff.mpr member

theorem equalItems_symm {left right : List Datum}
    (each : ∀ item ∈ left, ∀ other ∈ right, item.equal other = true → other.equal item = true)
    (same : equalItems left right = true) : equalItems right left = true := by
  induction left generalizing right with
  | nil =>
      cases right with
      | nil => rfl
      | cons => cases same
  | cons item rest induction =>
      cases right with
      | nil => cases same
      | cons other others =>
          rw [equalItems, Bool.and_eq_true] at same ⊢
          exact ⟨each item List.mem_cons_self other List.mem_cons_self same.1,
            induction (fun item first other second => each item (List.mem_cons_of_mem _ first)
              other (List.mem_cons_of_mem _ second)) same.2⟩

theorem equal_object_symm {left right : List (String × Datum)}
    (leftOnce : (Table.keys left).Nodup) (rightOnce : (Table.keys right).Nodup)
    (each : ∀ field ∈ left, ∀ other ∈ right,
      field.2.equal other.2 = true → other.2.equal field.2 = true)
    (same : (object left).equal (object right) = true) :
    (object right).equal (object left) = true := by
  rw [equal_object_iff] at same ⊢
  rcases same with ⟨long, found⟩
  have subset : ∀ key ∈ Table.keys left, key ∈ Table.keys right := by
    intro key member
    rcases List.mem_map.mp member with ⟨field, listed, rfl⟩
    rcases found field listed with ⟨other, isOther, -⟩
    exact Table.mem_keys_of_mem ((lookup_eq_some_iff rightOnce).mp isOther)
  refine ⟨long.symm, fun field member => ?_⟩
  have key := mem_keys_of_subset leftOnce long subset (List.mem_map_of_mem member)
  rcases List.mem_map.mp key with ⟨other, listed, sameKey⟩
  rcases found other listed with ⟨value, isValue, equal⟩
  -- the key has one value in the right object, which is that of the field
  have whole : value = field.2 := Table.eq_of_nodup_keys rightOnce
    ((lookup_eq_some_iff rightOnce).mp isValue) (sameKey ▸ member)
  exact ⟨other.2, (lookup_eq_some_iff leftOnce).mpr (sameKey ▸ listed),
    each other listed field member (whole ▸ equal)⟩

/-- Equality goes both ways. -/
theorem equal_symm {left right : Datum} (leftHeld : left.IsHeld) (rightHeld : right.IsHeld)
    (same : left.equal right = true) : right.equal left = true := by
  induction leftHeld generalizing right with
  | null => cases rightHeld <;> exact same
  | bool value =>
      cases rightHeld with
      | bool => exact (Bool.beq_comm).trans same
      | _ => cases same
  | number =>
      cases rightHeld with
      | number => exact (Number.equal_comm _ _).trans same
      | _ => cases same
  | string value =>
      cases rightHeld with
      | string => exact beq_iff_eq.mpr (beq_iff_eq.mp same).symm
      | _ => cases same
  | list parts induction =>
      cases rightHeld with
      | list others =>
          exact equalItems_symm (fun item first other second =>
            induction item first (others other second)) same
      | _ => cases same
  | object once parts induction =>
      cases rightHeld with
      | object otherOnce others =>
          exact equal_object_symm once otherOnce (fun field first other second =>
            induction field first (others other second)) same
      | _ => cases same

end Datum

end Groundplan
