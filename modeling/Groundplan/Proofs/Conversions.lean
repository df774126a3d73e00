import Groundplan.Datum
import Groundplan.Proofs.Tables
import Groundplan.Value.Json
/-!
Conversions of values. A value can be turned into a datum of an expression or into a document,
and back: all that is lost on the way is what is unknown.
-/

namespace Groundplan

/-! ## Numbers -/

namespace Number

/-- The numbers there are: the integers from `-2 ^ 63` to `2 ^ 64 - 1`, and finite fractions
that are no such integer. -/
inductive IsHeld : Number → Prop where
  | integer {value : Int} (least : -(signedLimit : Int) ≤ value) (most : value < wordCount) :
      IsHeld (.integer value)
  | binary {value : Binary64} (finite : value.isFinite = true)
      (fraction : ∀ whole, value.toInt? = some whole →
        ¬(-(signedLimit : Int) ≤ whole ∧ whole < wordCount)) :
      IsHeld (.binary value)

theorem classify_integer (whole : Int → α) (fraction : Binary64 → α) (missing : α)
    (value : Int) : (integer value).classify whole fraction missing = whole value := by
  rw [classify, asSigned?, asUnsigned?]
  by_cases small : value < signedLimit
  · rw [if_pos small]
  · have natural : 0 ≤ value := by omega
    rw [if_neg small, if_pos natural]
    exact congrArg whole (Int.toNat_of_nonneg natural)

theorem classify_binary (whole : Int → α) (fraction : Binary64 → α) (missing : α)
    {value : Binary64} (finite : value.isFinite = true) :
    (binary value).classify whole fraction missing = fraction value := by
  rw [classify, asSigned?, asUnsigned?, toBinary, if_pos finite]

theorem ofBinary_eq_binary {value : Binary64}
    (fraction : ∀ whole, value.toInt? = some whole →
      ¬(-(signedLimit : Int) ≤ whole ∧ whole < wordCount)) :
    ofBinary value = binary value := by
  rw [ofBinary]
  cases found : value.toInt? with
  | none => rfl
  | some whole =>
      have outside : isIntegerRange whole = false := by
        rw [isIntegerRange, ← Bool.decide_and]
        exact decide_eq_false (fraction whole found)
      simp [outside]

end Number

namespace Value

theorem numberOfJson_numberToJson {value : Number} (held : value.IsHeld) :
    numberToJson value = .number value ∧ numberOfJson value = number value := by
  cases held with
  | integer => exact ⟨Number.classify_integer _ _ _ _, Number.classify_integer _ _ _ _⟩
  | binary finite fraction =>
      refine ⟨Number.classify_binary _ _ _ finite, ?_⟩
      rw [numberOfJson, Number.classify_binary _ _ _ finite, Number.ofBinary_eq_binary fraction]

/-! ## Well-formed values -/

/-- Whether all numbers in a value are held and all its objects list their keys in order. -/
inductive WellFormed : Value → Prop where
  | null : WellFormed .null
  | unknown : WellFormed .unknown
  | bool (value : Bool) : WellFormed (.bool value)
  | number {value : Number} (held : value.IsHeld) : WellFormed (.number value)
  | string (value : String) : WellFormed (.string value)
  | list {items : List Value} (parts : ∀ item ∈ items, WellFormed item) :
      WellFormed (.list items)
  | object {fields : Table String Value} (ordered : Table.Ordered fields)
      (parts : ∀ field ∈ fields, WellFormed field.2) : WellFormed (.object fields)

theorem keys_eraseFields (fields : List (String × Value)) :
    Table.keys (eraseFields fields) = Table.keys fields := by
  induction fields with
  | nil => rfl
  | cons field rest induction =>
      rw [eraseFields, Table.keys, List.map_cons, ← Table.keys, induction]
      rfl

/-- The fields of an object stay in order when their values are erased. -/
theorem ofList_eraseFields {fields : Table String Value} (ordered : Table.Ordered fields) :
    Table.ofList (eraseFields fields) = eraseFields fields := by
  apply Table.Ordered.ofList_eq
  rw [Table.ordered_iff_keys, keys_eraseFields, ← Table.ordered_iff_keys]
  exact ordered

/-! ## Documents -/

theorem ofJsonItems_toJsonItems {items : List Value}
    (each : ∀ item ∈ items, ofJson item.toJson = item.erase) :
    ofJsonItems (toJsonItems items) = eraseItems items := by
  induction items with
  | nil => rfl
  | cons item rest induction =>
      rw [toJsonItems, ofJsonItems, eraseItems, each item List.mem_cons_self,
        induction fun other member => each other (List.mem_cons_of_mem _ member)]

theorem ofJsonFields_toJsonFields {fields : List (String × Value)}
    (each : ∀ field ∈ fields, ofJson field.2.toJson = field.2.erase) :
    ofJsonFields (toJsonFields fields) = eraseFields fields := by
  induction fields with
  | nil => rfl
  | cons field rest induction =>
      rw [toJsonFields, ofJsonFields, eraseFields, each field List.mem_cons_self,
        induction fun other member => each other (List.mem_cons_of_mem _ member)]

theorem ofJson_toJson {value : Value} (wellFormed : value.WellFormed) :
    ofJson value.toJson = value.erase := by
  induction wellFormed with
  | number held =>
      have kept := numberOfJson_numberToJson held
      simp [toJson, kept.1, ofJson, kept.2, erase]
  | list parts induction =>
      rw [toJson, ofJson, ofJsonItems_toJsonItems induction, erase]
  | object ordered parts induction =>
      rw [toJson, ofJson, ofJsonFields_toJsonFields induction, ofList_eraseFields ordered, erase]
  | _ => simp [toJson, ofJson, erase]

mutual

/-- What is unknown and what is null are one in a document. -/
theorem toJson_erase : (value : Value) → value.erase.toJson = value.toJson
  | null => by simp [erase]
  | unknown => by simp [erase, toJson]
  | bool value => by simp [erase]
  | number value => by simp [erase]
  | string value => by simp [erase]
  | list items => by rw [erase, toJson, toJson, toJsonItems_eraseItems items]
  | object fields => by rw [erase, toJson, toJson, toJsonFields_eraseFields fields]

theorem toJsonItems_eraseItems : (items : List Value) →
    toJsonItems (eraseItems items) = toJsonItems items
  | [] => rfl
  | item :: rest => by
      rw [eraseItems, toJsonItems, toJsonItems, toJson_erase item, toJsonItems_eraseItems rest]

theorem toJsonFields_eraseFields : (fields : List (String × Value)) →
    toJsonFields (eraseFields fields) = toJsonFields fields
  | [] => rfl
  | (key, value) :: rest => by
      rw [eraseFields, toJsonFields, toJsonFields, toJson_erase value,
        toJsonFields_eraseFields rest]

end

/-- Two values have one document exactly if they differ in nothing but what is unknown. -/
theorem toJson_eq_toJson_iff {left right : Value} (inLeft : left.WellFormed)
    (inRight : right.WellFormed) : left.toJson = right.toJson ↔ left.erase = right.erase := by
  constructor
  · intro same
    rw [← ofJson_toJson inLeft, same, ofJson_toJson inRight]
  · intro same
    rw [← toJson_erase left, same, toJson_erase right]

/-! ## Data -/

theorem toValueItems_ofValueItems {items : List Value}
    (each : ∀ item ∈ items, (Datum.ofValue item).toValue = item.erase) :
    Datum.toValueItems (Datum.ofValueItems items) = eraseItems items := by
  induction items with
  | nil => rfl
  | cons item rest induction =>
      rw [Datum.ofValueItems, Datum.toValueItems, eraseItems, each item List.mem_cons_self,
        induction fun other member => each other (List.mem_cons_of_mem _ member)]

theorem toValueFields_ofValueFields {fields : List (String × Value)}
    (each : ∀ field ∈ fields, (Datum.ofValue field.2).toValue = field.2.erase) :
    Datum.toValueFields (Datum.ofValueFields fields) = eraseFields fields := by
  induction fields with
  | nil => rfl
  | cons field rest induction =>
      rw [Datum.ofValueFields, Datum.toValueFields, eraseFields, each field List.mem_cons_self,
        induction fun other member => each other (List.mem_cons_of_mem _ member)]

theorem toValue_ofValue {value : Value} (wellFormed : value.WellFormed) :
    (Datum.ofValue value).toValue = value.erase := by
  induction wellFormed with
  | list parts induction =>
      rw [Datum.ofValue, Datum.toValue, toValueItems_ofValueItems induction, erase]
  | object ordered parts induction =>
      rw [Datum.ofValue, Datum.toValue, toValueFields_ofValueFields induction, ofEntries,
        ofList_eraseFields ordered, erase]
  | _ => simp [Datum.ofValue, Datum.toValue, erase]

/-! ## Both -/

/-- A value that goes through an expression or a document comes back with null in place of what
is unknown and is otherwise the same, and values that differ in more have different documents. -/
theorem conversions_keep_known {value : Value} (wellFormed : value.WellFormed) :
    (Datum.ofValue value).toValue = value.erase ∧ ofJson value.toJson = value.erase ∧
    ∀ other : Value, other.WellFormed →
      (value.toJson = other.toJson ↔ value.erase = other.erase) :=
  ⟨toValue_ofValue wellFormed, ofJson_toJson wellFormed,
    fun _ inOther => toJson_eq_toJson_iff wellFormed inOther⟩

/-- A value with the outermost integers, a fraction and unknown parts at two depths. -/
def mixed : Value :=
  object [("limits", list [number (.integer (-signedLimit)), number (.integer (wordCount - 1)),
      number (.binary (Binary64.ofDecimal 15 (-1))), unknown]),
    ("name", unknown)]

theorem wellFormed_mixed : mixed.WellFormed := by
  have ascending : compare "limits" "name" = .lt := by decide
  refine .object (by simp [Table.Ordered, ascending]) ?_
  intro field member
  simp only [List.mem_cons, List.not_mem_nil, or_false] at member
  rcases member with rfl | rfl
  · refine .list fun item listed => ?_
    simp only [List.mem_cons, List.not_mem_nil, or_false] at listed
    rcases listed with rfl | rfl | rfl | rfl
    · exact .number (.integer (by decide) (by decide))
    · exact .number (.integer (by decide) (by decide))
    · have noInteger : (Binary64.ofDecimal 15 (-1)).toInt? = none := by decide
      exact .number (.binary (by decide) fun whole same => by simp [noInteger] at same)
    · exact .unknown
  · exact .unknown

theorem conversions_keep_known_mixed : mixed.WellFormed ∧
    (Datum.ofValue mixed).toValue = object [("limits",
      list [number (.integer (-signedLimit)), number (.integer (wordCount - 1)),
        number (.binary (Binary64.ofDecimal 15 (-1))), null]), ("name", null)] ∧
    ofJson mixed.toJson = (Datum.ofValue mixed).toValue ∧
    mixed.toJson = mixed.erase.toJson := by
  have kept := conversions_keep_known wellFormed_mixed
  refine ⟨wellFormed_mixed, ?_, by rw [kept.1, kept.2.1], (toJson_erase mixed).symm⟩
  rw [kept.1]
  simp [mixed, erase, eraseFields, eraseItems]

end Value

end Groundplan
