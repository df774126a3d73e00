import Groundplan.Proofs.Lookups
import Groundplan.Proofs.Splices
/-!
Laws of merging. A value merges with itself to itself. Merges can be regrouped unless the middle
value cuts off an object of the left one, and they can be swapped where only objects meet.
-/

namespace Groundplan.Value

variable {first middle last left right : Value}

/-! ## Fields of merges -/

/-- The fields of a merge with an object are the fields of both sides, merged where both have
one. -/
theorem find?_fields_merge_eq (isTable : right.IsTable) (left : Value) (key : String) :
    Table.find? key (left.merge right).fields =
      Option.merge merge (Table.find? key left.fields) (Table.find? key right.fields) := by
  rw [find?_fields_merge isTable]
  cases Table.find? key left.fields <;> cases Table.find? key right.fields <;> rfl

theorem isObject_merge (left right : Value) : (left.merge right).isObject = right.isObject := by
  rcases merge_cases left right with same | ⟨lefts, rights, _, isObject, same⟩
  · rw [same]
  · rw [same, isObject]
    rfl

/-- Objects with the same fields are the same. -/
theorem IsTable.ext (inLeft : left.IsTable) (inRight : right.IsTable)
    (same : ∀ key, Table.find? key left.fields = Table.find? key right.fields) : left = right := by
  have fields : left.fields = right.fields := inLeft.2.ext inRight.2 same
  rw [inLeft.eq_object, inRight.eq_object, fields]

theorem isTable_of_merge (inLeft : left.Canonical) (inRight : right.Canonical)
    (isObject : right.isObject = true) : (left.merge right).IsTable :=
  isTable_of_canonical (inLeft.merge inRight) (by rw [isObject_merge, isObject])

theorem find?_fields_merge_of_parts {part other : Value} {key : String} (isTable : right.IsTable)
    (inLeft : Table.find? key left.fields = some part)
    (inRight : Table.find? key right.fields = some other) :
    Table.find? key (left.merge right).fields = some (part.merge other) := by
  rw [find?_fields_merge_eq isTable, inLeft, inRight, Option.merge_some_some]

theorem isObject_of_at?_cons {value part : Value} {key : String} {rest : List String}
    (found : value.at? (key :: rest) = some part) : value.isObject = true := by
  rcases Option.bind_eq_some_iff.mp found with ⟨next, atKey, _⟩
  rw [isObject_of_find? atKey]
  rfl

/-! ## Merging a value with itself -/

theorem merge_self {value : Value} (canonical : value.Canonical) : value.merge value = value := by
  induction value using induction_fields with
  | step value induction =>
      cases isObject : value.isObject with
      | false => exact merge_plain isObject
      | true =>
          have isTable := isTable_of_canonical canonical isObject
          refine (isTable_of_merge canonical canonical isObject).ext isTable fun key => ?_
          rw [find?_fields_merge_eq isTable]
          cases found : Table.find? key value.fields with
          | none => rfl
          | some part => exact congrArg some (induction key part found (canonical.part found))

/-! ## Regrouping merges -/

/-- Where the middle value has something that is no object, nothing of the left one may remain
in the right one. -/
theorem merge_assoc_of_cut (inFirst : first.Canonical) (inMiddle : middle.Canonical)
    (inLast : last.Canonical)
    (cut : ∀ path outer inner final, first.at? path = some outer → middle.at? path = some inner →
      last.at? path = some final → inner.isObject = false → outer.merge final = final) :
    (first.merge middle).merge last = first.merge (middle.merge last) := by
  induction last using induction_fields generalizing first middle with
  | step last induction =>
      cases lastObject : last.isObject with
      | false => rw [merge_plain lastObject, merge_plain lastObject, merge_plain lastObject]
      | true =>
          cases middleObject : middle.isObject with
          | false =>
              rw [merge_plain middleObject, merge_of_plain middleObject]
              exact (cut [] first middle last rfl rfl rfl middleObject).symm
          | true =>
              have middleTable := isTable_of_canonical inMiddle middleObject
              have lastTable := isTable_of_canonical inLast lastObject
              have innerTable := isTable_of_merge inMiddle inLast lastObject
              refine (isTable_of_merge (inFirst.merge inMiddle) inLast lastObject).ext
                (isTable_of_merge inFirst (inMiddle.merge inLast) innerTable.1) fun key => ?_
              rw [find?_fields_merge_eq lastTable, find?_fields_merge_eq middleTable,
                find?_fields_merge_eq innerTable, find?_fields_merge_eq lastTable]
              cases inLasts : Table.find? key last.fields with
              | none => simp
              | some final =>
                  cases inMiddles : Table.find? key middle.fields with
                  | none => simp
                  | some inner =>
                      cases inFirsts : Table.find? key first.fields with
                      | none => simp
                      | some outer =>
                          refine congrArg some (induction key final inLasts (inFirst.part inFirsts)
                            (inMiddle.part inMiddles) (inLast.part inLasts) ?_)
                          intro path outerPart innerPart finalPart atFirst atMiddle atLast
                          apply cut (key :: path)
                          · rw [at?_cons, inFirsts]
                            exact atFirst
                          · rw [at?_cons, inMiddles]
                            exact atMiddle
                          · rw [at?_cons, inLasts]
                            exact atLast

/-- What regroups as a whole regroups at the end of every path. -/
theorem merge_eq_of_merge_assoc (inMiddle : middle.Canonical) (inLast : last.Canonical)
    (same : (first.merge middle).merge last = first.merge (middle.merge last))
    {path : List String} {outer inner final : Value} (atFirst : first.at? path = some outer)
    (atMiddle : middle.at? path = some inner) (atLast : last.at? path = some final)
    (cut : inner.isObject = false) : outer.merge final = final := by
  induction path generalizing first middle last with
  | nil =>
      cases atFirst
      cases atMiddle
      cases atLast
      rw [merge_plain cut, merge_of_plain cut] at same
      exact same.symm
  | cons key rest induction =>
      rcases Option.bind_eq_some_iff.mp atFirst with ⟨firstPart, firstKey, firstBelow⟩
      rcases Option.bind_eq_some_iff.mp atMiddle with ⟨middlePart, middleKey, middleBelow⟩
      rcases Option.bind_eq_some_iff.mp atLast with ⟨lastPart, lastKey, lastBelow⟩
      have middleTable := isTable_of_canonical inMiddle (isObject_of_at?_cons atMiddle)
      have lastTable := isTable_of_canonical inLast (isObject_of_at?_cons atLast)
      have innerTable := isTable_of_merge inMiddle inLast lastTable.1
      have leftKey := find?_fields_merge_of_parts lastTable
        (find?_fields_merge_of_parts middleTable firstKey middleKey) lastKey
      have rightKey := find?_fields_merge_of_parts innerTable firstKey
        (find?_fields_merge_of_parts lastTable middleKey lastKey)
      rw [same] at leftKey
      have parts := Option.some.inj (leftKey.symm.trans rightKey)
      exact induction (inMiddle.part middleKey) (inLast.part lastKey) parts firstBelow middleBelow
        lastBelow

/-- Merges can be regrouped exactly if nothing of the left value remains where the middle one
cuts it off. -/
theorem merge_assoc_iff (inFirst : first.Canonical) (inMiddle : middle.Canonical)
    (inLast : last.Canonical) :
    (first.merge middle).merge last = first.merge (middle.merge last) ↔
      ∀ path outer inner final, first.at? path = some outer → middle.at? path = some inner →
        last.at? path = some final → inner.isObject = false → outer.merge final = final := by
  refine ⟨fun same => ?_, merge_assoc_of_cut inFirst inMiddle inLast⟩
  intro path outer inner final atFirst atMiddle atLast cut
  exact merge_eq_of_merge_assoc inMiddle inLast same atFirst atMiddle atLast cut

/-! Something plain in the middle: one grouping forgets the object on its left, the other does
not. -/

example : ((nest ["a", "b"] null).merge (nest ["a"] null)).merge (nest ["a"] (object [])) =
    nest ["a"] (object []) := by cbv

example : (nest ["a", "b"] null).merge ((nest ["a"] null).merge (nest ["a"] (object []))) =
    nest ["a", "b"] null := by cbv

/-- Whether a path leads to objects in the left and the right value and to something else in the
middle one. -/
def CutsOff (first middle last : Value) (path : List String) : Prop :=
  ∃ outer inner final, first.at? path = some outer ∧ middle.at? path = some inner ∧
    last.at? path = some final ∧ outer.isObject = true ∧ inner.isObject = false ∧
    final.isObject = true

theorem merge_assoc_of_not_cutsOff (inFirst : first.Canonical) (inMiddle : middle.Canonical)
    (inLast : last.Canonical) (whole : ∀ path, ¬CutsOff first middle last path) :
    (first.merge middle).merge last = first.merge (middle.merge last) := by
  apply merge_assoc_of_cut inFirst inMiddle inLast
  intro path outer inner final atFirst atMiddle atLast cut
  cases outerObject : outer.isObject with
  | false => exact merge_of_plain outerObject final
  | true =>
      cases finalObject : final.isObject with
      | false => exact merge_plain finalObject
      | true =>
          exact absurd ⟨outer, inner, final, atFirst, atMiddle, atLast, outerObject, cut,
            finalObject⟩ (whole path)

/-! ## Swapping merges -/

/-- What can be swapped as a whole can be swapped at the end of every path. -/
theorem alike_of_merge_comm (inLeft : left.Canonical) (inRight : right.Canonical)
    (same : left.merge right = right.merge left) {path : List String} {part other : Value}
    (atLeft : left.at? path = some part) (atRight : right.at? path = some other) :
    (part.isObject = true ∧ other.isObject = true) ∨ part = other := by
  induction path generalizing left right with
  | nil =>
      cases atLeft
      cases atRight
      cases partObject : part.isObject with
      | false =>
          rw [merge_of_plain partObject, merge_plain partObject] at same
          exact .inr same.symm
      | true =>
          cases otherObject : other.isObject with
          | false =>
              rw [merge_plain otherObject, merge_of_plain otherObject] at same
              exact .inr same.symm
          | true => exact .inl ⟨rfl, rfl⟩
  | cons key rest induction =>
      rcases Option.bind_eq_some_iff.mp atLeft with ⟨leftPart, leftKey, leftBelow⟩
      rcases Option.bind_eq_some_iff.mp atRight with ⟨rightPart, rightKey, rightBelow⟩
      have leftTable := isTable_of_canonical inLeft (isObject_of_at?_cons atLeft)
      have rightTable := isTable_of_canonical inRight (isObject_of_at?_cons atRight)
      have forward := find?_fields_merge_of_parts rightTable leftKey rightKey
      have backward := find?_fields_merge_of_parts leftTable rightKey leftKey
      rw [same] at forward
      have parts := Option.some.inj (forward.symm.trans backward)
      exact induction (inLeft.part leftKey) (inRight.part rightKey) parts leftBelow rightBelow

theorem merge_comm_of_alike (inLeft : left.Canonical) (inRight : right.Canonical)
    (alike : ∀ path part other, left.at? path = some part → right.at? path = some other →
      (part.isObject = true ∧ other.isObject = true) ∨ part = other) :
    left.merge right = right.merge left := by
  induction right using induction_fields generalizing left with
  | step right induction =>
      rcases alike [] left right rfl rfl with ⟨leftObject, rightObject⟩ | same
      · have leftTable := isTable_of_canonical inLeft leftObject
        have rightTable := isTable_of_canonical inRight rightObject
        refine (isTable_of_merge inLeft inRight rightObject).ext
          (isTable_of_merge inRight inLeft leftObject) fun key => ?_
        rw [find?_fields_merge_eq rightTable, find?_fields_merge_eq leftTable]
        cases inLefts : Table.find? key left.fields with
        | none => simp
        | some part =>
            cases inRights : Table.find? key right.fields with
            | none => simp
            | some other =>
                refine congrArg some (induction key other inRights (inLeft.part inLefts)
                  (inRight.part inRights) ?_)
                intro path below otherBelow atLeft atRight
                apply alike (key :: path)
                · rw [at?_cons, inLefts]
                  exact atLeft
                · rw [at?_cons, inRights]
                  exact atRight
      · rw [same]

/-- Two values can be swapped in a merge exactly if wherever both have something, both have
objects or the same. -/
theorem merge_comm_iff (inLeft : left.Canonical) (inRight : right.Canonical) :
    left.merge right = right.merge left ↔
      ∀ path part other, left.at? path = some part → right.at? path = some other →
        (part.isObject = true ∧ other.isObject = true) ∨ part = other := by
  refine ⟨fun same => ?_, merge_comm_of_alike inLeft inRight⟩
  intro path part other atLeft atRight
  exact alike_of_merge_comm inLeft inRight same atLeft atRight

/-- A merge of a value with itself changes nothing. Merges can be regrouped if no path leads to
objects in the left and the right value and to something else in the middle one. And two
values can be swapped if all paths that both have lead to objects in both. -/
theorem merge_laws (inFirst : first.Canonical) (inMiddle : middle.Canonical)
    (inLast : last.Canonical) :
    first.merge first = first ∧
      ((¬∃ path, CutsOff first middle last path) →
        (first.merge middle).merge last = first.merge (middle.merge last)) ∧
      ((∀ path part other, first.at? path = some part → middle.at? path = some other →
          part.isObject = true ∧ other.isObject = true) →
        first.merge middle = middle.merge first) := by
  refine ⟨merge_self inFirst, fun whole => ?_, fun objects => ?_⟩
  · exact merge_assoc_of_not_cutsOff inFirst inMiddle inLast fun path cuts => whole ⟨path, cuts⟩
  · apply merge_comm_of_alike inFirst inMiddle
    intro path part other atFirst atMiddle
    exact .inl (objects path part other atFirst atMiddle)

/-- Tags and sizes share no field, and tags share nothing but the object that holds them. -/
theorem merge_laws_tags :
    (nest ["tags", "owner"] (string "ops")).Canonical ∧ (nest ["size"] (ofNat 2)).Canonical ∧
    (nest ["tags", "stage"] (string "test")).Canonical ∧
    (∀ path, ¬CutsOff (nest ["tags", "owner"] (string "ops")) (nest ["size"] (ofNat 2))
      (nest ["tags", "stage"] (string "test")) path) ∧
    (((nest ["tags", "owner"] (string "ops")).merge (nest ["size"] (ofNat 2))).merge
        (nest ["tags", "stage"] (string "test")) =
      (nest ["tags", "owner"] (string "ops")).merge
        ((nest ["size"] (ofNat 2)).merge (nest ["tags", "stage"] (string "test")))) ∧
    (nest ["tags", "owner"] (string "ops")).merge (nest ["size"] (ofNat 2)) =
      (nest ["size"] (ofNat 2)).merge (nest ["tags", "owner"] (string "ops")) := by
  have apart {key : String} {rest : List String} {part other : Value}
      (inTags : (nest ["tags", "owner"] (string "ops")).at? (key :: rest) = some part)
      (inSize : (nest ["size"] (ofNat 2)).at? (key :: rest) = some other) : False := by
    rcases Option.bind_eq_some_iff.mp inTags with ⟨_, tagsKey, _⟩
    rcases Option.bind_eq_some_iff.mp inSize with ⟨_, sizeKey, _⟩
    by_cases same : key = "tags"
    · subst same
      cases sizeKey
    · rw [nest, fields_object, Table.find?_cons_of_ne same] at tagsKey
      cases tagsKey
  have inFirst : (nest ["tags", "owner"] (string "ops")).Canonical := canonical_nest _ trivial
  have inMiddle : (nest ["size"] (ofNat 2)).Canonical := canonical_nest _ trivial
  have inLast : (nest ["tags", "stage"] (string "test")).Canonical := canonical_nest _ trivial
  have laws := merge_laws inFirst inMiddle inLast
  have whole : ¬∃ path, CutsOff (nest ["tags", "owner"] (string "ops")) (nest ["size"] (ofNat 2))
      (nest ["tags", "stage"] (string "test")) path := by
    intro cuts
    rcases cuts with ⟨path, outer, inner, final, atFirst, atMiddle, _, _, cut, _⟩
    cases path with
    | nil =>
        cases atMiddle
        cases cut
    | cons key rest => exact apart atFirst atMiddle
  refine ⟨inFirst, inMiddle, inLast, not_exists.mp whole, laws.2.1 whole, laws.2.2 ?_⟩
  intro path part other atFirst atMiddle
  cases path with
  | nil =>
      cases atFirst
      cases atMiddle
      exact ⟨rfl, rfl⟩
  | cons key rest => exact absurd atMiddle (fun atMiddle => apart atFirst atMiddle)

end Groundplan.Value
