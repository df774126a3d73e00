import Groundplan.Function.Conversion
import Groundplan.Proofs.Equalities
import Groundplan.Proofs.SortOrders
import Groundplan.Term
import Mathlib.Data.List.Induction
/-!
Sets. A set lists its elements once each, in the order of their texts. Equality takes no account
of the order of keys, but texts do, so the list depends on the elements alone only where the order
of the texts goes with equality.
-/

namespace Groundplan.Function

open Datum

/-! ## Distinct items -/

section Distinct

variable {items : List Datum}

/-- Whether every item of a list is equal to one of another list. -/
def Among (left right : List Datum) : Prop :=
  ∀ item ∈ left, ∃ other ∈ right, item.equal other = true

/-- No two items are equal, whichever of them is compared to the other. -/
def Apart (items : List Datum) : Prop :=
  items.Pairwise fun left right => left.equal right = false ∧ right.equal left = false

theorem distinctItems_concat (items : List Datum) (item : Datum) :
    distinctItems (items ++ [item]) =
      if (distinctItems items).any fun other => other.equal item then distinctItems items
      else distinctItems items ++ [item] := by
  rw [distinctItems, List.foldl_append]
  rfl

theorem mem_of_mem_distinctItems {item : Datum} (member : item ∈ distinctItems items) :
    item ∈ items := by
  induction items using List.reverseRecOn with
  | nil => exact member
  | append_singleton items last induction =>
      rw [distinctItems_concat] at member
      split at member
      · exact List.mem_append_left _ (induction member)
      · rcases List.mem_append.mp member with earlier | isLast
        · exact List.mem_append_left _ (induction earlier)
        · exact List.mem_append_right _ isLast

theorem among_distinctItems (held : ∀ item ∈ items, item.IsHeld) :
    Among items (distinctItems items) := by
  induction items using List.reverseRecOn with
  | nil => exact nofun
  | append_singleton items last induction =>
      have earlierHeld : ∀ item ∈ items, item.IsHeld := fun item earlier =>
        held item (List.mem_append_left _ earlier)
      have lastHeld := held last (List.mem_append_right _ List.mem_cons_self)
      rw [distinctItems_concat]
      intro item member
      rcases List.mem_append.mp member with earlier | isLast
      · rcases induction earlierHeld item earlier with ⟨other, kept, equal⟩
        split
        · exact ⟨other, kept, equal⟩
        · exact ⟨other, List.mem_append_left _ kept, equal⟩
      · rw [List.mem_singleton.mp isLast]
        split
        · next found =>
            rcases List.any_eq_true.mp found with ⟨other, kept, equal⟩
            have otherHeld := earlierHeld other (mem_of_mem_distinctItems kept)
            exact ⟨other, kept, equal_symm otherHeld lastHeld equal⟩
        · exact ⟨last, List.mem_append_right _ List.mem_cons_self, equal_self lastHeld⟩

theorem apart_distinctItems (held : ∀ item ∈ items, item.IsHeld) :
    Apart (distinctItems items) := by
  induction items using List.reverseRecOn with
  | nil => exact List.Pairwise.nil
  | append_singleton items last induction =>
      have earlierHeld : ∀ item ∈ items, item.IsHeld := fun item earlier =>
        held item (List.mem_append_left _ earlier)
      have lastHeld := held last (List.mem_append_right _ List.mem_cons_self)
      rw [distinctItems_concat]
      split
      · exact induction earlierHeld
      · next fresh =>
          rw [List.any_eq_true, not_exists] at fresh
          refine List.pairwise_append.mpr ⟨induction earlierHeld, List.pairwise_singleton _ _, ?_⟩
          intro other kept item isLast
          rw [List.mem_singleton.mp isLast]
          have otherHeld := earlierHeld other (mem_of_mem_distinctItems kept)
          have different : other.equal last ≠ true := fun equal => fresh other ⟨kept, equal⟩
          exact ⟨Bool.eq_false_iff.mpr different, Bool.eq_false_iff.mpr fun equal =>
            different (equal_symm lastHeld otherHeld equal)⟩

theorem distinctItems_of_apart (apart : Apart items) : distinctItems items = items := by
  induction items using List.reverseRecOn with
  | nil => rfl
  | append_singleton items last induction =>
      rcases List.pairwise_append.mp apart with ⟨earlier, -, across⟩
      rw [distinctItems_concat, induction earlier, if_neg]
      intro found
      rcases List.any_eq_true.mp found with ⟨other, kept, equal⟩
      rw [(across other kept last List.mem_cons_self).1] at equal
      cases equal

end Distinct

/-! ## Sets -/

/-- What the set of some items is, apart from its order. -/
structure IsSetOf (chosen items : List Datum) : Prop where
  apart : Apart chosen
  within : ∀ item ∈ chosen, item ∈ items
  covers : Among items chosen

theorem isSetOf_setItems {items : List Datum} (held : ∀ item ∈ items, item.IsHeld) :
    IsSetOf (setItems items) items where
  apart := by
    have swap : ∀ {left right : Datum}, left.equal right = false ∧ right.equal left = false →
        right.equal left = false ∧ left.equal right = false := And.symm
    exact (List.mergeSort_perm _ sortOrder).symm.pairwise (apart_distinctItems held) swap
  within item member := mem_of_mem_distinctItems (mem_sortItems.mp member)
  covers item member := by
    rcases among_distinctItems held item member with ⟨other, kept, equal⟩
    exact ⟨other, mem_sortItems.mpr kept, equal⟩

theorem setItems_eq_self {items : List Datum} (apart : Apart items)
    (sorted : items.Pairwise fun left right => sortOrder left right = true) :
    setItems items = items := by
  rw [setItems, distinctItems_of_apart apart]
  exact List.mergeSort_of_pairwise sorted

theorem setItems_setItems {items : List Datum} (held : ∀ item ∈ items, item.IsHeld) :
    setItems (setItems items) = setItems items :=
  setItems_eq_self (isSetOf_setItems held).apart (pairwise_sortItems _)

theorem toSet_call_list (items : List Datum) :
    toSet.call [.list items] = .ok (.list (setItems items)) := rfl

/-- The instances for the elements of a set stand in the order of the set. -/
theorem itemBindings_toValue (items : List Datum) (iterator : String) :
    Term.itemBindings iterator true (Datum.list items).toValue =
      (items.map fun item => Term.itemBinding iterator (some item.toValue) item.toValue, []) := by
  have same : toValueItems items = items.map toValue := by
    induction items with
    | nil => rfl
    | cons item rest induction => rw [toValueItems, induction, List.map_cons]
  rw [toValue, same, Term.itemBindings, List.map_map]
  rfl

/-! ## Sets of the same elements -/

/-- Whether two lists have the same elements up to equality, in any order and however often. -/
structure SameElements (left right : List Datum) : Prop where
  inRight : Among left right
  inLeft : Among right left

/-- Whether equality of some data is transitive, and takes no two of them that differ to two others
that are sorted the other way around. -/
structure IsCoherent (held : Datum → Prop) : Prop where
  trans : ∀ {first second third : Datum}, held first → held second → held third →
    first.equal second = true → second.equal third = true → first.equal third = true
  order : ∀ {first second other next : Datum}, held first → held second → held other → held next →
    first.equal second = false → first.equal other = true → second.equal next = true →
    sortOrder first second = true → sortOrder next other = false

/-- Whether the set of some data, as it is made of a list of them, depends on the elements alone. -/
def IsCanonical (held : Datum → Prop) : Prop :=
  ∀ left right : List Datum, (∀ item ∈ left, held item) → (∀ item ∈ right, held item) →
    SameElements left right → ∃ leftSet rightSet : List Datum,
      toSet.call [.list left] = .ok (.list leftSet) ∧
      toSet.call [.list right] = .ok (.list rightSet) ∧
      (Datum.list leftSet).equal (.list rightSet) = true

/-- A list of different data in the order of sorting. -/
structure IsListing (held : Datum → Prop) (items : List Datum) : Prop where
  held : ∀ item ∈ items, held item
  apart : Apart items
  sorted : items.Pairwise fun left right => sortOrder left right = true

section Coherent

variable {held : Datum → Prop} (wellFormed : ∀ item, held item → item.IsHeld)

theorem IsListing.tail {item : Datum} {rest : List Datum}
    (listing : IsListing held (item :: rest)) : IsListing held rest where
  held later member := listing.held later (List.mem_cons_of_mem _ member)
  apart := listing.apart.of_cons
  sorted := listing.sorted.of_cons

/-- Among the items of two listings that start with equal ones, the later ones are among the
later ones. -/
theorem Among.tail (coherent : IsCoherent held) {item other : Datum} {rest others : List Datum}
    (left : IsListing held (item :: rest)) (right : IsListing held (other :: others))
    (equal : other.equal item = true) (among : Among (item :: rest) (other :: others)) :
    Among rest others := by
  intro later member
  rcases among later (List.mem_cons_of_mem _ member) with ⟨partner, listed, isPartner⟩
  rcases List.mem_cons.mp listed with rfl | listed
  · have again := coherent.trans (left.held later (List.mem_cons_of_mem _ member))
      (right.held partner List.mem_cons_self) (left.held item List.mem_cons_self) isPartner equal
    rw [((List.pairwise_cons.mp left.apart).1 later member).2] at again
    cases again
  · exact ⟨partner, listed, isPartner⟩

theorem Among.trans (coherent : IsCoherent held) {first second third : List Datum}
    (firstHeld : ∀ item ∈ first, held item) (secondHeld : ∀ item ∈ second, held item)
    (thirdHeld : ∀ item ∈ third, held item) (before : Among first second)
    (after : Among second third) : Among first third := by
  intro item member
  rcases before item member with ⟨middle, middleListed, isMiddle⟩
  rcases after middle middleListed with ⟨other, listed, isOther⟩
  exact ⟨other, listed, coherent.trans (firstHeld item member) (secondHeld middle middleListed)
    (thirdHeld other listed) isMiddle isOther⟩

include wellFormed

theorem among_of_subset {left right : List Datum} (leftHeld : ∀ item ∈ left, held item)
    (subset : ∀ item ∈ left, item ∈ right) : Among left right := fun item member =>
  ⟨item, subset item member, equal_self (wellFormed item (leftHeld item member))⟩

theorem isListing_setItems {items : List Datum} (itemsHeld : ∀ item ∈ items, held item) :
    IsListing held (setItems items) := by
  have set := isSetOf_setItems fun item member => wellFormed item (itemsHeld item member)
  exact ⟨fun item member => itemsHeld item (set.within item member), set.apart,
    pairwise_sortItems _⟩

/-- The first items of two listings of the same elements are equal, as otherwise the two would be
turned around. -/
theorem equal_first (coherent : IsCoherent held) {item other : Datum} {rest others : List Datum}
    (left : IsListing held (item :: rest)) (right : IsListing held (other :: others))
    (same : SameElements (item :: rest) (other :: others)) : item.equal other = true := by
  rcases same.inRight item List.mem_cons_self with ⟨next, nextListed, isNext⟩
  rcases same.inLeft other List.mem_cons_self with ⟨second, secondListed, isSecond⟩
  have isOther := equal_symm (wellFormed other (right.held other List.mem_cons_self))
    (wellFormed second (left.held second secondListed)) isSecond
  rcases List.mem_cons.mp nextListed with rfl | nextLater
  · exact isNext
  rcases List.mem_cons.mp secondListed with rfl | secondLater
  · exact isOther
  have turned := coherent.order (left.held item List.mem_cons_self)
    (left.held second (List.mem_cons_of_mem _ secondLater))
    (right.held next (List.mem_cons_of_mem _ nextLater)) (right.held other List.mem_cons_self)
    ((List.pairwise_cons.mp left.apart).1 second secondLater).1 isNext isOther
    ((List.pairwise_cons.mp left.sorted).1 second secondLater)
  rw [(List.pairwise_cons.mp right.sorted).1 next nextLater] at turned
  cases turned

/-- Two listings of the same elements are equal: their first items are, and what is left of them
lists the same elements. -/
theorem IsListing.equalItems (coherent : IsCoherent held) {left right : List Datum}
    (leftListing : IsListing held left) (rightListing : IsListing held right)
    (same : SameElements left right) : equalItems left right = true := by
  induction left generalizing right with
  | nil =>
      cases right with
      | nil => rfl
      | cons other others =>
          rcases same.inLeft other List.mem_cons_self with ⟨_, none, -⟩
          cases none
  | cons item rest induction =>
      cases right with
      | nil =>
          rcases same.inRight item List.mem_cons_self with ⟨_, none, -⟩
          cases none
      | cons other others =>
          have equal := equal_first wellFormed coherent leftListing rightListing same
          have back := equal_symm
            (wellFormed item (leftListing.held item List.mem_cons_self))
            (wellFormed other (rightListing.held other List.mem_cons_self)) equal
          rw [Datum.equalItems, equal, Bool.true_and]
          exact induction leftListing.tail rightListing.tail
            ⟨same.inRight.tail coherent leftListing rightListing back,
              same.inLeft.tail coherent rightListing leftListing equal⟩

/-- The set of a list is among the set of any list that the first list is among. -/
theorem among_setItems (coherent : IsCoherent held) {left right : List Datum}
    (leftHeld : ∀ item ∈ left, held item) (rightHeld : ∀ item ∈ right, held item)
    (among : Among left right) : Among (setItems left) (setItems right) := by
  have leftSet := isSetOf_setItems fun item member => wellFormed item (leftHeld item member)
  have rightSet := isSetOf_setItems fun item member => wellFormed item (rightHeld item member)
  have leftSetHeld := (isListing_setItems wellFormed leftHeld).held
  have rightSetHeld := (isListing_setItems wellFormed rightHeld).held
  have inside := among_of_subset wellFormed leftSetHeld leftSet.within
  exact (inside.trans coherent leftSetHeld leftHeld rightHeld among).trans coherent leftSetHeld
    rightHeld rightSetHeld rightSet.covers

theorem equalItems_setItems (coherent : IsCoherent held) {left right : List Datum}
    (leftHeld : ∀ item ∈ left, held item) (rightHeld : ∀ item ∈ right, held item)
    (same : SameElements left right) : equalItems (setItems left) (setItems right) = true :=
  (isListing_setItems wellFormed leftHeld).equalItems wellFormed coherent
    (isListing_setItems wellFormed rightHeld)
    ⟨among_setItems wellFormed coherent leftHeld rightHeld same.inRight,
      among_setItems wellFormed coherent rightHeld leftHeld same.inLeft⟩

theorem sameElements_of_mem_iff {left right : List Datum} (leftHeld : ∀ item ∈ left, held item)
    (same : ∀ item, item ∈ left ↔ item ∈ right) : SameElements left right where
  inRight := among_of_subset wellFormed leftHeld fun item => (same item).mp
  inLeft := among_of_subset wellFormed (fun item member => leftHeld item ((same item).mpr member))
    fun item => (same item).mpr

end Coherent

/-! ## What sets that depend on the elements alone need -/

theorem IsCanonical.forall₂ {held : Datum → Prop} (canonical : IsCanonical held)
    {left right : List Datum} (leftHeld : ∀ item ∈ left, held item)
    (rightHeld : ∀ item ∈ right, held item) (same : SameElements left right) :
    List.Forall₂ (fun item other => item.equal other = true) (setItems left) (setItems right) := by
  rcases canonical left right leftHeld rightHeld same with
    ⟨leftSet, rightSet, isLeft, isRight, equal⟩
  rw [toSet_call_list] at isLeft isRight
  cases isLeft
  cases isRight
  exact equalItems_iff.mp equal

section Canonical

variable {held : Datum → Prop} (wellFormed : ∀ item, held item → item.IsHeld)

include wellFormed

/-- Where sets depend on the elements alone, equality is transitive: otherwise three data would
leave one or two, as the one between the others comes first or second. -/
theorem trans_of_isCanonical (canonical : IsCanonical held) {first second third : Datum}
    (firstHeld : held first) (secondHeld : held second) (thirdHeld : held third)
    (equal : first.equal second = true) (next : second.equal third = true) :
    first.equal third = true := by
  by_contra different
  have back := equal_symm (wellFormed _ firstHeld) (wellFormed _ secondHeld) equal
  have one : distinctItems [second, first, third] = [second] := by simp [distinctItems, back, next]
  have two : distinctItems [first, second, third] = [first, third] := by
    simp [distinctItems, equal, different]
  have leftHeld : ∀ item ∈ [second, first, third], held item := by
    simp [firstHeld, secondHeld, thirdHeld]
  have rightHeld : ∀ item ∈ [first, second, third], held item := by
    simp [firstHeld, secondHeld, thirdHeld]
  have same : SameElements [second, first, third] [first, second, third] :=
    sameElements_of_mem_iff wellFormed leftHeld fun item =>
      (List.Perm.swap first second [third]).mem_iff
  have long := (canonical.forall₂ leftHeld rightHeld same).length_eq
  rw [setItems, setItems, one, two, sortItems, sortItems, List.length_mergeSort,
    List.length_mergeSort] at long
  cases long

theorem setItems_pair {first second : Datum} (firstHeld : held first) (secondHeld : held second)
    (different : first.equal second = false) (sorted : sortOrder first second = true) :
    setItems [first, second] = [first, second] := by
  refine setItems_eq_self (List.pairwise_pair.mpr ⟨different, ?_⟩) (List.pairwise_pair.mpr sorted)
  refine Bool.eq_false_iff.mpr fun equal => ?_
  rw [equal_symm (wellFormed _ secondHeld) (wellFormed _ firstHeld) equal] at different
  cases different

theorem isCoherent_of_isCanonical (canonical : IsCanonical held) : IsCoherent held where
  trans := trans_of_isCanonical wellFormed canonical
  order := by
    intro first second other next firstHeld secondHeld otherHeld nextHeld different isOther isNext
      sorted
    refine Bool.eq_false_iff.mpr fun turned => ?_
    have joins := @trans_of_isCanonical held wellFormed canonical
    have isFirst := equal_symm (wellFormed _ firstHeld) (wellFormed _ otherHeld) isOther
    have isSecond := equal_symm (wellFormed _ secondHeld) (wellFormed _ nextHeld) isNext
    have apart : ¬first.equal next = true := by
      intro before
      rw [joins firstHeld nextHeld secondHeld before isSecond] at different
      cases different
    have leftHeld : ∀ item ∈ [first, second], held item := by simp [firstHeld, secondHeld]
    have rightHeld : ∀ item ∈ [next, other], held item := by simp [nextHeld, otherHeld]
    have same : SameElements [first, second] [next, other] := by
      constructor <;> simp [Among, isOther, isNext, isFirst, isSecond]
    have equal := canonical.forall₂ leftHeld rightHeld same
    rw [setItems_pair wellFormed firstHeld secondHeld different sorted,
      setItems_pair wellFormed nextHeld otherHeld ?_ turned] at equal
    · exact apart (List.forall₂_cons.mp equal).1
    · refine Bool.eq_false_iff.mpr fun alike => apart ?_
      exact joins firstHeld otherHeld nextHeld isOther
        (equal_symm (wellFormed _ nextHeld) (wellFormed _ otherHeld) alike)

end Canonical

/-! ## Sets of simple data -/

/-- Data that are equal exactly if they are sorted alike are in one order. -/
theorem isCoherent_of_sortKey {held : Datum → Prop}
    (alike : ∀ left right, held left → held right →
      (left.equal right = true ↔ sortKey left = sortKey right)) : IsCoherent held where
  trans firstHeld secondHeld thirdHeld equal next := by
    rw [alike _ _ firstHeld secondHeld] at equal
    rw [alike _ _ secondHeld thirdHeld] at next
    exact (alike _ _ firstHeld thirdHeld).mpr (equal.trans next)
  order := by
    intro first second other next firstHeld secondHeld otherHeld nextHeld different isOther isNext
      sorted
    rw [alike _ _ firstHeld otherHeld] at isOther
    rw [alike _ _ secondHeld nextHeld] at isNext
    refine Bool.eq_false_iff.mpr fun turned => Bool.eq_false_iff.mp different ?_
    rw [sortOrder_iff] at sorted turned
    rw [← isOther, ← isNext] at turned
    exact (alike _ _ firstHeld secondHeld).mpr (le_antisymm sorted turned)

/-- Data without parts that are no fractions. -/
inductive IsSimple : Datum → Prop where
  | null : IsSimple .null
  | bool (value : Bool) : IsSimple (.bool value)
  | integer {value : Int} (held : (Number.integer value).IsHeld) :
      IsSimple (.number (.integer value))
  | string (value : String) : IsSimple (.string value)

theorem IsSimple.isHeld (datum : Datum) (simple : IsSimple datum) : datum.IsHeld := by
  cases simple with
  | null => exact .null
  | bool value => exact .bool value
  | integer held => exact .number held
  | string value => exact .string value

theorem equal_iff_eq {left right : Datum} (leftSimple : IsSimple left)
    (rightSimple : IsSimple right) : left.equal right = true ↔ left = right := by
  cases leftSimple <;> cases rightSimple <;> simp [equal, Number.equal, Number.compare?]

theorem eq_of_equalItems {left right : List Datum} (leftSimple : ∀ item ∈ left, IsSimple item)
    (rightSimple : ∀ item ∈ right, IsSimple item) (same : equalItems left right = true) :
    left = right := by
  induction left generalizing right with
  | nil =>
      cases right with
      | nil => rfl
      | cons => cases same
  | cons item rest induction =>
      cases right with
      | nil => cases same
      | cons other others =>
          rw [List.forall_mem_cons] at leftSimple rightSimple
          rw [equalItems, Bool.and_eq_true, equal_iff_eq leftSimple.1 rightSimple.1] at same
          rw [same.1, induction leftSimple.2 rightSimple.2 same.2]

/-- A text with a letter in it is the text of no integer. -/
theorem toString_ne {text : String} {letter : Char} (member : letter ∈ text.toList)
    (other : letter.isDigit = false) (sign : letter ≠ '-') (value : Int) :
    toString value ≠ text := by
  rintro rfl
  rcases (Decimal.spells_iff.mpr rfl).isDigit member with minus | digit
  · exact sign minus
  · rw [digit] at other
    cases other

/-- Simple data have texts of their own. -/
theorem sortKey_inj {left right : Datum} (leftSimple : IsSimple left)
    (rightSimple : IsSimple right) (same : sortKey left = sortKey right) : left = right := by
  have null : ∀ value : Int, toString value ≠ "null" :=
    toString_ne (by decide : 'n' ∈ _) rfl (by decide)
  have bool : ∀ (truth : Bool) (value : Int),
      toString value ≠ if truth then "true" else "false" := by
    intro truth
    cases truth
    · exact toString_ne (by decide : 'e' ∈ _) rfl (by decide)
    · exact toString_ne (by decide : 'e' ∈ _) rfl (by decide)
  cases leftSimple with
  | null =>
      cases rightSimple with
      | null => rfl
      | bool value => cases value <;> exact absurd same (by decide)
      | integer => exact absurd same.symm (null _)
      | string value => exact absurd same.symm (sortKey_string_lt (by simp) value).ne
  | bool truth =>
      cases rightSimple with
      | null => cases truth <;> exact absurd same (by decide)
      | bool other => cases truth <;> cases other <;> first | rfl | exact absurd same (by decide)
      | integer => exact absurd same.symm (bool truth _)
      | string value => exact absurd same.symm (sortKey_string_lt (by simp) value).ne
  | integer =>
      cases rightSimple with
      | null => exact absurd same (null _)
      | bool truth => exact absurd same (bool truth _)
      | integer => rw [toString_inj.mp same]
      | string value => exact absurd same.symm (sortKey_string_lt (by simp) value).ne
  | string value =>
      cases rightSimple with
      | string other => exact congrArg Datum.string ((String.append_right_inj _).mp same)
      | _ => exact absurd same (sortKey_string_lt (by simp) value).ne

theorem isCoherent_isSimple : IsCoherent IsSimple :=
  isCoherent_of_sortKey fun _ _ leftSimple rightSimple =>
    (equal_iff_eq leftSimple rightSimple).trans
      ⟨congrArg sortKey, sortKey_inj leftSimple rightSimple⟩

/-- Lists of the same simple data have the same set, so what goes through the set goes through the
same data in the same order. -/
theorem toSet_eq_of_mem_iff {left right : List Datum} (simple : ∀ item ∈ left, IsSimple item)
    (same : ∀ item, item ∈ left ↔ item ∈ right) :
    toSet.call [.list left] = toSet.call [.list right] := by
  have rightSimple : ∀ item ∈ right, IsSimple item := fun item member =>
    simple item ((same item).mpr member)
  have equal := equalItems_setItems IsSimple.isHeld isCoherent_isSimple simple rightSimple
    (sameElements_of_mem_iff IsSimple.isHeld simple same)
  have leftSet := isSetOf_setItems fun item member => (simple item member).isHeld
  have rightSet := isSetOf_setItems fun item member => (rightSimple item member).isHeld
  rw [toSet_call_list, toSet_call_list, eq_of_equalItems
    (fun item member => simple item (leftSet.within item member))
    (fun item member => rightSimple item (rightSet.within item member)) equal]

/-! ## What sets depend on -/

/-- The set of some items is a set of them, and the set of a set is the set itself. It depends on
the elements alone exactly on data whose order goes with their equality. What is made for each
element of a set is made in its order. -/
theorem toSet_canonical_iff {held : Datum → Prop} (wellFormed : ∀ item, held item → item.IsHeld) :
    (∀ items : List Datum, (∀ item ∈ items, held item) → ∃ chosen : List Datum,
      toSet.call [.list items] = .ok (.list chosen) ∧ IsSetOf chosen items ∧
      toSet.call [.list chosen] = .ok (.list chosen) ∧
      ∀ iterator, Term.itemBindings iterator true (Datum.list chosen).toValue =
        (chosen.map fun item => Term.itemBinding iterator (some item.toValue) item.toValue, [])) ∧
    (IsCanonical held ↔ IsCoherent held) := by
  refine ⟨fun items itemsHeld => ?_, isCoherent_of_isCanonical wellFormed, fun coherent => ?_⟩
  · have each : ∀ item ∈ items, item.IsHeld := fun item member =>
      wellFormed item (itemsHeld item member)
    refine ⟨setItems items, toSet_call_list items, isSetOf_setItems each, ?_,
      itemBindings_toValue _⟩
    rw [toSet_call_list, setItems_setItems each]
  · intro left right leftHeld rightHeld same
    refine ⟨setItems left, setItems right, toSet_call_list left, toSet_call_list right, ?_⟩
    rw [equal]
    exact equalItems_setItems wellFormed coherent leftHeld rightHeld same

/-- Sets of simple data depend on the elements alone. -/
theorem toSet_canonical_iff_isSimple :
    (∀ item, IsSimple item → item.IsHeld) ∧ IsCanonical IsSimple ∧
    ∃ chosen, toSet.call [.list [.string "b", .ofNat 1, .string "a", .string "b"]] =
      .ok (.list chosen) ∧ toSet.call [.list chosen] = .ok (.list chosen) := by
  rcases toSet_canonical_iff IsSimple.isHeld with ⟨each, canonical⟩
  have simple : ∀ item ∈ [Datum.string "b", .ofNat 1, .string "a", .string "b"], IsSimple item := by
    simp only [List.forall_mem_cons]
    have one : IsSimple (.ofNat 1) := .integer (.integer (by decide) (by decide))
    exact ⟨.string "b", one, .string "a", .string "b", nofun⟩
  rcases each _ simple with ⟨chosen, made, -, again, -⟩
  exact ⟨IsSimple.isHeld, canonical.mpr isCoherent_isSimple, chosen, made, again⟩

/-- An object of two numbers. -/
def twoFields (first second : String × Nat) : Datum :=
  .object [(first.1, .ofNat first.2), (second.1, .ofNat second.2)]

theorem isHeld_twoFields {first second : String × Nat} (different : first.1 ≠ second.1)
    (firstFits : first.2 < wordCount) (secondFits : second.2 < wordCount) :
    (twoFields first second).IsHeld := by
  have number : ∀ value : Nat, value < wordCount → (Datum.ofNat value).IsHeld := fun value fits =>
    .number (.integer (by rw [signedLimit]; omega) (by exact_mod_cast fits))
  refine .object (by simp [Table.keys, different]) fun field member => ?_
  rcases List.mem_pair.mp member with rfl | rfl
  · exact number first.2 firstFits
  · exact number second.2 secondFits

/-- The order in which the keys of an object are written can turn a set around. -/
theorem exists_sets_turned : ∃ left right leftSet rightSet : List Datum,
    (∀ item ∈ left, item.IsHeld) ∧ (∀ item ∈ right, item.IsHeld) ∧ SameElements left right ∧
    toSet.call [.list left] = .ok (.list leftSet) ∧
    toSet.call [.list right] = .ok (.list rightSet) ∧
    (Datum.list leftSet).equal (.list rightSet) = false := by
  let first := twoFields ("a", 1) ("b", 2)
  let turned := twoFields ("b", 2) ("a", 1)
  let second := twoFields ("a", 1) ("c", 3)
  have firstHeld : first.IsHeld := isHeld_twoFields (by decide) (by decide) (by decide)
  have turnedHeld : turned.IsHeld := isHeld_twoFields (by decide) (by decide) (by decide)
  have secondHeld : second.IsHeld := isHeld_twoFields (by decide) (by decide) (by decide)
  refine ⟨[first, second], [second, turned], [first, second], [second, turned],
    by simp [firstHeld, secondHeld], by simp [secondHeld, turnedHeld], ?_, ?_, ?_,
    by decide +kernel⟩
  · have equal : first.equal turned = true := by decide +kernel
    have back := equal_symm firstHeld turnedHeld equal
    constructor <;> simp [Among, equal, back, equal_self secondHeld]
  · rw [toSet_call_list, setItems_pair (fun _ => id) firstHeld secondHeld (by decide +kernel)
      (by decide +kernel)]
  · rw [toSet_call_list, setItems_pair (fun _ => id) secondHeld turnedHeld (by decide +kernel)
      (by decide +kernel)]

end Groundplan.Function
