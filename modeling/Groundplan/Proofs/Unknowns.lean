import Groundplan.Expression.Outcome
import Groundplan.Proofs.Variables
/-!
Unknown parts. A known value does not change when unknown parts of the scope become
known, unless they lie strictly inside a value that a reference leads to, or are declared
as a variable of another name: only there an expression can see them, as null.
-/

namespace Groundplan

theorem Reference.Rooted.accessor_eq {reference : Reference} (rooted : reference.Rooted) :
    reference.accessor = .key reference.root :: reference.accessor.tail := by
  rcases rooted with ⟨rest, keys⟩
  rcases Accessor.eq_of_splitKeys keys with ⟨others, same, _⟩
  rw [same, List.tail_cons]

namespace Value

/-! ## Filling in unknown parts -/

mutual

/-- Whether the right value is the left one with some of its unknown parts replaced. -/
inductive Fills : Value → Value → Prop where
  | same (value : Value) : Fills value value
  | unknown (filled : Value) : Fills unknown filled
  | list {lefts rights : List Value} (items : FillsItems lefts rights) :
      Fills (list lefts) (list rights)
  | object {lefts rights : List (String × Value)} (fields : FillsFields lefts rights) :
      Fills (object lefts) (object rights)

inductive FillsItems : List Value → List Value → Prop where
  | nil : FillsItems [] []
  | cons {left right : Value} {lefts rights : List Value} (first : Fills left right)
      (rest : FillsItems lefts rights) : FillsItems (left :: lefts) (right :: rights)

inductive FillsFields : List (String × Value) → List (String × Value) → Prop where
  | nil : FillsFields [] []
  | cons {key : String} {left right : Value} {lefts rights : List (String × Value)}
      (first : Fills left right) (rest : FillsFields lefts rights) :
      FillsFields ((key, left) :: lefts) ((key, right) :: rights)

end

theorem FillsFields.keys_eq {lefts rights : List (String × Value)}
    (fills : FillsFields lefts rights) : Table.keys lefts = Table.keys rights := by
  induction lefts generalizing rights with
  | nil =>
      cases fills
      rfl
  | cons first rest induction =>
      cases fills with
      | cons _ others => exact congrArg (List.cons _) (induction others)

theorem FillsFields.find? {lefts rights : List (String × Value)}
    (fills : FillsFields lefts rights) (key : String) :
    (Table.find? key lefts = none ∧ Table.find? key rights = none) ∨
      ∃ left right, Table.find? key lefts = some left ∧ Table.find? key rights = some right ∧
        Fills left right := by
  induction lefts generalizing rights with
  | nil =>
      cases fills
      exact Or.inl ⟨rfl, rfl⟩
  | cons first rest induction =>
      cases fills with
      | @cons other left right _ others filled below =>
          by_cases same : key = other
          · subst same
            exact Or.inr ⟨left, right, Table.find?_cons_self .., Table.find?_cons_self .., filled⟩
          · rw [Table.find?_cons_of_ne same, Table.find?_cons_of_ne same]
            exact induction below

theorem FillsItems.getElem? {lefts rights : List Value} (fills : FillsItems lefts rights)
    (position : Nat) :
    (lefts[position]? = none ∧ rights[position]? = none) ∨
      ∃ left right, lefts[position]? = some left ∧ rights[position]? = some right ∧
        Fills left right := by
  induction lefts generalizing rights position with
  | nil =>
      cases fills
      exact Or.inl ⟨rfl, rfl⟩
  | cons first rest induction =>
      cases fills with
      | cons filled below =>
          cases position with
          | zero => exact Or.inr ⟨_, _, rfl, rfl, filled⟩
          | succ before => simpa using induction below before

/-- Where nothing unknown is reached, nothing unknown is reached afterwards. -/
theorem Fills.reachesUnknown_eq_false {left right : Value} (fills : Fills left right)
    {accessor : Accessor} (known : left.reachesUnknown accessor = false) :
    right.reachesUnknown accessor = false := by
  induction accessor generalizing left right with
  | nil =>
      cases fills with
      | same => exact known
      | unknown => simp [reachesUnknown] at known
      | list => simp [reachesUnknown]
      | object => simp [reachesUnknown]
  | cons segment rest induction =>
      cases fills with
      | same => exact known
      | unknown => simp [reachesUnknown] at known
      | list items =>
          cases segment with
          | key => simp [reachesUnknown]
          | index position =>
              rw [reachesUnknown] at known ⊢
              rcases items.getElem? position with ⟨_, noRight⟩ | ⟨_, _, inLeft, inRight, filled⟩
              · rw [noRight]
              · rw [inLeft] at known
                rw [inRight]
                exact induction filled known
      | object fields =>
          cases segment with
          | index => simp [reachesUnknown]
          | key key =>
              rw [reachesUnknown] at known ⊢
              rcases fields.find? key with ⟨_, noRight⟩ | ⟨_, _, inLeft, inRight, filled⟩
              · rw [noRight]
              · rw [inLeft] at known
                rw [inRight]
                exact induction filled known

/-- An accessor that ends in something unknown runs into it. -/
theorem reachesUnknown_of_follow? {value : Value} {accessor : Accessor}
    (found : value.follow? accessor = some .unknown) : value.reachesUnknown accessor = true := by
  induction accessor generalizing value with
  | nil =>
      cases found
      simp [reachesUnknown]
  | cons segment rest induction =>
      cases segment with
      | key key =>
          rcases Option.bind_eq_some_iff.mp found with ⟨part, atKey, below⟩
          rw [isObject_of_find? atKey, reachesUnknown, atKey]
          exact induction below
      | index position =>
          rcases Option.bind_eq_some_iff.mp found with ⟨part, atPosition, below⟩
          cases value with
          | list items =>
              rw [items_list] at atPosition
              rw [reachesUnknown, atPosition]
              exact induction below
          | _ => cases atPosition

/-! ## Known results -/

/-- Whether what a reference leads to, under the field that declares its variable, is still the
same in the right value. Only the end of the path that is checked for the reference, which starts
with the field of its own name, can be unknown in the left value and anything in the right one. -/
def KeepsParts (left right : Value) (reference : Reference) : Prop :=
  ∀ key field part, Expression.Declares left.fields reference.root key field →
    left.follow? (.key key :: reference.accessor.tail) = some part →
    key = reference.root ∧ part = .unknown ∨
      right.follow? (.key key :: reference.accessor.tail) = some part

theorem gives_of_keepsParts {left right : Value} (ordered : Table.Ordered left.fields)
    (fills : left.Fills right) {reference : Reference} (rooted : reference.Rooted)
    (known : left.reachesUnknown reference.accessor = false)
    (keeps : left.KeepsParts right reference) :
    (Expression.scopeOf left).Gives (Expression.scopeOf right) reference := by
  cases fills with
  | same => exact .refl _
  | unknown => simp [reachesUnknown] at known
  | list items => exact .refl _
  | @object lefts rights fields =>
      intro datum given
      rcases Expression.exists_follow? ordered given with
        ⟨key, field, part, declares, follows, same⟩
      rcases keeps key field part declares follows with ⟨isRoot, isUnknown⟩ | kept
      · -- The check of the reference finds this unknown part.
        rw [isRoot, isUnknown, ← rooted.accessor_eq] at follows
        rw [reachesUnknown_of_follow? follows] at known
        cases known
      · rcases Option.bind_eq_some_iff.mp kept with ⟨other, inRight, _⟩
        have rightOrdered : Table.Ordered rights := by
          rw [Table.ordered_iff_keys, ← fields.keys_eq]
          exact Table.ordered_iff_keys.mp ordered
        rw [same]
        exact Expression.part_of_follow? rightOrdered
          ⟨inRight, declares.declared, fields.keys_eq ▸ declares.last⟩ kept

end Value

namespace Expression

theorem readsUnknown_eq_false_iff {expression : Expression} {scope : Value} :
    expression.readsUnknown scope = false ↔
      ∀ reference ∈ expression.references, scope.reachesUnknown reference.accessor = false := by
  simp [readsUnknown]

theorem evaluateIn_of_evaluate {expression : Expression} {scope : Value} {datum : Datum}
    (known : expression.readsUnknown scope = false)
    (done : expression.evaluate (scopeOf scope) = .ok datum) :
    expression.evaluateIn scope = ⟨datum.toValue, []⟩ := by
  rw [evaluateIn, known, done]
  rfl

/-- A result that is known stays the same when unknown parts of the scope are filled in,
as long as none of them lies strictly inside of what a reference leads to, or is reached under
another name than the one that is checked. -/
theorem evaluateIn_of_fills {expression : Expression} {left right value : Value}
    (ordered : Table.Ordered left.fields) (fills : left.Fills right)
    (keeps : ∀ reference ∈ expression.references, left.KeepsParts right reference)
    (known : value ≠ .unknown) (done : expression.evaluateIn left = ⟨value, []⟩) :
    expression.evaluateIn right = ⟨value, []⟩ := by
  rw [evaluateIn] at done ⊢
  cases leftKnown : expression.readsUnknown left with
  | true =>
      rw [leftKnown, if_pos rfl] at done
      exact absurd (congrArg Outcome.value done).symm known
  | false =>
      have reached := readsUnknown_eq_false_iff.mp leftKnown
      have rightKnown : expression.readsUnknown right = false :=
        readsUnknown_eq_false_iff.mpr fun reference member =>
          fills.reachesUnknown_eq_false (reached reference member)
      have refines := evaluate_refines (fun name member => absurd member List.not_mem_nil) expression
        fun reference member =>
          Value.gives_of_keepsParts ordered fills (rooted_of_mem expression member)
            (reached reference member) (keeps reference member)
      rw [leftKnown] at done
      rw [rightKnown]
      cases result : expression.evaluate (scopeOf left) with
      | error => simp [result] at done
      | ok datum =>
          rw [refines datum result]
          simpa [result] using done

/-- Variables of which one is not known. -/
def halfKnown (size : Value) : Value :=
  .object [("var", .object [("name", .string "web"), ("size", size)])]

private theorem fills_halfKnown (size : Value) : (halfKnown .unknown).Fills (halfKnown size) :=
  .object (.cons (.object (.cons (.same _) (.cons (.unknown size) .nil))) .nil)

/-- The name alone. -/
def readName : Expression := traversal (read "var") [.member "name"]

theorem evaluateIn_of_fills_sibling :
    evaluateIn readName (halfKnown (.ofNat 2)) = ⟨.string "web", []⟩ := by
  have known : readName.readsUnknown (halfKnown .unknown) = false := by decide +kernel
  have read : readName.evaluate (scopeOf (halfKnown .unknown)) = .ok (.string "web") := rfl
  have ordered : Table.Ordered (halfKnown .unknown).fields := List.pairwise_singleton _ _
  apply evaluateIn_of_fills ordered (fills_halfKnown (.ofNat 2))
  · intro reference member key field part declares found
    rw [List.mem_singleton.mp member] at found ⊢
    by_cases same : key = "var"
    · subst same
      exact .inr found
    · rw [halfKnown, Value.follow?, Value.fields_object, Table.find?_cons_of_ne same] at found
      cases found
  · intro same
    cases same
  · exact evaluateIn_of_evaluate known read

/-- Whether a list with an unknown item has another one. -/
def searchList : Expression :=
  call "contains" [traversal (read "var") [.member "names"], .string "b"] false

/-- The scope of the search, with the second item of the list. -/
def listScope (item : Value) : Value :=
  .object [("var", .object [("names", .list [.string "a", item])])]

/-- A variable that is declared under another name than its own. -/
def readRenamed : Expression := read "foo_bar"

def renamedScope (part : Value) : Value := .object [("foo~bar", part)]

/-- Whether a known result changes when unknown parts of its scope are filled in. -/
def Guesses (expression : Expression) (left right : Value) : Prop :=
  Table.Ordered left.fields ∧ left.Fills right ∧ ∃ value, value ≠ .unknown ∧
    expression.evaluateIn left = ⟨value, []⟩ ∧ expression.evaluateIn right ≠ ⟨value, []⟩

theorem guesses_of_evaluate {expression : Expression} {left right : Value} {first second : Datum}
    (ordered : Table.Ordered left.fields) (fills : left.Fills right)
    (leftKnown : expression.readsUnknown left = false)
    (rightKnown : expression.readsUnknown right = false)
    (inLeft : expression.evaluate (scopeOf left) = .ok first)
    (inRight : expression.evaluate (scopeOf right) = .ok second)
    (known : first.toValue ≠ .unknown) (changes : first.toValue ≠ second.toValue) :
    expression.Guesses left right := by
  refine ⟨ordered, fills, first.toValue, known, evaluateIn_of_evaluate leftKnown inLeft, ?_⟩
  rw [evaluateIn_of_evaluate rightKnown inRight]
  exact fun same => changes (congrArg Outcome.value same).symm

/-- An unknown part is taken for null inside of what a reference leads to, and where it is
declared as the variable of a reference to another name. A known result can depend on both. -/
theorem known_results_guessed :
    searchList.Guesses (listScope .unknown) (listScope (.string "b")) ∧
    readRenamed.Guesses (renamedScope .unknown) (renamedScope (.string "b")) := by
  constructor
  · have leftFound : searchList.evaluate (scopeOf (listScope .unknown)) = .ok (.bool false) := rfl
    have rightFound : searchList.evaluate (scopeOf (listScope (.string "b"))) =
        .ok (.bool true) := rfl
    refine guesses_of_evaluate (List.pairwise_singleton _ _) ?_ (by decide +kernel)
      (by decide +kernel) leftFound rightFound nofun nofun
    exact .object (.cons (.object (.cons (.list (.cons (.same _)
      (.cons (.unknown _) .nil))) .nil)) .nil)
  · have leftFound : readRenamed.evaluate (scopeOf (renamedScope .unknown)) = .ok .null := rfl
    have rightFound : readRenamed.evaluate (scopeOf (renamedScope (.string "b"))) =
        .ok (.string "b") := rfl
    exact guesses_of_evaluate (List.pairwise_singleton _ _)
      (.object (.cons (.unknown _) .nil)) (by decide +kernel) (by decide +kernel) leftFound
      rightFound nofun nofun

end Expression

end Groundplan
