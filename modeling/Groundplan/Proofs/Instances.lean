import Groundplan.Proofs.Names
import Groundplan.Proofs.Phantoms
import Groundplan.Proofs.Replication
/-!
Instances of resources. A block stands for an object, or for a list of objects when it is
replicated; a patch fills nothing into an instance but references to it, and the names of
instances are all different.
-/

namespace Groundplan

/-! ## Values of blocks -/

namespace Term

variable {evaluator : Evaluator} {scope : Value} {term : Term}

theorem IsBlock.isTable_evaluateBody (isBlock : term.IsBlock) (evaluator : Evaluator)
    (scope : Value) : (evaluateBody evaluator scope term.body).value.IsTable := by
  rcases isBlock.body with ⟨settings, blocks, body⟩
  rw [body, evaluateBody]
  exact ⟨rfl, Table.ordered_ofList _⟩

theorem IsBlock.isTable_of_mem (isBlock : term.IsBlock) {value : Value}
    (isInstance : value ∈ instanceValues evaluator scope term) : value.IsTable := by
  rcases List.mem_map.mp isInstance with ⟨inner, _, rfl⟩
  exact isBlock.isTable_evaluateBody evaluator inner

theorem IsBlock.isReplicated_eq (isBlock : term.IsBlock) :
    term.isReplicated = (term.count.isSome || term.forEach.isSome) := by
  rw [isReplicated, isBlock.everyInstance]
  rfl

theorem IsBlock.isObject_evaluate (isBlock : term.IsBlock)
    (single : (term.count.isSome || term.forEach.isSome) = false) :
    (term.evaluate evaluator scope).value.isObject = true := by
  rw [← isBlock.isReplicated_eq] at single
  rcases value_evaluate evaluator scope isBlock.everyInstance with
    ⟨replicated, _⟩ | ⟨_, value⟩
  · rw [single] at replicated
    cases replicated
  · exact (isBlock.isTable_of_mem (value ▸ List.mem_singleton_self _)).1

theorem IsBlock.exists_items_evaluate (isBlock : term.IsBlock)
    (replicated : (term.count.isSome || term.forEach.isSome) = true) :
    ∃ items, (term.evaluate evaluator scope).value = .list items ∧
      ∀ item ∈ items, item.isObject = true := by
  rw [← isBlock.isReplicated_eq] at replicated
  rcases value_evaluate evaluator scope isBlock.everyInstance with
    ⟨_, value⟩ | ⟨single, _⟩
  · exact ⟨_, value, fun item isInstance => (isBlock.isTable_of_mem isInstance).1⟩
  · rw [replicated] at single
    cases single

/-- A block that stands for an object stands for one with ordered fields. -/
theorem IsBlock.isTable_evaluate (isBlock : term.IsBlock)
    (isObject : (term.evaluate evaluator scope).value.isObject = true) :
    (term.evaluate evaluator scope).value.IsTable := by
  rcases value_evaluate evaluator scope isBlock.everyInstance with
    ⟨_, value⟩ | ⟨_, value⟩
  · rw [value] at isObject
    cases isObject
  · exact isBlock.isTable_of_mem (value ▸ List.mem_singleton_self _)

end Term

/-! ## What a patch fills -/

namespace Value

/-- What stands in a value at the end of a path of keys and is no object itself. -/
inductive Leaf : Value → List String → Value → Prop where
  | plain {leaf : Value} (noObject : leaf.isObject = false) : Leaf leaf [] leaf
  | field {fields : List (String × Value)} {key : String} {part : Value} {rest : List String}
      {leaf : Value} (member : (key, part) ∈ fields) (below : Leaf part rest leaf) :
      Leaf (object fields) (key :: rest) leaf

theorem leaf_nest {path found : List String} {value leaf : Value}
    (noObject : value.isObject = false) (stands : (nest path value).Leaf found leaf) :
    found = path ∧ leaf = value := by
  induction path generalizing found with
  | nil =>
      cases stands with
      | plain => exact ⟨rfl, rfl⟩
      | field => cases noObject
  | cons key rest induction =>
      cases stands with
      | plain noObject => cases noObject
      | field member below =>
          cases List.mem_singleton.mp member
          rcases induction below with ⟨same, isValue⟩
          exact ⟨congrArg _ same, isValue⟩

private theorem leaf_mergeFields {rest : List String} {leaf : Value}
    (below : ∀ left right, Leaf (merge left right) rest leaf →
      Leaf left rest leaf ∨ Leaf right rest leaf)
    {left right : List (String × Value)} {key : String} {part : Value}
    (member : (key, part) ∈ mergeFields left right) (stands : part.Leaf rest leaf) :
    ∃ part, ((key, part) ∈ left ∨ (key, part) ∈ right) ∧ part.Leaf rest leaf := by
  induction right generalizing left with
  | nil => exact ⟨part, .inl (by simpa [mergeFields] using member), stands⟩
  | cons first others induction =>
      rcases first with ⟨other, value⟩
      rw [mergeFields_cons] at member
      rcases induction member with ⟨found, here | here, stands⟩
      · rcases Table.mem_of_mem_insert here with same | earlier
        · cases same
          cases atKey : Table.find? key left with
          | none =>
              rw [atKey] at stands
              exact ⟨value, .inr List.mem_cons_self, stands⟩
          | some earlier =>
              rw [atKey] at stands
              rcases below earlier value stands with inLeft | inRight
              · exact ⟨earlier, .inl (Table.mem_of_find? atKey), inLeft⟩
              · exact ⟨value, .inr List.mem_cons_self, inRight⟩
        · exact ⟨found, .inl earlier, stands⟩
      · exact ⟨found, .inr (List.mem_cons_of_mem _ here), stands⟩

/-- A merge has no leaves but those of its two sides. -/
theorem leaf_merge {path : List String} {left right leaf : Value}
    (stands : (merge left right).Leaf path leaf) : left.Leaf path leaf ∨ right.Leaf path leaf := by
  induction path generalizing left right with
  | nil =>
      rcases merge_cases left right with same | ⟨lefts, rights, rfl, rfl, same⟩
      · exact .inr (same ▸ stands)
      · rw [same] at stands
        cases stands with
        | plain noObject => cases noObject
  | cons key rest induction =>
      rcases merge_cases left right with same | ⟨lefts, rights, rfl, rfl, same⟩
      · exact .inr (same ▸ stands)
      · rw [same] at stands
        cases stands with
        | field member below =>
            rcases leaf_mergeFields (fun _ _ => induction) member below with
              ⟨part, inLeft | inRight, below⟩
            · exact .inl (.field inLeft below)
            · exact .inr (.field inRight below)

end Value

namespace PhantomAttributes

theorem leaf_patchInstance {paths : List LocalName} {backReference : String} {value : Value}
    {path : List String} {leaf : Value}
    (stands : (patchInstance paths backReference value).Leaf path leaf) :
    value.Leaf path leaf ∨ path ∈ paths ∧ leaf = .string backReference := by
  rw [patchInstance] at stands
  split at stands
  · next isObject =>
      clear isObject
      induction paths generalizing value with
      | nil => exact .inl stands
      | cons first rest induction =>
          rcases induction stands with below | ⟨member, same⟩
          · rcases Value.leaf_merge below with filled | own
            · rcases Value.leaf_nest rfl filled with ⟨here, same⟩
              exact .inr ⟨by simp [here], same⟩
            · exact .inl own
          · exact .inr ⟨List.mem_cons_of_mem _ member, same⟩
  · exact .inl stands

/-! ## Names of instances -/

theorem toList_instanceName (resource : FullName) (position : Nat) :
    (instanceName resource position).toList =
      resource.text.toList ++ '[' :: (Nat.toDigits 10 position ++ [']']) := by
  simp [instanceName, String.toList_append]

theorem instanceName_ne_text {left right : FullName} (wellFormed : right.WellFormed)
    (position : Nat) : instanceName left position ≠ right.text := by
  intro same
  apply FullName.bracket_not_mem_text wellFormed
  rw [← same, toList_instanceName]
  simp

private theorem append_cons_inj {separator : Char} {left right lefts rights : List Char}
    (inLeft : separator ∉ left) (inRight : separator ∉ right)
    (same : left ++ separator :: lefts = right ++ separator :: rights) :
    left = right ∧ lefts = rights := by
  induction left generalizing right with
  | nil =>
      cases right with
      | nil => exact ⟨rfl, (List.cons.inj same).2⟩
      | cons first rest =>
          cases (List.cons.inj same).1
          exact absurd List.mem_cons_self inRight
  | cons first rest induction =>
      cases right with
      | nil =>
          cases (List.cons.inj same).1
          exact absurd List.mem_cons_self inLeft
      | cons other others =>
          rcases List.cons.inj same with ⟨rfl, below⟩
          rcases induction (fun member => inLeft (List.mem_cons_of_mem _ member))
            (fun member => inRight (List.mem_cons_of_mem _ member)) below with ⟨rfl, tails⟩
          exact ⟨rfl, tails⟩

theorem instanceName_inj {left right : FullName} (inLeft : left.WellFormed)
    (inRight : right.WellFormed) {first second : Nat}
    (same : instanceName left first = instanceName right second) :
    left = right ∧ first = second := by
  have letters := congrArg String.toList same
  rw [toList_instanceName, toList_instanceName] at letters
  rcases append_cons_inj (FullName.bracket_not_mem_text inLeft)
    (FullName.bracket_not_mem_text inRight) letters with ⟨texts, tails⟩
  have digits : Nat.toDigits 10 first = Nat.toDigits 10 second := List.append_cancel_right tails
  refine ⟨FullName.eq_of_text inLeft inRight (String.toList_inj.mp texts), ?_⟩
  calc
    first = Nat.ofDigitChars 10 (Nat.toDigits 10 first) 0 := Nat.ofDigitChars_ten_toDigits.symm
    _ = Nat.ofDigitChars 10 (Nat.toDigits 10 second) 0 := by rw [digits]
    _ = second := Nat.ofDigitChars_ten_toDigits

end PhantomAttributes

end Groundplan
