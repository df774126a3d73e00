import Groundplan.Proofs.Names
/-!
Accessors and their texts. A text is read exactly if it is a row of items, each an index in
brackets or a key that may follow a dot. An accessor reads back from its text exactly if its
keys hold no separators and its indexes are words.
-/

namespace Groundplan.Accessor

/-- Texts that are rows of items, and the segments that the items stand for. A key is taken
as long as possible, so it ends before a separator or at the end of the text. -/
inductive Spells : List Char → Accessor → Prop where
  | nil : Spells [] []
  | index {digits rest : List Char} {others : Accessor} (written : digits ≠ [])
      (decimal : ∀ c ∈ digits, c.isDigit = true) (fits : Nat.ofDigitChars 10 digits 0 < wordCount)
      (below : Spells rest others) :
      Spells ('[' :: (digits ++ ']' :: rest)) (.index (Nat.ofDigitChars 10 digits 0) :: others)
  | key {dot rest : List Char} {key : String} {others : Accessor}
      (optional : dot = [] ∨ dot = ['.']) (isKey : IsKey key) (longest : EndsKey rest)
      (below : Spells rest others) : Spells (dot ++ (key.toList ++ rest)) (.key key :: others)

/-! ## Reading items -/

theorem spanIndex?_eq_some_iff {text digits rest : List Char} :
    spanIndex? text = some (digits, rest) ↔
      digits ≠ [] ∧ (∀ c ∈ digits, c.isDigit = true) ∧ text = digits ++ ']' :: rest := by
  constructor
  · intro found
    rw [spanIndex?] at found
    split at found
    · next first others after taken left =>
        cases found
        have whole := List.takeWhile_append_dropWhile (p := Char.isDigit) (l := text)
        rw [left] at whole
        refine ⟨by rw [taken]; exact List.cons_ne_nil _ _, ?_, whole.symm⟩
        exact fun c member => List.all_eq_true.mp List.all_takeWhile c member
    · cases found
  · intro ⟨written, decimal, same⟩
    have closed : (']' :: rest).takeWhile Char.isDigit = [] ∧
        (']' :: rest).dropWhile Char.isDigit = ']' :: rest := ⟨rfl, rfl⟩
    rw [same, spanIndex?, List.takeWhile_append_of_pos decimal,
      List.dropWhile_append_of_pos decimal, closed.1, closed.2, List.append_nil]
    cases digits with
    | nil => exact absurd rfl written
    | cons first others => rfl

theorem segments_index {whole : String} {digits rest : List Char} (written : digits ≠ [])
    (decimal : ∀ c ∈ digits, c.isDigit = true)
    (fits : Nat.ofDigitChars 10 digits 0 < wordCount) :
    segments whole ('[' :: (digits ++ ']' :: rest)) =
      (segments whole rest).map fun others =>
        .index (Nat.ofDigitChars 10 digits 0) :: others := by
  have spanned : spanIndex? (digits ++ ']' :: rest) = some (digits, rest) :=
    spanIndex?_eq_some_iff.mpr ⟨written, decimal, rfl⟩
  rw [segments]
  split
  · next found => rw [spanned] at found; cases found
  · next found =>
      rw [spanned, Option.some.injEq, Prod.mk.injEq] at found
      rcases found with ⟨rfl, rfl⟩
      dsimp only
      split
      · cases segments whole rest <;> rfl
      · next tooLarge => exact absurd fits tooLarge

/-- The key at the start of a text, and the text before and after it. -/
theorem exists_key_of_spanKey {text keyRest after : List Char} {keyFirst : Char}
    (found : spanKey (dropDot text) = (keyFirst :: keyRest, after)) :
    ∃ dot, (dot = [] ∨ dot = ['.']) ∧ EndsKey after ∧
      text = dot ++ ((String.ofList (keyFirst :: keyRest)).toList ++ after) := by
  have whole := List.takeWhile_append_dropWhile
    (p := fun c : Char => c != '.' && c != '[') (l := dropDot text)
  rw [spanKey, Prod.mk.injEq] at found
  have ends : EndsKey after := by
    intro c first
    have stops := List.head?_dropWhile_not (fun c : Char => c != '.' && c != '[') (dropDot text)
    rw [found.2, Option.mem_def.mp first] at stops
    by_cases dotted : c = '.'
    · exact .inl dotted
    · right
      simpa [dotted] using stops
  rw [found.1, found.2] at whole
  rw [String.toList_ofList, whole, dropDot.eq_def]
  split
  · exact ⟨['.'], .inr rfl, ends, rfl⟩
  · exact ⟨[], .inl rfl, ends, rfl⟩

theorem spells_of_segments {whole : String} {text : List Char} {accessor : Accessor}
    (done : segments whole text = .ok accessor) : Spells text accessor := by
  fun_induction segments whole text generalizing accessor with
  | case1 =>
      cases done
      exact .nil
  | case2 => cases done
  | case3 rest digits after found _ position inRange =>
      rename_i induction
      rcases exists_of_cons_segment done with ⟨others, read, rfl⟩
      rcases spanIndex?_eq_some_iff.mp found with ⟨written, decimal, rfl⟩
      exact .index written decimal inRange (induction read)
  | case4 => cases done
  | case5 => cases done
  | case6 first rest notBracket keyFirst keyRest after found _ induction =>
      rcases exists_of_cons_segment done with ⟨others, read, rfl⟩
      rcases exists_key_of_spanKey found with ⟨dot, optional, longest, same⟩
      rw [same]
      exact .key optional (isKey_of_spanKey found) longest (induction read)

theorem segments_of_spells {whole : String} {text : List Char} {accessor : Accessor}
    (spells : Spells text accessor) : segments whole text = .ok accessor := by
  induction spells with
  | nil => rw [segments]
  | index written decimal fits _ induction =>
      rw [segments_index written decimal fits, induction]
      rfl
  | key optional isKey longest _ induction =>
      rcases optional with rfl | rfl
      · rw [List.nil_append, segments_key isKey longest, induction]
        rfl
      · rw [← List.append_assoc, List.singleton_append, segments_dot_key isKey longest, induction]
        rfl

theorem read_eq_ok_iff {text : String} {accessor : Accessor} :
    read text = .ok accessor ↔ Spells text.toList accessor :=
  ⟨spells_of_segments, segments_of_spells⟩

/-! ## Writing items -/

theorem toList_text_index (first : Bool) (position : Nat) :
    (segmentText first (.index position)).toList =
      '[' :: (Nat.toDigits 10 position ++ [']']) := by
  simp [segmentText, String.toList_append]

theorem spells_index {position : Nat} {rest : List Char} {others : Accessor}
    (fits : position < wordCount) (below : Spells rest others) :
    Spells ('[' :: (Nat.toDigits 10 position ++ [']']) ++ rest) (.index position :: others) := by
  have value : Nat.ofDigitChars 10 (Nat.toDigits 10 position) 0 = position :=
    Nat.ofDigitChars_ten_toDigits
  have decimal : ∀ c ∈ Nat.toDigits 10 position, c.isDigit = true := fun c member =>
    Nat.isDigit_of_mem_toDigits (by decide) (by decide) member
  have word : Nat.ofDigitChars 10 (Nat.toDigits 10 position) 0 < wordCount := by
    rw [value]
    exact fits
  have item := Spells.index Nat.toDigits_ne_nil decimal word below
  rw [value] at item
  simpa using item

/-- The segments after the first one, each with what separates it. -/
theorem spells_rest {rest : Accessor} (isRead : ∀ segment ∈ rest, IsRead segment) :
    Spells (rest.flatMap fun segment => (segmentText false segment).toList) rest ∧
      EndsKey (rest.flatMap fun segment => (segmentText false segment).toList) := by
  induction rest with
  | nil => exact ⟨.nil, by simp [EndsKey]⟩
  | cons segment others induction =>
      have below := induction fun other member => isRead other (List.mem_cons_of_mem _ member)
      have own := isRead segment List.mem_cons_self
      rw [List.flatMap_cons]
      cases segment with
      | index position =>
          rw [toList_text_index]
          exact ⟨spells_index own below.1, by simp [EndsKey]⟩
      | key name =>
          have written : (segmentText false (.key name)).toList = '.' :: name.toList := by
            simp [segmentText]
          rw [written]
          exact ⟨.key (.inr rfl) own below.2 below.1, by simp [EndsKey]⟩

theorem spells_text {accessor : Accessor} (isRead : ∀ segment ∈ accessor, IsRead segment) :
    Spells accessor.text.toList accessor := by
  cases accessor with
  | nil => exact .nil
  | cons first rest =>
      have below := spells_rest fun other member => isRead other (List.mem_cons_of_mem _ member)
      have own := isRead first List.mem_cons_self
      rw [text, String.toList_append, String.toList_join, List.flatMap_map]
      cases first with
      | index position =>
          rw [toList_text_index]
          exact spells_index own below.1
      | key name => exact .key (.inl rfl) own below.2 below.1

/-- Exactly the accessors that reading can give read back from their text. -/
theorem read_text_eq_ok_iff {accessor : Accessor} :
    read accessor.text = .ok accessor ↔ ∀ segment ∈ accessor, IsRead segment :=
  ⟨isRead_of_segments, fun isRead => read_eq_ok_iff.mpr (spells_text isRead)⟩

theorem forall_isRead_iff {accessor : Accessor} :
    (∀ segment ∈ accessor, IsRead segment) ↔
      (∀ key, .key key ∈ accessor → IsKey key) ∧
        ∀ position, .index position ∈ accessor → position < wordCount := by
  constructor
  · intro isRead
    exact ⟨fun key member => isRead (.key key) member,
      fun position member => isRead (.index position) member⟩
  · intro ⟨keys, indexes⟩ segment member
    cases segment with
    | key name => exact keys name member
    | index position => exact indexes position member

/-- Reading accepts exactly the rows of items and gives their segments; what is read reads back
from its text; and an accessor with indexes of 64 bits reads back from its text exactly if no
key of it is empty or holds a separator. -/
theorem read_inverts_text :
    (∀ text accessor, read text = .ok accessor ↔ Spells text.toList accessor) ∧
    (∀ text accessor, read text = .ok accessor → read accessor.text = .ok accessor) ∧
    ∀ accessor : Accessor, read accessor.text = .ok accessor ↔
      (∀ key, .key key ∈ accessor → key ≠ "" ∧ '.' ∉ key.toList ∧ '[' ∉ key.toList) ∧
        ∀ position, .index position ∈ accessor → position < wordCount := by
  refine ⟨fun text accessor => read_eq_ok_iff, ?_, ?_⟩
  · intro text accessor done
    exact read_text_eq_ok_iff.mpr (isRead_of_segments done)
  · intro accessor
    rw [read_text_eq_ok_iff, forall_isRead_iff]
    simp only [isKey_iff]

/-- A key may follow an index without a dot; the text of what is read has one. -/
theorem read_inverts_text_rule :
    read "rule[0]port" = .ok [.key "rule", .index 0, .key "port"] ∧
      read "rule[0].port" = .ok [.key "rule", .index 0, .key "port"] := by
  have rule : IsKey "rule" := isKey_iff.mpr (by decide)
  have port : IsKey "port" := isKey_iff.mpr (by decide)
  have letters : "rule[0]port".toList =
      [] ++ ("rule".toList ++ '[' :: (['0'] ++ ']' :: ([] ++ ("port".toList ++ [])))) := by decide
  have spelled : Spells "rule[0]port".toList [.key "rule", .index 0, .key "port"] := by
    rw [letters]
    apply Spells.key (.inl rfl) rule (by simp [EndsKey])
    apply spells_index (Nat.zero_lt_succ _)
    exact .key (.inl rfl) port (by simp [EndsKey]) .nil
  have done := (read_inverts_text.1 "rule[0]port" _).mpr spelled
  exact ⟨done, read_inverts_text.2.1 _ _ done⟩

end Groundplan.Accessor
