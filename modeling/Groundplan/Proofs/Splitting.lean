import Groundplan.Function.Text
/-!
Splitting and joining. A text is split at the first occurrence of the separator, and then what
follows it. So the pieces hold no separator, there is one more of them than there are occurrences,
and joined they are the text again.
-/

namespace Groundplan.Text

/-! ## Occurrences -/

/-- Whether a separator that follows a text does not occur before its end. -/
def FirstAfter (separator before after : List Char) : Prop :=
  ∀ start < before.length, ¬separator <+: (before ++ separator ++ after).drop start

/-- How often a separator is found in a text from the left, without overlaps: its first occurrence
counts, and then those in what follows. -/
inductive Occurs (separator : List Char) : List Char → Nat → Prop where
  | absent {text : List Char} (free : ¬separator <:+: text) : Occurs separator text 0
  | next {before after : List Char} {count : Nat} (first : FirstAfter separator before after)
      (further : Occurs separator after count) :
      Occurs separator (before ++ separator ++ after) (count + 1)

variable {separator : List Char}

theorem FirstAfter.tail {c : Char} {before after : List Char}
    (first : FirstAfter separator (c :: before) after) : FirstAfter separator before after :=
  fun start inside => first (start + 1) (Nat.succ_lt_succ inside)

/-- What comes before the first occurrence of a separator holds none. -/
theorem FirstAfter.free {before after : List Char} (proper : separator ≠ [])
    (first : FirstAfter separator before after) : ¬separator <:+: before := by
  rintro ⟨front, back, rfl⟩
  have positive := List.length_pos_iff.mpr proper
  refine first front.length (by simp only [List.length_append]; omega) ?_
  simp only [List.append_assoc, List.drop_left]
  exact List.prefix_append _ _

/-- A separator does not occur in a text, or it has a first occurrence. -/
theorem exists_first (proper : separator ≠ []) (text : List Char) : ¬separator <:+: text ∨
    ∃ before after, text = before ++ separator ++ after ∧ FirstAfter separator before after := by
  induction text with
  | nil => exact .inl fun occurs => proper (List.infix_nil.mp occurs)
  | cons c rest induction =>
      by_cases here : separator <+: c :: rest
      · rcases here with ⟨after, split⟩
        exact .inr ⟨[], after, split.symm, nofun⟩
      · rcases induction with free | ⟨before, after, rfl, first⟩
        · refine .inl fun occurs => ?_
          exact (List.infix_cons_iff.mp occurs).elim here free
        · refine .inr ⟨c :: before, after, rfl, fun start inside => ?_⟩
          cases start with
          | zero => exact here
          | succ start => exact first start (Nat.lt_of_succ_lt_succ inside)

theorem exists_occurs (proper : separator ≠ []) (text : List Char) :
    ∃ count, Occurs separator text count := by
  induction size : text.length using Nat.strongRecOn generalizing text with
  | ind size induction =>
      rcases exists_first proper text with free | ⟨before, after, rfl, first⟩
      · exact ⟨0, .absent free⟩
      · -- what follows is shorter, since the separator is not empty
        have positive := List.length_pos_iff.mpr proper
        simp only [List.length_append] at size
        rcases induction after.length (by omega) after rfl with ⟨count, further⟩
        exact ⟨count + 1, .next first further⟩

/-! ## Splitting -/

theorem splitIn_skip (pending skipped after : List Char) :
    splitIn separator skipped.length pending (skipped ++ after) =
      splitIn separator 0 pending after := by
  induction skipped with
  | nil => rfl
  | cons c rest induction => exact induction

theorem splitIn_of_free {text : List Char} (free : ¬separator <:+: text) (pending : List Char) :
    splitIn separator 0 pending text = [pending.reverse ++ text] := by
  induction text generalizing pending with
  | nil => rw [splitIn, List.append_nil]
  | cons c rest induction =>
      have here : ¬separator.isPrefixOf (c :: rest) = true := fun starts =>
        free (List.isPrefixOf_iff_prefix.mp starts).isInfix
      have later : ¬separator <:+: rest := fun occurs => free (List.infix_cons occurs)
      rw [splitIn, if_neg here, induction later, List.reverse_cons, List.append_assoc,
        List.singleton_append]

theorem splitIn_of_first (proper : separator ≠ []) {before after : List Char}
    (first : FirstAfter separator before after) (pending : List Char) :
    splitIn separator 0 pending (before ++ separator ++ after) =
      (pending.reverse ++ before) :: splitIn separator 0 [] after := by
  induction before generalizing pending with
  | nil =>
      cases separator with
      | nil => exact absurd rfl proper
      | cons c rest =>
          have here : (c :: rest).isPrefixOf (c :: (rest ++ after)) = true :=
            List.isPrefixOf_iff_prefix.mpr (List.prefix_append (c :: rest) after)
          rw [List.nil_append, List.cons_append, splitIn, if_pos here, List.append_nil]
          exact congrArg _ (splitIn_skip [] rest after)
  | cons c rest induction =>
      have here : ¬separator.isPrefixOf (c :: (rest ++ separator ++ after)) = true :=
        fun starts => first 0 (Nat.zero_lt_succ _) (List.isPrefixOf_iff_prefix.mp starts)
      rw [List.cons_append, List.cons_append, splitIn, if_neg here, induction first.tail,
        List.reverse_cons, List.append_assoc, List.singleton_append]

section Separator

variable (proper : separator ≠ [])

include proper

theorem splitChars_of_free {text : List Char} (free : ¬separator <:+: text) :
    splitChars separator text = [text] := by
  rw [splitChars, if_neg (by simpa using proper), splitIn_of_free free, List.reverse_nil,
    List.nil_append]

theorem splitChars_of_first {before after : List Char}
    (first : FirstAfter separator before after) :
    splitChars separator (before ++ separator ++ after) = before :: splitChars separator after := by
  have nonempty : ¬separator.isEmpty = true := by simpa using proper
  rw [splitChars, splitChars, if_neg nonempty, if_neg nonempty, splitIn_of_first proper first,
    List.reverse_nil, List.nil_append]

theorem length_splitChars {text : List Char} {count : Nat} (occurs : Occurs separator text count) :
    (splitChars separator text).length = count + 1 := by
  induction occurs with
  | absent free => rw [splitChars_of_free proper free, List.length_singleton]
  | next first _ induction => rw [splitChars_of_first proper first, List.length_cons, induction]

theorem free_of_mem_splitChars {text piece : List Char} (member : piece ∈ splitChars separator text) :
    ¬separator <:+: piece := by
  rcases exists_occurs proper text with ⟨count, occurs⟩
  induction occurs with
  | absent free =>
      rw [splitChars_of_free proper free] at member
      exact List.mem_singleton.mp member ▸ free
  | next first _ induction =>
      rw [splitChars_of_first proper first] at member
      rcases List.mem_cons.mp member with rfl | later
      · exact first.free proper
      · exact induction later

theorem free_of_apart {piece : List Char} (apart : ∀ c ∈ piece, c ∉ separator) :
    ¬separator <:+: piece := by
  intro occurs
  rcases List.exists_mem_of_ne_nil separator proper with ⟨c, member⟩
  exact apart c (occurs.subset member) member

/-- None of the characters of a piece starts an occurrence. -/
theorem firstAfter_of_apart {piece : List Char} (apart : ∀ c ∈ piece, c ∉ separator)
    (after : List Char) : FirstAfter separator piece after := by
  intro start inside occurs
  rcases List.exists_cons_of_ne_nil proper with ⟨c, rest, rfl⟩
  rw [List.append_assoc, List.drop_append_of_le_length (Nat.le_of_lt inside),
    List.drop_eq_getElem_cons inside, List.cons_append, List.cons_prefix_cons] at occurs
  exact apart _ (List.getElem_mem inside) (occurs.1 ▸ List.mem_cons_self)

/-- Texts without the characters of a separator are the pieces of what they are joined to. -/
theorem splitChars_intercalate {pieces : List (List Char)} (nonempty : pieces ≠ [])
    (apart : ∀ piece ∈ pieces, ∀ c ∈ piece, c ∉ separator) :
    splitChars separator (separator.intercalate pieces) = pieces := by
  induction pieces with
  | nil => exact absurd rfl nonempty
  | cons piece rest induction =>
      have parts := List.forall_mem_cons.mp apart
      cases rest with
      | nil =>
          rw [List.intercalate_singleton]
          exact splitChars_of_free proper (free_of_apart proper parts.1)
      | cons next others =>
          rw [List.intercalate_cons_cons, splitChars_of_first proper (firstAfter_of_apart proper
            parts.1 _), induction (List.cons_ne_nil _ _) parts.2]

end Separator

theorem intercalate_nil_eq_flatten (pieces : List (List Char)) :
    ([] : List Char).intercalate pieces = pieces.flatten := by
  induction pieces with
  | nil => rfl
  | cons piece rest induction =>
      cases rest with
      | nil => rw [List.intercalate_singleton, List.flatten_singleton]
      | cons next others =>
          rw [List.intercalate_cons_cons, induction, List.append_nil, ← List.flatten_cons]

/-- The pieces of a text, joined, are the text. -/
theorem intercalate_splitChars (separator text : List Char) :
    separator.intercalate (splitChars separator text) = text := by
  by_cases proper : separator = []
  · rw [proper, intercalate_nil_eq_flatten, splitChars]
    simp [← List.flatMap_def]
  · rcases exists_occurs proper text with ⟨count, occurs⟩
    induction occurs with
    | absent free => rw [splitChars_of_free proper free, List.intercalate_singleton]
    | next first further induction =>
        have several := length_splitChars proper further
        rw [splitChars_of_first proper first, List.intercalate_cons_of_ne_nil, induction]
        exact List.ne_nil_of_length_eq_add_one several

end Groundplan.Text

namespace Groundplan.Function

open Text

/-! ## Calls -/

theorem call_split (separator text : String) :
    split.call [.string separator, .string text] =
      .ok (.list ((Text.split separator text).map .string)) := rfl

theorem mapM_plainText (texts : List String) :
    (texts.map Datum.string).mapM plainText = .ok texts := by
  induction texts with
  | nil => rfl
  | cons text rest induction => rw [List.map_cons, List.mapM_cons, induction]; rfl

theorem call_join (separator : String) (texts : List String) :
    join.call [.string separator, .list (texts.map .string)] =
      .ok (.string (separator.intercalate texts)) := by
  have run : join.call [.string separator, .list (texts.map .string)] =
      (do return Datum.string (separator.intercalate
        (← joinedTexts 1 [.list (texts.map .string)]))) := rfl
  rw [run, joinedTexts, mapM_plainText]
  change Except.ok (Datum.string (separator.intercalate (texts ++ []))) = _
  rw [List.append_nil]

theorem toList_split (separator text : String) :
    (Text.split separator text).map String.toList =
      splitChars separator.toList text.toList := by
  rw [Text.split, List.map_map]
  exact List.map_id'' (fun _ => String.toList_ofList) _

/-- Joining undoes splitting, and splitting undoes the joining of texts without characters of the
separator. Pieces hold no separator, and there is one more of them than there are occurrences. -/
theorem join_split (separator text : String) :
    (∃ pieces : List String,
      split.call [.string separator, .string text] = .ok (.list (pieces.map .string)) ∧
      join.call [.string separator, .list (pieces.map .string)] = .ok (.string text) ∧
      (separator ≠ "" →
        (∀ piece ∈ pieces, ¬separator.toList <:+: piece.toList) ∧
        ∃ count, (∀ other, Occurs separator.toList text.toList other ↔ other = count) ∧
          pieces.length = count + 1)) ∧
    ∀ pieces : List String, pieces ≠ [] → separator ≠ "" →
      (∀ piece ∈ pieces, ∀ c ∈ piece.toList, c ∉ separator.toList) →
      ∃ joined, join.call [.string separator, .list (pieces.map .string)] = .ok (.string joined) ∧
        split.call [.string separator, .string joined] = .ok (.list (pieces.map .string)) := by
  constructor
  · refine ⟨Text.split separator text, call_split separator text, ?_, fun named => ⟨?_, ?_⟩⟩
    · have whole : separator.intercalate (Text.split separator text) = text := by
        rw [← String.toList_inj, String.toList_intercalate, toList_split, intercalate_splitChars]
      rw [call_join, whole]
    · have proper : separator.toList ≠ [] := fun empty => named (String.toList_eq_nil_iff.mp empty)
      intro piece member
      have listed : piece.toList ∈ splitChars separator.toList text.toList :=
        toList_split separator text ▸ List.mem_map_of_mem member
      exact free_of_mem_splitChars proper listed
    · have proper : separator.toList ≠ [] := fun empty => named (String.toList_eq_nil_iff.mp empty)
      have long (count : Nat) (occurs : Occurs separator.toList text.toList count) :
          (Text.split separator text).length = count + 1 := by
        rw [← length_splitChars proper occurs, ← toList_split, List.length_map]
      rcases exists_occurs proper text.toList with ⟨count, occurs⟩
      refine ⟨count, fun other => ⟨fun alsoOccurs => ?_, fun same => same ▸ occurs⟩,
        long count occurs⟩
      exact Nat.succ.inj ((long other alsoOccurs).symm.trans (long count occurs))
  · intro pieces nonempty named apart
    have proper : separator.toList ≠ [] := fun empty => named (String.toList_eq_nil_iff.mp empty)
    have filled : pieces.map String.toList ≠ [] := fun empty =>
      nonempty (List.map_eq_nil_iff.mp empty)
    have back := splitChars_intercalate proper filled (List.forall_mem_map.mpr apart)
    refine ⟨_, call_join separator pieces, ?_⟩
    have same : Text.split separator (separator.intercalate pieces) = pieces := by
      rw [Text.split, String.toList_intercalate, back, List.map_map]
      exact List.map_id'' (fun _ => String.ofList_toList) _
    rw [call_split, same]

/-- A separator that overlaps itself: it is found once in three letters. -/
theorem join_split_overlapping :
    (∃ pieces : List String, "aa" ≠ "" ∧
      split.call [.string "aa", .string "aaab"] = .ok (.list (pieces.map .string)) ∧
      join.call [.string "aa", .list (pieces.map .string)] = .ok (.string "aaab") ∧
      pieces.length = 2) ∧
    ["b", "", "bc"] ≠ [] ∧
    (∀ piece ∈ ["b", "", "bc"], ∀ c ∈ piece.toList, c ∉ "aa".toList) ∧
    join.call [.string "aa", .list (["b", "", "bc"].map .string)] = .ok (.string "baaaabc") ∧
    split.call [.string "aa", .string "baaaabc"] = .ok (.list (["b", "", "bc"].map .string)) := by
  have proper : "aa" ≠ "" := by decide
  have apart : ∀ piece ∈ ["b", "", "bc"], ∀ c ∈ piece.toList, c ∉ "aa".toList := by simp
  rcases (join_split "aa" "aaab").1 with ⟨pieces, isSplit, isText, parts⟩
  rcases (parts proper).2 with ⟨count, counts, long⟩
  rcases (join_split "aa" "aaab").2 ["b", "", "bc"] (by decide) proper apart with
    ⟨joined, isJoined, back⟩
  have occurs : Occurs "aa".toList "aaab".toList 1 :=
    @Occurs.next _ [] ['a', 'b'] 0 nofun (.absent (by decide))
  have once : 1 = count := (counts 1).mp occurs
  have same : joined = "baaaabc" := by
    rw [call_join, Except.ok.injEq, Datum.string.injEq] at isJoined
    rw [← isJoined]
    rfl
  subst once same
  exact ⟨⟨pieces, proper, isSplit, isText, long⟩, by decide, apart, isJoined, back⟩

end Groundplan.Function
