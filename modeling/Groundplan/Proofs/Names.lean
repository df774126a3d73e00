import Groundplan.Name
/-!
Reading and writing of names. A name whose keys are free of separators reads
back from its text, and reading gives no other names.
-/

namespace Groundplan

/-- A key that the text of a name can hold: it is not empty and holds no character
that ends a key. -/
def IsKey (key : String) : Prop := key ≠ "" ∧ ∀ c ∈ key.toList, c ≠ '.' ∧ c ≠ '['

theorem isKey_iff {key : String} :
    IsKey key ↔ key ≠ "" ∧ '.' ∉ key.toList ∧ '[' ∉ key.toList := by
  refine and_congr_right fun _ => ⟨fun apart => ?_, fun apart c member => ?_⟩
  · exact ⟨fun dot => (apart _ dot).1 rfl, fun bracket => (apart _ bracket).2 rfl⟩
  · constructor
    · intro same
      exact apart.1 (same ▸ member)
    · intro same
      exact apart.2 (same ▸ member)

namespace Accessor

/-! ## Reading one key -/

/-- A text that cannot be the continuation of a key. -/
def EndsKey (rest : List Char) : Prop := ∀ c ∈ rest.head?, c = '.' ∨ c = '['

theorem spanKey_append {key rest : List Char} (plain : ∀ c ∈ key, c ≠ '.' ∧ c ≠ '[')
    (ends : EndsKey rest) : spanKey (key ++ rest) = (key, rest) := by
  have inside : ∀ c ∈ key, (c != '.' && c != '[') = true := by
    intro c member
    have apart := plain c member
    simp [apart.1, apart.2]
  have taken : rest.takeWhile (fun c => c != '.' && c != '[') = [] ∧
      rest.dropWhile (fun c => c != '.' && c != '[') = rest := by
    cases rest with
    | nil => exact ⟨rfl, rfl⟩
    | cons first others =>
        rcases ends first (by simp) with same | same <;> subst same <;> exact ⟨rfl, rfl⟩
  rw [spanKey, List.takeWhile_append_of_pos inside, List.dropWhile_append_of_pos inside,
    taken.1, taken.2, List.append_nil]

theorem segments_of_spanKey {whole : String} {first keyFirst : Char}
    {rest keyRest after : List Char} (notBracket : first ≠ '[')
    (found : spanKey (dropDot (first :: rest)) = (keyFirst :: keyRest, after)) :
    segments whole (first :: rest) =
      (segments whole after).map fun others =>
        .key (String.ofList (keyFirst :: keyRest)) :: others := by
  rw [segments]
  · split
    · next equal => simp [found] at equal
    · next equal =>
        rw [found] at equal
        simp only [Prod.mk.injEq, List.cons.injEq] at equal
        rcases equal with ⟨⟨same, others⟩, remaining⟩
        subst same
        subst others
        subst remaining
        cases segments whole after <;> rfl
  · exact notBracket

theorem segments_key {whole key : String} (isKey : IsKey key) {rest : List Char}
    (ends : EndsKey rest) :
    segments whole (key.toList ++ rest) =
      (segments whole rest).map fun others => .key key :: others := by
  cases letters : key.toList with
  | nil => exact absurd (String.toList_eq_nil_iff.mp letters) isKey.1
  | cons first others =>
      have plain := isKey.2
      rw [letters] at plain
      have apart := plain first List.mem_cons_self
      have undotted : dropDot (first :: others ++ rest) = first :: others ++ rest := by
        rw [List.cons_append, dropDot]
        intro tail same
        exact apart.1 (List.cons.inj same).1
      have found := spanKey_append plain ends
      rw [← undotted] at found
      have named : String.ofList (first :: others) = key := by
        rw [← letters, String.ofList_toList]
      have read : segments whole (first :: (others ++ rest)) = _ :=
        segments_of_spanKey apart.2 found
      rw [List.cons_append, read, named]

theorem segments_dot_key {whole key : String} (isKey : IsKey key) {rest : List Char}
    (ends : EndsKey rest) :
    segments whole ('.' :: key.toList ++ rest) =
      (segments whole rest).map fun others => .key key :: others := by
  cases letters : key.toList with
  | nil => exact absurd (String.toList_eq_nil_iff.mp letters) isKey.1
  | cons first others =>
      have plain := isKey.2
      rw [letters] at plain
      have found : spanKey (dropDot ('.' :: (first :: others ++ rest))) =
          (first :: others, rest) := spanKey_append plain ends
      have named : String.ofList (first :: others) = key := by
        rw [← letters, String.ofList_toList]
      rw [List.cons_append, segments_of_spanKey (by decide) found, named]

/-! ## Reading many keys -/

theorem segments_dot_keys {whole : String} {keys : List String} (plain : ∀ key ∈ keys, IsKey key) :
    segments whole (keys.flatMap fun key => '.' :: key.toList) = .ok (keys.map .key) := by
  induction keys with
  | nil => rw [List.flatMap_nil, segments, List.map_nil]
  | cons key rest induction =>
      have ends : EndsKey (rest.flatMap fun key => '.' :: key.toList) := by
        cases rest with
        | nil => simp [EndsKey]
        | cons next others => simp [EndsKey]
      rw [List.flatMap_cons, segments_dot_key (plain key List.mem_cons_self) ends,
        induction fun other member => plain other (List.mem_cons_of_mem _ member)]
      rfl

theorem toList_intercalate_dot (key : String) (rest : List String) :
    (".".intercalate (key :: rest)).toList =
      key.toList ++ rest.flatMap fun key => '.' :: key.toList := by
  induction rest generalizing key with
  | nil => simp
  | cons next others induction =>
      rw [String.intercalate_cons_cons, String.toList_append, String.toList_append, induction]
      simp

/-- Keys that are joined by dots are read one by one. -/
theorem read_intercalate {keys : List String} (plain : ∀ key ∈ keys, IsKey key) :
    read (".".intercalate keys) = .ok (keys.map .key) := by
  cases keys with
  | nil => rw [read, String.intercalate_nil, String.toList_empty, segments, List.map_nil]
  | cons key rest =>
      have ends : EndsKey (rest.flatMap fun key => '.' :: key.toList) := by
        cases rest with
        | nil => simp [EndsKey]
        | cons next others => simp [EndsKey]
      rw [read, toList_intercalate_dot, segments_key (plain key List.mem_cons_self) ends,
        segments_dot_keys fun other member => plain other (List.mem_cons_of_mem _ member)]
      rfl

/-! ## What reading gives -/

/-- A segment that reading can give. -/
def IsRead : Segment → Prop
  | .key name => IsKey name
  | .index position => position < wordCount

theorem isKey_of_spanKey {text keyRest after : List Char} {keyFirst : Char}
    (found : spanKey text = (keyFirst :: keyRest, after)) :
    IsKey (String.ofList (keyFirst :: keyRest)) := by
  constructor
  · simp
  · intro c member
    rw [String.toList_ofList] at member
    have taken : keyFirst :: keyRest = text.takeWhile fun c => c != '.' && c != '[' :=
      (congrArg Prod.fst found).symm
    rw [taken] at member
    have holds := List.all_eq_true.mp List.all_takeWhile c member
    simpa using holds

theorem exists_of_cons_segment {read : Except NameError Accessor} {segment : Segment}
    {accessor : Accessor}
    (done : (do return segment :: (← read)) = Except.ok accessor) :
    ∃ others, read = .ok others ∧ accessor = segment :: others := by
  cases read with
  | error => cases done
  | ok others => exact ⟨others, rfl, (Except.ok.inj done).symm⟩

theorem isRead_of_segments {whole : String} {text : List Char} {accessor : Accessor}
    (done : segments whole text = .ok accessor) : ∀ segment ∈ accessor, IsRead segment := by
  fun_induction segments whole text generalizing accessor with
  | case1 =>
      cases done
      simp
  | case2 => cases done
  | case3 rest digits after found _ position inRange =>
      rename_i induction
      rcases exists_of_cons_segment done with ⟨others, read, same⟩
      subst same
      intro segment member
      rcases List.mem_cons.mp member with same | member
      · subst same
        exact inRange
      · exact induction read segment member
  | case4 => cases done
  | case5 => cases done
  | case6 first rest notBracket keyFirst keyRest after found _ induction =>
      rcases exists_of_cons_segment done with ⟨others, read, same⟩
      subst same
      intro segment member
      rcases List.mem_cons.mp member with same | member
      · subst same
        exact isKey_of_spanKey found
      · exact induction read segment member

/-! ## Leading keys -/

theorem splitKeys_key (key : String) (rest : Accessor) :
    (splitKeys (.key key :: rest)).1 = key :: (splitKeys rest).1 := by
  rw [splitKeys, splitKeys, List.takeWhile_cons_of_pos rfl]
  rfl

theorem eq_of_splitKeys {accessor : Accessor} {key : String} {rest : LocalName}
    (split : (splitKeys accessor).1 = key :: rest) :
    ∃ others, accessor = .key key :: others ∧ (splitKeys others).1 = rest := by
  cases accessor with
  | nil => cases split
  | cons first others =>
      cases first with
      | index position => cases split
      | key given =>
          rw [splitKeys_key] at split
          cases split
          exact ⟨others, rfl, rfl⟩

end Accessor

namespace FullName

/-! ## Module calls at the start of a name -/

/-- The keys of a chain of module calls. -/
def callKeys (module : ModuleName) : List String := module.flatMap fun call => ["module", call]

/-- Whether the path of a name starts with a module call. -/
def startsWithCall : LocalName → Prop
  | "module" :: _ :: _ => True
  | _ => False

theorem eq_of_startsWithCall {path : LocalName} (starts : startsWithCall path) :
    ∃ call others, path = "module" :: call :: others := by
  rw [startsWithCall.eq_def] at starts
  split at starts
  · exact ⟨_, _, rfl⟩
  · exact starts.elim

theorem splitModule_callKeys (module : ModuleName) (path : LocalName) :
    splitModule ((callKeys module ++ path).map .key) =
      (module ++ (splitModule (path.map .key)).1, (splitModule (path.map .key)).2) := by
  induction module with
  | nil => rfl
  | cons call rest induction =>
      rw [callKeys, List.flatMap_cons, List.append_assoc]
      simp only [List.cons_append, List.nil_append, List.map_cons, splitModule]
      rw [callKeys] at induction
      rw [induction]

theorem splitModule_of_not_startsWithCall {path : LocalName} (plain : ¬startsWithCall path) :
    splitModule (path.map .key) = ([], path.map .key) := by
  match path with
  | [] => rfl
  | [key] => simp [splitModule]
  | first :: second :: rest =>
      have different : first ≠ "module" := by
        intro same
        subst same
        exact plain trivial
      rw [List.map_cons, List.map_cons, splitModule]
      intro call others same
      exact absurd same (by simp [different])

/-- The calls and the rest of an accessor make up all of it. -/
theorem splitModule_parts {accessor : Accessor} {chain : ModuleName} {rest : Accessor}
    (split : splitModule accessor = (chain, rest)) :
    accessor = (callKeys chain).map .key ++ rest ∧
      ∀ call others, rest ≠ .key "module" :: .key call :: others := by
  fun_induction splitModule accessor generalizing chain rest with
  | case1 call others inner remaining found induction =>
      simp only [Prod.mk.injEq] at split
      rcases split with ⟨atChain, atRest⟩
      subst atChain
      subst atRest
      rcases induction found with ⟨whole, plain⟩
      exact ⟨by simp [whole, callKeys], plain⟩
  | case2 accessor plain =>
      simp only [Prod.mk.injEq] at split
      rcases split with ⟨atChain, atRest⟩
      subst atChain
      subst atRest
      exact ⟨rfl, fun call others same => plain call others same⟩

/-! ## Names that read back -/

/-- A name whose text can be told apart from that of any other name. -/
structure WellFormed (name : FullName) : Prop where
  calls : ∀ call ∈ name.module, IsKey call
  keys : ∀ key ∈ name.path, IsKey key
  noCall : ¬startsWithCall name.path

/-- No key of a well-formed name is empty or holds a separator, and its path does
not go on with a call. -/
theorem wellFormed_iff {name : FullName} :
    name.WellFormed ↔
      (∀ key ∈ name.module ++ name.path, key ≠ "" ∧ '.' ∉ key.toList ∧ '[' ∉ key.toList) ∧
        ∀ key rest, name.path ≠ "module" :: key :: rest := by
  simp only [← isKey_iff, List.mem_append]
  constructor
  · intro wellFormed
    refine ⟨fun key member => member.elim (wellFormed.calls key) (wellFormed.keys key), ?_⟩
    intro key rest same
    apply wellFormed.noCall
    rw [same]
    trivial
  · intro ⟨keys, noCall⟩
    refine ⟨fun key member => keys key (.inl member), fun key member => keys key (.inr member), ?_⟩
    intro starts
    rcases eq_of_startsWithCall starts with ⟨call, others, same⟩
    exact noCall call others same

/-- All keys of a name: those of its module calls and those of its path. -/
def allKeys (name : FullName) : List String := callKeys name.module ++ name.path

theorem WellFormed.isKey_of_mem_allKeys {name : FullName} (wellFormed : name.WellFormed) :
    ∀ key ∈ name.allKeys, IsKey key := by
  intro key member
  rcases List.mem_append.mp member with member | member
  · rcases List.mem_flatMap.mp member with ⟨call, called, member⟩
    rcases List.mem_cons.mp member with same | member
    · subst same
      exact ⟨by decide, by simp⟩
    · rw [List.mem_singleton.mp member]
      exact wellFormed.calls call called
  · exact wellFormed.keys key member

private theorem intercalate_append {first second : String} {left right : List String} :
    ".".intercalate ((first :: left) ++ (second :: right)) =
      ".".intercalate (first :: left) ++ "." ++ ".".intercalate (second :: right) := by
  induction left generalizing first with
  | nil =>
      rw [String.intercalate_singleton]
      exact String.intercalate_cons_cons
  | cons next rest induction =>
      have split : ".".intercalate ((next :: rest) ++ (second :: right)) =
          ".".intercalate (next :: rest) ++ "." ++ ".".intercalate (second :: right) := induction
      rw [List.cons_append, List.cons_append, String.intercalate_cons_cons,
        String.intercalate_cons_cons, ← List.cons_append, split]
      simp only [String.append_assoc]

theorem text_module (module : ModuleName) :
    module.text = ".".intercalate (callKeys module) := by
  induction module with
  | nil => rfl
  | cons call rest induction =>
      cases rest with
      | nil => simp [ModuleName.text, callKeys, String.intercalate_cons_cons]
      | cons next others =>
          rw [ModuleName.text, callKeys] at induction
          rw [ModuleName.text, callKeys, List.map_cons, List.map_cons,
            String.intercalate_cons_cons, ← List.map_cons, induction]
          simp [String.intercalate_cons_cons, String.append_assoc]

private theorem isEmpty_intercalate {key : String} {rest : List String} (nonempty : key ≠ "") :
    (".".intercalate (key :: rest)).isEmpty = false := by
  have letters : (".".intercalate (key :: rest)).toList ≠ [] := by
    rw [Accessor.toList_intercalate_dot]
    intro empty
    exact nonempty (String.toList_eq_nil_iff.mp (List.append_eq_nil_iff.mp empty).1)
  simpa using fun empty => letters (String.toList_eq_nil_iff.mpr empty)

theorem text_eq_intercalate {name : FullName} (plain : ∀ key ∈ name.path, IsKey key) :
    name.text = ".".intercalate name.allKeys := by
  rcases name with ⟨module, path⟩
  rw [text, text_module, allKeys]
  cases module with
  | nil => rfl
  | cons call calls =>
      have keys : callKeys (call :: calls) = "module" :: call :: callKeys calls := rfl
      have filled : (".".intercalate (callKeys (call :: calls))).isEmpty = false := by
        rw [keys]
        exact isEmpty_intercalate (by decide)
      cases path with
      | nil => simp [filled, LocalName.text]
      | cons key rest =>
          have written : (LocalName.text (key :: rest)).isEmpty = false :=
            isEmpty_intercalate (plain key List.mem_cons_self).1
          simp only [filled, written, Bool.false_eq_true, if_false]
          rw [keys, intercalate_append]
          rfl

theorem bracket_not_mem_text {name : FullName} (wellFormed : name.WellFormed) :
    '[' ∉ name.text.toList := by
  rw [text_eq_intercalate wellFormed.keys]
  have plain := wellFormed.isKey_of_mem_allKeys
  generalize name.allKeys = keys at plain
  cases keys with
  | nil => simp
  | cons key rest =>
      rw [Accessor.toList_intercalate_dot]
      simp only [List.mem_append, List.mem_flatMap, List.mem_cons, not_or, not_exists, not_and]
      refine ⟨fun inKey => ((plain key List.mem_cons_self).2 _ inKey).2 rfl, ?_⟩
      intro other member
      exact ⟨by decide, fun inOther =>
        ((plain other (List.mem_cons_of_mem _ member)).2 _ inOther).2 rfl⟩

theorem read_text {name : FullName} (wellFormed : name.WellFormed) :
    read name.text = .ok name := by
  rcases name with ⟨module, path⟩
  have split := splitModule_callKeys module path
  rw [splitModule_of_not_startsWithCall wellFormed.noCall, List.append_nil] at split
  rw [read, text_eq_intercalate wellFormed.keys,
    Accessor.read_intercalate wellFormed.isKey_of_mem_allKeys]
  simp only [bind, Except.bind, ofAccessor, allKeys, split]
  simp [Segment.isKey, Segment.asKey?, Function.comp_def]

private theorem keys_of_all_isKey {accessor : Accessor}
    (plain : accessor.all Segment.isKey = true) :
    accessor = (accessor.filterMap Segment.asKey?).map .key := by
  induction accessor with
  | nil => rfl
  | cons segment rest induction =>
      cases segment with
      | key name =>
          simp only [List.all_cons, Segment.isKey, Bool.true_and] at plain
          rw [List.filterMap_cons, Segment.asKey?, List.map_cons, ← induction plain]
      | index position => simp [Segment.isKey] at plain

theorem wellFormed_of_read {text : String} {name : FullName} (done : read text = .ok name) :
    name.WellFormed := by
  rw [read] at done
  cases parsed : Accessor.read text with
  | error => simp [parsed, bind, Except.bind] at done
  | ok accessor =>
      have isRead := Accessor.isRead_of_segments parsed
      simp only [parsed, bind, Except.bind, ofAccessor] at done
      split at done
      · next plain =>
          have same := Except.ok.inj done
          subst same
          rcases splitModule_parts rfl with ⟨whole, noCall⟩
          have keys := keys_of_all_isKey plain
          rw [keys] at whole noCall
          rw [whole] at isRead
          refine ⟨?_, ?_, ?_⟩
          · intro call called
            have inKeys : call ∈ callKeys (splitModule accessor).1 :=
              List.mem_flatMap.mpr ⟨call, called, by simp⟩
            exact isRead (.key call) (List.mem_append_left _ (List.mem_map_of_mem inKeys))
          · intro key member
            exact isRead (.key key) (List.mem_append_right _ (List.mem_map_of_mem member))
          · intro starts
            rcases eq_of_startsWithCall starts with ⟨call, others, same⟩
            exact noCall call (others.map .key) (congrArg (List.map Segment.key) same)
      · cases done

/-- Exactly the well-formed names read back from their text. -/
theorem read_text_iff {name : FullName} : read name.text = .ok name ↔ name.WellFormed :=
  ⟨wellFormed_of_read, read_text⟩

/-- What is read from any text reads back from its own text. -/
theorem read_text_of_read {text : String} {name : FullName} (done : read text = .ok name) :
    read name.text = .ok name :=
  read_text (wellFormed_of_read done)

/-- Well-formed names with one text are one name. -/
theorem eq_of_text {left right : FullName} (inLeft : left.WellFormed) (inRight : right.WellFormed)
    (texts : left.text = right.text) : left = right := by
  have readLeft := read_text inLeft
  rw [texts, read_text inRight] at readLeft
  exact (Except.ok.inj readLeft).symm

/-! ## Texts as an encoding of names -/

/-- The text encodes a name faithfully exactly if the name is well-formed, and
texts that are read stand for names that are encoded faithfully. -/
theorem text_faithful :
    (∀ name : FullName, read name.text = .ok name ↔
      (∀ key ∈ name.module ++ name.path, key ≠ "" ∧ '.' ∉ key.toList ∧ '[' ∉ key.toList) ∧
        ∀ key rest, name.path ≠ "module" :: key :: rest) ∧
      (∀ left right : FullName, read left.text = .ok left → read right.text = .ok right →
        left.text = right.text → left = right) ∧
      ∀ text name, read text = .ok name → read name.text = .ok name := by
  refine ⟨?_, ?_, fun text name done => read_text_of_read done⟩
  · intro name
    rw [read_text_iff, wellFormed_iff]
  · intro left right inLeft inRight
    exact eq_of_text (wellFormed_of_read inLeft) (wellFormed_of_read inRight)

/-- A name of a module that is called twice over, read from its text. -/
theorem text_faithful_nested :
    read "module.net.module.zone.aws_subnet.a" =
      .ok ⟨["net", "zone"], ["aws_subnet", "a"]⟩ := by
  have text : FullName.text ⟨["net", "zone"], ["aws_subnet", "a"]⟩ =
      "module.net.module.zone.aws_subnet.a" := by decide
  have plain := (text_faithful.1 ⟨["net", "zone"], ["aws_subnet", "a"]⟩).mpr
    ⟨by decide, fun key rest same => by simp at same⟩
  rw [← text]
  exact text_faithful.2.2 _ _ plain

end FullName

end Groundplan
