import Groundplan.Evaluation
import Groundplan.Proofs.Tables
import Mathlib.Data.List.Basic
/-!
Layouts. File sets that hold the same but for the module files right in one directory are
listed and read alike everywhere else.
-/

namespace Groundplan

/-! ## Paths -/

namespace Path

theorem splitChars_ne_nil (letters : List Char) : pieces.splitChars letters ≠ [] := by
  cases letters with
  | nil => simp [pieces.splitChars]
  | cons c rest =>
      rw [pieces.splitChars]
      split
      · simp
      · split <;> simp

theorem splitChars_append (left right : List Char) :
    pieces.splitChars (left ++ '/' :: right) =
      pieces.splitChars left ++ pieces.splitChars right := by
  induction left with
  | nil => simp [pieces.splitChars]
  | cons c rest induction =>
      rw [List.cons_append, pieces.splitChars, pieces.splitChars, induction]
      split
      · rfl
      · cases split : pieces.splitChars rest with
        | nil => exact absurd split (splitChars_ne_nil rest)
        | cons piece others => rfl

theorem splitChars_of_plain {letters : List Char} (plain : '/' ∉ letters) :
    pieces.splitChars letters = [letters] := by
  induction letters with
  | nil => rfl
  | cons c rest induction =>
      simp only [List.mem_cons, not_or] at plain
      rcases plain with ⟨different, plain⟩
      rw [pieces.splitChars, if_neg (Ne.symm different), induction plain]

theorem pieces_of_plain {name : String} (plain : '/' ∉ name.toList) : pieces name = [name] := by
  rw [pieces, splitChars_of_plain plain]
  simp

theorem slash_not_mem_of_mem_splitChars {letters piece : List Char}
    (member : piece ∈ pieces.splitChars letters) : '/' ∉ piece := by
  induction letters generalizing piece with
  | nil => simp_all [pieces.splitChars]
  | cons c rest induction =>
      rw [pieces.splitChars] at member
      split at member
      · rcases List.mem_cons.mp member with rfl | member
        · exact List.not_mem_nil
        · exact induction member
      · next different =>
          cases split : pieces.splitChars rest with
          | nil => exact absurd split (splitChars_ne_nil rest)
          | cons first others =>
              rw [split] at member induction
              rcases List.mem_cons.mp member with rfl | member
              · simp [Ne.symm different, induction List.mem_cons_self]
              · exact induction (List.mem_cons_of_mem _ member)

theorem slash_not_mem_of_mem_pieces {path name : String} (member : name ∈ pieces path) :
    '/' ∉ name.toList := by
  rcases List.mem_map.mp member with ⟨piece, split, rfl⟩
  rw [String.toList_ofList]
  exact slash_not_mem_of_mem_splitChars split

/-- Only names that are followed are added to a place. -/
theorem of_mem_follow {start : Location} {names : List String} {name : String}
    (member : name ∈ follow start names) : name ∈ start ∨ name ∈ names := by
  induction names generalizing start with
  | nil => exact .inl member
  | cons first rest induction =>
      rw [follow, List.foldl_cons] at member
      rcases induction member with member | member
      · split at member
        · exact .inl member
        · split at member
          · exact .inl (List.dropLast_subset _ member)
          · rcases List.mem_append.mp member with member | member
            · exact .inl member
            · exact .inr (by simp_all)
      · exact .inr (List.mem_cons_of_mem _ member)

theorem follow_append (start : Location) (first second : List String) :
    follow start (first ++ second) = follow (follow start first) second := by
  rw [follow, List.foldl_append]
  rfl

private theorem locate_of_toList {directory : Location} {base path text : String}
    (front : List Char) (letters : text.toList = front ++ '/' :: path.toList)
    (absolute : isAbsolute text = isAbsolute base)
    (same : follow (if isAbsolute base then [] else directory)
      ((pieces.splitChars front).map String.ofList) = locate directory base) :
    locate directory text = follow (locate directory base) (pieces path) := by
  have parts : pieces text = (pieces.splitChars front).map String.ofList ++ pieces path := by
    rw [pieces, letters, splitChars_append, List.map_append]
    rfl
  rw [locate, parts, absolute, follow_append, same]

theorem isAbsolute_append {base : String} (nonempty : base.isEmpty = false) (path : String) :
    isAbsolute (base ++ path) = isAbsolute base := by
  rw [isAbsolute, isAbsolute, String.toList_append]
  cases letters : base.toList with
  | nil => simp [String.toList_eq_nil_iff.mp letters] at nonempty
  | cons c rest => rfl

/-- A relative path leads on from where the path before it leads. -/
theorem locate_join {directory : Location} {base path : String}
    (relative : isAbsolute path = false) :
    locate directory (join base path) = follow (locate directory base) (pieces path) := by
  rw [join, relative, Bool.false_or]
  cases nonempty : base.isEmpty with
  | true =>
      have empty : base = "" := by simpa using nonempty
      subst empty
      rw [if_pos rfl, locate, relative]
      rfl
  | false =>
      rw [if_neg Bool.false_ne_true]
      split
      · next ends =>
          rcases List.getLast?_eq_some_iff.mp (beq_iff_eq.mp ends) with ⟨front, letters⟩
          refine locate_of_toList front (by simp [letters])
            (isAbsolute_append nonempty path) ?_
          have parts : pieces base = (pieces.splitChars front).map String.ofList ++ [""] := by
            rw [pieces, letters, splitChars_append, List.map_append]
            rfl
          rw [locate, parts, follow_append]
          rfl
      · refine locate_of_toList base.toList (by simp) ?_ rfl
        rw [String.append_assoc]
        exact isAbsolute_append nonempty _

/-- A name leads from a directory to the place of the name inside it. -/
theorem locate_join_name {directory : Location} {base name : String} (plain : '/' ∉ name.toList)
    (named : name ∉ ["", ".", ".."]) :
    locate directory (join base name) = locate directory base ++ [name] := by
  have relative : isAbsolute name = false := by
    rw [isAbsolute, beq_eq_false_iff_ne]
    intro slash
    exact plain (List.mem_of_mem_head? slash)
  simp only [List.mem_cons, List.not_mem_nil, or_false, not_or] at named
  rw [locate_join relative, pieces_of_plain plain]
  simp [follow, isSilent, named]

end Path

/-! ## The names of module files -/

theorem ModuleSite.not_mem_dots_of_isPrimary {name : String} (primary : isPrimary name = true) :
    name ∉ ["", ".", ".."] := by
  intro dots
  simp only [List.mem_cons, List.not_mem_nil, or_false] at dots
  rcases dots with rfl | rfl | rfl <;> exact absurd primary (by decide)

namespace VariableFile

/-- The names by which a variable file applies. -/
def Applies (name : String) : Prop :=
  name ∈ fixedNames ∨ ∃ ending ∈ automaticEndings, hasEnding ending name = true

theorem Applies.getLast? {name : String} (applies : Applies name) :
    name.toList.getLast? = some 's' ∨ name.toList.getLast? = some 'n' := by
  have ofEnding {ending : String} {last : Char} (ends : ending.toList.getLast? = some last)
      (has : hasEnding ending name = true) : name.toList.getLast? = some last := by
    rcases List.isSuffixOf_iff_suffix.mp has with ⟨front, letters⟩
    rw [← letters, List.getLast?_append, ends, Option.some_or]
  rcases applies with fixed | ⟨ending, automatic, has⟩
  · simp only [fixedNames, List.mem_cons, List.not_mem_nil, or_false] at fixed
    rcases fixed with rfl | rfl
    · exact .inl (by decide)
    · exact .inr (by decide)
  · simp only [automaticEndings, List.mem_cons, List.not_mem_nil, or_false] at automatic
    rcases automatic with rfl | rfl
    · exact .inl (ofEnding (by decide) has)
    · exact .inr (ofEnding (by decide) has)

/-- No file of a module is a variable file that applies. -/
theorem Applies.isPrimary_eq_false {name : String} (applies : Applies name) :
    ModuleSite.isPrimary name = false := by
  rw [← Bool.not_eq_true]
  intro primary
  simp only [ModuleSite.isPrimary, Bool.and_eq_true] at primary
  rcases List.isSuffixOf_iff_suffix.mp primary.1.1 with ⟨front, letters⟩
  have last : name.toList.getLast? = some 'f' := by
    rw [← letters, List.getLast?_append]
    rfl
  rcases applies.getLast? with other | other <;> rw [other] at last <;> simp at last

theorem Applies.not_mem_dots {name : String} (applies : Applies name) :
    name ∉ ["", ".", ".."] := by
  intro dots
  simp only [List.mem_cons, List.not_mem_nil, or_false] at dots
  have last := applies.getLast?
  rcases dots with rfl | rfl | rfl <;> exact absurd last (by decide)

theorem applies_of_mem_applicable {names : List String} {name : String}
    (member : name ∈ applicable names) : Applies name ∧ name ∈ names := by
  rcases List.mem_append.mp member with member | member
  · have parts := List.mem_filter.mp member
    exact ⟨.inl parts.1, by simpa using parts.2⟩
  · rcases List.mem_flatMap.mp member with ⟨ending, automatic, member⟩
    have parts := List.mem_filter.mp member
    exact ⟨.inr ⟨ending, automatic, parts.2⟩, parts.1⟩

/-- The files of a module do not count among the files that apply. -/
theorem applicable_filter (names : List String) :
    applicable (names.filter fun name => !ModuleSite.isPrimary name) = applicable names := by
  have kept {name : String} (applies : Applies name) :
      (!ModuleSite.isPrimary name) = true := by
    rw [applies.isPrimary_eq_false]
    rfl
  rw [applicable, applicable]
  congr 1
  · refine List.filter_congr fun name fixed => ?_
    rw [Bool.eq_iff_iff, List.contains_iff_mem, List.contains_iff_mem, List.mem_filter]
    exact and_iff_left (kept (.inl fixed))
  · refine congrArg List.flatten (List.map_congr_left fun ending automatic => ?_)
    rw [List.filter_filter]
    refine List.filter_congr fun name _ => ?_
    cases has : hasEnding ending name with
    | false => rfl
    | true => rw [kept (.inr ⟨ending, automatic, has⟩), Bool.and_true]

end VariableFile

/-! ## File sets that hold the same -/

namespace Files

/-- Whether a place is that of a file which the module in a directory is made of. -/
def isModuleFile (directory place : Location) : Bool :=
  place.dropLast == directory && place.getLast?.any ModuleSite.isPrimary

def others (files : Files) (directory : Location) : Table Location String :=
  files.entries.filter fun entry => !isModuleFile directory entry.1

/-- Whether every name on the way to a file is one piece of a path. -/
def NamesPlain (files : Files) : Prop :=
  ∀ entry ∈ files.entries, ∀ name ∈ entry.1, '/' ∉ name.toList

/-- Whether file sets differ in nothing but the files that the module in a directory is
made of. -/
structure SameBut (directory : Location) (left right : Files) : Prop where
  medium : left.medium = right.medium
  start : left.directory = right.directory
  standing : left.standing = right.standing
  others : left.others directory = right.others directory
  inLeft : left.isDirectoryAt directory = true
  inRight : right.isDirectoryAt directory = true
  plainLeft : left.NamesPlain
  plainRight : right.NamesPlain

/-- A location is that of a name directly inside a place exactly if it is the place with the name
after it. -/
theorem nameInside_eq_some_iff {whole place : Location} {name : String} :
    (if whole.dropLast = place && whole != [] then whole.getLast? else none) = some name ↔
      whole = place ++ [name] := by
  constructor
  · intro taken
    split at taken
    · next inside =>
        simp only [Bool.and_eq_true, decide_eq_true_eq] at inside
        rcases List.getLast?_eq_some_iff.mp taken with ⟨front, same⟩
        rw [same, List.dropLast_concat] at inside
        rw [same, inside.1]
    · cases taken
  · intro same
    simp [same]

theorem mem_namesAt {files : Files} {place : Location} {name : String} :
    name ∈ files.namesAt place ↔ ∃ text, (place ++ [name], text) ∈ files.entries := by
  simp only [namesAt, List.mem_filterMap, nameInside_eq_some_iff]
  constructor
  · intro listed
    rcases listed with ⟨⟨whole, text⟩, member, same⟩
    exact ⟨text, same ▸ member⟩
  · intro stored
    rcases stored with ⟨text, member⟩
    exact ⟨_, member, rfl⟩

theorem isModuleFile_iff {directory place : Location} : isModuleFile directory place = true ↔
    ∃ name, place = directory ++ [name] ∧ ModuleSite.isPrimary name = true := by
  simp only [isModuleFile, Bool.and_eq_true, beq_iff_eq, Option.any_eq_true,
    List.getLast?_eq_some_iff]
  constructor
  · rintro ⟨same, name, ⟨front, rfl⟩, primary⟩
    rw [List.dropLast_concat] at same
    exact ⟨name, by rw [same], primary⟩
  · rintro ⟨name, rfl, primary⟩
    exact ⟨List.dropLast_concat, name, ⟨directory, rfl⟩, primary⟩

theorem isModuleFile_append (directory place : Location) (name : String) :
    isModuleFile directory (place ++ [name]) =
      (place == directory && ModuleSite.isPrimary name) := by
  simp [isModuleFile]

theorem isDirectoryAt_of_prefix {files : Files} {place below : Location}
    (start : place <+: below) (holds : files.isDirectoryAt below = true) :
    files.isDirectoryAt place = true := by
  simp only [isDirectoryAt, hasFileBelow, Bool.or_eq_true, List.any_eq_true, Bool.and_eq_true,
    List.isPrefixOf_iff_prefix] at holds ⊢
  rcases holds with ⟨entry, member, inside, different⟩ | ⟨whole, member, inside⟩
  · refine .inl ⟨entry, member, start.trans inside, ?_⟩
    rw [bne_iff_ne] at different ⊢
    rintro rfl
    exact different (inside.eq_of_length_le start.length_le).symm
  · exact .inr ⟨whole, member, start.trans inside⟩

/-- How what a listing gives compares in two file sets. On a disk a file can be listed like a
directory that holds nothing, and be there in only one of them. -/
inductive ListedAlike (medium : Medium) :
    Except FileError (List String) → Except FileError (List String) → Prop where
  | neither (first second : FileError) : ListedAlike medium (.error first) (.error second)
  | both (names : List String) : ListedAlike medium (.ok names) (.ok names)
  | onlyFirst (onDisk : medium = .disk) (error : FileError) :
      ListedAlike medium (.ok []) (.error error)
  | onlySecond (onDisk : medium = .disk) (error : FileError) :
      ListedAlike medium (.error error) (.ok [])

namespace SameBut

variable {directory place : Location} {left right : Files} {path : String}

theorem symm (same : SameBut directory left right) : SameBut directory right left where
  medium := same.medium.symm
  start := same.start.symm
  standing := same.standing.symm
  others := same.others.symm
  inLeft := same.inRight
  inRight := same.inLeft
  plainLeft := same.plainRight
  plainRight := same.plainLeft

theorem locate (same : SameBut directory left right) (path : String) :
    left.locate path = right.locate path := by
  rw [Files.locate, Files.locate, same.start]

theorem find? (same : SameBut directory left right)
    (elsewhere : isModuleFile directory place = false) :
    Table.find? place left.entries = Table.find? place right.entries := by
  have kept (files : Files) :
      Table.find? place (files.others directory) = Table.find? place files.entries :=
    Table.find?_filter (fun place => !isModuleFile directory place) (by rw [elsewhere]; rfl)
      files.entries
  exact (kept left).symm.trans ((congrArg (Table.find? place) same.others).trans (kept right))

theorem hasFileAt (same : SameBut directory left right)
    (elsewhere : isModuleFile directory place = false) :
    left.hasFileAt place = right.hasFileAt place := by
  rw [Files.hasFileAt, Files.hasFileAt, Table.has, Table.has, same.find? elsewhere]

private theorem isDirectoryAt_of_left (same : SameBut directory left right)
    (holds : left.isDirectoryAt place = true) : right.isDirectoryAt place = true := by
  have holds' := holds
  simp only [Files.isDirectoryAt, hasFileBelow, Bool.or_eq_true, List.any_eq_true,
    Bool.and_eq_true, List.isPrefixOf_iff_prefix] at holds'
  rcases holds' with ⟨entry, member, inside, different⟩ | ⟨whole, member, inside⟩
  · cases isModule : isModuleFile directory entry.1 with
    | true =>
        -- The directory that the file is right in is a directory in both.
        rcases isModuleFile_iff.mp isModule with ⟨name, whole, _⟩
        refine isDirectoryAt_of_prefix ?_ same.inRight
        rw [whole, List.prefix_concat_iff] at inside
        refine inside.resolve_left fun equal => ?_
        simp [whole, equal] at different
    | false =>
        have kept : entry ∈ right.others directory := by
          rw [← same.others, Files.others, List.mem_filter]
          exact ⟨member, by rw [isModule]; rfl⟩
        simp only [Files.isDirectoryAt, hasFileBelow, Bool.or_eq_true, List.any_eq_true,
          Bool.and_eq_true, List.isPrefixOf_iff_prefix]
        exact .inl ⟨entry, (List.mem_filter.mp kept).1, inside, different⟩
  · simp only [Files.isDirectoryAt, Bool.or_eq_true, List.any_eq_true,
      List.isPrefixOf_iff_prefix]
    exact .inr ⟨whole, same.standing ▸ member, inside⟩

theorem isDirectoryAt (same : SameBut directory left right) (place : Location) :
    left.isDirectoryAt place = right.isDirectoryAt place :=
  Bool.eq_iff_iff.mpr ⟨same.isDirectoryAt_of_left, same.symm.isDirectoryAt_of_left⟩

theorem follow (same : SameBut directory left right) (start : Location) (names : List String) :
    (left.follow start names).toOption = (right.follow start names).toOption := by
  induction names generalizing start with
  | nil => rfl
  | cons name rest induction =>
      rw [Files.follow, Files.follow, same.isDirectoryAt]
      split
      · exact induction _
      · split <;> split <;> rfl

theorem place? (same : SameBut directory left right) (path : String) :
    (left.place? path).toOption = (right.place? path).toOption := by
  rw [Files.place?, Files.place?, same.medium, same.locate, same.start]
  split
  · rfl
  · split
    · rfl
    · exact same.follow _ _

/-- A path leads to the same place in both, if it leads anywhere. -/
theorem place?_cases (same : SameBut directory left right) (path : String) :
    (∃ first second, left.place? path = .error first ∧ right.place? path = .error second) ∨
      left.place? path = .ok (left.locate path) ∧ right.place? path = .ok (left.locate path) := by
  have places := same.place? path
  cases inLeft : left.place? path with
  | error first =>
      cases inRight : right.place? path with
      | error second => exact .inl ⟨first, second, rfl, rfl⟩
      | ok place => simp [inLeft, inRight, Except.toOption] at places
  | ok place =>
      cases inRight : right.place? path with
      | error second => simp [inLeft, inRight, Except.toOption] at places
      | ok other =>
          have equal : place = other := by simpa [inLeft, inRight, Except.toOption] using places
          rw [place?_eq inLeft] at equal
          rw [place?_eq inLeft, ← equal]
          exact .inr ⟨rfl, rfl⟩

/-- What is no file of the module reads the same. -/
theorem read (same : SameBut directory left right)
    (elsewhere : isModuleFile directory (left.locate path) = false) :
    (left.read path).toOption = (right.read path).toOption := by
  rw [Files.read, Files.read]
  rcases same.place?_cases path with ⟨_, _, inLeft, inRight⟩ | ⟨inLeft, inRight⟩
  · rw [inLeft, inRight]
    rfl
  · rw [inLeft, inRight, ← same.medium]
    dsimp only
    rw [same.find? elsewhere]
    cases Table.find? (left.locate path) right.entries with
    | some text => rfl
    | none => cases left.medium <;> rfl

theorem exists? (same : SameBut directory left right)
    (elsewhere : isModuleFile directory (left.locate path) = false) :
    left.exists? path = right.exists? path := by
  rw [Files.exists?, Files.exists?]
  rcases same.place?_cases path with ⟨_, _, inLeft, inRight⟩ | ⟨inLeft, inRight⟩
  · rw [inLeft, inRight]
  · rw [inLeft, inRight]
    dsimp only
    rw [same.hasFileAt elsewhere, same.isDirectoryAt]

/-! ## Listed directories -/

theorem namesAt_filter (same : SameBut directory left right) (place : Location) :
    ((left.namesAt place).filter fun name => !isModuleFile directory (place ++ [name])) =
      (right.namesAt place).filter fun name => !isModuleFile directory (place ++ [name]) := by
  have kept (files : Files) :
      ((files.namesAt place).filter fun name => !isModuleFile directory (place ++ [name])) =
        (files.others directory).filterMap fun entry =>
          if entry.1.dropLast = place && entry.1 != [] then entry.1.getLast? else none := by
    rw [Files.namesAt, Files.others, List.filterMap_filter, List.filter_filterMap]
    refine List.filterMap_congr fun entry _ => ?_
    split
    · next inside =>
        simp only [Bool.and_eq_true, decide_eq_true_eq] at inside
        cases last : entry.1.getLast? with
        | none => simp
        | some name =>
            rcases List.getLast?_eq_some_iff.mp last with ⟨front, whole⟩
            rw [whole, List.dropLast_concat] at inside
            rw [whole, inside.1, Option.filter_some]
    · simp
  rw [kept left, kept right, same.others]

/-- Another directory holds the same names in both. -/
theorem namesAt (same : SameBut directory left right) (different : place ≠ directory) :
    left.namesAt place = right.namesAt place := by
  have kept (names : List String) :
      (names.filter fun name => !isModuleFile directory (place ++ [name])) = names := by
    rw [List.filter_eq_self]
    intro name _
    rw [isModuleFile_append, beq_eq_false_iff_ne.mpr different]
    rfl
  rw [← kept (left.namesAt place), ← kept (right.namesAt place), same.namesAt_filter]

/-- What listing a directory elsewhere gives in both. -/
theorem list (same : SameBut directory left right) (different : left.locate path ≠ directory) :
    ListedAlike left.medium (left.list path) (right.list path) := by
  rw [Files.list, Files.list]
  rcases same.place?_cases path with ⟨first, second, inLeft, inRight⟩ | ⟨inLeft, inRight⟩
  · rw [inLeft, inRight]
    exact .neither _ _
  · rw [inLeft, inRight, ← same.medium]
    dsimp only
    rw [same.isDirectoryAt, same.namesAt different]
    split
    · exact .both _
    · cases left.medium with
      | memory => exact .neither _ _
      | disk =>
          dsimp only
          cases left.hasFileAt (left.locate path) <;> cases right.hasFileAt (left.locate path)
          · exact .neither _ _
          · exact .onlySecond rfl _
          · exact .onlyFirst rfl _
          · exact .both []

end SameBut

/-! ## Files of other modules and of variables -/

/-- What is listed are the names inside a directory, or nothing where a file is listed. -/
theorem eq_namesAt_or_eq_nil_of_list {files : Files} {path : String} {names : List String}
    (listed : files.list path = .ok names) :
    names = files.namesAt (files.locate path) ∨ names = [] := by
  rw [list] at listed
  cases found : files.place? path with
  | error fault => simp [found] at listed
  | ok place =>
      rw [found] at listed
      dsimp only at listed
      split at listed
      · cases listed
        rw [← place?_eq found]
        exact .inl rfl
      · split at listed
        · cases listed
        · split at listed
          · cases listed
            exact .inr rfl
          · cases listed

/-- A file set lists the names in a directory in order. -/
theorem ascending_namesAt {files : Files} (ordered : Table.Ordered files.entries)
    (place : Location) : Table.Ascending (files.namesAt place) := by
  rw [Table.Ascending, namesAt, List.pairwise_filterMap]
  refine ordered.imp fun {left right} before name isLeft other isRight => ?_
  rw [nameInside_eq_some_iff.mp isLeft, nameInside_eq_some_iff.mp isRight,
    compare_concat_concat] at before
  exact before

theorem ascending_of_list {files : Files} (ordered : Table.Ordered files.entries) {path : String}
    {names : List String} (listed : files.list path = .ok names) : Table.Ascending names := by
  rcases eq_namesAt_or_eq_nil_of_list listed with same | same
  · rw [same]
    exact ascending_namesAt ordered _
  · rw [same]
    exact List.Pairwise.nil

/-- A listed name leads to a place inside the directory. -/
theorem of_mem_list {files : Files} {path name : String} {names : List String}
    (listed : files.list path = .ok names) (member : name ∈ names) :
    ∃ text, (files.locate path ++ [name], text) ∈ files.entries := by
  rcases eq_namesAt_or_eq_nil_of_list listed with same | same
  · exact mem_namesAt.mp (same ▸ member)
  · rw [same] at member
    cases member

theorem NamesPlain.locate_join {files : Files} (plain : files.NamesPlain) {path name : String}
    {names : List String} (listed : files.list path = .ok names) (member : name ∈ names)
    (named : name ∉ ["", ".", ".."]) :
    files.locate (Path.join path name) = files.locate path ++ [name] := by
  rcases of_mem_list listed member with ⟨text, isEntry⟩
  exact Path.locate_join_name (plain _ isEntry name (by simp)) named

namespace SameBut

variable {directory place : Location} {left right : Files} {path : String}

/-- The files of a module elsewhere read the same. -/
theorem read_of_mem_primaryFiles (same : SameBut directory left right)
    (different : left.locate path ≠ directory) {paths : List String}
    (listed : ModuleSite.primaryFiles left path = .ok paths) :
    ∀ file ∈ paths, (left.read file).toOption = (right.read file).toOption := by
  intro file member
  rw [ModuleSite.primaryFiles] at listed
  cases names : left.list path with
  | error error => simp [names] at listed
  | ok all =>
      rw [names] at listed
      cases listed
      rcases List.mem_map.mp member with ⟨name, kept, rfl⟩
      have parts := List.mem_filter.mp kept
      have placed := same.plainLeft.locate_join names parts.1
        (ModuleSite.not_mem_dots_of_isPrimary parts.2)
      apply same.read
      rw [placed, isModuleFile_append, beq_eq_false_iff_ne.mpr different]
      rfl

/-- The index of fetched modules is no file of the module. -/
theorem registry (same : SameBut directory left right) (located : left.locate path = directory) :
    (Registry.load left path).1 = (Registry.load right path).1 := by
  have elsewhere : isModuleFile directory (left.locate (Path.join path Registry.indexPath)) =
      false := by
    rw [← Bool.not_eq_true, isModuleFile_iff]
    rintro ⟨name, placed, _⟩
    rw [Files.locate, Path.locate_join (by decide)] at placed
    rw [Files.locate] at located
    rw [located] at placed
    have pieces : Path.pieces Registry.indexPath = [".terraform", "modules", "modules.json"] := by
      decide
    simp [pieces, Path.follow, Path.isSilent] at placed
  rw [Registry.load, Registry.load]
  dsimp only
  rw [same.exists? elsewhere]
  split
  · have reads := same.read elsewhere
    cases inLeft : left.read (Path.join path Registry.indexPath) with
    | error first =>
        cases inRight : right.read (Path.join path Registry.indexPath) with
        | error second => rfl
        | ok text => simp [inLeft, inRight, Except.toOption] at reads
    | ok text =>
        cases inRight : right.read (Path.join path Registry.indexPath) with
        | error second => simp [inLeft, inRight, Except.toOption] at reads
        | ok other =>
            have equal : text = other := by simpa [inLeft, inRight, Except.toOption] using reads
            rw [equal]
  · rfl

/-! ## Values that are given -/

theorem loadValues (same : SameBut directory left right)
    (elsewhere : isModuleFile directory (left.locate path) = false) :
    (VariableFile.load left path).toOption = (VariableFile.load right path).toOption := by
  have reads := same.read elsewhere
  rw [VariableFile.load, VariableFile.load]
  cases inLeft : left.read path <;> cases inRight : right.read path <;>
    simp_all [Except.toOption]

/-- The directory of the module holds the same names but for those of module files. -/
theorem list_directory (same : SameBut directory left right)
    (located : left.locate path = directory) :
    (left.list path).toOption.map (List.filter fun name => !ModuleSite.isPrimary name) =
      (right.list path).toOption.map (List.filter fun name => !ModuleSite.isPrimary name) := by
  rw [Files.list, Files.list]
  rcases same.place?_cases path with ⟨_, _, inLeft, inRight⟩ | ⟨inLeft, inRight⟩
  · rw [inLeft, inRight]
    rfl
  · have names := same.namesAt_filter directory
    simp only [isModuleFile_append, BEq.rfl, Bool.true_and] at names
    rw [inLeft, inRight, located]
    dsimp only
    rw [if_pos same.inLeft, if_pos same.inRight]
    exact congrArg some names

theorem find (same : SameBut directory left right) (located : left.locate path = directory) :
    (VariableFile.find left path).toOption = (VariableFile.find right path).toOption := by
  have byNames (files : Files) : (VariableFile.find files path).toOption =
      ((files.list path).toOption.map (List.filter fun name => !ModuleSite.isPrimary name)).map
        fun names => (VariableFile.applicable names).map (Path.join path) := by
    rw [VariableFile.find]
    cases files.list path with
    | error error => rfl
    | ok names => simp [bind, Except.bind, pure, Except.pure, Except.toOption,
        VariableFile.applicable_filter]
  rw [byNames left, byNames right, same.list_directory located]

/-- Files that apply by their name are no files of the module. -/
theorem loadValues_of_mem_find (same : SameBut directory left right) {file : String}
    (member : file ∈ (VariableFile.find left path).toOption.getD []) :
    (VariableFile.load left file).toOption = (VariableFile.load right file).toOption := by
  rw [VariableFile.find] at member
  cases listed : left.list path with
  | error error => simp [listed, bind, Except.bind, Except.toOption] at member
  | ok names =>
      rw [listed] at member
      rcases List.mem_map.mp member with ⟨name, applies, rfl⟩
      rcases VariableFile.applies_of_mem_applicable applies with ⟨applies, isName⟩
      apply same.loadValues
      rw [same.plainLeft.locate_join listed isName applies.not_mem_dots, isModuleFile_append,
        applies.isPrimary_eq_false, Bool.and_false]

/-- The values of variable files do not depend on the files of the module. -/
theorem applyFiles (same : SameBut directory left right) (located : left.locate path = directory)
    {inputs : VariableInputs}
    (explicit : ∀ file ∈ inputs.files,
      (VariableFile.load left file).toOption = (VariableFile.load right file).toOption) :
    ((inputs.filesFor left path).foldl (VariableInputs.applyFile left) ([], [])).1 =
      ((inputs.filesFor right path).foldl (VariableInputs.applyFile right) ([], [])).1 := by
  have alike : ∀ file ∈ inputs.filesFor left path,
      (VariableFile.load left file).toOption = (VariableFile.load right file).toOption := by
    intro file member
    rcases List.mem_append.mp member with member | member
    · exact same.loadValues_of_mem_find member
    · exact explicit file member
  have whole : inputs.filesFor left path = inputs.filesFor right path := by
    rw [VariableInputs.filesFor, VariableInputs.filesFor, same.find located]
  have general (first second : Table String Value × List Problem) (start : first.1 = second.1) :
      ((inputs.filesFor left path).foldl (VariableInputs.applyFile left) first).1 =
        ((inputs.filesFor left path).foldl (VariableInputs.applyFile right) second).1 := by
    generalize inputs.filesFor left path = paths at alike
    induction paths generalizing first second with
    | nil => exact start
    | cons file rest induction =>
        refine induction _ _ ?_ fun other member => alike other (List.mem_cons_of_mem _ member)
        have values := alike file List.mem_cons_self
        rw [VariableInputs.applyFile, VariableInputs.applyFile]
        cases inLeft : VariableFile.load left file <;>
          cases inRight : VariableFile.load right file <;>
            simp_all [Except.toOption]
  rw [general ([], []) ([], []) rfl, whole]

end SameBut

/-! ## File sets that are put together -/

variable {files : Files}

theorem NamesPlain.insert (plain : files.NamesPlain)
    (start : ∀ name ∈ files.directory, '/' ∉ name.toList) (path text : String) :
    (files.insert path text).NamesPlain := by
  intro entry member name inside
  rcases Table.mem_of_mem_insert member with rfl | member
  · rcases Path.of_mem_follow inside with inside | inside
    · split at inside
      · cases inside
      · exact start name inside
    · exact Path.slash_not_mem_of_mem_pieces inside
  · exact plain entry member name inside

theorem namesPlain_ofList (entries : List (String × String)) : (ofList entries).NamesPlain := by
  have general (files : Files) (plain : files.NamesPlain) (start : files.directory = []) :
      (entries.foldl (fun files entry => files.insert entry.1 entry.2) files).NamesPlain := by
    induction entries generalizing files with
    | nil => exact plain
    | cons entry rest induction =>
        refine induction _ (plain.insert ?_ entry.1 entry.2) start
        rw [start]
        simp
  exact general empty (fun _ member => absurd member List.not_mem_nil) rfl

end Files

end Groundplan
