import Groundplan.Proofs.Layouts
/-!
Files in memory. Reading, listing and asking what exists are views of one history of writes:
what is read at a location is what was written there last, and a directory lists the names
that can be read inside it.
-/

namespace Groundplan

/-! ## Names inside a directory -/

namespace Path

/-- Whether a text names something directly inside a directory. -/
def IsName (name : String) : Prop := name ∉ ["", ".", ".."] ∧ '/' ∉ name.toList

theorem isName_of_mem_follow {start : Location} {names : List String} {name : String}
    (proper : ∀ other ∈ start, IsName other) (plain : ∀ other ∈ names, '/' ∉ other.toList)
    (member : name ∈ follow start names) : IsName name := by
  induction names generalizing start with
  | nil => exact proper name member
  | cons first rest induction =>
      rw [follow, List.foldl_cons] at member
      refine induction ?_ (fun other inRest => plain other (List.mem_cons_of_mem _ inRest)) member
      intro other inStart
      split at inStart
      · exact proper other inStart
      · next loud =>
          split at inStart
          · exact proper other (List.dropLast_subset _ inStart)
          · next onward =>
              rcases List.mem_append.mp inStart with inStart | isFirst
              · exact proper other inStart
              · rw [List.mem_singleton.mp isFirst]
                simp only [isSilent, Bool.or_eq_true, beq_iff_eq, not_or] at loud
                exact ⟨by simp [loud, onward], plain first List.mem_cons_self⟩

/-- An absolute path leads to a location of proper names, wherever it is seen from. -/
theorem isName_of_mem_locate {directory : Location} {path name : String}
    (absolute : isAbsolute path = true) (member : name ∈ locate directory path) : IsName name := by
  rw [locate, if_pos absolute] at member
  exact isName_of_mem_follow (by simp) (fun _ => slash_not_mem_of_mem_pieces) member

end Path

/-! ## Files that are written one after the other -/

namespace Files

/-- The files in memory after some writes, for someone who works in `directory`. -/
def written (directory : Location) (writes : List (String × String)) : Files :=
  writes.foldl (fun files write => files.insert write.1 write.2)
    { empty with directory := directory }

/-- How the views of files fit a history of writes that were made in `directory`. -/
structure Shows (directory : Location) (writes : List (String × String)) (files : Files) :
    Prop where
  reads : ∀ path text, files.read path = .ok text ↔
    ∃ earlier written later, writes = earlier ++ (written, text) :: later ∧
      Path.locate directory written = Path.locate directory path ∧
      ∀ write ∈ later, Path.locate directory write.1 ≠ Path.locate directory path
  fails : ∀ path,
    (∀ write ∈ writes, Path.locate directory write.1 ≠ Path.locate directory path) →
      files.read path = .error (.missingFile path)
  lists : ∀ path, (∃ names, files.list path = .ok names) ↔
    ∃ write ∈ writes, ∃ name rest,
      Path.locate directory write.1 = Path.locate directory path ++ name :: rest
  names : ∀ path names, files.list path = .ok names →
    Table.Ascending names ∧ names.Nodup ∧
      ∀ name, name ∈ names ↔
        Path.IsName name ∧ ∃ text, files.read (Path.join path name) = .ok text
  exists_iff : ∀ path, files.exists? path = true ↔
    (∃ text, files.read path = .ok text) ∨ ∃ names, files.list path = .ok names

variable {directory : Location} {writes : List (String × String)} {path name text : String}

theorem written_eq (directory : Location) (writes : List (String × String)) :
    written directory writes =
      ⟨.memory, Table.ofList (writes.map fun write => (Path.locate directory write.1, write.2)),
        directory, []⟩ := by
  have general (files : Files) (start : files.directory = directory) :
      writes.foldl (fun files write => files.insert write.1 write.2) files =
        { files with
          entries := (writes.map fun write => (Path.locate directory write.1, write.2)).foldl
            (fun table entry => Table.insert entry.1 entry.2 table) files.entries } := by
    induction writes generalizing files with
    | nil => rfl
    | cons write rest induction =>
        rw [List.foldl_cons, induction (files.insert write.1 write.2) start, insert, start]
        rfl
  exact general _ rfl

/-- A text is stored at a location exactly if it was written there last. -/
theorem mem_entries_written {place : Location} :
    (place, text) ∈ (written directory writes).entries ↔
      ∃ earlier path later, writes = earlier ++ (path, text) :: later ∧
        Path.locate directory path = place ∧
        ∀ write ∈ later, Path.locate directory write.1 ≠ place := by
  rw [written_eq, ← (Table.ordered_ofList _).find?_eq_some_iff,
    Table.find?_ofList_eq_some_iff_append]
  constructor
  · rintro ⟨earlier, later, split, others⟩
    rcases List.map_eq_append_iff.mp split with ⟨before, atTurn, rfl, rfl, turn⟩
    rcases List.map_eq_cons_iff.mp turn with ⟨⟨path, last⟩, after, rfl, same, rfl⟩
    cases same
    exact ⟨before, path, after, rfl, rfl, fun write member =>
      others _ (List.mem_map_of_mem member)⟩
  · rintro ⟨earlier, path, later, rfl, rfl, others⟩
    refine ⟨_, _, by rw [List.map_append, List.map_cons], ?_⟩
    intro entry member
    rcases List.mem_map.mp member with ⟨write, inLater, rfl⟩
    exact others write inLater

theorem mem_keys_entries_written {place : Location} :
    place ∈ Table.keys (written directory writes).entries ↔
      ∃ write ∈ writes, Path.locate directory write.1 = place := by
  rw [written_eq, Table.mem_keys_ofList]
  constructor
  · rintro ⟨text, member⟩
    rcases List.mem_map.mp member with ⟨write, isWrite, same⟩
    exact ⟨write, isWrite, congrArg Prod.fst same⟩
  · rintro ⟨write, isWrite, rfl⟩
    exact ⟨write.2, List.mem_map_of_mem isWrite⟩

theorem ordered_entries_written : Table.Ordered (written directory writes).entries := by
  rw [written_eq]
  exact Table.ordered_ofList _

theorem medium_written : (written directory writes).medium = .memory := by rw [written_eq]

theorem place?_written : (written directory writes).place? path =
    .ok (Path.locate directory path) := by
  rw [place?, locate, written_eq]

theorem read_written_eq_ok_iff : (written directory writes).read path = .ok text ↔
    (Path.locate directory path, text) ∈ (written directory writes).entries := by
  rw [← ordered_entries_written.find?_eq_some_iff, read, place?_written, medium_written]
  dsimp only
  cases Table.find? (Path.locate directory path) (written directory writes).entries with
  | none => simp
  | some stored => simp

theorem isDirectoryAt_written {place : Location} :
    (written directory writes).isDirectoryAt place = true ↔
      ∃ write ∈ writes, ∃ name rest,
        Path.locate directory write.1 = place ++ name :: rest := by
  have standing : (written directory writes).standing = [] := by rw [written_eq]
  rw [isDirectoryAt, standing, List.any_nil, Bool.or_false, hasFileBelow]
  simp only [List.any_eq_true, Bool.and_eq_true, List.isPrefixOf_iff_prefix, bne_iff_ne]
  constructor
  · rintro ⟨entry, member, ⟨rest, below⟩, different⟩
    rcases mem_keys_entries_written.mp (List.mem_map_of_mem member) with ⟨write, isWrite, same⟩
    cases rest with
    | nil => exact absurd (by rw [← below, List.append_nil]) different
    | cons name rest => exact ⟨write, isWrite, name, rest, same.trans below.symm⟩
  · rintro ⟨write, isWrite, name, rest, below⟩
    rcases List.mem_map.mp (mem_keys_entries_written.mpr ⟨write, isWrite, below⟩) with
      ⟨entry, member, same⟩
    refine ⟨entry, member, ⟨name :: rest, same.symm⟩, ?_⟩
    rw [same]
    simp

theorem list_written_eq_ok_iff {names : List String} :
    (written directory writes).list path = .ok names ↔
      (written directory writes).isDirectoryAt (Path.locate directory path) = true ∧
        names = (written directory writes).namesAt (Path.locate directory path) := by
  rw [list, place?_written, medium_written]
  dsimp only
  split
  · next isDirectory => simp [isDirectory, eq_comm]
  · next isNone => simp [isNone]

/-- The listed names are those that can be read inside the directory. -/
theorem mem_namesAt_written
    (absolute : ∀ write ∈ writes, Path.isAbsolute write.1 = true) :
    name ∈ (written directory writes).namesAt (Path.locate directory path) ↔
      Path.IsName name ∧
        ∃ text, (written directory writes).read (Path.join path name) = .ok text := by
  rw [mem_namesAt]
  constructor
  · rintro ⟨text, member⟩
    rcases mem_keys_entries_written.mp (Table.mem_keys_of_mem member) with ⟨write, isWrite, same⟩
    have inLocation : name ∈ Path.locate directory write.1 := by
      rw [same]
      simp
    have isName := Path.isName_of_mem_locate (absolute write isWrite) inLocation
    refine ⟨isName, text, ?_⟩
    rwa [read_written_eq_ok_iff, Path.locate_join_name isName.2 isName.1]
  · rintro ⟨isName, text, stored⟩
    rw [read_written_eq_ok_iff, Path.locate_join_name isName.2 isName.1] at stored
    exact ⟨text, stored⟩

/-- What is read, listed and there after a row of writes to absolute paths all follows from
the last write at each location. -/
theorem written_shows (absolute : ∀ write ∈ writes, Path.isAbsolute write.1 = true) :
    Shows directory writes (written directory writes) where
  reads path text := by rw [read_written_eq_ok_iff, mem_entries_written]
  fails path unwritten := by
    have absent : Table.find? (Path.locate directory path) (written directory writes).entries =
        none := by
      rw [Table.find?_eq_none_iff, mem_keys_entries_written]
      rintro ⟨write, isWrite, same⟩
      exact unwritten write isWrite same
    rw [read, place?_written, medium_written]
    dsimp only
    rw [absent]
  lists path := by
    rw [← isDirectoryAt_written]
    simp only [list_written_eq_ok_iff, exists_and_left, exists_eq, and_true]
  names path names listed := by
    rcases list_written_eq_ok_iff.mp listed with ⟨_, rfl⟩
    have ascending := ascending_of_list ordered_entries_written listed
    exact ⟨ascending, ascending.nodup, fun name => mem_namesAt_written absolute⟩
  exists_iff path := by
    rw [exists?, place?_written]
    simp only [Bool.or_eq_true, hasFileAt, Table.has_iff_mem_keys, list_written_eq_ok_iff,
      exists_and_left, exists_eq, and_true, read_written_eq_ok_iff, Table.keys, List.mem_map,
      Prod.exists, exists_and_right, exists_eq_right]

/-- A file that is written twice, in two spellings of its path, and is a directory as well. -/
def twiceWritten : List (String × String) :=
  [("/r/a/../b.tf", "old"), ("/r/b.tf/c", "below"), ("/r/./b.tf", "new")]

theorem written_shows_twiceWritten :
    (∀ write ∈ twiceWritten, Path.isAbsolute write.1 = true) ∧
    (written ["work"] twiceWritten).read "../r/b.tf" = .ok "new" ∧
    (∃ names, (written ["work"] twiceWritten).list "/r" = .ok names ∧ names.Nodup ∧
      "b.tf" ∈ names) ∧
    ∃ names, (written ["work"] twiceWritten).list "/r/b.tf/." = .ok names ∧ "c" ∈ names := by
  have absolute : ∀ write ∈ twiceWritten, Path.isAbsolute write.1 = true := by decide
  have shows : Shows ["work"] twiceWritten (written ["work"] twiceWritten) :=
    written_shows absolute
  have last (path : String) (here : Path.locate ["work"] path = ["r", "b.tf"]) :
      (written ["work"] twiceWritten).read path = .ok "new" :=
    (shows.reads _ _).mpr ⟨[("/r/a/../b.tf", "old"), ("/r/b.tf/c", "below")], "/r/./b.tf", [], rfl,
      here ▸ by decide, by simp⟩
  have below : (written ["work"] twiceWritten).read "/r/b.tf/./c" = .ok "below" :=
    (shows.reads _ _).mpr ⟨[("/r/a/../b.tf", "old")], "/r/b.tf/c", [("/r/./b.tf", "new")], rfl,
      by decide, by decide⟩
  rcases (shows.lists "/r").mpr ⟨("/r/b.tf/c", "below"), by decide, "b.tf", ["c"], by decide⟩ with
    ⟨outer, listed⟩
  rcases (shows.lists "/r/b.tf/.").mpr ⟨("/r/b.tf/c", "below"), by decide, "c", [], by decide⟩ with
    ⟨names, alsoListed⟩
  refine ⟨absolute, last _ (by decide), ⟨outer, listed, (shows.names _ _ listed).2.1, ?_⟩,
    names, alsoListed, ?_⟩
  · exact ((shows.names _ _ listed).2.2 "b.tf").mpr ⟨⟨by decide, by decide⟩, _, last _ (by decide)⟩
  · exact ((shows.names _ _ alsoListed).2.2 "c").mpr ⟨⟨by decide, by decide⟩, _, below⟩

end Files

end Groundplan
