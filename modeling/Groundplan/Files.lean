import Groundplan.Files.Path
import Groundplan.Table
/-!
File sets: the texts of files by location. A directory exists as soon as a file
lies below it. Files in memory are found by the text of a path alone; files on
a disk are found by following a path from directory to directory.
-/

namespace Groundplan

inductive Medium where
  | memory
  | disk
deriving DecidableEq

structure Files where
  medium : Medium
  entries : Table Location String
  /-- Where relative paths start. -/
  directory : Location
  /-- Directories that exist even if no file lies below them. -/
  standing : List Location

/-- Why a disk does not give what a path asks for. -/
inductive DiskFault where
  | absent
  | isDirectory
  | throughFile
deriving DecidableEq

def DiskFault.message : DiskFault → String
  | absent => "No such file or directory (os error 2)"
  | isDirectory => "Is a directory (os error 21)"
  | throughFile => "Not a directory (os error 20)"

inductive FileError where
  | missingFile (path : String)
  | notDirectory (path : String)
  | unreadable (path : String) (fault : DiskFault)
  | unlistable (path : String) (fault : DiskFault)
deriving DecidableEq

namespace FileError

/-- What was attempted, and below it why that failed. -/
def causes : FileError → List String
  | missingFile path => ["missing file: " ++ path]
  | notDirectory path => ["not a directory: " ++ path]
  | unreadable path fault => ["reading " ++ path, fault.message]
  | unlistable path fault =>
      ["listing " ++ path, "IO error for operation on " ++ path ++ ": " ++ fault.message]

def message (error : FileError) : String := ": ".intercalate error.causes

end FileError

namespace Files

def empty : Files := ⟨.memory, [], [], []⟩

/-- The files of a disk as seen from a directory, before any of them is known. -/
def onDisk (directory : Location) : Files := ⟨.disk, [], directory, [directory]⟩

/-- Put `text` at `path`, in place of an earlier text. -/
def insert (files : Files) (path text : String) : Files :=
  { files with entries := Table.insert (Path.locate files.directory path) text files.entries }

/-- Make a path a directory that exists even if no file lies below it. -/
def insertDirectory (files : Files) (path : String) : Files :=
  { files with standing := Path.locate files.directory path :: files.standing }

def ofList (entries : List (String × String)) : Files :=
  entries.foldl (fun files entry => files.insert entry.1 entry.2) empty

/-- A location with a file strictly below it. -/
def hasFileBelow (files : Files) (place : Location) : Bool :=
  files.entries.any fun entry => place.isPrefixOf entry.1 && entry.1 != place

def isDirectoryAt (files : Files) (place : Location) : Bool :=
  files.hasFileBelow place || files.standing.any fun whole => place.isPrefixOf whole

def hasFileAt (files : Files) (place : Location) : Bool := Table.has place files.entries

def locate (files : Files) (path : String) : Location := Path.locate files.directory path

/-- Follow `names` from `place` on a disk, through directories only. -/
def follow (files : Files) (place : Location) : List String → Except DiskFault Location
  | [] => .ok place
  | name :: rest =>
      if files.isDirectoryAt place then
        files.follow (Path.follow place [name]) rest
      else if files.hasFileAt place then .error .throughFile
      else .error .absent

/-- The location that a path leads to. -/
def place? (files : Files) (path : String) : Except DiskFault Location :=
  match files.medium with
  | .memory => .ok (files.locate path)
  | .disk =>
      if path.isEmpty then .error .absent
      else files.follow (if Path.isAbsolute path then [] else files.directory) (Path.pieces path)

def read (files : Files) (path : String) : Except FileError String :=
  match files.place? path with
  | .error fault => .error (.unreadable path fault)
  | .ok place =>
      match Table.find? place files.entries, files.medium with
      | some text, _ => .ok text
      | none, .memory => .error (.missingFile path)
      | none, .disk =>
          .error (.unreadable path (if files.isDirectoryAt place then .isDirectory else .absent))

def isDirectory (files : Files) (path : String) : Bool :=
  match files.place? path with
  | .ok place => files.isDirectoryAt place
  | .error _ => false

def exists? (files : Files) (path : String) : Bool :=
  match files.place? path with
  | .ok place => files.hasFileAt place || files.isDirectoryAt place
  | .error _ => false

/-- The names of the files directly inside a directory, in order. -/
def namesAt (files : Files) (place : Location) : List String :=
  files.entries.filterMap fun entry =>
    if entry.1.dropLast = place && entry.1 != [] then entry.1.getLast? else none

/-- The names of the files directly inside a directory, in order. On a disk a
file can be listed too and has nothing inside. -/
def list (files : Files) (path : String) : Except FileError (List String) :=
  match files.place? path with
  | .error fault => .error (.unlistable path fault)
  | .ok place =>
      if files.isDirectoryAt place then .ok (files.namesAt place)
      else
        match files.medium with
        | .memory => .error (.notDirectory (Path.ofLocation place))
        | .disk =>
            if files.hasFileAt place then .ok [] else .error (.unlistable path .absent)

/-- Why a text cannot be written to a path on a disk. Directories that are missing
on the way are made. -/
def writeFault? (files : Files) (path : String) : Option DiskFault :=
  let place := files.locate path
  if path.isEmpty then some .absent
  else if files.isDirectoryAt place then some .isDirectory
  else if (List.range place.length).any fun depth => files.hasFileAt (place.take depth) then
    some .throughFile
  else none

/-- Every location of a file or of a directory. -/
def places (files : Files) : List Location :=
  (files.standing ++ Table.keys files.entries).flatMap fun whole =>
    (List.range (whole.length + 1)).map fun depth => whole.take depth

theorem mem_places_of_prefix {files : Files} {place whole : Location}
    (member : whole ∈ files.standing ++ Table.keys files.entries) (start : place <+: whole) :
    place ∈ files.places := by
  simp only [places, List.mem_flatMap, List.mem_map, List.mem_range]
  exact ⟨whole, member, place.length, Nat.lt_succ_of_le start.length_le,
    (List.prefix_iff_eq_take.mp start).symm⟩

theorem mem_places_of_isDirectoryAt {files : Files} {place : Location}
    (holds : files.isDirectoryAt place = true) : place ∈ files.places := by
  simp only [isDirectoryAt, hasFileBelow, Bool.or_eq_true, List.any_eq_true,
    Bool.and_eq_true] at holds
  rcases holds with ⟨entry, member, below, _⟩ | ⟨whole, member, below⟩
  · exact mem_places_of_prefix (List.mem_append_right _ (List.mem_map_of_mem member))
      (List.isPrefixOf_iff_prefix.mp below)
  · exact mem_places_of_prefix (List.mem_append_left _ member)
      (List.isPrefixOf_iff_prefix.mp below)

theorem mem_places_of_hasFileAt {files : Files} {place : Location}
    (holds : files.hasFileAt place = true) : place ∈ files.places :=
  mem_places_of_prefix (List.mem_append_right _ (Table.mem_keys_of_has holds))
    (List.prefix_refl place)

theorem follow_eq {files : Files} {names : List String} {start place : Location}
    (followed : files.follow start names = .ok place) : place = Path.follow start names := by
  induction names generalizing start with
  | nil =>
      simp only [follow, Except.ok.injEq] at followed
      simp [Path.follow, followed]
  | cons name rest induction =>
      rw [follow] at followed
      split at followed
      · rw [induction followed]
        simp [Path.follow]
      · split at followed <;> simp at followed

/-- A path that leads anywhere leads where its text says. -/
theorem place?_eq {files : Files} {path : String} {place : Location}
    (found : files.place? path = .ok place) : place = files.locate path := by
  unfold place? at found
  split at found
  · simpa using found.symm
  · split at found
    · simp at found
    · exact follow_eq found

theorem mem_places_of_list {files : Files} {path : String} {names : List String}
    (listed : files.list path = .ok names) : files.locate path ∈ files.places := by
  unfold list at listed
  split at listed
  · simp at listed
  · next place found =>
      rw [← place?_eq found]
      split at listed
      · next holds => exact mem_places_of_isDirectoryAt holds
      · split at listed
        · simp at listed
        · split at listed
          · next holds => exact mem_places_of_hasFileAt holds
          · simp at listed

example : (ofList [("/r/b", "2"), ("/r/a", "1")]).list "/r" = .ok ["a", "b"] := by rfl

end Files

end Groundplan
