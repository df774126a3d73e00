/-!
Paths. A path is a text of names separated by slashes. A location is the list
of names from the root of the file system down, without `.` and `..`.
-/

namespace Groundplan

/-- The names from the root of the file system down to a file or directory. -/
abbrev Location := List String

namespace Path

def pieces (path : String) : List String :=
  (splitChars path.toList).map String.ofList
where
  splitChars : List Char → List (List Char)
    | [] => [[]]
    | c :: rest =>
        if c = '/' then [] :: splitChars rest
        else
          match splitChars rest with
          | [] => [[c]]
          | piece :: others => (c :: piece) :: others

def isAbsolute (path : String) : Bool := path.toList.head? == some '/'

/-- An empty piece or a dot leads nowhere. -/
def isSilent (piece : String) : Bool := piece == "" || piece == "."

/-- `path` as seen from `base`. -/
def join (base path : String) : String :=
  if isAbsolute path || base.isEmpty then path
  else if base.toList.getLast? == some '/' then base ++ path
  else base ++ "/" ++ path

/-- Follow `names` from `start`; two dots lead to the enclosing directory. -/
def follow (start : Location) (names : List String) : Location :=
  names.foldl
    (fun place name =>
      if isSilent name then place
      else if name = ".." then place.dropLast
      else place ++ [name])
    start

/-- The location of `path` for someone who works in `directory`. -/
def locate (directory : Location) (path : String) : Location :=
  follow (if isAbsolute path then [] else directory) (pieces path)

def ofLocation (place : Location) : String := "/" ++ "/".intercalate place

/-- The steps of a path: the root, a leading dot, and every name. -/
def steps (path : String) : List String :=
  let all := pieces path
  let names := all.filter fun piece => !isSilent piece
  if isAbsolute path then "/" :: names
  else if all.head? == some "." then "." :: names
  else names

/-- The last step when it is a name. -/
def fileName? (path : String) : Option String :=
  match (steps path).getLast? with
  | some name => if name = "/" || name = "." || name = ".." then none else some name
  | none => none

/-- What follows the last dot of the file name, unless the name starts with it. -/
def extension? (path : String) : Option String :=
  (fileName? path).bind fun name =>
    let reversed := name.toList.reverse
    match reversed.dropWhile (· != '.') with
    | '.' :: _ :: _ => some (String.ofList (reversed.takeWhile (· != '.')).reverse)
    | _ => none

/-- Drop as many names from the front as `count` says, together with the silent
pieces before them. -/
private def dropNames : Nat → List String → List String
  | 0, parts => parts
  | count + 1, parts => dropNames count ((parts.dropWhile isSilent).drop 1)

/-- The path from `base` to `path` when `path` lies below it. -/
def relative? (base path : String) : Option String :=
  let start := steps base
  if start.isPrefixOf (steps path) then
    let names := start.filter fun step => step != "/" && step != "."
    let rest := dropNames names.length (pieces path)
    let trimmed := ((rest.dropWhile isSilent).reverse.dropWhile isSilent).reverse
    some ("/".intercalate trimmed)
  else none

/-- The directory of a path: everything before its last step. -/
def parent? (path : String) : Option String :=
  match steps path with
  | [] => none
  | ["/"] => none
  | _ =>
      let kept := ((pieces path).reverse.dropWhile isSilent).drop 1
      let trimmed := (kept.dropWhile isSilent).reverse
      if trimmed.isEmpty then some (if isAbsolute path then "/" else "")
      else some ("/".intercalate trimmed)

example : join "/r" "./m" = "/r/./m" := by decide

example : locate [] "/r/a/../b" = ["r", "b"] := by decide

example : relative? "/r" "/r/./m/./n" = some "m/./n" := by decide

example : extension? "prod.tfvars.json" = some "json" := by decide

end Path

end Groundplan
