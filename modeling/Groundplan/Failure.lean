import Groundplan.Files
import Groundplan.Problem
/-!
Failures: what ends a run, or keeps a called module out of it.
-/

namespace Groundplan

inductive Failure where
  | problem (problem : Problem)
  | unreadable (error : FileError)
  /-- A directory of module files that cannot be listed. -/
  | unlisted (directory : String) (error : FileError)
deriving DecidableEq

namespace Failure

/-- What was attempted, and below it why that failed. -/
def causes : Failure → List String
  | problem reported => [reported.message]
  | unreadable error => error.causes
  | unlisted directory error => ("reading module directory " ++ directory) :: error.causes

def message (failure : Failure) : String := ": ".intercalate failure.causes

end Failure

end Groundplan
