import Groundplan.CommandLine
/-!
The program. It reads the files that a call needs, lets the call be worked out on
them, and then carries out what the call does.
-/

namespace Groundplan

/-- Whether a file of a directory can belong to a module or give values. -/
def isConsulted (name : String) : Bool :=
  [".tf", ".tfvars", ".tfvars.json"].any fun ending => VariableFile.hasEnding ending name

def readFile (files : Files) (path : String) : IO Files := do
  try
    return files.insert path (← IO.FS.readFile ((← IO.currentDir) / path))
  catch _ => return files

/-- Add a directory with the files in it that a call can need. -/
def readDirectory (files : Files) (path : String) : IO Files := do
  let entries ← ((← IO.currentDir) / path).readDir
  entries.foldlM
    (fun files entry => do
      let isFile := (← entry.path.metadata).type == .file
      if isFile && isConsulted entry.fileName then
        readFile files (Path.join path entry.fileName)
      else return files)
    (files.insertDirectory path)

def readPath (files : Files) (path : String) : IO Files := do
  if ← ((← IO.currentDir) / path).isDir then readDirectory files path else readFile files path

/-- Read everything that a call needs. Modules that were read can call further
modules, so this goes on until nothing new is asked for. -/
partial def gather (invocation : Invocation) (seen : List String) (files : Files) : IO Files := do
  match (invocation.paths files).filter fun path => !seen.contains path with
  | [] => return files
  | fresh => gather invocation (seen ++ fresh) (← fresh.foldlM readPath files)

def carryOut : Effect → IO Unit
  | .log level message => IO.eprintln ("[" ++ level.text ++ "] " ++ message)
  | .print text => do
      IO.print text
      (← IO.getStdout).flush
  | .write path text => do
      let directory ← IO.currentDir
      IO.FS.createDirAll (directory / (Path.parent? path).getD "")
      IO.FS.writeFile (directory / path) text

end Groundplan

open Groundplan in
def main (arguments : List String) : IO UInt32 := do
  match Invocation.read arguments with
  | .error .help =>
      IO.print Invocation.usage
      return 0
  | .error (.wrong argument) =>
      IO.eprintln ("error: unexpected argument '" ++ argument ++ "' found\n\n" ++ Invocation.usage)
      return 2
  | .ok invocation =>
      let start := Files.onDisk (Path.follow [] (Path.pieces (← IO.currentDir).toString))
      let (state, failure) := invocation.run (← gather invocation [] start)
      state.effects.forM carryOut
      match failure with
      | none => return 0
      | some causes =>
          IO.eprintln (failureReport causes)
          return 1
