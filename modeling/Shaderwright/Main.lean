import Shaderwright.CommandLine.Reach

/-!
The command line on real files: the files that a run looks at are read first, and those that it
has changed are written last.
-/

namespace Shaderwright.CommandLine

def usageText : String := Text.unlines [
  "Usage:",
  "  shadergen hlsl <shader>...   compile to HLSL and merge the resource headers",
  "  shadergen msl <shader>...    compile to MSL and write the metadata headers",
  "",
  "Flags:",
  "  -c, --config FILE   configuration (.yaml, .yml or .toml)",
  "  -o, --out DIR       directory for the code, which is printed otherwise",
  "  -q, --quiet         log errors only",
  "  -v, --verbose       log more, twice for everything",
  ""]

/-- Take one place over from the disk. The answer tells whether it is a directory. -/
def capturePlace (files : FileTree) (path : String) : IO (FileTree × Bool) := do
  try
    let text ← IO.FS.readFile path
    return ((files.write path text).toOption.getD files, false)
  catch e =>
    match e with
    | .noFileOrDirectory .. => return (files, false)
    | _ => return ((files.makeDirectories path).2, true)

/-- Take a path over, from the outermost directory on, as far as there are directories. -/
def capturePath (files : FileTree) (path : String) : IO FileTree := do
  let mut files := files
  for place in Path.ancestors path do
    let (next, isDirectory) ← capturePlace files place
    files := next
    if !isDirectory then break
  return files

def capture (paths : List String) : IO FileTree := paths.foldlM capturePath {}

def placeText (p : Place) : String :=
  match p with
  | "/" :: rest => "/" ++ Text.joinWith "/" rest
  | p => Text.joinWith "/" p

/-- Bring the disk to the state of the files after a run, starting from those before it. -/
def writeBack (before after : FileTree) : IO Unit := do
  for (place, entry) in after.entries.reverse do
    if before.get? place != some entry then
      match entry with
      | .directory => IO.FS.createDirAll (placeText place)
      | .file text => IO.FS.writeFile (placeText place) text

end Shaderwright.CommandLine

open Shaderwright CommandLine in
/-- Errors go to the error stream and set the exit code. -/
def main (arguments : List String) : IO UInt32 := do
  let home := (← IO.getEnv "HOME").getD ""
  match Request.parse arguments with
  | .ok .help =>
    IO.print usageText
    return 0
  | .ok request =>
    let first ← capture (reach home {} request)
    let files ← capture (reach home first request)
    let outcome := runRequest home files request
    writeBack files outcome.files
    IO.print outcome.stdout
    IO.eprint outcome.stderr
    match outcome.error? with
    | none => return 0
    | some e =>
      IO.eprintln ("Error: " ++ e.message?.getD "malformed document")
      return 1
  | .error e =>
    IO.eprintln ("Error: " ++ e.message)
    return 1
