import Shaderwright.Build.LogLine
import Shaderwright.Build.Session
import Shaderwright.CommandLine.Request
import Shaderwright.Config.Read
import Shaderwright.Number.Notation
import Shaderwright.Source.Read

/-!
Running the command line on a tree of files. A run yields what it prints, what it logs, the
files as it leaves them, and the error it ends with, if any. What was done before an error stays
done.
-/

namespace Shaderwright.CommandLine

def versionText : String := "shadergen version 0.1.0-dev\n"

inductive RunError where
  | usage (e : UsageError)
  | config (e : Config.LoadError)
  | level (e : SettingError)
  | session (e : SettingError)
  | file (e : FileError)
  | source (e : Source.LoadError)
  | hlsl (input : String) (e : Hlsl.Failure)
  | msl (input : String) (e : Msl.Failure)
  | flush (es : List Msl.FlushError)
  deriving DecidableEq, Repr

/-- Errors of the document formats have no message of their own. -/
def RunError.message? : RunError → Option String
  | usage e => some e.message
  | config e => e.message?
  | level e => some e.message
  | session e => some (Session.invalidMessage e)
  | file e => some e.message
  | source e => e.message?
  | hlsl input e => some (input ++ ": " ++ e.message)
  | msl input e => some (input ++ ": " ++ e.message)
  | flush es => some (Text.unlines (es.map Msl.FlushError.message))

structure Generated where
  input : String
  path : String
  code : String
  deriving DecidableEq, Repr, Inhabited

/-- A run may fail at any point, and keeps what it has generated so far. -/
abbrev Run := ExceptT RunError (StateT (List Generated) Build)

namespace Run

def build {α : Type} (b : Build α) : Run α := liftM b

def ofExcept {ε α : Type} (f : ε → RunError) (r : Except ε α) : Run α :=
  match r with
  | .ok x => pure x
  | .error e => throw (f e)

def files : Run FileTree := build do return (← get).files

end Run

/-! ### Compiling the inputs -/

/-- Where the code for a shader goes. Without an output directory the path of the input stands in
for it. -/
def outputPath (target : Target) (out input shader : String) : String :=
  if out = "" then input else Path.join out (shader ++ target.ext)

def compileShader (target : Target) (s : Session) (input path : String) (shader : Shader) :
    Run (String × Session) := do
  match target with
  | .hlsl =>
    let r ← Run.build (s.compileHlsl (some shader))
    let o ← Run.ofExcept (.hlsl input) r
    return (o.text, s)
  | .msl =>
    let (r, s) ← Run.build (s.compileMsl (some shader) path)
    let o ← Run.ofExcept (.msl input) r
    return (o.text, s)

def writeCode (out input path code : String) : Run Unit := do
  if out = "" then return
  let files ← Run.ofExcept .file ((← Run.files).write path code)
  Run.build (Build.setFiles files)
  Run.build (Build.log .info "wrote shader" [("input", .text input), ("output", .text path)])

def compileInput (target : Target) (out : String) (s : Session) (input : String) : Run Session := do
  let shader ← Run.ofExcept .source (Source.load (← Run.files) input)
  let path := outputPath target out input shader.name
  let (code, s) ← compileShader target s input path shader
  writeCode out input path code
  modify fun done => done ++ [⟨input, path, code⟩]
  return s

def makeOutputDirectory (out : String) : Run Unit := do
  if out = "" then return
  let (r, files) := (← Run.files).makeDirectories out
  Run.build (Build.setFiles files)
  Run.ofExcept .file r

/-! ### The end of a run -/

/-- A count in the notation of numbers that may have a fraction. -/
def countText (n : Nat) : String :=
  match Binary64.ofDecimal? false n 0 with
  | some x => x.text
  | none => toString n

def logSummary : Build Unit := do
  (← get).report.forM fun (c, n) =>
    Build.log .info "build summary" ([("metric", .text c.name), ("value", .text (countText n))] ++
      c.labels.map fun l => (l.1, .text l.2))

/-- The headers of a library are written when all shaders are in it. -/
def finish (target : Target) (s : Session) : Run Unit := do
  if target = .msl then
    let es ← Run.build s.flush
    if !es.isEmpty then throw (.flush es)
  Run.build logSummary

/-! ### A whole run -/

def configOf (home : String) (files : FileTree) (fs : Flags) : Except RunError Config :=
  if fs.config = "" then .ok .standard else (Config.load home files fs.config).mapError .config

/-- Flags take precedence over the configured level, and quiet over verbose. -/
def thresholdOf (c : Config) (fs : Flags) : Except RunError Threshold :=
  if fs.quiet then .ok .error
  else if fs.verbose = 1 then .ok .info
  else if 1 < fs.verbose then .ok .debug
  else c.level.mapError .level

def compileAll (target : Target) (fs : Flags) (s : Session) (inputs : List String) : Run Unit := do
  makeOutputDirectory fs.out
  let s ← inputs.foldlM (compileInput target fs.out) s
  finish target s

structure Outcome where
  stdout : String := ""
  stderr : String := ""
  error? : Option RunError := none
  generated : List Generated := []
  files : FileTree

def printed (out : String) (generated : List Generated) : String :=
  if out = "" then String.join (generated.map Generated.code) else ""

def compileCommand (home : String) (files : FileTree) (target : Target) (fs : Flags)
    (inputs : List String) : Except RunError Outcome := do
  let config ← configOf home files fs
  let threshold ← thresholdOf config fs
  let session ← (Session.new config).mapError .session
  let ((result, generated), world) :=
    ((compileAll target fs session inputs).run.run []).run { files := files, counting := true }
  return {
    stdout := printed fs.out generated
    stderr := logText threshold world.log
    error? := match result with
      | .ok () => none
      | .error e => some e
    generated := generated
    files := world.files }

def runRequest (home : String) (files : FileTree) : Request → Outcome
  | .help => { files := files }
  | .version => { stdout := versionText, files := files }
  | .compile target fs inputs =>
    match compileCommand home files target fs inputs with
    | .ok o => o
    | .error e => { error? := some e, files := files }

def run (home : String) (files : FileTree) (arguments : List String) : Outcome :=
  match Request.parse arguments with
  | .error e => { error? := some (.usage e), files := files }
  | .ok r => runRequest home files r

end Shaderwright.CommandLine
