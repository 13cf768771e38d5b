import Shaderwright.CommandLine.Flag
import Shaderwright.Text.Basic
import Shaderwright.Text.Case

/-!
What the arguments of a command line ask for.
-/

namespace Shaderwright.CommandLine

inductive Target where
  | hlsl
  | msl
  deriving DecidableEq, Repr, Inhabited

namespace Target

def name : Target → String
  | hlsl => "hlsl"
  | msl => "msl"

def ext : Target → String
  | hlsl => ".hlsl"
  | msl => ".metal"

end Target

inductive Word where
  | compile (target : Target)
  | help
  | completion
  deriving DecidableEq, Repr

namespace Word

def text : Word → String
  | compile target => target.name
  | help => "help"
  | completion => "completion"

def all : List Word := [compile .hlsl, compile .msl, help, completion]

def ofText? (s : String) : Option Word := all.find? fun w => w.text = s

def suggestible : List Word := [compile .hlsl, compile .msl, completion]

end Word

inductive Request where
  | help
  | version
  | compile (target : Target) (flags : Flags) (inputs : List String)
  deriving DecidableEq, Repr

/-! ### Finding the command -/

/-- Whether a word is at most two edits away from a command, or the start of one. -/
def isClose (word command : String) : Bool :=
  let word := Text.lower word
  Text.editDistance word.toUTF8.toList command.toUTF8.toList ≤ 2 ||
    word.toList.isPrefixOf command.toList

def suggestions (word : String) : List String :=
  (Word.suggestible.map Word.text).filter (isClose word)

def startsWithDash (s : String) : Bool := s.toList.head? = some '-'

/-- Whether an argument looks like a flag whose value is the next argument. Of the flags that are
not shared, nothing is known at this point. -/
def takesNext (argument : String) : Bool :=
  if argument.toList.contains '=' then false
  else
    match argument.toList with
    | '-' :: '-' :: name =>
      match Flag.findLong? Flag.shared (String.ofList name) with
      | some f => f.bare?.isNone
      | none => true
    | ['-', c] =>
      match Flag.findShort? Flag.shared c with
      | some f => f.bare?.isNone
      | none => c.toNat < 0x80
    | _ => false

/-- The arguments that are neither flags nor values of flags. A flag that would take the last
argument ends the search. -/
def words : List String → List String
  | [] => []
  | a :: rest =>
    if a = "--" then []
    else if takesNext a then
      match rest with
      | _ :: b :: rest => words (b :: rest)
      | _ => []
    else if a ≠ "" && !startsWithDash a then a :: words rest
    else words rest

/-- The arguments without the word that names the command. -/
def withoutCommand (command : String) : List String → List String
  | [] => []
  | a :: rest =>
    if a = "--" then a :: rest
    else if takesNext a then
      match rest with
      | value :: rest => a :: value :: withoutCommand command rest
      | [] => [a]
    else if a = command then rest
    else a :: withoutCommand command rest

/-! ### Reading the request -/

/-- A request that names no command: only help and the version can be had. -/
def rootRequest (arguments : List String) : Except UsageError Request := do
  let (fs, _) ← Flags.read (Flag.shared ++ [.help, .version]) {} [] arguments
  return if fs.help then .help else if fs.version then .version else .help

/-- A request to compile. At least one input is needed. -/
def compileRequest (target : Target) (arguments : List String) : Except UsageError Request := do
  let (fs, inputs) ← Flags.read (Flag.shared ++ [.help]) {} [] arguments
  if fs.help then return .help
  if inputs.isEmpty then throw .noInputs
  return .compile target fs inputs

def Request.parse (arguments : List String) : Except UsageError Request :=
  match words arguments with
  | [] => rootRequest arguments
  | word :: _ =>
    match Word.ofText? word with
    | some (.compile target) => compileRequest target (withoutCommand word arguments)
    | some _ => .ok .help
    | none => .error (.unknownCommand word (suggestions word))

end Shaderwright.CommandLine
