import Shaderwright.Config.OfToml
import Shaderwright.Config.OfYaml

/-!
Reading configurations from texts and files.
-/

namespace Shaderwright.Config

def formatOf (path : String) : Except ReadError Format :=
  match Format.ofPath? path with
  | some f => .ok f
  | none => .error (.extension path)

def isBlankLine (line : String) : Bool :=
  let line := Text.trim line
  line == "" || line == "---" || line == "..." || line.toList.head? == some '#'

/-- Whether a text has nothing but white space, comments and marks between documents. -/
def isBlank (text : String) : Bool := (Text.lines text).all isBlankLine

/-- Put the home directory in place of a leading tilde. -/
def expandHome (home path : String) : Except ReadError String :=
  match path.toList with
  | ['~'] => .ok (Path.join home "")
  | '~' :: c :: rest =>
    if c = '/' || c = '\\' then .ok (Path.join home (String.ofList (c :: rest))) else .error .home
  | _ => .ok path

def expand (home : String) (c : Config) : Except ReadError Config := do
  let hlslDir ← expandHome home c.hlsl.headerDir
  let mslDir ← expandHome home c.msl.headerDir
  return { c with
    hlsl := { c.hlsl with headerDir := hlslDir }
    msl := { c.msl with headerDir := mslDir } }

def ofText (format : Format) (text : String) : Except ReadError Config :=
  if isBlank text then .ok standard
  else
    match format with
    | .yaml => ofYaml standard text
    | .toml => ofToml standard text

def parse (home : String) (format : Format) (text : String) : Except ReadError Config := do
  let c ← expand home (← ofText format text)
  c.validate.mapError .setting
  return c

def parseAs (home format text : String) : Except ReadError Config :=
  match Format.ofName? format with
  | some f => parse home f text
  | none => .error (.format format)

inductive LoadError where
  /-- The path itself will not do. -/
  | unusable (e : ReadError)
  | file (path : String) (e : FileError)
  | text (path : String) (e : ReadError)
  deriving DecidableEq, Repr

def LoadError.message? : LoadError → Option String
  | unusable e => e.message?
  | file path e => some ("could not read " ++ path ++ ": " ++ e.message)
  | text path e => e.message?.map fun m => path ++ ": " ++ m

def load (home : String) (files : FileTree) (path : String) : Except LoadError Config := do
  let path ← (expandHome home path).mapError .unusable
  let format ← (formatOf path).mapError .unusable
  let text ← (files.read path).mapError (.file path)
  (parse home format text).mapError (.text path)

end Shaderwright.Config
