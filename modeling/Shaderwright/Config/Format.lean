import Shaderwright.Config.Basic
import Shaderwright.Text.Case

/-!
The formats of a configuration, and what can be wrong with one.
-/

namespace Shaderwright.Config

inductive Format where
  | yaml
  | toml
  deriving DecidableEq, Repr

namespace Format

def name : Format → String
  | yaml => "yaml"
  | toml => "toml"

def ofName? : String → Option Format
  | "yaml" => some yaml
  | "toml" => some toml
  | _ => none

def ofPath? (path : String) : Option Format :=
  match Text.lower (Path.ext path) with
  | ".yaml" => some yaml
  | ".yml" => some yaml
  | ".toml" => some toml
  | _ => none

end Format

inductive Shape where
  | table
  | text
  | integer
  | texts
  deriving DecidableEq, Repr

namespace Shape

def name : Shape → String
  | table => "struct"
  | text => "string"
  | integer => "int"
  | texts => "slice"

end Shape

/-- Why a text or a file is no configuration. -/
inductive ReadError where
  | extension (path : String)
  | format (name : String)
  | malformed (format : Format)
  | unknownField (format : Format)
  /-- A key below a setting that is no table. -/
  | belowSetting (shape : Shape)
  /-- A table below a setting that is no table. -/
  | tableBelowSetting
  /-- Only the own home directory has a short form. -/
  | home
  | setting (e : SettingError)
  deriving DecidableEq, Repr

/-- Errors of the document format have no message of their own. -/
def ReadError.message? : ReadError → Option String
  | extension path => some ("unsupported config file extension " ++ Text.quote (Path.ext path))
  | format name => some ("unsupported config format " ++ Text.quote name)
  | malformed _ => none
  | unknownField _ => none
  | belowSetting shape => some ("unhandled kv part: " ++ shape.name)
  | tableBelowSetting => none
  | home => some "cannot expand user-specific home dir"
  | setting e => some e.message

end Shaderwright.Config
