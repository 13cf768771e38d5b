import Shaderwright.Files.Tree
import Shaderwright.Source.Decode
import Shaderwright.Source.Resolve

/-!
Reading shader files.
-/

namespace Shaderwright.Source

inductive TextError where
  /-- There is no document at all. -/
  | empty
  | malformed
  | unknownField
  | form (e : FormError)
  deriving DecidableEq, Repr

namespace TextError

/-- Errors of the document format have no message of their own. -/
def message? : TextError → Option String
  | empty => some "EOF"
  | malformed => none
  | unknownField => none
  | form e => some e.message

def ofDecode : Yaml.DecodeError → TextError
  | .mismatch => malformed
  | .unknownField => unknownField

end TextError

/-- Nested parts of a text are shorter than twice the text around them, so that its length bounds
their depth. -/
def parse (text : String) : Except TextError Shader := do
  match Yaml.read text with
  | .error .malformed => .error .malformed
  | .ok none => .error .empty
  | .ok (some document) => do
    let form ← (decodeShader (2 * text.length + 2) document.node).mapError .ofDecode
    (shader form).mapError .form

inductive LoadError where
  | file (e : FileError)
  | text (path : String) (e : TextError)
  deriving DecidableEq, Repr

/-- A file that could be opened is named in front of whatever else is wrong. -/
def LoadError.message? : LoadError → Option String
  | file e => some (if e.call = .read then e.path ++ ": " ++ e.message else e.message)
  | text path e => e.message?.map fun m => path ++ ": " ++ m

/-- A shader without a name is named after its file. -/
def load (files : FileTree) (path : String) : Except LoadError Shader := do
  let text ← (files.read path).mapError .file
  let s ← (parse text).mapError (.text path)
  return if s.name = "" then { s with name := Path.stem path } else s

end Shaderwright.Source
