import Shaderwright.Build.World
import Shaderwright.Document.File
import Shaderwright.Hlsl.Binding

/-!
Resource headers: one file with the shared types, and one per target type with the binding
table of every shader and a registry of all tables.
-/

namespace Shaderwright.Hlsl

def collectionsOpening : String := "// @@BEGIN RESOURCE COLLECTIONS@@"
def collectionsClosing : String := "// @@END RESOURCE COLLECTIONS@@"
def registryOpening : String := "// @@BEGIN SHADER REGISTRY@@"
def registryClosing : String := "// @@END SHADER REGISTRY@@"

def tableMark : String := "// shader: "

/-- The blanks that may stand in front of a row of the registry. -/
def isRowBlank (c : Char) : Bool :=
  c == ' ' || c == '\t' || c == '\n' || c == '\x0c' || c == '\r'

/-- The key of a row of the registry: what stands between the first two quotes. -/
def registryKey? (line : String) : Option String := do
  let row ← Text.behind? "\x7b \"".toList (line.toList.dropWhile isRowBlank)
  let name := row.takeWhile (· ≠ '"')
  let behind := row.dropWhile (· ≠ '"')
  if name.isEmpty || !"\",".toList.isPrefixOf behind then none
  return String.ofList name

def collections : Section where
  name := "collections"
  opening := collectionsOpening
  closing := collectionsClosing
  key := markedKey? tableMark

def registry : Section where
  name := "registry"
  opening := registryOpening
  closing := registryClosing
  key := registryKey?

def headerSections : List Section := [collections, registry]

def commonHeaderText : String := Text.unlines [
  "// Generated by shadergen. Do not edit.",
  "#pragma once",
  "",
  "#include <cstdint>",
  "",
  "enum class ShaderResourceCategory : uint8_t \x7b",
  "    Const32,",
  "    Const64,",
  "    Const96,",
  "    Const128,",
  "    Texture,",
  "    Sampler,",
  "\x7d;",
  "",
  "struct ShaderResourceBinding \x7b",
  "    const char* name;",
  "    ShaderResourceCategory category;",
  "    uint32_t slot;",
  "    uint32_t count;",
  "\x7d;",
  "",
  "struct ShaderResourceTable \x7b",
  "    const char* shader;",
  "    const ShaderResourceBinding* bindings;",
  "    uint32_t count;",
  "\x7d;",
  ""]

def targetHeaderText (target common : String) : String := Text.unlines [
  "// Generated by shadergen. Do not edit.",
  "#pragma once",
  "",
  "#include " ++ Text.quote common,
  "",
  "namespace " ++ target ++ " \x7b",
  "",
  collectionsOpening,
  collectionsClosing,
  "",
  "static const ShaderResourceTable kShaderResourceTables[] = \x7b",
  registryOpening,
  registryClosing,
  "    \x7b nullptr, nullptr, 0 \x7d,",
  "\x7d;",
  "",
  "\x7d // namespace " ++ target,
  ""]

def targetHeaderName (target : String) : String := target ++ "Resources.h"

def tableName (shader : String) : String := shader ++ "_Resources"

def tableLines (shader : String) (bs : List Binding) : List String :=
  let table := match bs with
    | [] => ["static const ShaderResourceBinding* const " ++ tableName shader ++ " = nullptr;"]
    | bs =>
      ("static const ShaderResourceBinding " ++ tableName shader ++ "[] = \x7b") ::
        (bs.map fun b => "    " ++ b.row ++ ",") ++ ["\x7d;"]
  (tableMark ++ shader) :: table ++ [""]

def registryLine (shader : String) (count : Nat) : String :=
  "    \x7b " ++ Text.quote shader ++ ", " ++ tableName shader ++ ", " ++ toString count ++ " \x7d,"

/-- Record a shader in a target header. The answer tells whether it was there before. -/
def recordShader (shader : String) (bs : List Binding) (doc : Document) :
    Except DocumentError (Bool × Document) := do
  let (_, doc) ← doc.upsert "collections" shader (tableLines shader bs)
  doc.upsert "registry" shader [registryLine shader bs.length]

structure HeaderPlace where
  dir : String
  target : String
  common : String
  deriving DecidableEq, Repr, Inhabited

namespace HeaderPlace

def commonPath (p : HeaderPlace) : String := Path.join p.dir p.common

def targetPath (p : HeaderPlace) : String := Path.join p.dir (targetHeaderName p.target)

end HeaderPlace

/-- Create the headers on first use and record a shader in them. The answer is the path of the
target header, or the path and the error that stood in the way. -/
def mergeHeaders (p : HeaderPlace) (shader : String) (bs : List Binding) :
    Build (Except (String × HeaderError) String) := do
  let (r, files) := (← get).files.ensure p.commonPath commonHeaderText
  Build.setFiles files
  match r with
  | .error e => return .error (p.commonPath, .file e)
  | .ok created =>
    if created then
      Build.log .info "created common resource header" [("path", .text p.commonPath)]
    let merge := files.merge p.targetPath (targetHeaderText p.target p.common) headerSections
      (recordShader shader bs)
    Build.setFiles merge.files
    if merge.report = some true then
      Build.log .debug "replaced existing resource table"
        [("shader", .text shader), ("path", .text p.targetPath)]
    match merge.error with
    | some e => return .error (p.targetPath, e)
    | none => return .ok p.targetPath

end Shaderwright.Hlsl
