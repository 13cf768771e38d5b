import Shaderwright.Build.World
import Shaderwright.Document.Basic
import Shaderwright.Msl.Uniform

/-!
The metadata of a shader library: every shader compiled into it leaves its uniform struct, its
IDs and its look-up in the header of one platform, and the dispatch function is kept up to date.
-/

namespace Shaderwright.Msl

def metadataOpening : String := "// @@BEGIN SHADER METADATA@@"
def metadataClosing : String := "// @@END SHADER METADATA@@"
def dispatchOpening : String := "// @@BEGIN UNIFORM DISPATCH@@"
def dispatchClosing : String := "// @@END UNIFORM DISPATCH@@"

def metadataMark : String := "// shader: "

def metadataSection : Section where
  name := "metadata"
  opening := metadataOpening
  closing := metadataClosing
  key := markedKey? metadataMark

def dispatchSection : Section where
  name := "dispatch"
  opening := dispatchOpening
  closing := dispatchClosing
  key _ := none

def metadataSections : List Section := [metadataSection, dispatchSection]

def defaultCommonHeader : String := "ShaderCommon.h"

def defaultMetadataHeaders : List (Variant × String) :=
  [(.macOS, "ShaderMetadata_macOS.h"), (.iOS, "ShaderMetadata_iOS.h")]

def commonHeaderText : String := Text.unlines [
  "// Generated by shadergen. Do not edit.",
  "#pragma once",
  "",
  "#include <metal_stdlib>",
  "using namespace metal;",
  "",
  "#define lowp",
  "#define mediump",
  "#define highp",
  "",
  "struct FragmentIn \x7b",
  "    float4 position [[position]];",
  "    float2 uv;",
  "    float4 color;",
  "    float2 coord;",
  "\x7d;",
  ""]

def metadataHeaderText (v : Variant) (common : String) : String := Text.unlines [
  "// Generated by shadergen. Do not edit.",
  "// Shader uniform metadata (" ++ v.text ++ ").",
  "#pragma once",
  "",
  "#include \"" ++ common ++ "\"",
  "#include <cstring>",
  "",
  metadataOpening,
  metadataClosing,
  "",
  dispatchOpening,
  dispatchClosing,
  ""]

structure Library where
  /-- The file name of the header that all shaders share. -/
  commonHeader : String := defaultCommonHeader
  /-- The file names of the metadata headers. -/
  metadataHeaders : List (Variant × String) := defaultMetadataHeaders
  /-- The text of the common header, which is empty until a shader is recorded. -/
  common : String := ""
  /-- The metadata header of every platform that a shader was recorded for. -/
  documents : List (Variant × Document) := []
  /-- The shaders recorded, in the order of their first compile. -/
  shaders : List String := []

namespace Library

/-- An empty library; a missing name takes its default. -/
def new (commonHeader : String) (metadataHeaders : Option (List (Variant × String))) : Library where
  commonHeader := if commonHeader = "" then defaultCommonHeader else commonHeader
  metadataHeaders := metadataHeaders.getD defaultMetadataHeaders

def document? (l : Library) (v : Variant) : Option Document := l.documents.lookup v

/-- The text of a metadata header, empty if no shader was recorded for the platform. -/
def metadata (l : Library) (v : Variant) : String :=
  match l.document? v with
  | some doc => doc.text
  | none => ""

def setDocument (l : Library) (v : Variant) (doc : Document) : Library :=
  { l with documents := (v, doc) :: l.documents.filter fun d => d.1 != v }

def entryLines (shader : String) (us : List Uniform) : List String :=
  (metadataMark ++ shader) ::
    [structText shader us, enumText shader us, lookupText shader us].flatMap Text.lines

/-- Record a shader in a metadata header. What was recorded under its name before is replaced. -/
def recordIn (doc : Document) (shader : String) (us : List Uniform) :
    Except DocumentError Document := do
  let (_, doc) ← doc.upsert "metadata" shader (entryLines shader us)
  let shaders ← doc.keys "metadata"
  doc.set "dispatch" (Text.lines (dispatchBody shaders))

/-- The header of a platform, which starts from the skeleton when it is first needed. -/
def openDocument (l : Library) (v : Variant) : Except DocumentError Document :=
  match l.document? v with
  | some doc => .ok doc
  | none => Document.parse metadataSections (metadataHeaderText v l.commonHeader)

/-- Record a shader. The common header is seeded in any case. -/
def record (l : Library) (shader : String) (v : Variant) (us : List Uniform) :
    Except DocumentError Unit × Library :=
  let l := if l.common = "" then { l with common := commonHeaderText } else l
  match l.openDocument v with
  | .error e => (.error e, l)
  | .ok doc =>
    match recordIn doc shader us with
    | .error e => (.error e, l.setDocument v doc)
    | .ok doc =>
      let l := l.setDocument v doc
      (.ok (), if l.shaders.contains shader then l else { l with shaders := l.shaders ++ [shader] })

end Library

inductive FlushError where
  | file (e : FileError)
  | unnamed (v : Variant)
  deriving DecidableEq, Repr

def FlushError.message : FlushError → String
  | file e => e.message
  | unnamed v => "no metadata header name for " ++ v.text

namespace Library

def writeHeader (dir name text : String) : Build (Option FlushError) := do
  let path := Path.join dir name
  let (r, files) := (← get).files.store path text
  Build.setFiles files
  match r with
  | .error e => failed path e
  | .ok _ =>
    Build.log .debug "wrote metadata header" [("path", .text path)]
    return none
where
  failed (path : String) (e : FileError) : Build (Option FlushError) := do
    Build.log .error "metadata header write failed"
      [("path", .text path), ("error", .text e.message)]
    Build.count (.failed "msl")
    return some (.file e)

def writeVariant (l : Library) (dir : String) (v : Variant) : Build (Option FlushError) := do
  match l.document? v, l.metadataHeaders.lookup v with
  | none, _ => return none
  | some _, none => return some (.unnamed v)
  | some doc, some name => writeHeader dir name doc.text

/-- Write the headers into a directory. Each failure is logged and the others are still written. -/
def flush (l : Library) (dir : String) : Build (List FlushError) := do
  let common ← if l.common = "" then pure none else writeHeader dir l.commonHeader l.common
  let variants ← Variant.all.mapM (l.writeVariant dir)
  return (common :: variants).filterMap id

end Library

end Shaderwright.Msl
