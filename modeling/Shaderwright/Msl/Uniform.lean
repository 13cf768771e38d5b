import Shaderwright.Text.Basic
import Shaderwright.Text.Quoted

/-!
The uniforms of a shader and the texts that describe them: the uniform struct, the enumeration
of argument-buffer IDs, the look-up by name, and the dispatch over all shaders of a library.
-/

namespace Shaderwright.Msl

structure Uniform where
  name : String
  /-- The declaration inside the struct, with its semicolon. -/
  field : String
  /-- The first of the `count` argument-buffer IDs that the field takes up. -/
  id : Int64
  count : Int64
  deriving DecidableEq, Repr, Inhabited

inductive Variant where
  | macOS
  | iOS
  deriving DecidableEq, Repr, Inhabited

namespace Variant

def all : List Variant := [macOS, iOS]

def ofCode : Nat → Variant
  | 1 => iOS
  | _ => macOS

def text : Variant → String
  | macOS => "macOS"
  | iOS => "iOS"

/-- An output path that holds the marker is for iOS; an empty marker never decides. -/
def ofPath (path marker : String) : Variant :=
  if marker ≠ "" && Text.contains path marker then iOS else macOS

end Variant

/-! ### Generated names -/

def prefixed (shader name : String) : String := shader ++ "_" ++ name

def uniformsName (shader : String) : String := prefixed shader "Uniforms"

def argumentBufferName (shader : String) : String := prefixed shader "ArgumentBufferID"

def enumeratorName (shader uniform : String) : String := prefixed shader uniform ++ "_ID"

def lookupName (shader : String) : String := prefixed shader "UniformID"

/-! ### Generated texts -/

def concatMap (f : Uniform → String) : List Uniform → String
  | [] => ""
  | u :: rest => f u ++ concatMap f rest

def structText (shader : String) (us : List Uniform) : String :=
  "struct " ++ uniformsName shader ++ " \x7b\n" ++
    concatMap (fun u => "    " ++ u.field ++ "\n") us ++ "\x7d;\n"

def enumText (shader : String) (us : List Uniform) : String :=
  "enum " ++ argumentBufferName shader ++ " \x7b\n" ++
    concatMap (fun u =>
      "    " ++ enumeratorName shader u.name ++ " = " ++ toString u.id.toInt ++ ",\n") us ++
    "\x7d;\n"

/-- The look-up answers -1 for a name that the shader does not have. -/
def lookupText (shader : String) (us : List Uniform) : String :=
  "inline int " ++ lookupName shader ++ "(const char* name) \x7b\n" ++
    concatMap (fun u =>
      "    if (std::strcmp(name, " ++ Text.quote u.name ++ ") == 0) return " ++
        enumeratorName shader u.name ++ ";\n") us ++
    "    return -1;\n\x7d\n"

def dispatchCases : List String → String
  | [] => ""
  | s :: rest =>
    "    if (std::strcmp(shader, " ++ Text.quote s ++ ") == 0) return " ++ lookupName s ++
      "(name);\n" ++ dispatchCases rest

def dispatchBody (shaders : List String) : String :=
  "inline int ShaderUniformID(const char* shader, const char* name) \x7b\n" ++
    dispatchCases shaders ++ "    return -1;\n\x7d"

def dispatchText (shaders : List String) : String := dispatchBody shaders ++ "\n"

end Shaderwright.Msl
