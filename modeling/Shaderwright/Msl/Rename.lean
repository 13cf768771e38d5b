import Shaderwright.Msl.Pattern
import Shaderwright.Text.Basic

/-!
Making names unique to a shader. A helper keeps its source name while the text is written and
gets the name of the shader in front of it afterwards, wherever it stands as a word of its own
and not behind a dot.
-/

namespace Shaderwright.Msl

def isWordChar (c : Char) : Bool :=
  c.isAlphanum || c == '_'

/-- A character that may stand right before a name to be replaced. -/
def separates (c : Char) : Bool :=
  c != '.' && !isWordChar c

/-- Whether a word ends or starts between two neighbouring characters. -/
def isBoundary (before after : Option Char) : Bool :=
  before.any isWordChar != after.any isWordChar

/-- A place where a name was found: the character in front of it, if any, and the name. -/
structure Hit where
  lead : Option Char
  name : List Char
  deriving DecidableEq, Repr

def Hit.text (h : Hit) : List Char := h.lead.toList ++ h.name

/-- The first of the names that the text starts with and that ends at a word boundary there.
`before` is the character in front of the text. -/
def nameAt? (names : List (List Char)) (before : Option Char) (text : List Char) :
    Option (List Char) :=
  names.find? fun name =>
    match Text.behind? name text with
    | none => false
    | some rest => isBoundary (name.getLast? <|> before) rest.head?

/-- A name right here, which is only possible at the start of the whole text, or else a name
behind one separating character. -/
def hitAt? (names : List (List Char)) (atStart : Bool) (text : List Char) : Option Hit :=
  let here := if atStart then (nameAt? names none text).map (Hit.mk none) else none
  here <|>
    match text with
    | [] => none
    | c :: rest => if separates c then (nameAt? names (some c) rest).map (Hit.mk (some c)) else none

def firstHit? (names : List (List Char)) : Bool → List Char → Option Hit
  | atStart, [] => hitAt? names atStart []
  | atStart, c :: text => hitAt? names atStart (c :: text) <|> firstHit? names false text

/-- Put `replacement` in place of every hit, from left to right; `skip` characters belong to
the last hit. A hit counts only if the matched text is a hit by itself too, and none of this
is defined otherwise. -/
def replaceHits (names : List (List Char)) (replacement : Hit → List Char) :
    Bool → Nat → List Char → Option (List Char)
  | _, _, [] => some []
  | _, skip + 1, _ :: text => replaceHits names replacement false skip text
  | atStart, 0, c :: text =>
    match hitAt? names atStart (c :: text) with
    | none => (replaceHits names replacement false 0 text).map (c :: ·)
    | some hit =>
      match firstHit? names true hit.text with
      | none => none
      | some again =>
        (replaceHits names replacement false (hit.text.length - 1) text).map
          (replacement again ++ ·)

def searchable (helpers : List String) : Bool := Pattern.admits (helpers.map String.toList)

/-- The helpers with the name of the shader in front. -/
def renameHelpers (shader : String) (helpers : List String) (text : List Char) :
    Option (List Char) :=
  if helpers.isEmpty then some text
  else if searchable helpers then
    replaceHits (helpers.map String.toList)
      (fun hit => hit.lead.toList ++ shader.toList ++ '_' :: hit.name) true 0 text
  else none

/-- Put `replacement` in place of every `name` that stands at the start of the text or behind
a separating character. -/
def replaceCalls (name replacement : List Char) : Bool → Nat → List Char → List Char
  | _, _, [] => []
  | _, skip + 1, _ :: text => replaceCalls name replacement false skip text
  | atStart, 0, c :: text =>
    if atStart && (Text.behind? name (c :: text)).isSome then
      replacement ++ replaceCalls name replacement false (name.length - 1) text
    else if separates c && (Text.behind? name text).isSome then
      c :: (replacement ++ replaceCalls name replacement false name.length text)
    else c :: replaceCalls name replacement false 0 text

/-- Texture reads through the shader's own sample function, which takes the sampler as well. -/
def routeSamples (shader : String) (text : List Char) : List Char :=
  replaceCalls "sample(".toList (shader ++ "_sample(_sampler, ").toList true 0 text

end Shaderwright.Msl
