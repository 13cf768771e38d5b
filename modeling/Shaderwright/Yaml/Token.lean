/-!
Tokens of a YAML document. Beside its meaning a token keeps the part of the text that it was read
from, with the white space around it, so that a part of a document can be read again on its own.
-/

namespace Shaderwright.Yaml

/-- The text is no document that the reader understands. -/
inductive ReadError where
  | malformed
  deriving DecidableEq, Repr

inductive TokenKind where
  /-- A scalar without quotes. -/
  | plain
  | quoted
  /-- The key `<<`, whose value is merged into the mapping. -/
  | merge
  /-- The dash in front of an item of a list. -/
  | dash
  /-- The question mark in front of a key. -/
  | question
  /-- The colon behind a key. -/
  | colon
  | comma
  | openList
  | closeList
  | openMap
  | closeMap
  /-- The percent sign in front of a directive. -/
  | percent
  | documentStart
  | documentEnd
  | comment
  deriving DecidableEq, Repr, Inhabited

structure Token where
  kind : TokenKind
  /-- What the token says, without quotes and escapes. -/
  text : String
  /-- The part of the text that it was read from. -/
  source : String
  line : Nat
  column : Nat
  /-- How far the collection around it is indented. -/
  margin : Nat := 0
  deriving DecidableEq, Repr, Inhabited

def isSpace (c : Char) : Bool := c == ' ' || c == '\t'

def isBreak (c : Char) : Bool := c == '\n' || c == '\r'

/-- Whether the text goes on with a blank, a line break, or not at all. -/
def endsWord (rest : List Char) : Bool :=
  match rest with
  | [] => true
  | c :: _ => isSpace c || isBreak c

def repeated (c : Char) (text : List Char) : Nat := (text.takeWhile (· == c)).length

/-- Whether a line starts with one of the marks between documents. -/
def startsMarker (line : List Char) : Bool :=
  [['-', '-', '-'], ['.', '.', '.']].contains (line.take 3) && endsWord (line.drop 3)

def unifyBreaks : List Char → List Char
  | '\r' :: '\n' :: rest => '\n' :: unifyBreaks rest
  | c :: rest => (if c == '\r' then '\n' else c) :: unifyBreaks rest
  | [] => []

namespace Token

def isScalar (t : Token) : Bool := t.kind = .plain || t.kind = .quoted

/-- The column where the collection around a token starts, told by the tokens in front of it, the
nearest one first, and the one behind it. A value starts where its key does and an item where its
dash does. -/
def leftmost (before : List Token) (t : Token) (after : Option Token) : Nat :=
  if t.kind = .dash || after.any (·.kind = .colon) then t.column
  else
    match before with
    | p :: before =>
      if p.kind = .colon then
        match before with
        | key :: _ => key.column
        | [] => t.column
      else if p.kind = .dash then p.column
      else t.column
    | [] => t.column

/-- The tokens without comments, of which only the line breaks are kept, and with their margins.
`before` has the tokens in front, the nearest one first. -/
def settle : List Token → String → List Token → List Token
  | _, _, [] => []
  | before, breaks, t :: rest =>
    if t.kind = .comment then
      let lines := (unifyBreaks t.source.toList).filter (· == '\n')
      settle (t :: before) (breaks ++ String.ofList lines) rest
    else
      { t with source := breaks ++ t.source, margin := leftmost before t rest.head? - 1 } ::
        settle (t :: before) "" rest

end Token

end Shaderwright.Yaml
