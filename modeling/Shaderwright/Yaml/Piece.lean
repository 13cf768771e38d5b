import Shaderwright.Yaml.Token

/-!
Tokens put together: a key with its colon, a key with the scalar behind it on the same line, and
the pieces of one document.
-/

namespace Shaderwright.Yaml

/-- A key, which a question mark may announce. -/
structure KeyPiece where
  question : Option Token
  name : Token
  deriving DecidableEq, Repr, Inhabited

def KeyPiece.first (k : KeyPiece) : Token := k.question.getD k.name

inductive Piece where
  | token (t : Token)
  | key (k : KeyPiece)
  | pair (k : KeyPiece) (value : Token)
  /-- A directive, which has no meaning for the document. -/
  | directive (percent : Token)
  deriving DecidableEq, Repr, Inhabited

namespace Piece

def first : Piece → Token
  | token t => t
  | key k => k.first
  | pair k _ => k.first
  | directive t => t

def column (p : Piece) : Nat := p.first.column

def line (p : Piece) : Nat := p.first.line

def is (kind : TokenKind) : Piece → Bool
  | token t => t.kind = kind
  | _ => false

def isScalar : Piece → Bool
  | token t => t.isScalar
  | _ => false

def isEntry : Piece → Bool
  | key _ => true
  | pair _ _ => true
  | _ => false

end Piece

def Token.mayBeKey (t : Token) : Bool :=
  match t.kind with
  | .plain => true
  | .quoted => true
  | .merge => true
  | .dash => true
  | .question => true
  | _ => false

/-- Put keys and their colons together. -/
def joinKeys : List Token → Except ReadError (List Piece)
  | [] => .ok []
  | t :: rest =>
    if t.kind = .question then
      match rest with
      | [] => .error .malformed
      | name :: rest =>
        match rest with
        | [] => .ok [.key ⟨some t, name⟩]
        | colon :: behind =>
          if colon.kind = .colon then return .key ⟨some t, name⟩ :: (← joinKeys behind)
          else return .key ⟨some t, name⟩ :: (← joinKeys (colon :: behind))
    else if t.kind = .colon then .error .malformed
    else
      match rest with
      | [] => .ok [.token t]
      | colon :: behind =>
        if colon.kind = .colon then
          if t.mayBeKey then return .key ⟨none, t⟩ :: (← joinKeys behind) else .error .malformed
        else return .token t :: (← joinKeys (colon :: behind))

/-- Put keys and the scalars behind them on the same line together. -/
def joinPairs : List Piece → List Piece
  | .key k :: .token t :: rest =>
    if t.isScalar && k.first.line = t.line then .pair k t :: joinPairs rest
    else .key k :: joinPairs (.token t :: rest)
  | p :: rest => p :: joinPairs rest
  | [] => []

/-- Whether the words behind a percent sign are a directive. -/
def isDirective (words : List Piece) : Bool :=
  match words with
  | .token name :: values =>
    name.isScalar &&
      match name.text with
      | "YAML" =>
        match values with
        | [version] => ["1.0", "1.1", "1.2", "1.3"].contains version.first.text
        | _ => false
      | "TAG" => values.length = 2
      | _ => true
  | _ => false

/-- Put directives together. A directive stands in front of the start of a document. `words` has
those of an open directive, in reverse. -/
def joinDirectives : Option (Token × List Piece) → List Piece → Except ReadError (List Piece)
  | some _, [] => .error .malformed
  | none, [] => .ok []
  | some (t, words), p :: rest =>
    if words.isEmpty || p.line = t.line then joinDirectives (some (t, p :: words)) rest
    else if p.is .documentStart && isDirective words.reverse then
      return .directive t :: p :: (← joinDirectives none rest)
    else .error .malformed
  | none, p :: rest =>
    if p.is .percent then joinDirectives (some (p.first, [])) rest
    else return p :: (← joinDirectives none rest)

/-- The pieces of each document, where `done` has those of the first one in reverse. A start right
behind another one ends the reading. -/
def splitDocuments : List Piece → List Piece → Except ReadError (List (List Piece))
  | done, [] => .ok [done.reverse]
  | done, p :: rest =>
    if p.is .documentStart then
      let before := if done.isEmpty then [] else [done.reverse]
      match rest with
      | [] => .ok (before ++ [[p]])
      | next :: behind =>
        if next.is .documentStart then .ok (before ++ [[p]])
        else if p.line = next.line && (next.isEntry || next.is .dash) then .error .malformed
        else do
          match ← splitDocuments [] (next :: behind) with
          | first :: others => return before ++ (p :: first) :: others
          | [] => return before ++ [[p]]
    else if p.is .documentEnd then
      let before := if done.isEmpty then [] else [(p :: done).reverse]
      match rest with
      | [] => .ok before
      | next :: behind =>
        if next.isScalar then .error .malformed
        else return before ++ (← splitDocuments [] (next :: behind))
    else splitDocuments (p :: done) rest

def documentPieces (tokens : List Token) : Except ReadError (List (List Piece)) := do
  splitDocuments [] (← joinDirectives none (joinPairs (← joinKeys tokens)))

end Shaderwright.Yaml
