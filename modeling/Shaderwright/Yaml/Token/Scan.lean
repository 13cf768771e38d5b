import Shaderwright.Yaml.Token.Quoted

/-!
Reading the tokens of a text, from its first character to its last. Plain scalars are collected
until something ends them: an indicator, a comment, or a line that is not indented further than
the key or the dash that they belong to.
-/

namespace Shaderwright.Yaml

/-- What has been read so far. Texts and tokens are in reverse. -/
structure Scan where
  line : Nat := 1
  column : Nat := 1
  /-- How many blanks the line starts with. -/
  indent : Nat := 0
  /-- The column of the last key or dash, or zero if there was none in the document. -/
  delimiter : Nat := 0
  /-- Whether the line holds nothing but blanks so far. -/
  lineStart : Bool := true
  directive : Bool := false
  /-- How many brackets are open. -/
  lists : Nat := 0
  /-- How many braces are open. -/
  maps : Nat := 0
  /-- A plain scalar, which may still go on. -/
  plain : List Char := []
  /-- The line and the column of a plain scalar that started on an earlier line. -/
  started : Option (Nat × Nat) := none
  /-- Everything behind the last token. -/
  source : List Char := []
  tokens : List Token := []
  deriving Repr, Inhabited

namespace Scan

/-- The plain scalar without the blanks and line breaks behind it. -/
def word (s : Scan) : List Char := s.plain.dropWhile fun c => isSpace c || c == '\n'

def inPlain (s : Scan) : Bool := !s.word.isEmpty

def text (cs : List Char) : String := String.ofList cs.reverse

/-- Cut off the plain scalar as a token, if there is one. -/
def cut (s : Scan) : Scan :=
  if s.inPlain then
    let (line, column) := s.started.getD (s.line, s.column - s.plain.length)
    { s with
      plain := []
      started := none
      source := []
      tokens := ⟨.plain, text s.word, text s.source, line, column, 0⟩ :: s.tokens }
  else { s with plain := [], started := none }

/-- Put a token of this source behind the others and go on `size` columns further right. -/
def put (s : Scan) (kind : TokenKind) (source : String) (size : Nat) : Scan :=
  { s with
    column := s.column + size
    plain := []
    source := []
    tokens := ⟨kind, "", source, s.line, s.column, 0⟩ :: s.tokens }

/-- The same for a single character, together with the white space in front of it. -/
def mark (s : Scan) (kind : TokenKind) (c : Char) : Scan :=
  s.put kind (text (c :: s.source)) 1

/-- Add a character to the plain scalar, which does not start with a blank. -/
def collect (s : Scan) (c : Char) : Scan :=
  if s.plain.isEmpty && isSpace c then s else { s with plain := c :: s.plain }

def ordinary (s : Scan) (c : Char) : Scan :=
  { s.collect c with source := c :: s.source, column := s.column + 1 }

def nextLine (s : Scan) : Scan :=
  { s with line := s.line + 1, column := 1, indent := 0, lineStart := true, directive := false }

/-- Whether `c` is the first character of a line that is not indented further than the last key
or dash. -/
def outdents (s : Scan) (c : Char) : Bool :=
  s.lineStart && !isSpace c && !isBreak c && s.delimiter != 0 && s.column ≤ s.delimiter

/-- Take notice of `c` at the start of a line. -/
def enter (s : Scan) (c : Char) : Scan :=
  if !s.lineStart || isBreak c || c == '\t' then s
  else if c == ' ' then { s with indent := s.indent + 1 }
  else { s with lineStart := false }

/-- Whether the white space behind the last token starts with a tab, or with a blank and a tab. -/
def startsTabbed (s : Scan) : Bool :=
  match s.source.reverse with
  | '\t' :: _ => true
  | ' ' :: '\t' :: _ => true
  | _ => false

def inFlow (s : Scan) : Bool := s.lists != 0 || s.maps != 0

/-! ### Line breaks, blanks and comments -/

/-- A line break. Inside a plain scalar it counts as a blank, and an empty line as a break. -/
def readBreak (s : Scan) (c : Char) (rest : List Char) : Scan × List Char :=
  let s := if !s.plain.isEmpty && s.started.isNone then
      { s with started := some (s.line, s.column - s.word.length) }
    else s
  let trimmed := s.source.dropWhile isSpace
  let s := if trimmed.length < s.source.length then { s with source := trimmed, plain := s.word }
    else s
  let (s, c, rest) := match c, rest with
    | '\r', '\n' :: rest => ({ s with source := '\r' :: s.source }, '\n', rest)
    | _, _ => (s, c, rest)
  let s := if rest.isEmpty || s.directive then s.cut else s
  let s := if s.inPlain && s.lineStart then
      { s with plain := '\n' :: (if s.plain.head? = some ' ' then s.plain.tail else s.plain) }
    else s.collect ' '
  ({ s with source := c :: s.source }.nextLine, rest)

def readComment (s : Scan) (rest : List Char) : Scan × List Char :=
  let s := s.cut
  let body := rest.takeWhile (!isBreak ·)
  let rest := rest.dropWhile (!isBreak ·)
  let source := text s.source ++ "#" ++ String.ofList (body ++ rest.take 1)
  ((s.put .comment source 0).nextLine, rest.drop 1)

/-- A tab. It is left out of plain scalars and does not count as a column, but it cannot indent. -/
def readTab (s : Scan) : Except ReadError Scan :=
  if (s.inPlain && s.delimiter = 0) || s.delimiter < s.column then
    .ok { s with indent := s.indent + 1, source := '\t' :: s.source }
  else if !s.inFlow && s.lineStart then .error .malformed
  else .ok (s.ordinary '\t')

/-- A blank; the words of a directive are separated by them. -/
def readBlank (s : Scan) : Scan :=
  if s.lineStart then { s with column := s.column + 1, source := ' ' :: s.source }
  else if s.directive then
    let s := s.cut
    { s with column := s.column + 1, source := ' ' :: s.source }
  else s.ordinary ' '

/-! ### Indicators -/

/-- Whether a colon separates a key from its value. Inside braces it does so whatever follows,
but only once. -/
def separates (s : Scan) (rest : List Char) : Bool :=
  if s.maps = 0 then endsWord rest
  else rest.head? != some '/' && !s.tokens.head?.any (·.kind = .colon)

def readColon (s : Scan) : Except ReadError Scan :=
  if s.startsTabbed then .error .malformed
  else
    let key := s.inPlain
    let s := s.cut
    let delimiter := match s.tokens with
      | t :: _ => if key || t.kind = .quoted then t.column else s.delimiter
      | [] => s.delimiter
    .ok { s.put .colon ":" 1 with delimiter := delimiter }

/-- A mark between documents is three times the same character at the start of a line. -/
def atMarker (s : Scan) (c : Char) (rest : List Char) : Bool :=
  s.indent = 0 && s.column = 1 && repeated c (c :: rest) = 3

def readMarker (s : Scan) (kind : TokenKind) (c : Char) : Scan :=
  let s := s.cut
  s.put kind (text (c :: c :: c :: s.source)) 3

/-- Whether a colon with a blank or a break behind it is what comes next. -/
def mergesBefore : List Char → Bool
  | ':' :: c :: rest => c == ' ' || isBreak c || mergesBefore (c :: rest)
  | ' ' :: rest => mergesBefore rest
  | _ => false

def isMerge (c : Char) (rest : List Char) : Bool :=
  repeated c (c :: rest) = 2 && mergesBefore (rest.drop 1)

def readDash (s : Scan) : Except ReadError Scan :=
  if s.startsTabbed then .error .malformed
  else .ok { s.mark .dash '-' with delimiter := s.column }

/-- Characters that start constructs which are not understood. -/
def isReserved (c : Char) : Bool :=
  c == '&' || c == '*' || c == '!' || c == '|' || c == '>' || c == '@' || c == '`'

def readQuoted (s : Scan) (c : Char) (rest : List Char) : Except ReadError (Scan × List Char) := do
  let q : Quoted := { source := c :: s.source, line := s.line, column := s.column + 1 }
  let (q, rest) ← if c == '"' then q.double s.delimiter 0 rest else q.single s.delimiter rest
  let token : Token := ⟨.quoted, text q.text, text q.source, s.line, s.column, 0⟩
  let s := if q.folded then s.nextLine else s
  return ({ s with
    line := q.line
    column := q.column
    plain := []
    source := []
    tokens := token :: s.tokens }, rest)

/-- Read one character, and those behind it that belong to it. -/
def step (s : Scan) (c : Char) (rest : List Char) : Except ReadError (Scan × List Char) :=
  let s := if s.outdents c then s.cut else s
  let s := s.enter c
  let one (s : Scan) : Except ReadError (Scan × List Char) := .ok (s, rest)
  if isBreak c then .ok (s.readBreak c rest)
  else if c == ' ' then one s.readBlank
  else if c == '\t' then do one (← s.readTab)
  else if c == '\x7d' && s.maps != 0 then
    one { s.cut.mark .closeMap c with maps := s.maps - 1 }
  else if c == ']' && (!s.inPlain || s.lists != 0) then
    one { s.cut.mark .closeList c with lists := s.lists - 1 }
  else if c == ',' && s.inFlow then one (s.cut.mark .comma c)
  else if c == '.' && s.atMarker c rest then .ok (s.readMarker .documentEnd c, rest.drop 2)
  else if c == '-' && s.atMarker c rest && endsWord (rest.drop 2) then
    .ok ({ s.readMarker .documentStart c with delimiter := 0, indent := 0 }, rest.drop 2)
  else if c == '<' && isMerge c rest then
    .ok ({ s.put .merge (text ('<' :: '<' :: s.source)) 2 with delimiter := s.column }, rest.drop 1)
  else if c == ':' && s.separates rest then do one (← s.readColon)
  else if c == '#' && (!s.inPlain || s.source.head?.any fun p => isSpace p || isBreak p) then
    .ok (s.readComment rest)
  else if s.inPlain then one (s.ordinary c)
  else if c == '\x7b' then one { s.mark .openMap c with maps := s.maps + 1 }
  else if c == '[' then one { s.mark .openList c with lists := s.lists + 1 }
  else if c == '-' && endsWord rest then do one (← s.readDash)
  else if c == '?' && rest.head?.any isSpace then
    one { s.put .question "?" 1 with delimiter := s.column }
  else if c == '%' && s.indent = 0 then one { s.mark .percent c with directive := true }
  else if c == '\'' || c == '"' then s.readQuoted c rest
  else if isReserved c then .error .malformed
  else one (s.ordinary c)

/-- Read a whole text. Every step takes a character off, so that its length is fuel enough. -/
def run : Nat → Scan → List Char → Except ReadError Scan
  | _, s, [] => .ok s.cut
  | 0, _, _ :: _ => .error .malformed
  | fuel + 1, s, c :: rest => do
    let (s, rest) ← s.step c rest
    run fuel s rest

end Scan

def tokens (text : String) : Except ReadError (List Token) := do
  let chars := text.toList
  let s ← Scan.run chars.length {} chars
  return Token.settle [] "" s.tokens.reverse

end Shaderwright.Yaml
