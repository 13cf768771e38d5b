import Shaderwright.Number.Reader

/-!
Values and keys of TOML. Every reader takes the characters in front of it and returns what it
has read together with the characters behind it, or nothing if they do not fit.
-/

namespace Shaderwright.Toml

inductive Value where
  | text (s : String)
  | integer (n : Int)
  /-- A truth value, a fraction, a date or a number that is none, which no setting takes. -/
  | other
  | array (items : List Value)
  | table (fields : List (List String × Value))
  deriving Repr, Inhabited

abbrev Reader (α : Type) := List Char → Option (α × List Char)

def isSpace (c : Char) : Bool := c == ' ' || c == '\t'

def skipSpaces (cs : List Char) : List Char := cs.dropWhile isSpace

/-- Characters that may not stand in a text or a comment. -/
def isControl (c : Char) : Bool := (c < ' ' && c != '\t') || c == '\x7f'

def skipFiller (inComment : Bool) : List Char → Option (List Char)
  | [] => some []
  | c :: rest =>
    if c = '\n' then skipFiller false rest
    else if c = '\r' && rest.head? = some '\n' then skipFiller inComment rest
    else if inComment then if isControl c then none else skipFiller true rest
    else if isSpace c then skipFiller false rest
    else if c = '#' then skipFiller true rest
    else some (c :: rest)

/-- The rest of the line behind a comment, with the break that ends it. -/
def skipComment : List Char → Option (List Char)
  | [] => some []
  | '\n' :: rest => some ('\n' :: rest)
  | '\r' :: '\n' :: rest => some ('\n' :: rest)
  | c :: rest => if isControl c then none else skipComment rest

def skipRemark (cs : List Char) : Option (List Char) :=
  match skipSpaces cs with
  | '#' :: rest => skipComment rest
  | rest => some rest

/-! ### Texts -/

/-- The character that hexadecimal digits stand for; halves of a pair are none. -/
def codePoint? (digits : List Char) : Option Char := do
  let n ← Number.natural? 16 digits
  if h : n.isValidChar then some (Char.ofNatAux n h) else none

def escaped? : Char → Option Char
  | '"' => some '"'
  | '\\' => some '\\'
  | 'b' => some '\x08'
  | 't' => some '\t'
  | 'n' => some '\n'
  | 'f' => some '\x0c'
  | 'r' => some '\r'
  | 'e' => some '\x1b'
  | _ => none

/-- The rest of a basic text behind its opening quote. The characters so far are in reverse. -/
def basicText (done : List Char) : Reader String
  | [] => none
  | '"' :: rest => some (String.ofList done.reverse, rest)
  | '\\' :: 'u' :: a :: b :: c :: d :: rest =>
    match codePoint? [a, b, c, d] with
    | some x => basicText (x :: done) rest
    | none => none
  | '\\' :: 'U' :: a :: b :: c :: d :: e :: f :: g :: h :: rest =>
    match codePoint? [a, b, c, d, e, f, g, h] with
    | some x => basicText (x :: done) rest
    | none => none
  | '\\' :: c :: rest =>
    match escaped? c with
    | some x => basicText (x :: done) rest
    | none => none
  | c :: rest => if isControl c || c = '\\' then none else basicText (c :: done) rest

def literalText (done : List Char) : Reader String
  | [] => none
  | '\'' :: rest => some (String.ofList done.reverse, rest)
  | c :: rest => if isControl c then none else literalText (c :: done) rest

def isBreak (c : Char) : Bool := c == '\n' || c == '\r'

/-- Whether only spaces are left on the line. -/
def endsLine (cs : List Char) : Bool :=
  match skipSpaces cs with
  | c :: _ => isBreak c
  | [] => false

/-- Whether a character may not stand in a text of several lines. -/
def isForbidden (c : Char) (rest : List Char) : Bool :=
  if c = '\r' then rest.head? != some '\n' else isControl c && c != '\n'

/-- The rest of a basic text of several lines. Two quotes may stand before the closing ones. A
backslash at the end of a line takes the break and the blanks behind it away, which is what
`trimming` says. -/
def longBasicText (trimming : Bool) (done : List Char) : Reader String
  | [] => none
  | '"' :: '"' :: '"' :: '"' :: '"' :: rest =>
    some (String.ofList ('"' :: '"' :: done).reverse, rest)
  | '"' :: '"' :: '"' :: '"' :: rest => some (String.ofList ('"' :: done).reverse, rest)
  | '"' :: '"' :: '"' :: rest => some (String.ofList done.reverse, rest)
  | '\\' :: 'u' :: a :: b :: c :: d :: rest =>
    match codePoint? [a, b, c, d] with
    | some x => longBasicText false (x :: done) rest
    | none => none
  | '\\' :: 'U' :: a :: b :: c :: d :: e :: f :: g :: h :: rest =>
    match codePoint? [a, b, c, d, e, f, g, h] with
    | some x => longBasicText false (x :: done) rest
    | none => none
  | '\\' :: c :: rest =>
    match escaped? c with
    | some x => longBasicText false (x :: done) rest
    | none => if endsLine (c :: rest) then longBasicText true done rest else none
  | c :: rest =>
    if trimming && (isSpace c || isBreak c) then longBasicText true done rest
    else if isForbidden c rest || c = '\\' then none
    else longBasicText false (c :: done) rest

def longLiteralText (done : List Char) : Reader String
  | [] => none
  | '\'' :: '\'' :: '\'' :: '\'' :: '\'' :: rest =>
    some (String.ofList ('\'' :: '\'' :: done).reverse, rest)
  | '\'' :: '\'' :: '\'' :: '\'' :: rest => some (String.ofList ('\'' :: done).reverse, rest)
  | '\'' :: '\'' :: '\'' :: rest => some (String.ofList done.reverse, rest)
  | c :: rest => if isForbidden c rest then none else longLiteralText (c :: done) rest

/-- A break right behind the opening quotes does not count. -/
def dropBreak : List Char → List Char
  | '\r' :: '\n' :: rest => rest
  | '\n' :: rest => rest
  | rest => rest

/-! ### Words: numbers, truth values and dates -/

/-- The digits without the underscores, which have to stand between two digits. -/
def plainDigits? : List Char → Option (List Char)
  | [] => some []
  | ['_'] => none
  | '_' :: _ => none
  | c :: '_' :: rest => if rest.isEmpty then none else (plainDigits? rest).map (c :: ·)
  | c :: rest => (plainDigits? rest).map (c :: ·)

def hasLeadingZero : List Char → Bool
  | '0' :: _ :: _ => true
  | _ => false

/-- An integer in one of its four notations. Only decimal integers have a sign, and none of
them has a leading zero. -/
def integerWord? : List Char → Option Int
  | '0' :: 'x' :: rest => prefixed 16 rest
  | '0' :: 'o' :: rest => prefixed 8 rest
  | '0' :: 'b' :: rest => prefixed 2 rest
  | word =>
    let (negative, digits) := Number.splitSign word
    if hasLeadingZero digits then none
    else do
      let n ← Number.natural? 10 (← plainDigits? digits)
      return if negative then -n else n
where
  prefixed (base : Nat) (digits : List Char) : Option Int := do
    let n ← Number.natural? base (← plainDigits? digits)
    return n

/-- The value of a word that looks like a number. Whether it is one only matters to who asks. -/
def numberValue (word : List Char) : Value :=
  match integerWord? word with
  | some n => .integer n
  | none => .other

/-- Whether a character can stand among the digits behind the mark of a base. -/
def fitsBase (base : Nat) (c : Char) : Bool :=
  c == '_' || (Number.digit? c).any (· < base)

/-- Split off the characters of a decimal number; infinity and what is no number may end it. -/
def decimalWord (done : List Char) : List Char → Option (List Char × List Char)
  | [] => some (done.reverse, [])
  | 'i' :: rest =>
    match rest with
    | 'n' :: 'f' :: rest => some (('f' :: 'n' :: 'i' :: done).reverse, rest)
    | _ => none
  | 'n' :: rest =>
    match rest with
    | 'a' :: 'n' :: rest => some (('n' :: 'a' :: 'n' :: done).reverse, rest)
    | _ => none
  | c :: rest =>
    if c.isDigit || c == '+' || c == '-' || c == '_' || c == '.' || c == 'e' || c == 'E' then
      decimalWord (c :: done) rest
    else some (done.reverse, c :: rest)

/-- Split off the characters of a number. A leading zero stands alone, unless a base or a fraction
follows. -/
def numberWord (cs : List Char) : Option (List Char × List Char) :=
  let based (base : Nat) (mark : Char) (digits : List Char) : Option (List Char × List Char) :=
    some ('0' :: mark :: digits.takeWhile (fitsBase base), digits.dropWhile (fitsBase base))
  match cs with
  | '0' :: c :: d :: rest =>
    if c == '.' || c == 'e' || c == 'E' then decimalWord [] cs
    else if c == 'x' then based 16 c (d :: rest)
    else if c == 'o' then based 8 c (d :: rest)
    else if c == 'b' then based 2 c (d :: rest)
    else some (['0'], c :: d :: rest)
  | _ =>
    match decimalWord [] cs with
    | some ([], _) => none
    | r => r

/-- Dates start with a year, times with an hour. -/
def startsDate : List Char → Bool
  | a :: b :: ':' :: _ => a.isDigit && b.isDigit
  | a :: b :: c :: d :: '-' :: _ => a.isDigit && b.isDigit && c.isDigit && d.isDigit
  | _ => false

def isDateChar (c : Char) : Bool :=
  c.isDigit || c == '+' || c == '-' || c == '.' || c == ':' || c == 'T' || c == 't' || c == 'Z' ||
    c == 'z'

/-- What stands behind a date. A blank may separate the hour, which has two characters. -/
def skipDate (spaced : Bool) : List Char → List Char
  | [] => []
  | ' ' :: rest =>
    match rest with
    | d :: e :: rest => if spaced || !d.isDigit then ' ' :: d :: e :: rest else skipDate true rest
    | [d] => if spaced || !d.isDigit then [' ', d] else []
    | [] => [' ']
  | c :: rest => if isDateChar c then skipDate spaced rest else c :: rest

def word : Reader Value
  | 't' :: 'r' :: 'u' :: 'e' :: rest => some (.other, rest)
  | 'f' :: 'a' :: 'l' :: 's' :: 'e' :: rest => some (.other, rest)
  | cs =>
    if startsDate cs then some (.other, skipDate false cs)
    else (numberWord cs).map fun w => (numberValue w.1, w.2)

/-! ### Keys -/

def isBareKeyChar (c : Char) : Bool := c.isAlphanum || c == '_' || c == '-'

def keyPart : Reader String
  | '"' :: rest => basicText [] rest
  | '\'' :: rest => literalText [] rest
  | cs =>
    let bare := cs.takeWhile isBareKeyChar
    if bare.isEmpty then none else some (String.ofList bare, cs.dropWhile isBareKeyChar)

/-- The parts of a key with the dots between them, and the spaces behind it. -/
def key : Nat → Reader (List String)
  | 0, _ => none
  | fuel + 1, cs => do
    let (part, rest) ← keyPart cs
    match skipSpaces rest with
    | '.' :: rest => do
      let (parts, rest) ← key fuel (skipSpaces rest)
      return (part :: parts, rest)
    | rest => return ([part], rest)

end Shaderwright.Toml
