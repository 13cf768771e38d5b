import Shaderwright.Yaml.Token

/-!
Quoted scalars. Inside quotes a line break stands for a blank and the blanks around it do not
count; where several breaks follow each other, all but the first are kept. In double quotes a
backslash escapes the character behind it.
-/

namespace Shaderwright.Yaml

structure Quoted where
  /-- The text so far, in reverse. -/
  text : List Char := []
  /-- What was read so far, in reverse. The digits of numeric escapes are left out. -/
  source : List Char
  line : Nat
  /-- The column of the next character. -/
  column : Nat
  /-- Whether the text goes over several lines. -/
  folded : Bool := false
  /-- Whether only blanks have been read since the last line break. -/
  fresh : Bool := false
  /-- How many characters behind the closing quote are passed over. -/
  overrun : Nat := 0
  deriving Repr, Inhabited

namespace Quoted

/-- Go on behind `c`, which is no part of the text. -/
def pass (q : Quoted) (c : Char) : Quoted :=
  { q with source := c :: q.source, column := q.column + 1 }

/-- Go on behind `c`, which stands for itself. -/
def take (q : Quoted) (c : Char) : Quoted :=
  { q.pass c with text := c :: q.text, fresh := false }

/-- Go on behind a line break. -/
def breakLine (q : Quoted) (c : Char) : Quoted :=
  { q with
    text := (if q.fresh then '\n' else ' ') :: q.text.dropWhile (· == ' ')
    source := c :: q.source
    line := q.line + 1
    column := 1
    folded := true
    fresh := true }

/-- The characters that are read alike in both kinds of quotes: line breaks, and the blanks at the
start of a line. A tab is none where indentation is expected. -/
def blank? (delimiter : Nat) (q : Quoted) (c : Char) (rest : List Char) :
    Option (Except ReadError Quoted) :=
  if isBreak c then
    some (if startsMarker rest then .error .malformed else .ok (q.breakLine c))
  else if q.fresh && c == ' ' then some (.ok (q.pass c))
  else if q.fresh && c == '\t' then
    some (if q.column ≤ delimiter then .error .malformed else .ok (q.pass c))
  else none

/-- Read on up to the closing single quote. A quote is written twice. -/
def single (delimiter : Nat) : Quoted → List Char → Except ReadError (Quoted × List Char)
  | _, [] => .error .malformed
  | q, c :: rest =>
    match q.blank? delimiter c rest with
    | some r => do single delimiter (← r) rest
    | none =>
      if c == '\'' then
        match rest with
        | '\'' :: rest =>
          single delimiter { (q.pass c).pass c with text := c :: q.text } rest
        | rest => .ok (q.pass c, rest)
      else single delimiter (q.take c) rest

def escaped? : Char → Option Char
  | '0' => some '\x00'
  | 'a' => some '\x07'
  | 'b' => some '\x08'
  | 't' => some '\t'
  | '\t' => some '\t'
  | 'n' => some '\n'
  | 'v' => some '\x0b'
  | 'f' => some '\x0c'
  | 'r' => some '\r'
  | 'e' => some '\x1b'
  | ' ' => some ' '
  | '"' => some '"'
  | '/' => some '/'
  | '\\' => some '\\'
  | 'N' => some '\u0085'
  | '_' => some '\u00a0'
  | 'L' => some '\u2028'
  | 'P' => some '\u2029'
  | _ => none

/-- The value of a digit of a numeric escape. Characters that are no digits count as well, by their
distance from the zero. -/
def codeDigit (c : Char) : Int :=
  if 'A' ≤ c && c ≤ 'F' then (c.toNat : Int) - 'A'.toNat + 10
  else if 'a' ≤ c && c ≤ 'f' then (c.toNat : Int) - 'a'.toNat + 10
  else (c.toNat : Int) - '0'.toNat

def codeValue (digits : List Char) : Int := digits.foldl (fun n c => 16 * n + codeDigit c) 0

/-- The character with a number; a number that no character has gives the replacement
character. -/
def codeChar (n : Int) : Char :=
  if 0 ≤ n && n.toNat.isValidChar then Char.ofNat n.toNat else Char.ofNat 0xFFFD

def isFirstHalf (n : Int) : Bool := 0xD800 ≤ n && n ≤ 0xDBFF

def isSecondHalf (n : Int) : Bool := 0xDC00 ≤ n && n ≤ 0xDFFF

/-- The character of a numeric escape with this many digits, and how many characters it takes. A
character beyond the first plane may be written as a pair of escapes with four digits. -/
def code? (size : Nat) (digits : List Char) : Option (Char × Nat) :=
  let value := codeValue (digits.take size)
  if digits.length < size then none
  else if size = 4 && isFirstHalf value then
    match digits.drop size with
    | '\\' :: 'u' :: more =>
      let second := codeValue (more.take 4)
      if 4 ≤ more.length && isSecondHalf second then
        some (codeChar ((value - 0xD800) * 0x400 + (second - 0xDC00) + 0x10000), 10)
      else none
    | _ => none
  else some (codeChar value, size)

/-- Read on up to the closing double quote. `skip` characters have been read ahead. -/
def double (delimiter : Nat) : Quoted → Nat → List Char → Except ReadError (Quoted × List Char)
  | _, _, [] => .error .malformed
  | q, skip + 1, _ :: rest => double delimiter { q with column := q.column + 1 } skip rest
  | q, 0, c :: rest =>
    let code (size : Nat) : Except ReadError (Quoted × Nat) :=
      match code? size rest.tail with
      | some (d, n) => .ok ({ q.take c with text := d :: q.text }, n + 1)
      | none => .error .malformed
    match q.blank? delimiter c rest with
    | some r => do double delimiter (← r) 0 rest
    | none =>
      if c == '\\' then do
        let (q, skip) ← match rest with
          | [] => .error .malformed
          | 'x' :: _ => code 2
          | 'u' :: _ => code 4
          | 'U' :: _ => code 8
          | '\n' :: _ =>
            .ok ({ q with
              source := '\n' :: c :: q.source
              line := q.line + 1
              column := 0
              folded := true
              fresh := true }, 1)
          | '\r' :: more =>
            let breaks := if more.head? = some '\n' then ['\n', '\r'] else ['\r']
            .ok ({ q with
              source := breaks ++ c :: q.source
              line := q.line + 1
              column := 1
              folded := true
              fresh := true }, breaks.length)
          | e :: _ =>
            match escaped? e with
            | some d =>
              .ok ({ q.take c with text := d :: q.text, source := e :: c :: q.source }, 1)
            | none => .error .malformed
        double delimiter q skip rest
      else if c == '\t' then
        -- tabs at the end of a line do not count
        if (rest.dropWhile isSpace).head?.all isBreak then double delimiter (q.pass c) 0 rest
        else if rest.head? = some '"' then double delimiter (q.take c) 0 rest
        else
          let q := q.take c
          double delimiter { q with column := q.column + 1, overrun := q.overrun + 1 } 0 rest
      else if c == '"' then .ok (q.pass c, rest.drop q.overrun)
      else double delimiter (q.take c) 0 rest

end Quoted

end Shaderwright.Yaml
