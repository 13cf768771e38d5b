import Shaderwright.Number.Binary64

/-!
Reading numbers from texts.
-/

namespace Shaderwright.Number

def digit? (c : Char) : Option Nat :=
  if '0' ≤ c && c ≤ '9' then some (c.toNat - '0'.toNat)
  else if 'a' ≤ c && c ≤ 'f' then some (c.toNat - 'a'.toNat + 10)
  else if 'A' ≤ c && c ≤ 'F' then some (c.toNat - 'A'.toNat + 10)
  else none

/-- The number that the digits of a base write behind those that write `n`. -/
def digitsFrom? (base : Nat) : Nat → List Char → Option Nat
  | n, [] => some n
  | n, c :: cs =>
    match digit? c with
    | some d => if d < base then digitsFrom? base (base * n + d) cs else none
    | none => none

def natural? (base : Nat) (cs : List Char) : Option Nat :=
  if cs.isEmpty then none else digitsFrom? base 0 cs

/-- Take an optional sign off; the flag tells whether it was a minus. -/
def splitSign : List Char → Bool × List Char
  | '-' :: cs => (true, cs)
  | '+' :: cs => (false, cs)
  | cs => (false, cs)

def integer? (base : Nat) (cs : List Char) : Option Int :=
  let (negative, digits) := splitSign cs
  (natural? base digits).map fun n => if negative then -n else n

inductive IntegerFault where
  | malformed
  | outOfRange
  deriving DecidableEq, Repr

namespace IntegerFault

def text : IntegerFault → String
  | malformed => "invalid syntax"
  | outOfRange => "value out of range"

end IntegerFault

/-- How many natural numbers a signed word of 64 bits has. -/
def signedLimit : Nat := 9223372036854775808

/-- How many numbers an unsigned word of 64 bits has. -/
def unsignedLimit : Nat := 2 * signedLimit

def isInt64 (n : Int) : Bool := -(signedLimit : Int) ≤ n && n < (signedLimit : Int)

/-- The number below `2 ^ 64` that digits write behind those that write `n`. The first digit that
goes beyond it and the first character that is no digit both end the reading. -/
def magnitude (base : Nat) : Nat → List Char → Except IntegerFault Nat
  | n, [] => .ok n
  | n, c :: cs =>
    match digit? c with
    | none => .error .malformed
    | some d =>
      if base ≤ d then .error .malformed
      else if unsignedLimit ≤ base * n + d then .error .outOfRange
      else magnitude base (base * n + d) cs

def signed (negative : Bool) (n : Nat) : Except IntegerFault Int :=
  let value : Int := if negative then -n else n
  if isInt64 value then .ok value else .error .outOfRange

def int64 (s : String) : Except IntegerFault Int := do
  let (negative, digits) := splitSign s.toList
  if digits.isEmpty then throw .malformed
  signed negative (← magnitude 10 0 digits)

/-- Whether every underscore stands between two digits. The flag tells whether a digit, or the
mark of a base, stands in front. -/
def underscoresFit (isDigit : Char → Bool) : Bool → List Char → Bool
  | _, [] => true
  | behindDigit, c :: rest =>
    if c = '_' then behindDigit && rest.head?.any isDigit && underscoresFit isDigit false rest
    else underscoresFit isDigit (isDigit c) rest

/-- The base that the beginning of a number tells, whether it has a mark, and its digits. -/
def baseOf : List Char → Nat × Bool × List Char
  | '0' :: m :: d :: ds =>
    if m = 'x' || m = 'X' then (16, true, d :: ds)
    else if m = 'o' || m = 'O' then (8, true, d :: ds)
    else if m = 'b' || m = 'B' then (2, true, d :: ds)
    else (8, true, m :: d :: ds)
  | '0' :: ds => (8, true, ds)
  | ds => (10, false, ds)

/-- An integer of 64 bits in the base that its beginning tells, with underscores among its
digits. -/
def anyInt64 (s : String) : Except IntegerFault Int := do
  let (negative, number) := splitSign s.toList
  if number.isEmpty then throw .malformed
  let (base, marked, digits) := baseOf number
  let n ← magnitude base 0 (digits.filter (· ≠ '_'))
  if !underscoresFit (fun c => (digit? c).isSome) marked digits then throw .malformed
  signed negative n

def isDigit (c : Char) : Bool := '0' ≤ c && c ≤ '9'

def isHexDigit (c : Char) : Bool := (digit? c).isSome

/-- The integer behind the mark of an exponent. Exponents that no fraction can make up for are cut
off. -/
def exponent? (cs : List Char) : Option Int :=
  (integer? 10 cs).map fun e => max (-100000) (min e 100000)

/-- The digits in front of an optional point, those behind it, and the rest. -/
def splitPoint (isDigit : Char → Bool) (cs : List Char) : List Char × List Char × List Char :=
  let whole := cs.takeWhile isDigit
  match cs.dropWhile isDigit with
  | '.' :: rest => (whole, rest.takeWhile isDigit, rest.dropWhile isDigit)
  | rest => (whole, [], rest)

def decimal? (negative : Bool) (cs : List Char) : Option Binary64 := do
  let (whole, part, rest) := splitPoint isDigit cs
  let digits ← natural? 10 (whole ++ part)
  let e ← match rest with
    | [] => some 0
    | 'e' :: cs => exponent? cs
    | 'E' :: cs => exponent? cs
    | _ => none
  Binary64.ofDecimal? negative digits (e - part.length)

/-- A hexadecimal fraction; its exponent is one of two. -/
def hexadecimal? (negative : Bool) (cs : List Char) : Option Binary64 := do
  let (whole, part, rest) := splitPoint isHexDigit cs
  let digits ← natural? 16 (whole ++ part)
  let e ← match rest with
    | 'p' :: cs => exponent? cs
    | 'P' :: cs => exponent? cs
    | _ => none
  Binary64.ofBinary? negative digits (e - 4 * part.length)

/-- The digits behind the mark of base 16, if a fraction has it. -/
def hexDigits? : List Char → Option (List Char)
  | '0' :: 'x' :: d :: ds => some (d :: ds)
  | '0' :: 'X' :: d :: ds => some (d :: ds)
  | _ => none

/-- A fraction with an optional sign, with digits on at least one side of an optional point and
underscores among them. A fraction beyond the greatest number is refused. -/
def fraction? (cs : List Char) : Option Binary64 :=
  let (negative, number) := splitSign cs
  match hexDigits? number with
  | some digits =>
    if underscoresFit isHexDigit true digits then
      hexadecimal? negative (digits.filter (· ≠ '_'))
    else none
  | none =>
    if underscoresFit isDigit false number then decimal? negative (number.filter (· ≠ '_'))
    else none

end Shaderwright.Number
