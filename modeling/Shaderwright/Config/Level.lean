import Shaderwright.Number.Reader
import Shaderwright.Text.Quoted

/-!
Log levels as they are configured: the name of a level, and an offset if wanted. Levels are
numbers, so that any level lies between or beyond the four that have a name.
-/

namespace Shaderwright

/-- How grave a record must be to be shown. -/
abbrev Threshold := Int64

inductive LevelFault where
  | unknownName
  | offset (text : String) (why : Number.IntegerFault)
  deriving DecidableEq, Repr

def LevelFault.message (level : String) (f : LevelFault) : String :=
  "slog: level string " ++ Text.quote level ++ ": " ++
    match f with
    | unknownName => "unknown name"
    | offset text why => "strconv.Atoi: parsing " ++ Text.quote text ++ ": " ++ why.text

namespace Threshold

def debug : Threshold := -4
def info : Threshold := 0
def warn : Threshold := 4
def error : Threshold := 8

/-- Upper case, where the dotless i has the same capital as the letter i. -/
def capital (c : Char) : Char := if c = 'ı' then 'I' else c.toUpper

def ofName? (name : String) : Option Threshold :=
  match name.map capital with
  | "DEBUG" => some debug
  | "INFO" => some info
  | "WARN" => some warn
  | "ERROR" => some error
  | _ => none

def isSign (c : Char) : Bool := c == '+' || c == '-'

/-- The offset that starts with the first sign; a text without any sign has the offset zero. -/
def readOffset (text : String) : Except LevelFault Int64 :=
  if text = "" then .ok 0
  else
    match Number.int64 text with
    | .ok n => .ok (Int64.ofInt n)
    | .error why => .error (.offset text why)

/-- The level that a text names. The offset is read before the name. -/
def parse (text : String) : Except LevelFault Threshold := do
  let cs := text.toList
  let offset ← readOffset (String.ofList (cs.dropWhile fun c => !isSign c))
  match ofName? (String.ofList (cs.takeWhile fun c => !isSign c)) with
  | some base => .ok (base + offset)
  | none => .error .unknownName

/-- A named level with its distance from it, unless that is zero. -/
def beside (name : String) (distance : Int64) : String :=
  if distance = 0 then name
  else if 0 < distance then name ++ "+" ++ toString distance.toInt
  else name ++ toString distance.toInt

/-- The text of a level: the next named level at or below it, or the least one, and the distance. -/
def text (t : Threshold) : String :=
  if t < info then beside "DEBUG" (t - debug)
  else if t < warn then beside "INFO" (t - info)
  else if t < error then beside "WARN" (t - warn)
  else beside "ERROR" (t - error)

end Threshold

end Shaderwright
