import Shaderwright.Number.Reader
import Shaderwright.Text.Quoted

/-!
The flags of the command line: their spellings, and what their values set.
-/

namespace Shaderwright.CommandLine

inductive Flag where
  | config
  | out
  | verbose
  | quiet
  | help
  | version
  deriving DecidableEq, Repr

namespace Flag

def long : Flag → String
  | config => "config"
  | out => "out"
  | verbose => "verbose"
  | quiet => "quiet"
  | help => "help"
  | version => "version"

def short? : Flag → Option Char
  | config => some 'c'
  | out => some 'o'
  | verbose => some 'v'
  | quiet => some 'q'
  | help => some 'h'
  | version => none

/-- The value of a flag that is given without one; a flag that has none takes the next argument. -/
def bare? : Flag → Option String
  | config => none
  | out => none
  | verbose => some "+1"
  | quiet => some "true"
  | help => some "true"
  | version => some "true"

def label (f : Flag) : String :=
  match f.short? with
  | some c => String.ofList ['-', c] ++ ", --" ++ f.long
  | none => "--" ++ f.long

def shared : List Flag := [config, out, verbose, quiet]

def findLong? (known : List Flag) (name : String) : Option Flag :=
  known.find? fun f => f.long = name

def findShort? (known : List Flag) (c : Char) : Option Flag :=
  known.find? fun f => f.short? = some c

end Flag

inductive UsageError where
  | unknownCommand (word : String) (suggestions : List String)
  | badSyntax (argument : String)
  | unknownFlag (name : String)
  | missingValue (argument : String)
  | unknownShort (letter : Char) (letters : String)
  | missingShortValue (letter : Char) (letters : String)
  | badNumber (value : String) (flag : Flag) (why : Number.IntegerFault)
  | badTruth (value : String) (flag : Flag)
  | noInputs
  deriving DecidableEq, Repr

namespace UsageError

def invalidValue (value : String) (flag : Flag) : String :=
  "invalid argument " ++ Text.quote value ++ " for " ++ Text.quote flag.label ++ " flag: "

def suggestionText (names : List String) : String :=
  if names.isEmpty then ""
  else "\n\nDid you mean this?\n" ++ String.join (names.map fun n => "\t" ++ n ++ "\n")

def message : UsageError → String
  | unknownCommand word names =>
    "unknown command " ++ Text.quote word ++ " for \"shadergen\"" ++ suggestionText names
  | badSyntax argument => "bad flag syntax: " ++ argument
  | unknownFlag name => "unknown flag: --" ++ name
  | missingValue argument => "flag needs an argument: " ++ argument
  | unknownShort c letters => "unknown shorthand flag: " ++ Text.quoteChar c ++ " in -" ++ letters
  | missingShortValue c letters =>
    "flag needs an argument: " ++ Text.quoteChar c ++ " in -" ++ letters
  | badNumber value flag why =>
    invalidValue value flag ++ "strconv.ParseInt: parsing " ++ Text.quote value ++ ": " ++ why.text
  | badTruth value flag =>
    invalidValue value flag ++ "strconv.ParseBool: parsing " ++ Text.quote value ++
      ": invalid syntax"
  | noInputs => "requires at least 1 arg(s), only received 0"

end UsageError

structure Flags where
  config : String := ""
  out : String := ""
  /-- How much more is to be logged than the configuration says. -/
  verbose : Int64 := 0
  quiet : Bool := false
  help : Bool := false
  version : Bool := false
  deriving DecidableEq, Repr, Inhabited

def truth? (value : String) : Option Bool :=
  if ["1", "t", "T", "TRUE", "true", "True"].contains value then some true
  else if ["0", "f", "F", "FALSE", "false", "False"].contains value then some false
  else none

namespace Flags

def setTruth (flag : Flag) (value : String) (set : Bool → Flags) : Except UsageError Flags :=
  match truth? value with
  | some b => .ok (set b)
  | none => .error (.badTruth value flag)

/-- Verbosity is counted up by each bare flag, and set by a number. -/
def setVerbose (fs : Flags) (value : String) : Except UsageError Flags :=
  if value = "+1" then .ok { fs with verbose := fs.verbose + 1 }
  else
    match Number.anyInt64 value with
    | .ok n => .ok { fs with verbose := Int64.ofInt n }
    | .error why => .error (.badNumber value .verbose why)

def set (fs : Flags) (flag : Flag) (value : String) : Except UsageError Flags :=
  match flag with
  | .config => .ok { fs with config := value }
  | .out => .ok { fs with out := value }
  | .verbose => fs.setVerbose value
  | .quiet => setTruth flag value fun b => { fs with quiet := b }
  | .help => setTruth flag value fun b => { fs with help := b }
  | .version => setTruth flag value fun b => { fs with version := b }

/-- Read the letters behind one dash. The result also tells whether the next argument was taken
as a value. Letters that spell `test.` are left to a test runner. -/
def readShort (known : List Flag) (next : Option String) (fs : Flags) :
    List Char → Except UsageError (Flags × Bool)
  | [] => .ok (fs, false)
  | c :: rest =>
    if ("test.".toList).isPrefixOf (c :: rest) then .ok (fs, false)
    else
      match Flag.findShort? known c with
      | none => .error (.unknownShort (firstByte c) (String.ofList (c :: rest)))
      | some f =>
        if rest.head? = some '=' && rest.length > 1 then
          (fs.set f (String.ofList (rest.drop 1))).map fun fs => (fs, false)
        else
          match f.bare?, rest, next with
          | some value, _, _ => do readShort known next (← fs.set f value) rest
          | none, _ :: _, _ => (fs.set f (String.ofList rest)).map fun fs => (fs, false)
          | none, [], some value => (fs.set f value).map fun fs => (fs, true)
          | none, [], none => .error (.missingShortValue c (String.ofList (c :: rest)))
where
  /-- The first byte of a character, as a character of its own. -/
  firstByte (c : Char) : Char :=
    match (String.singleton c).toUTF8.toList with
    | b :: _ => Char.ofNat b.toNat
    | [] => c

def readLong (known : List Flag) (next : Option String) (fs : Flags) (argument : String) :
    Except UsageError (Flags × Bool) :=
  let body := argument.toList.drop 2
  let name := String.ofList (body.takeWhile (· ≠ '='))
  let value := body.dropWhile (· ≠ '=')
  if body.isEmpty || body.head? = some '-' || body.head? = some '=' then
    .error (.badSyntax argument)
  else
    match Flag.findLong? known name with
    | none => .error (.unknownFlag name)
    | some f =>
      match value, f.bare?, next with
      | _ :: value, _, _ => (fs.set f (String.ofList value)).map fun fs => (fs, false)
      | [], some value, _ => (fs.set f value).map fun fs => (fs, false)
      | [], none, some value => (fs.set f value).map fun fs => (fs, true)
      | [], none, none => .error (.missingValue argument)

/-- A dash alone is no flag. -/
def isFlag (argument : String) : Bool :=
  match argument.toList with
  | '-' :: _ :: _ => true
  | _ => false

def readFlag (known : List Flag) (next : Option String) (fs : Flags) (argument : String) :
    Except UsageError (Flags × Bool) :=
  match argument.toList with
  | '-' :: '-' :: _ => readLong known next fs argument
  | _ => readShort known next fs (argument.toList.drop 1)

/-- Read flags wherever they stand, up to two dashes alone, and collect the other arguments. -/
def read (known : List Flag) (fs : Flags) (inputs : List String) :
    List String → Except UsageError (Flags × List String)
  | [] => .ok (fs, inputs)
  | a :: rest =>
    if !isFlag a then read known fs (inputs ++ [a]) rest
    else if a = "--" then .ok (fs, inputs ++ rest)
    else
      match readFlag known rest.head? fs a, rest with
      | .error e, _ => .error e
      | .ok (fs, true), _ :: rest => read known fs inputs rest
      | .ok (fs, _), rest => read known fs inputs rest

end Flags

end Shaderwright.CommandLine
