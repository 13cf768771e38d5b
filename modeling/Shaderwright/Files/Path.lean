import Shaderwright.Text.Basic

/-!
Slash-separated paths as texts: cleaning, joining, and taking them apart.
-/

namespace Shaderwright.Path

def isRooted (path : String) : Bool := path.toList.head? == some '/'

def components (path : String) : List String := Text.pieces '/' path

/-- The components that are left when `.` and empty ones are dropped and `..` takes back the
component before it. The components so far come in reverse order. -/
def reduce (rooted : Bool) : List String → List String → List String
  | done, [] => done.reverse
  | done, c :: rest =>
    if c = "" || c = "." then reduce rooted done rest
    else if c = ".." then
      match done with
      | [] => if rooted then reduce rooted [] rest else reduce rooted [".."] rest
      | d :: ds =>
        if d = ".." then reduce rooted (".." :: d :: ds) rest else reduce rooted ds rest
    else reduce rooted (c :: done) rest

/-- The shortest text for the same path. -/
def clean (path : String) : String :=
  let rooted := isRooted path
  let text := Text.joinWith "/" (reduce rooted [] (components path))
  if rooted then "/" ++ text else if text = "" then "." else text

/-- The path `name` below the directory `dir`; an empty part counts for nothing. -/
def join (dir name : String) : String :=
  match [dir, name].filter (· ≠ "") with
  | [] => ""
  | parts => clean (Text.joinWith "/" parts)

/-- The last component as it stands, which is empty behind a closing slash. -/
def lastComponent (path : String) : String :=
  (components path).getLast?.getD ""

def dir (path : String) : String :=
  clean (Text.joinWith "/" ((components path).dropLast ++ [""]))

/-- The last component; closing slashes do not count. -/
def base (path : String) : String :=
  if path = "" then "."
  else
    match (components path).reverse.dropWhile (· = "") with
    | [] => "/"
    | c :: _ => c

/-- The last component from its last dot on, or nothing if it has no dot. -/
def ext (path : String) : String :=
  match Text.pieces '.' (lastComponent path) with
  | [] => ""
  | [_] => ""
  | parts => "." ++ parts.getLast?.getD ""

def stem (path : String) : String :=
  let b := (base path).toList
  let e := (ext path).toList
  if e.reverse.isPrefixOf b.reverse then String.ofList (b.take (b.length - e.length)) else base path

/-- The paths of all directories that lead to `path`, the outermost first, and `path` itself. -/
def ancestors (path : String) : List String :=
  let cs := components path
  let heads := (List.range cs.length).filterMap fun i =>
    match cs[i]? with
    | some c => if c = "" then none else some (Text.joinWith "/" (cs.take (i + 1)))
    | none => none
  heads

/-- The path without closing slashes; a path of slashes alone is the root. -/
def withoutClosing (path : String) : String :=
  let kept := path.toList.reverse.dropWhile (· == '/')
  if kept.isEmpty && path ≠ "" then "/" else String.ofList kept.reverse

/-- The path up to the slash in front of its last component, unless nothing or only the root is
in front of it. -/
def above? (path : String) : Option String :=
  let kept := path.toList.reverse.dropWhile (· == '/')
  match kept.dropWhile (· != '/') with
  | _ :: front => if front.isEmpty then none else some (String.ofList front.reverse)
  | [] => none

end Shaderwright.Path
