import Shaderwright.Files.Path

/-!
A file system as a value. A place is either a file with a text or a directory, and a locked one
cannot be written or made. An operation that fails says which call failed, on which path and why.
-/

namespace Shaderwright

/-- A place, as the components that lead to it from the working directory. A path from the root
starts with the component `/`, and one that leaves the working directory with `..`. -/
abbrev Place := List String

inductive FileFault where
  | notFound
  | notDirectory
  | isDirectory
  | alreadyThere
  /-- The path has a character that no path can have. -/
  | invalid
  | tooLong
  /-- The place is locked. -/
  | denied
  deriving DecidableEq, Repr

namespace FileFault

def text : FileFault → String
  | notFound => "no such file or directory"
  | notDirectory => "not a directory"
  | isDirectory => "is a directory"
  | alreadyThere => "file exists"
  | invalid => "invalid argument"
  | tooLong => "file name too long"
  | denied => "permission denied"

end FileFault

inductive FileCall where
  | stat
  | read
  | access
  | makeDirectory
  deriving DecidableEq, Repr

namespace FileCall

def text : FileCall → String
  | stat => "stat"
  | read => "read"
  | access => "open"
  | makeDirectory => "mkdir"

end FileCall

structure FileError where
  call : FileCall
  path : String
  why : FileFault
  deriving DecidableEq, Repr

def FileError.message (e : FileError) : String :=
  e.call.text ++ " " ++ e.path ++ ": " ++ e.why.text

inductive Entry where
  | file (text : String)
  | directory
  deriving DecidableEq, Repr, Inhabited

structure FileTree where
  entries : List (Place × Entry) := []
  /-- Places at which nothing can be written or made, whether or not something is there. -/
  locked : List Place := []
  deriving DecidableEq, Repr, Inhabited

namespace FileTree

/-- Directories that exist whatever the tree holds: the working directory, those above it, and
the root. -/
def alwaysThere (p : Place) : Bool := p == ["/"] || p.all (· == "..")

def get? (t : FileTree) (p : Place) : Option Entry :=
  if alwaysThere p then some .directory else t.entries.lookup p

def put (t : FileTree) (p : Place) (e : Entry) : FileTree :=
  { t with entries := (p, e) :: t.entries.filter fun x => x.1 != p }

def parent (p : Place) : Place :=
  match p.getLast? with
  | none => [".."]
  | some c => if c = ".." then p ++ [".."] else if p = ["/"] then p else p.dropLast

def longestName : Nat := 255

def longestPath : Nat := 4095

/-- Follow the components of a path. Whatever is passed through has to be a directory. -/
def follow (t : FileTree) : Place → List String → Except FileFault Place
  | p, [] => .ok p
  | p, c :: rest =>
    match t.get? p with
    | none => .error .notFound
    | some (.file _) => .error .notDirectory
    | some .directory =>
      if c = "" || c = "." then follow t p rest
      else if c = ".." then follow t (parent p) rest
      else if longestName < c.utf8ByteSize then .error .tooLong
      else follow t (p ++ [c]) rest

def place (t : FileTree) (path : String) : Except FileFault Place :=
  if path = "" then .error .notFound
  else if path.toList.contains '\x00' then .error .invalid
  else if longestPath < path.utf8ByteSize then .error .tooLong
  else if Path.isRooted path then t.follow ["/"] (Path.components path)
  else t.follow [] (Path.components path)

def entry (t : FileTree) (path : String) : Except FileFault Entry := do
  match t.get? (← t.place path) with
  | none => .error .notFound
  | some e => .ok e

def stat (t : FileTree) (path : String) : Except FileError Entry :=
  (t.entry path).mapError (FileError.mk .stat path)

def read (t : FileTree) (path : String) : Except FileError String :=
  match t.entry path with
  | .error why => .error ⟨.access, path, why⟩
  | .ok .directory => .error ⟨.read, path, .isDirectory⟩
  | .ok (.file text) => .ok text

/-- Write a file, over one that is there already. Its directory has to exist. -/
def write (t : FileTree) (path text : String) : Except FileError FileTree :=
  match t.place path with
  | .error why => .error ⟨.access, path, why⟩
  | .ok p =>
    match t.get? p with
    | some .directory => .error ⟨.access, path, .isDirectory⟩
    | _ => if p ∈ t.locked then .error ⟨.access, path, .denied⟩ else .ok (t.put p (.file text))

def makeDirectory (t : FileTree) (path : String) : Except FileFault FileTree := do
  let p ← t.place (Path.withoutClosing path)
  if (t.get? p).isSome then .error .alreadyThere
  else if p ∈ t.locked then .error .denied
  else .ok (t.put p .directory)

/-- What came of a change, and the files afterwards. What was done before it failed stays done. -/
abbrev Change (α : Type) := Except FileError α × FileTree

/-- Make a directory and those that lead to it, if there is none. Every step goes to a shorter
path, so that the length of the path is fuel enough. -/
def makeDirectoriesUpTo : Nat → FileTree → String → Change Unit
  | 0, t, path => (.error ⟨.makeDirectory, path, .notFound⟩, t)
  | fuel + 1, t, path =>
    match t.entry path with
    | .ok .directory => (.ok (), t)
    | .ok (.file _) => (.error ⟨.makeDirectory, path, .notDirectory⟩, t)
    | .error _ =>
      let (above, t) : Change Unit :=
        match Path.above? path with
        | some parent => makeDirectoriesUpTo fuel t parent
        | none => (.ok (), t)
      match above, t.makeDirectory path with
      | .error e, _ => (.error e, t)
      | .ok _, .ok t => (.ok (), t)
      | .ok _, .error why =>
        match t.entry path with
        | .ok .directory => (.ok (), t)
        | _ => (.error ⟨.makeDirectory, path, why⟩, t)

def makeDirectories (t : FileTree) (path : String) : Change Unit :=
  makeDirectoriesUpTo (path.length + 1) t path

def remove (t : FileTree) (path : String) : FileTree :=
  match t.place path with
  | .error _ => t
  | .ok p => { t with entries := t.entries.filter fun x => !p.isPrefixOf x.1 }

def store (t : FileTree) (path text : String) : Change Unit :=
  match t.makeDirectories (Path.dir path) with
  | (.error e, t) => (.error e, t)
  | (.ok _, t) =>
    match t.write path text with
    | .error e => (.error e, t)
    | .ok t => (.ok (), t)

def isBelowWork (p : Place) : Bool :=
  match p with
  | [] => false
  | c :: _ => c ≠ "/" && c ≠ ".."

/-- The files below the working directory with their texts, and the directories that hold
nothing. -/
def listing (t : FileTree) : List (String × Option String) :=
  t.entries.filterMap fun (p, e) =>
    if !isBelowWork p then none
    else
      match e with
      | .file text => some (Text.joinWith "/" p, some text)
      | .directory =>
        if t.entries.any fun x => p.isPrefixOf x.1 && x.1 != p then none
        else some (Text.joinWith "/" p ++ "/", none)

end FileTree

end Shaderwright
