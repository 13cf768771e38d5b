import Shaderwright.Document.Basic
import Shaderwright.Files.Tree

/-!
Marked documents kept in files: a file is read, changed and written back as a whole, and a
missing one starts from a skeleton.
-/

namespace Shaderwright

inductive HeaderError where
  | file (e : FileError)
  | document (path : String) (e : DocumentError)
  deriving DecidableEq, Repr

def HeaderError.message : HeaderError → String
  | file e => e.message
  | document path e => path ++ ": " ++ e.message

/-- Write a file only if there is none. The answer tells whether it was written. -/
def FileTree.ensure (t : FileTree) (path text : String) : FileTree.Change Bool :=
  match t.stat path with
  | .ok _ => (.ok false, t)
  | .error e =>
    if e.why = .notFound then
      let (r, t) := t.store path text
      (r.map fun _ => true, t)
    else (.error e, t)

/-- What became of a change to a document in a file: the files afterwards, what the change
reported if it got that far, and the error if there was one. -/
structure Merge (α : Type) where
  files : FileTree
  report : Option α := none
  error : Option HeaderError := none

/-- The text to start from, and the files with the directory it will be written to. -/
def FileTree.readOr (t : FileTree) (path skeleton : String) : FileTree.Change String :=
  match t.read path with
  | .ok text => (.ok text, t)
  | .error e =>
    if e.why = .notFound then
      let (r, t) := t.makeDirectories (Path.dir path)
      (r.map fun _ => skeleton, t)
    else (.error e, t)

def FileTree.merge {α : Type} (t : FileTree) (path skeleton : String) (sections : List Section)
    (change : Document → Except DocumentError (α × Document)) : Merge α :=
  match t.readOr path skeleton with
  | (.error e, t) => { files := t, error := some (.file e) }
  | (.ok text, t) =>
    match Document.parse sections text with
    | .error e => { files := t, error := some (.document path e) }
    | .ok doc =>
      match change doc with
      | .error e => { files := t, error := some (.document path e) }
      | .ok (report, doc) =>
        match t.write path doc.text with
        | .error e => { files := t, report := some report, error := some (.file e) }
        | .ok t => { files := t, report := some report }

end Shaderwright
