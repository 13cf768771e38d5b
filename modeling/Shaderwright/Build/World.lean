import Shaderwright.Files.Tree

/-!
What a build changes besides its result: the files, the log and the counters.
-/

namespace Shaderwright

inductive LogLevel where
  | debug
  | info
  | warn
  | error
  deriving DecidableEq, Repr, Inhabited

namespace LogLevel

def text : LogLevel → String
  | debug => "DEBUG"
  | info => "INFO"
  | warn => "WARN"
  | error => "ERROR"

def weight : LogLevel → Int
  | debug => -4
  | info => 0
  | warn => 4
  | error => 8

end LogLevel

inductive LogValue where
  | text (s : String)
  | number (n : Int)
  deriving DecidableEq, Repr, Inhabited

structure LogRecord where
  level : LogLevel
  message : String
  attributes : List (String × LogValue) := []
  deriving DecidableEq, Repr, Inhabited

inductive Counter where
  | compiled (target : String)
  | binding (target category : String)
  | merged (target : String)
  | failed (target : String)
  deriving DecidableEq, Repr, Inhabited

namespace Counter

def name : Counter → String
  | compiled _ => "shadergen_shaders_compiled_total"
  | binding .. => "shadergen_bindings_emitted_total"
  | merged _ => "shadergen_header_merges_total"
  | failed _ => "shadergen_header_failures_total"

/-- The labels in alphabetical order of their names. -/
def labels : Counter → List (String × String)
  | compiled target => [("backend", target)]
  | binding target category => [("backend", target), ("category", category)]
  | merged target => [("backend", target)]
  | failed target => [("backend", target)]

/-- Counters are listed by name and then by the values of their labels. -/
def sortKey (c : Counter) : List String := c.name :: c.labels.map Prod.snd

/-- The order of texts by the codes of their characters, the shorter one first. -/
def codesBefore : List Char → List Char → Bool
  | [], _ => true
  | _ :: _, [] => false
  | a :: as, b :: bs => if a = b then codesBefore as bs else a.toNat < b.toNat

def keyBefore : List String → List String → Bool
  | [], _ => true
  | _ :: _, [] => false
  | a :: as, b :: bs => if a = b then keyBefore as bs else codesBefore a.toList b.toList

end Counter

structure World where
  files : FileTree := {}
  log : List LogRecord := []
  /-- Whether anything is counted at all. -/
  counting : Bool := false
  /-- Every count, in order. -/
  counts : List Counter := []
  deriving Repr, Inhabited

namespace World

def total (w : World) (c : Counter) : Nat := w.counts.count c

/-- The counters that were ever touched, in their listing order. -/
def report (w : World) : List (Counter × Nat) :=
  let touched := w.counts.eraseDups.mergeSort fun a b => Counter.keyBefore a.sortKey b.sortKey
  touched.map fun c => (c, w.total c)

end World

abbrev Build := StateM World

namespace Build

def log (level : LogLevel) (message : String) (attributes : List (String × LogValue) := []) :
    Build Unit :=
  modify fun w => { w with log := w.log ++ [⟨level, message, attributes⟩] }

def count (c : Counter) : Build Unit :=
  modify fun w => if w.counting then { w with counts := w.counts ++ [c] } else w

def setFiles (t : FileTree) : Build Unit :=
  modify fun w => { w with files := t }

end Build

end Shaderwright
