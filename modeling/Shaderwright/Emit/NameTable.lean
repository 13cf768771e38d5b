/-!
Tables that map the names of the shader language to those of a target language. A table says
itself what happens to a name that it does not hold.
-/

namespace Shaderwright

inductive MissPolicy where
  /-- A missing name has no mapping. -/
  | absent
  /-- A missing name stands for itself. -/
  | identity
  | other (code : Nat)
  deriving DecidableEq, Repr, Inhabited

namespace MissPolicy

def ofCode : Nat → MissPolicy
  | 0 => absent
  | 1 => identity
  | n => other n

def text : MissPolicy → String
  | absent => "absent"
  | identity => "identity"
  | other _ => "unknown"

end MissPolicy

structure NameTable where
  name : String
  miss : MissPolicy
  entries : List (String × String) := []
  deriving DecidableEq, Repr, Inhabited

namespace NameTable

def get? (t : NameTable) (key : String) : Option String :=
  match t.entries.lookup key with
  | some v => some v
  | none => if t.miss = .identity then some key else none

def get (t : NameTable) (key : String) : String :=
  (t.get? key).getD ""

def insert (t : NameTable) (key value : String) : NameTable :=
  { t with entries := (key, value) :: t.entries.filter fun e => e.1 != key }

end NameTable

end Shaderwright
