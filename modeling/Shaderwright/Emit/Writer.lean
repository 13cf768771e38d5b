import Shaderwright.Emit.Fault

/-!
The state of a code writer and its elementary steps. A step always leaves a state behind: one
that fails leaves the text and the indentation it had reached.
-/

namespace Shaderwright

/-- A one-shot mark: the next block to be written is the body of the entry point. -/
structure EntryMark where
  armed : Bool := false
  /-- The name that is returned at the end of the body. -/
  accumulator : String := ""
  /-- The line that initializes the accumulator. -/
  init : String := ""
  deriving DecidableEq, Repr, Inhabited

namespace EntryMark

def arm (accumulator init : String) : EntryMark := ⟨true, accumulator, init⟩

def disarmed (m : EntryMark) : EntryMark := { m with armed := false }

end EntryMark

/-- The state of a writer; `own` is what the target language keeps track of by itself. -/
structure Writer (σ : Type) where
  out : String := ""
  depth : Nat := 0
  /-- The function being written, if any. -/
  function : Option String := none
  /-- What a bare return hands back; empty outside the entry point. -/
  accumulator : String := ""
  entry : EntryMark := {}
  own : σ

abbrev Emit (σ : Type) := ExceptT Fault (StateM (Writer σ))

namespace Emit

variable {σ : Type} {α : Type}

def exec (step : Emit σ α) (w : Writer σ) : Except Fault α × Writer σ :=
  StateT.run (ExceptT.run step) w

/-- Change the state behind a step, whether the step succeeds or not. -/
def andThen (step : Emit σ α) (f : Writer σ → Writer σ) : Emit σ α :=
  ExceptT.mk fun w => let (r, w) := step.exec w; (r, f w)

def write (text : String) : Emit σ Unit :=
  modify fun w => { w with out := w.out ++ text }

def indentation (depth : Nat) : String :=
  String.ofList (List.replicate (4 * depth) ' ')

def writeIndent : Emit σ Unit :=
  modify fun w => { w with out := w.out ++ indentation w.depth }

def writeLine (text : String) : Emit σ Unit := do
  writeIndent
  write (text ++ "\n")

def pushIndent : Emit σ Unit :=
  modify fun w => { w with depth := w.depth + 1 }

def popIndent : Emit σ Unit :=
  modify fun w => { w with depth := w.depth - 1 }

/-- Run a step on an empty output and put the old output back; the text comes with the result. -/
def capture (step : Emit σ α) : Emit σ (String × Except Fault α) :=
  ExceptT.mk fun w =>
    let (r, w') := step.exec { w with out := "" }
    (.ok (w'.out, r), { w' with out := w.out })

/-- The text that a step writes, without writing it. -/
def captured (step : Emit σ Unit) : Emit σ String := do
  let (text, r) ← capture step
  match r with
  | .ok () => pure text
  | .error e => throw e

def separated (separator : String) : List (Emit σ Unit) → Emit σ Unit
  | [] => pure ()
  | [step] => step
  | step :: rest => do
    step
    write separator
    separated separator rest

/-- A block: the step between braces, one level deeper. -/
def braces (step : Emit σ Unit) : Emit σ Unit := do
  write "\x7b\n"
  pushIndent
  step
  popIndent
  writeIndent
  write "\x7d"

end Emit

end Shaderwright
