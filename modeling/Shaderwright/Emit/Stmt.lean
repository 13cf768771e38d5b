import Shaderwright.Emit.Expr

/-!
Writing statements and function bodies. A statement is written as whole lines; a block starts
at the cursor and ends right behind its closing brace.
-/

namespace Shaderwright

/-- The part of a target language that concerns statements. -/
structure StmtDialect (σ : Type) extends ExprDialect σ where
  declare : VarDecl → Emit σ Unit
  /-- The statement that gives up a fragment. -/
  discard : String

namespace ExprDialect

variable {σ : Type}

def varDeclText (d : ExprDialect σ) (v : VarDecl) : Emit σ String := do
  let type ← d.typeName v.var.type
  let qualifier ← d.qualifier v.var.qualifier.text
  let name ← d.variableName v.var.name
  let head := (if qualifier = "" then "" else qualifier ++ " ") ++ type ++ " " ++ name ++
    v.var.extent
  if v.init.isAbsent then return head
  return head ++ " = " ++ (← d.exprText v.init)

def varDecl (d : ExprDialect σ) (v : VarDecl) : Emit σ Unit := do
  Emit.writeLine ((← d.varDeclText v) ++ ";")

def paramText (d : ExprDialect σ) (p : VarDecl) : Emit σ String := do
  let type ← d.typeName p.var.type
  let text := type ++ " " ++ (← d.variableName p.var.name) ++ p.var.extent
  if p.var.out then return (← d.qualifier "out") ++ " " ++ text
  return text

/-- The body of the entry point: the accumulator is initialized first and returned last, and
a bare return in between returns it too. -/
def entryBody (d : ExprDialect σ) (mark : EntryMark) (body : Emit σ Unit) : Emit σ Unit := do
  Emit.write "\x7b\n"
  Emit.pushIndent
  Emit.writeLine mark.init
  modify fun w => { w with accumulator := mark.accumulator }
  body.andThen fun w => { w with accumulator := "" }
  Emit.writeLine ("return " ++ (← d.variableName mark.accumulator) ++ ";")
  Emit.popIndent
  Emit.writeIndent
  Emit.write "\x7d"

/-- A block: the body of the entry point if the mark is set, an ordinary one otherwise. -/
def compound (d : ExprDialect σ) (body : Emit σ Unit) : Emit σ Unit := do
  let mark := (← get).entry
  modify fun w => { w with entry := w.entry.disarmed }
  if mark.armed then d.entryBody mark body else Emit.braces body

end ExprDialect

namespace StmtDialect

variable {σ : Type}

/-- The text between `for (` and the first semicolon. -/
def loopStart (d : StmtDialect σ) : Stmt → Emit σ Unit
  | .absent => pure ()
  | .decl v => do Emit.write (← d.varDeclText v)
  | .expr x => d.expr x
  | s => throw (.loopStart s.shape)

def optional (d : StmtDialect σ) (e : Expr) : Emit σ Unit :=
  if e.isAbsent then pure () else d.expr e

/-- A branch or the body of a loop: a block as it is, a single statement in braces of its own.
`contents` writes what stands in the block and `whole` the statement itself. -/
def branchOf (d : StmtDialect σ) (s : Stmt) (contents whole : Emit σ Unit) : Emit σ Unit :=
  match s with
  | .block _ => d.compound contents
  | _ => Emit.braces whole

mutual

def stmt (d : StmtDialect σ) : Stmt → Emit σ Unit
  | .absent => throw .noStatement
  | .block ss => do
    Emit.writeIndent
    d.compound (stmts d ss)
    Emit.write "\n"
  | .decl v => d.declare v
  | .expr x => do
    Emit.writeIndent
    d.expr x
    Emit.write ";\n"
  | .returns value => do
    Emit.writeIndent
    if value.isAbsent then
      let acc := (← get).accumulator
      if acc = "" then Emit.write "return;\n"
      else Emit.write ("return " ++ (← d.variableName acc) ++ ";\n")
    else
      Emit.write "return "
      d.expr value
      Emit.write ";\n"
  | .ifElse cond yes no => do
    Emit.writeIndent
    Emit.write "if ("
    d.expr cond
    Emit.write ") "
    d.branchOf yes (contents d yes) (stmt d yes)
    unless no.isAbsent do
      Emit.write " else "
      d.branchOf no (contents d no) (stmt d no)
    Emit.write "\n"
  | .loop init cond post body => do
    Emit.writeIndent
    Emit.write "for ("
    d.loopStart init
    Emit.write "; "
    d.optional cond
    Emit.write "; "
    d.optional post
    Emit.write ") "
    d.branchOf body (contents d body) (stmt d body)
    Emit.write "\n"
  | .discard => Emit.writeLine d.discard
  | .breakLoop => Emit.writeLine "break;"
  | .continueLoop => Emit.writeLine "continue;"

def contents (d : StmtDialect σ) : Stmt → Emit σ Unit
  | .block ss => stmts d ss
  | _ => pure ()

def stmts (d : StmtDialect σ) : List Stmt → Emit σ Unit
  | [] => pure ()
  | s :: rest => do
    stmt d s
    stmts d rest

end

def branch (d : StmtDialect σ) (s : Stmt) : Emit σ Unit :=
  d.branchOf s (d.contents s) (d.stmt s)

/-- A function under a signature that is already in the target language. -/
def funcWithSignature (d : StmtDialect σ) (signature : String) (f : FuncDef) : Emit σ Unit := do
  Emit.writeIndent
  Emit.write (signature ++ " ")
  d.compound (d.stmts f.body)
  Emit.write "\n\n"

end StmtDialect

end Shaderwright
